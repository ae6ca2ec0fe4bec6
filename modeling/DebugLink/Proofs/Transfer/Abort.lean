import DebugLink.Arch.Plain
import DebugLink.Proofs.Bench
import DebugLink.Proofs.Transfer.Signals

/-!
# An algorithm that gives up is heard

`site` is a target with an algorithm that may give up: while it runs, it puts a zero in its
pointer word, at a moment of its own choice, and leaves it there.  Apart from that, anything may
happen to the target's memory between two accesses, and any call may be refused.

The zero may come before the first look at the pointer, while the host backs off, after the last
piece, or during the wait.  Each time another check finds it, and all that is needed is that no
store of the host ever hides it (`Site.Kept`): THE ZERO IS STILL THERE WHEN THE HOST LOOKS FOR
THE LAST TIME, and then the algorithm runs no more.

`transfer_abort` puts this together with what the host stores itself.
-/

namespace DebugLink

open Environment Transcript Dialogue

variable {A : Arch}

/-- A target, and what its algorithm is doing. -/
structure Site where
  memory : Contents
  /-- The algorithm was let go, and has not halted. -/
  live : Bool := false
  /-- It has put a zero in its pointer word, for good. -/
  gaveUp : Bool := false

namespace Site

/-- What happens between two operations.  A running algorithm may halt, or give up; its zero
    stays. -/
structure Moves (order : Endian) (place : Nat) (w w' : Site) : Prop where
  live : w'.live = true → w.live = true
  stays : w.gaveUp = true →
    w'.gaveUp = true ∧ w'.memory.word order place = w.memory.word order place
  zero : w.gaveUp = false → w'.gaveUp = true →
    w.live = true ∧ w'.memory.word order place = 0

/-- What is answered.  A write that is refused may leave anything where it should have gone. -/
def answers (order : Endian) (w : Site) : (op : Op A) → op.Answer → Site → Prop
  | .call (.read a n), .ok bytes, w' => bytes.val = w.memory.slice a.toNat n ∧ w' = w
  | .call (.write a bs), .ok _, w' => w' = { w with memory := w.memory.store a.toNat bs }
  | .call (.write a bs), .error _, w' => ∃ memory : Contents, w' = { w with memory := memory } ∧
      ∀ x, x < a.toNat ∨ a.toNat + bs.length ≤ x → memory x = w.memory x
  | .call (.resume ..), .ok _, w' => w' = { w with live := true }
  | .call .poll, .ok .halted, w' => w.live = false ∧ w' = w
  | .feature .endian, told, w' => told = order ∧ w' = w
  | _, _, w' => w' = w

end Site

/-- A target whose algorithm may give up; its pointer word is at `place`. -/
def site (A : Arch) (order : Endian) (place : Nat) : Environment A Site where
  moves := Site.Moves order place
  answers := Site.answers order

namespace Site

variable {order : Endian} {place : Nat} {w w' : Site} {log : Transcript A}

/-- The algorithm does not run, and has not given up. -/
def Calm (w : Site) : Prop :=
  w.live = false ∧ w.gaveUp = false

/-- The zero of an algorithm that gave up is there. -/
def Kept (order : Endian) (place : Nat) (w : Site) : Prop :=
  w.gaveUp = true → w.memory.word order place = 0

/-- Neither what runs nor what gave up changes by an operation that does not let the core go. -/
theorem answers_restful {op : Op A} {a : op.Answer} (hop : op.Restful)
    (h : answers order w op a w') : w'.live = w.live ∧ w'.gaveUp = w.gaveUp := by
  unfold answers at h
  split at h
  · obtain ⟨-, rfl⟩ := h
    exact ⟨rfl, rfl⟩
  · subst h
    exact ⟨rfl, rfl⟩
  · obtain ⟨memory, rfl, -⟩ := h
    exact ⟨rfl, rfl⟩
  · exact False.elim hop
  · obtain ⟨-, rfl⟩ := h
    exact ⟨rfl, rfl⟩
  · obtain ⟨-, rfl⟩ := h
    exact ⟨rfl, rfl⟩
  · subst h
    exact ⟨rfl, rfl⟩

/-- A store elsewhere does not reach the word. -/
theorem away {a : A.Addr} {bs : List UInt8} (hop : ¬ Op.Stores place (.call (.write a bs) : Op A))
    {i : Nat} (hi : i < 4) : place + i < a.toNat ∨ a.toNat + bs.length ≤ place + i := by
  by_cases hlow : a.toNat < place + 4
  · have hhigh : a.toNat + bs.length ≤ place := Nat.le_of_not_lt fun hhigh => hop ⟨hlow, hhigh⟩
    omega
  · omega

/-- A word that a store does not touch. -/
theorem answers_word {op : Op A} {a : op.Answer} (hop : ¬ op.Stores place)
    (h : answers order w op a w') :
    w'.memory.word order place = w.memory.word order place := by
  unfold answers at h
  split at h
  · obtain ⟨-, rfl⟩ := h
    rfl
  · subst h
    exact Contents.word_congr order fun i hi => Contents.store_outside (away hop hi)
  · obtain ⟨memory, rfl, hout⟩ := h
    exact Contents.word_congr order fun i hi => hout _ (away hop hi)
  · subst h
    rfl
  · obtain ⟨-, rfl⟩ := h
    rfl
  · obtain ⟨-, rfl⟩ := h
    rfl
  · subst h
    rfl

/-- Nothing begins before the core is let go. -/
theorem calm_plays (h : (site A order place).Plays w log w')
    (hlog : ∀ event ∈ log, event.op.Restful) (hw : w.Calm) : w'.Calm := by
  refine h.keeps (K := fun event => event.op.Restful) ?_ ?_ hlog hw
  · rintro w w' hm ⟨hlive, hgave⟩
    constructor
    · rw [← Bool.not_eq_true] at hlive ⊢
      exact fun hl => hlive (hm.live hl)
    · rw [← Bool.not_eq_true]
      intro hg
      exact absurd (hm.zero hgave hg).1 (by rw [hlive]; exact Bool.false_ne_true)
  · rintro w w' event hop ha ⟨hlive, hgave⟩
    obtain ⟨hl, hg⟩ := answers_restful hop ha
    exact ⟨hl.trans hlive, hg.trans hgave⟩

/-- The zero stays as long as the host does not store over it. -/
theorem kept_plays (h : (site A order place).Plays w log w')
    (hlog : ∀ event ∈ log, event.op.Restful ∧ ¬ event.op.Stores place)
    (hw : w.Kept order place) : w'.Kept order place := by
  refine h.keeps (K := fun event => event.op.Restful ∧ ¬ event.op.Stores place) ?_ ?_ hlog hw
  · intro w w' hm hw hg
    cases hgave : w.gaveUp with
    | true => exact (hm.stays hgave).2.trans (hw hgave)
    | false => exact (hm.zero hgave hg).2
  · rintro w w' event ⟨hrest, hop⟩ ha hw hg
    rw [answers_word hop ha]
    exact hw ((answers_restful hrest ha).2 ▸ hg)

/-- A core that halted does not run again unless it is let go. -/
theorem halted_plays (h : (site A order place).Plays w log w')
    (hlog : ∀ event ∈ log, event.op.Restful) (hw : w.live = false) : w'.live = false := by
  refine h.keeps (K := fun event => event.op.Restful) (P := fun w => w.live = false) ?_ ?_ hlog hw
  · intro w w' hm hlive
    rw [← Bool.not_eq_true] at hlive ⊢
    exact fun hl => hlive (hm.live hl)
  · intro w w' event hop ha hlive
    exact (answers_restful hop ha).1.trans hlive

/-- A last look that finds no zero, at a core that was seen halted: the algorithm did not give
    up, and will not. -/
theorem calm_of_lastLook {w₀ : Site} {before moving l tail : Transcript A} {a : A.Addr}
    {bytes : Bytes 4} {told : Endian} (hresumed : before.Resumed) (hseen : Runner.Seen l)
    (hplace : a.toNat = place) (hv : told.value bytes.val ≠ 0)
    (hops : ∀ event ∈ moving ++ (l ++ ⟨.call (.read a 4), .ok bytes⟩ ::
      ⟨.feature .endian, told⟩ :: tail), event.op.Restful ∧ ¬ event.op.Stores place)
    (h : (site A order place).Plays w₀ (before ++ (moving ++ (l ++ ⟨.call (.read a 4), .ok bytes⟩ ::
      ⟨.feature .endian, told⟩ :: tail))) w) (hw₀ : w₀.Calm) : w.Calm := by
  obtain ⟨pre, address, flags, rfl, hpre⟩ := hresumed
  obtain ⟨l₁, l₂, rfl⟩ := List.append_of_mem hseen
  -- until the resume nothing can have begun
  rw [List.append_assoc] at h
  obtain ⟨w₁, w₂, hplays, ha, h⟩ := h.at
  have hcalm := calm_plays hplays hpre hw₀
  have hkept : w₂.Kept order place := by
    intro hg
    rw [show w₂ = { w₁ with live := true } from ha] at hg
    exact absurd hg (by rw [hcalm.2]; exact Bool.false_ne_true)
  -- the poll finds the core halted
  have hops₁ : ∀ event ∈ moving ++ l₁, event.op.Restful ∧ ¬ event.op.Stores place :=
    fun event hm => hops event (by
      rcases List.mem_append.mp hm with hm | hm <;> simp [hm])
  rw [List.append_assoc l₁, ← List.append_assoc moving, List.cons_append] at h
  obtain ⟨w₃, w₄, hplays, ⟨hlive, rfl⟩, h⟩ := h.at
  replace hkept := kept_plays hplays hops₁ hkept
  -- and the look finds no zero
  have hops₂ : ∀ event ∈ l₂, event.op.Restful ∧ ¬ event.op.Stores place :=
    fun event hm => hops event (by simp [hm])
  obtain ⟨w₅, w₆, hplays, ⟨hbytes, rfl⟩, h⟩ := h.at
  replace hkept := kept_plays hplays hops₂ hkept
  replace hlive := halted_plays hplays (fun event hm => (hops₂ event hm).1) hlive
  have htold : told = order := by
    obtain ⟨_, _, _, ⟨htold, -⟩, -⟩ := h.first
    exact htold
  have hcalm₆ : w₆.Calm := by
    refine ⟨hlive, ?_⟩
    rw [← Bool.not_eq_true]
    intro hg
    refine hv ?_
    rw [hbytes, htold, hplace]
    exact hkept hg
  refine calm_plays h (fun event hm => (hops event ?_).1) hcalm₆
  exact List.mem_append_right _ (List.mem_append_right _ (List.mem_cons_of_mem _ hm))

end Site

namespace Engine

variable {e : Engine} {flow : Flow} {h h₁ h' : Held A} {patience : Nat} {data : List UInt8}

/-- What the loop and the end of a transfer store. -/
theorem signals_of_paths {moved : Except Error Unit} {moving after : Transcript A} {p : Progress}
    {outcome : Outcome} (hreach : ∀ flow, (A.addr? (e.ring.own flow)).isSome = true)
    (hmoving : ((e.carry flow data).run.run {}).Path moving (moved, p))
    (hafter : ((e.conclude flow patience (e.ring.own flow) (e.ring.partner flow) moved
      p.stats).run h₁).Path after (outcome, h')) :
    Signals e.ring flow moved moving after ∧ Contained.Ends e.ring flow data (moved, p) moving ∧
      Judged e.ring flow moved p.stats after outcome := by
  have hends : Contained.Ends e.ring flow data (moved, p) moving :=
    wp_path (fun _ _ h => h.midway) (Contained.wp_carry e flow data) hmoving
  obtain ⟨htold, hjudged⟩ := wp_path (fun _ _ _ => trivial)
    (wp_conclude_told hreach patience moved p.stats) hafter
  obtain ⟨bytes, hcontained, -⟩ := id hends
  -- each operation of the loop was allowed where it came
  have hallowed : ∀ event ∈ moving, ∃ before, Allowed e.ring flow data before event.op := by
    intro event hm
    obtain ⟨before, rest, heq⟩ := List.append_of_mem hm
    exact ⟨before, hcontained.allowed before event rest heq⟩
  refine ⟨⟨?_, ?_, ?_, ?_, htold⟩, hends, hjudged⟩
  · intro event hm
    rcases List.mem_append.mp hm with hm | hm
    · obtain ⟨before, ha⟩ := hallowed event hm
      exact ha.not_stores_partner
    · exact htold.not_stores_partner event hm
  · intro event hm
    obtain ⟨before, ha⟩ := hallowed event hm
    exact ha.steady
  · intro event hm hs
    obtain ⟨before, ha⟩ := hallowed event hm
    exact ha.publishes hs
  · intro event hm
    obtain ⟨before, ha⟩ := hallowed event hm
    exact ha.not_zeroes

/-- NO SIGNAL IS LOST, in either direction.  Once the algorithm was let go, the host writes its
    own pointer word only: pointers from the loop, and a zero if and only if the loop failed.
    An algorithm that gives up while it runs is never taken for one that succeeded; and if
    nothing else goes wrong, that is what is reported, with the bytes that were moved. -/
theorem transfer_abort (e : Engine) (flow : Flow) (patience : Nat) (data : List UInt8)
    {h h₁ h' : Held A} {before rest : Transcript A} {outcome : Outcome}
    (begun : ((e.begin flow).run.run h).Path before (.ok (), h₁))
    (run : ((e.transfer patience flow data).run h).Path (before ++ rest) (outcome, h')) :
    before.Resumed ∧ ∃ moving after moved p, rest = moving ++ after ∧
      ((e.carry flow data).run.run {}).Path moving (moved, p) ∧
      Signals e.ring flow moved moving after ∧
      ∀ (order : Endian) (w₀ w : Site), w₀.Calm → w.gaveUp = true →
        (site A order (e.ring.partner flow)).Plays w₀ (before ++ rest) w →
        (∀ stats, outcome ≠ .finished stats) ∧
        (e.ring.Representable A → ¬ moving.Excused e.ring flow order → after.Smooth →
          (∀ event ∈ after, event.op ≠ .note (.waitFailed flow)) → outcome ≠ .undecided →
          outcome = .failed
            { offset := (moving.moved e.ring flow).length, error := .operationFailed }) := by
  obtain ⟨hresumed, hreach⟩ := begin_resumed begun
  obtain ⟨moving, after, moved, p, rfl, hmoving, hafter⟩ := transfer_path begun run
  obtain ⟨hsignals, hends, hjudged⟩ := signals_of_paths hreach hmoving hafter
  refine ⟨hresumed, moving, after, moved, p, rfl, hmoving, hsignals, ?_⟩
  intro order w₀ w hw₀ hgave hplays
  -- a success rests on a word that is not zero, seen after the core was halted
  have hnot : ∀ stats, outcome ≠ .finished stats := by
    rintro stats rfl
    obtain ⟨hmoved, l, a, bytes, told, tail, rfl, hseen, hplace, hv⟩ := hjudged
    have hops : ∀ event ∈ moving ++ (l ++ ⟨.call (.read a 4), .ok bytes⟩ ::
        ⟨.feature .endian, told⟩ :: tail),
        event.op.Restful ∧ ¬ event.op.Stores (e.ring.partner flow) := by
      intro event hm
      refine ⟨?_, hsignals.partner event hm⟩
      rcases List.mem_append.mp hm with hm | hm
      · exact (hsignals.unpolled event hm).restful
      · have htold := hsignals.told
        rw [hmoved] at htold
        exact (htold event hm).restful
    have hcalm := Site.calm_of_lastLook hresumed hseen hplace hv hops hplays hw₀
    exact absurd hgave (by rw [hcalm.2]; exact Bool.false_ne_true)
  refine ⟨hnot, ?_⟩
  intro hrep hexcuse hsmooth hwaited hdecided
  -- the loop had no excuse, and the ring was within reach
  have hblame : ¬ moving.Blamed e.ring flow := by
    rintro (he | hr)
    · exact hexcuse (he order)
    · exact hr hrep
  obtain ⟨bytes, hcontained, hcounted, -, hreason⟩ := hends
  cases outcome with
  | finished stats => exact absurd rfl (hnot stats)
  | undecided => exact absurd rfl hdecided
  | failed err =>
      obtain ⟨offset, error, waitError⟩ := err
      obtain ⟨hoffset, ⟨event, hm, hnote⟩ | ⟨hwait, hcause⟩⟩ := hjudged
      · exact absurd hnote (hwaited event hm)
      · -- without an excuse there is one reason for the loop to fail, and the same one behind it
        have herror : error = .operationFailed := by
          rcases hcause with hmoved | ⟨-, herror | ⟨event, hm, hrefused⟩⟩
          · rcases hreason error hmoved with herror | hb
            · exact herror
            · exact absurd hb hblame
          · exact herror
          · exact absurd hrefused (hsmooth event hm)
        have hcount : offset = (moving.moved e.ring flow).length :=
          (hoffset.trans hcounted.count).trans hcontained.length.symm
        simp only at hwait
        rw [hcount, herror, hwait]

/-! ## A run on which the algorithm gives up after the last piece -/

namespace GivesUp

/-- A plain core that nothing runs on. -/
def idle : Held (plainCore 32) where
  runner := { image := { entry := 0x2000, exit := 0, info := () }, regs := [] }
  busy := false

/-- What is asked and answered up to the resume. -/
def start : Transcript (plainCore 32) :=
  [⟨.call .poll, .ok .halted⟩,
    ⟨.feature .endian, Endian.little⟩, ⟨.note (.word 0x1000 0x1008), ()⟩,
    ⟨.call (.write 0x1000#32 (Endian.little.encode 4 0x1008)), .ok ()⟩,
    ⟨.feature .endian, Endian.little⟩, ⟨.note (.word 0x1004 0x1008), ()⟩,
    ⟨.call (.write 0x1004#32 (Endian.little.encode 4 0x1008)), .ok ()⟩,
    ⟨.call .poll, .ok .halted⟩, ⟨.call (.readReg .pc), .ok 0x40#32⟩,
    ⟨.note (.starting 0x2000 0), ()⟩, ⟨.call (.resume (some 0x2000#32) .all), .ok ()⟩]

/-- The loop: one piece of one byte. -/
def loop : Transcript (plainCore 32) :=
  [⟨.call (.read 0x1004#32 4), .ok ⟨[0x08, 0x10, 0, 0], rfl⟩⟩,
    ⟨.feature .endian, Endian.little⟩, ⟨.note (.word 0x1004 0x1008), ()⟩,
    ⟨.note (.progress 0 1 0x1008 0x1008), ()⟩, ⟨.note (.writingBuffer 1 0x1008), ()⟩,
    ⟨.call (.write 0x1008#32 [1]), .ok ()⟩,
    ⟨.feature .endian, Endian.little⟩, ⟨.note (.word 0x1000 0x1009), ()⟩,
    ⟨.call (.write 0x1000#32 (Endian.little.encode 4 0x1009)), .ok ()⟩,
    ⟨.host .keepAlive, ()⟩, ⟨.host .shutdownPending, false⟩]

/-- The wait, and the last look. -/
def wait : Transcript (plainCore 32) :=
  [⟨.host .now, (0 : UInt64)⟩, ⟨.call .poll, .ok .halted⟩,
    ⟨.call (.readReg .pc), .ok 0x40#32⟩, ⟨.call (.writeReg .pc 0x40#32), .ok ()⟩,
    ⟨.call (.read 0x1004#32 4), .ok ⟨[0, 0, 0, 0], rfl⟩⟩,
    ⟨.feature .endian, Endian.little⟩, ⟨.note (.word 0x1004 0), ()⟩,
    ⟨.note (.abortedByTarget .write), ()⟩]

/-- The same core later on. -/
def started (state : RunState) (busy : Bool) (saved : List (PlainReg × BitVec 32)) :
    Held (plainCore 32) where
  runner := { idle.runner with saved := saved, state := state }
  busy := busy

theorem begun : ((Engine.begin ⟨.twoWords, {}⟩ .write).run.run idle).Path start
    (.ok (), started .started true [(.pc, 0x40#32)]) :=
  .ask _ (.ask _ (.ask _ (.ask _ (.ask _ (.ask _ (.ask _ (.ask _ (.ask _ (.ask _
    (.ask _ (.done _)))))))))))

theorem looped : ((Engine.feedAll (A := plainCore 32) ⟨.twoWords, {}⟩ [1]).run.run {}).Path loop
    (.ok (), { stats := { bytes := 1, chunks := 1 } }) := by
  show (((⟨.twoWords, {}⟩ : Engine).feed (A := plainCore 32) 0x1000#32 0x1004#32 0x1008 [1]
    0).run.run {}).Path _ _
  rw [feed]
  refine .ask _ (.ask _ (.ask _ (.ask _ (.ask _ (.ask _ (.ask _ (.ask _ (.ask _ (.ask _
    (.ask _ ?_))))))))))
  show (((⟨.twoWords, {}⟩ : Engine).feed (A := plainCore 32) 0x1000#32 0x1004#32 0x1009 []
    0).run.run _).Path _ _
  rw [feed]
  exact .done _

theorem ran : ((Engine.transfer ⟨.twoWords, {}⟩ 1 .write [1]).run idle).Path
    (start ++ (loop ++ wait))
    (.failed { offset := 1, error := .operationFailed }, started .completed false []) := by
  refine path_bind.mpr ⟨start, loop ++ wait, _, rfl, begun, ?_⟩
  refine path_bind.mpr ⟨loop, wait, ((.ok (), { stats := { bytes := 1, chunks := 1 } }), _), rfl,
    path_bind.mpr ⟨loop, [], _, rfl, looped, .done _⟩, ?_⟩
  exact .ask _ (.ask _ (.ask _ (.ask _ (.ask _ (.ask _ (.ask _ (.ask _ (.done _))))))))

/-- Memory with nothing in it. -/
def zeros : Site where
  memory := fun _ => 0

/-- The algorithm was let go. -/
def running : Site where
  memory := (zeros.memory.store 0x1000 (Endian.little.encode 4 0x1008)).store 0x1004
    (Endian.little.encode 4 0x1008)
  live := true

/-- The piece was handed over. -/
def handed : Site :=
  { running with
    memory := (running.memory.store 0x1008 [1]).store 0x1000 (Endian.little.encode 4 0x1009) }

/-- The algorithm has given up, and halted. -/
def gone : Site where
  memory := handed.memory.store 0x1004 [0, 0, 0, 0]
  gaveUp := true

theorem handed_moves : (site (plainCore 32) .little 0x1004).moves handed gone where
  live := fun _ => rfl
  stays := nofun
  zero := fun _ _ => ⟨rfl, rfl⟩

theorem played :
    (site (plainCore 32) .little 0x1004).Plays zeros (start ++ (loop ++ wait)) gone := by
  refine plays_append.mpr ⟨running, ?_, plays_append.mpr ⟨handed, ?_, .move handed_moves ?_⟩⟩
  · exact .event _ ⟨rfl, rfl⟩ (.event _ ⟨rfl, rfl⟩ (.event _ rfl (.event _ rfl
      (.event _ ⟨rfl, rfl⟩ (.event _ rfl (.event _ rfl (.event _ ⟨rfl, rfl⟩ (.event _ rfl
      (.event _ rfl (.event _ rfl (.nil _)))))))))))
  · exact .event _ ⟨by decide, rfl⟩ (.event _ ⟨rfl, rfl⟩ (.event _ rfl (.event _ rfl (.event _ rfl
      (.event _ rfl (.event _ ⟨rfl, rfl⟩ (.event _ rfl (.event _ rfl (.event _ rfl
      (.event _ rfl (.nil _)))))))))))
  · exact .event _ rfl (.event _ ⟨rfl, rfl⟩ (.event _ rfl (.event _ rfl (.event _ ⟨by decide, rfl⟩
      (.event _ ⟨rfl, rfl⟩ (.event _ rfl (.event _ rfl (.nil _))))))))

end GivesUp

/-- It has taken the only byte and signals a failure after that, which is what is reported. -/
theorem transfer_abort_afterLast :
    ((Engine.begin ⟨.twoWords, {}⟩ .write).run.run GivesUp.idle).Path GivesUp.start
      (.ok (), GivesUp.started .started true [(.pc, 0x40#32)]) ∧
    ∃ (moving after : Transcript (plainCore 32)) (moved : Except Error Unit),
      GivesUp.loop ++ GivesUp.wait = moving ++ after ∧ Signals .twoWords .write moved moving after ∧
      (moving.moved .twoWords .write).length = 1 := by
  obtain ⟨-, moving, after, moved, p, hrest, -, hsignals, hheard⟩ :=
    transfer_abort ⟨.twoWords, {}⟩ .write 1 [1] GivesUp.begun GivesUp.ran
  refine ⟨GivesUp.begun, moving, after, moved, hrest, hsignals, ?_⟩
  have hall : ∀ event ∈ GivesUp.loop ++ GivesUp.wait,
      ¬ event.Excuse .twoWords .write .little ∧ ¬ event.Refused ∧
        event.op ≠ .note (.waitFailed .write) := by
    have hvalid : Ring.isValidPtr .twoWords (Endian.little.value [0x08, 0x10, 0, 0]) = true := rfl
    have hzero : Endian.little.value [0, 0, 0, 0] = 0 := rfl
    simp [GivesUp.loop, GivesUp.wait, Event.Excuse, Event.Refused, hvalid, hzero]
  have hmoving : ∀ event ∈ moving, event ∈ GivesUp.loop ++ GivesUp.wait :=
    fun event hm => hrest ▸ List.mem_append_left _ hm
  have hafter : ∀ event ∈ after, event ∈ GivesUp.loop ++ GivesUp.wait :=
    fun event hm => hrest ▸ List.mem_append_right _ hm
  have hrep : Ring.Representable .twoWords (plainCore 32) := by
    intro x _ hx
    have hend : Ring.fifoEnd .twoWords = 0x1010 := rfl
    have hle : x ≤ (BitVec.allOnes 32).toNat := by
      rw [BitVec.toNat_allOnes]
      omega
    exact congrArg Option.isSome (if_pos hle)
  have hreport := (hheard .little GivesUp.zeros GivesUp.gone ⟨rfl, rfl⟩ rfl GivesUp.played).2 hrep
    (fun ⟨event, hm, hx⟩ => (hall event (hmoving event hm)).1 hx)
    (fun event hm => (hall event (hafter event hm)).2.1)
    (fun event hm => (hall event (hafter event hm)).2.2) nofun
  injection hreport with hreport
  exact (congrArg TransferError.offset hreport).symm

end Engine

end DebugLink
