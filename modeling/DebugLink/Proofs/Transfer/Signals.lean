import DebugLink.Proofs.Endian
import DebugLink.Proofs.Runner.Guard
import DebugLink.Proofs.Transfer.Containment

/-!
# What a transfer writes once its algorithm runs

A transfer that got its algorithm going consists of three parts, and so does its transcript
(`transfer_path`): the start, which ends with the resume; the loop; and the wait, with the last
look at the partner's pointer.

* `Signals` says which pointer words are written after the resume.  The partner's is NEVER
  written.  The host's gets pointers from the loop, and a zero IF AND ONLY IF the loop failed,
  once, before the core is looked at, and nothing after it.
* `Judged` says what the outcome rests on: a success means that the core was seen halted and
  that the partner's word was not zero after that.
-/

namespace DebugLink

open Environment Transcript Dialogue

variable {A : Arch}

/-- A store that touches the word at `place`. -/
def Op.Stores (place : Nat) : Op A → Prop
  | .call (.write a bs) => a.toNat < place + 4 ∧ place < a.toNat + bs.length
  | _ => False

/-- A store of a zero in the word at `place`. -/
def Op.Zeroes (place : Nat) : Op A → Prop
  | .call (.write a bs) => a.toNat = place ∧ bs = [0, 0, 0, 0]
  | _ => False

/-- Not a call. -/
def Op.Unseen : Op A → Prop
  | .call _ => False
  | _ => True

/-- What spares the memory stores nothing in a pointer word, ... -/
theorem Op.Sparing.not_stores {op : Op A} (h : op.Sparing) (place : Nat) : ¬ op.Stores place := by
  unfold Op.Stores
  split
  · exact h.elim
  · exact id

/-- ... and neither does what is not a call. -/
theorem Op.Unseen.sparing {op : Op A} (h : op.Unseen) : op.Sparing := by
  cases op with
  | call c => exact h.elim
  | _ => trivial

namespace Transcript

/-- The transcript ends with a resume, which was accepted and is the first. -/
def Resumed (log : Transcript A) : Prop :=
  ∃ (before : Transcript A) (address : Option A.Addr) (flags : ResumeFlags),
    log = before ++ [⟨.call (.resume address flags), .ok ()⟩] ∧ before.Rests

/-- Since `base`, nothing was done that is not in `K`. -/
def Since (K : Op A → Prop) (base log : Transcript A) : Prop :=
  ∃ tail, log = base ++ tail ∧ ∀ event ∈ tail, K event.op

theorem since_refl (K : Op A → Prop) (base : Transcript A) : Since K base base :=
  ⟨[], (List.append_nil base).symm, fun _ hm => absurd hm List.not_mem_nil⟩

/-- Once more of what is in `K` is done, it is still all that was done since. -/
theorem kept_since (K : Op A → Prop) (base : Transcript A) :
    Kept K (fun _ => True) (Since K base) where
  event := by
    rintro log op a hop ⟨tail, rfl, htail⟩
    refine ⟨tail ++ [⟨op, a⟩], by rw [List.append_assoc], fun event hm => ?_⟩
    rcases List.mem_append.mp hm with hm | hm
    · exact htail event hm
    · rw [List.mem_singleton.mp hm]
      exact hop
  holds := fun _ => trivial

/-- The core rests for as long as nobody lets it go. -/
theorem kept_rests_only : Kept Op.Restful (fun _ => True) (Rests : Transcript A → Prop) where
  event := fun a hop h => h.append hop a
  holds := fun _ => trivial

end Transcript

/-- Something that stays true along with a stretch of operations. -/
theorem Kept.along {K : Op A → Prop} {P R : Transcript A → Prop} (h : Kept K (fun _ => True) P)
    (hR : ∀ {log : Transcript A} (event : Event A), R log → R (log ++ [event])) :
    Kept K (fun _ => True) (fun log => P log ∧ R log) where
  event := fun a hop hlog => ⟨h.event a hop hlog.1, hR _ hlog.2⟩
  holds := fun _ => trivial

/-! ## The start -/

namespace Runner

variable {h : Held A} {log : Transcript A}

/-- A launch that succeeds ends with the resume, ... -/
theorem wp_launch_resumed (hlog : log.Rests) :
    (recorder A).wp (fun _ => True) ((launch (A := A)).run.run h)
      (fun r log => r.1 = .ok () → log.Resumed) log := by
  refine wp_seq (wp_mono (wp_confined kept_rests_only.steady load_steady hlog h) ?_)
  rintro ⟨e | _, h'⟩ log ⟨hlog, -⟩
  · exact nofun
  · refine wp_get (wp_kept kept_rests_only trivial hlog fun _ hlog => wp_op trivial ?_)
    rintro (e | _)
    · exact nofun
    · exact fun _ => ⟨_, _, _, rfl, hlog⟩

/-- ... and so does a start. -/
theorem wp_start_resumed (hlog : log.Rests) :
    (recorder A).wp (fun _ => True) ((start (A := A)).run.run h)
      (fun r log => r.1 = .ok () → log.Resumed) log := by
  refine wp_get ?_
  cases hbusy : h.busy with
  | true => exact wp_op trivial fun _ => nofun
  | false =>
      cases hstate : h.runner.state.isActive with
      | true => exact nofun
      | false =>
          refine wp_seq (wp_lift (wp_mono (wp_requireHalted kept_rests_only hlog) ?_))
          rintro (e | _) log ⟨hlog, -⟩
          · exact nofun
          · refine wp_seq (wp_outcome (wp_mono (wp_launch_resumed hlog) ?_))
            rintro ⟨e | _, h'⟩ log hl
            · -- what follows a failed launch makes no success of it
              refine wp_seq (wp_outcome (wp_mono (wp_of_within (disarm_steady h') log) ?_))
              rintro ⟨_, h₁⟩ log _
              refine wp_seq (wp_outcome (wp_mono (wp_of_within (restoreContext_steady h₁) log) ?_))
              exact fun _ _ _ => nofun
            · exact fun _ => hl rfl

end Runner

namespace Engine

variable {e : Engine} {flow : Flow} {h h₁ h' : Held A} {log : Transcript A}

/-- A pointer word can only be written where the core has an address for it. -/
theorem putPointer_reach (place value : Nat) :
    (putPointer place value : Link A Unit).run.Within Op.Restful
      fun r => r = .ok () → (A.addr? place).isSome = true := by
  rw [putPointer, address]
  cases A.addr? place with
  | none =>
      intro hok
      cases hok
  | some a =>
      have hput := (writeWord_steady .full a value).weaken fun _ => Op.Steady.restful
      exact hput.mono fun _ _ _ => rfl

/-- A start that succeeds ends with the resume, and has found both pointer words. -/
theorem begin_resumed (begun : ((e.begin flow).run.run h).Path log (.ok (), h₁)) :
    log.Resumed ∧ ∀ flow, (A.addr? (e.ring.own flow)).isSome = true := by
  have hwp : (recorder A).wp (fun _ => True) ((e.begin flow).run.run h) (fun r log =>
      r.1 = .ok () → log.Resumed ∧ ∀ flow, (A.addr? (e.ring.own flow)).isSome = true) [] := by
    refine wp_get ?_
    cases hbusy : h.busy with
    | true => exact wp_op trivial fun _ => nofun
    | false =>
        refine wp_seq (wp_lift (wp_mono (Runner.wp_requireHalted kept_rests_only nofun) ?_))
        rintro (err | _) log ⟨hlog, -⟩
        · exact nofun
        · refine wp_seq (wp_lift (wp_mono
            (wp_within kept_rests_only (putPointer_reach _ _) hlog) ?_))
          rintro (err | _) log ⟨hlog, hwp⟩
          · exact nofun
          · refine wp_seq (wp_lift (wp_mono
              (wp_within kept_rests_only (putPointer_reach _ _) hlog) ?_))
            rintro (err | _) log ⟨hlog, hrp⟩
            · exact nofun
            · refine wp_seq (wp_outcome (wp_mono (Runner.wp_start_resumed hlog) ?_))
              rintro ⟨err | _, h'⟩ log hl
              · exact wp_op trivial fun _ => nofun
              · refine fun _ => ⟨hl rfl, fun flow => ?_⟩
                cases flow with
                | write => exact hwp rfl
                | read => exact hrp rfl
  exact wp_path (fun _ _ _ => trivial) hwp begun rfl

end Engine

/-! ## The end -/

namespace Runner

variable {P : Transcript A → Prop} {h : Held A} {log : Transcript A}

/-- The core was seen halted. -/
def Seen (log : Transcript A) : Prop :=
  (⟨.call .poll, .ok .halted⟩ : Event A) ∈ log

theorem Seen.append {log : Transcript A} (event : Event A) (h : Seen log) :
    Seen (log ++ [event]) :=
  List.mem_append_left _ h

/-- Watching the core spares the memory, and it tells that the core has halted only if it saw that.
    -/
theorem wp_watch_kept (hP : Kept Op.Sparing (fun _ => True) P) (deadline interval patience : Nat)
    (hlog : P log) :
    (recorder A).wp (fun _ => True) (watch deadline interval patience)
      (fun r log => P log ∧ (r = .halted → Seen log)) log := by
  -- on the polls that are still awaited
  induction patience generalizing log with
  | zero => exact ⟨hlog, nofun⟩
  | succ patience ih =>
      refine wp_kept hP trivial hlog ?_
      rintro (e | state) hlog
      · exact ⟨hlog, nofun⟩
      · cases state with
        -- the poll that was just recorded is the one
        | halted =>
            exact ⟨hlog, fun _ => List.mem_append_right _ (List.mem_singleton_self _)⟩
        | _ =>
            refine wp_kept hP trivial hlog fun now hlog => ?_
            show (recorder A).wp _ (if deadline ≤ UInt64.toNat now then _ else _) _ _
            split
            · exact ⟨hlog, nofun⟩
            · refine wp_kept hP trivial hlog fun _ hlog => wp_kept hP trivial hlog fun _ hlog => ?_
              refine wp_kept hP trivial hlog ?_
              rintro (_ | _) hlog
              · exact ih hlog
              · exact ⟨hlog, nofun⟩

/-- A wait that completes has seen the core halted. -/
theorem wp_wait (hP : Kept Op.Sparing (fun _ => True) P) (patience timeout : Nat)
    (hlog : P log) :
    (recorder A).wp (fun _ => True) ((wait (A := A) patience timeout).run.run h)
      (fun r log => P log ∧ (r.1 = .ok .completed → Seen log)) log := by
  show (recorder A).wp _ ((if (!h.runner.state.isActive) = true then _ else _ :
    RunM A Settled).run.run h) _ _
  split
  · exact ⟨hlog, nofun⟩
  · refine wp_kept hP trivial hlog fun now hlog => ?_
    refine wp_seq (wp_liftDialogue (wp_mono (wp_watch_kept hP _ _ _ hlog) ?_))
    rintro watched log ⟨hlog, hseen⟩
    cases watched with
    | expired => exact wp_kept hP trivial hlog fun _ hlog => ⟨hlog, nofun⟩
    | halted =>
        have hquiet := (finish_quiet h).kind.weaken fun _ => Op.Quiet.sparing
        refine wp_seq (wp_mono (wp_within (hP.along Seen.append) hquiet ⟨hlog, hseen rfl⟩) ?_)
        rintro ⟨e | _, h'⟩ log ⟨⟨hlog, hseen⟩, -⟩
        · exact ⟨hlog, nofun⟩
        · exact ⟨hlog, fun _ => hseen⟩
    | _ => exact ⟨hlog, nofun⟩

end Runner

namespace Engine

variable {e : Engine} {flow : Flow} {h h₁ h' : Held A} {log : Transcript A}

/-- What an outcome rests on, once the loop was over. -/
def Judged (r : Ring) (flow : Flow) (moved : Except Error Unit) (stats : Stats)
    (log : Transcript A) : Outcome → Prop
  | .finished _ => moved = .ok () ∧ ∃ before a bytes told tail,
      log = before ++ ⟨.call (.read a 4), .ok bytes⟩ :: ⟨.feature .endian, told⟩ :: tail ∧
      Runner.Seen before ∧ a.toNat = r.partner flow ∧ told.value bytes.val ≠ 0
  | .failed err => err.offset = stats.bytes ∧
      ((∃ event ∈ log, event.op = .note (.waitFailed flow)) ∨
        err.waitError = none ∧ (moved = .error err.error ∨
          moved = .ok () ∧ (err.error = .operationFailed ∨ ∃ event ∈ log, event.Refused)))
  | .undecided => True

/-- The last look at the partner's pointer: how it fails, or what it rests on. -/
theorem wp_lastWord {P : Transcript A → Prop} (hP : Kept Op.Sparing (fun _ => True) P)
    {place : Nat} (hreach : (A.addr? place).isSome = true) (hlog : P log) :
    (recorder A).wp (fun _ => True)
      (do readWord .full (← address place) : Link A Nat).run
      (fun r last => P last ∧ match r with
        | .error _ => ∃ event ∈ last, event.Refused
        | .ok v => ∃ a bytes told tail,
          last = log ++ ⟨.call (.read a 4), .ok bytes⟩ :: ⟨.feature .endian, told⟩ :: tail ∧
          a.toNat = place ∧ told.value bytes.val = v) log := by
  obtain ⟨a, ha⟩ := Option.isSome_iff_exists.mp hreach
  rw [address, ha]
  refine wp_kept hP trivial hlog ?_
  rintro (err | bytes) hread
  · refine wp_kept hP trivial hread fun _ hlog => ⟨hlog, ?_⟩
    exact ⟨⟨.call (.read a WordSize.full.bytes), .error err⟩, by simp, trivial⟩
  · refine wp_kept hP trivial hread fun told hlog => wp_kept hP trivial hlog fun shown hlog => ?_
    refine ⟨hlog, a, bytes, told, [⟨_, shown⟩], ?_, A.toNat_of_addr? ha, rfl⟩
    simp only [List.append_assoc, List.cons_append, List.nil_append]
    rfl

/-- The wait, and the last look at the partner's pointer. -/
theorem wp_settle {P : Transcript A → Prop} (hP : Kept Op.Sparing (fun _ => True) P)
    (hreach : (A.addr? (e.ring.partner flow)).isSome = true) (patience : Nat)
    (moved : Except Error Unit) (stats : Stats) (hlog : P log) :
    (recorder A).wp (fun _ => True)
      ((e.settle flow patience (e.ring.partner flow) moved stats).run h)
      (fun r log => P log ∧ Judged e.ring flow moved stats log r.1) log := by
  refine wp_then (wp_mono (Runner.wp_wait hP patience _ hlog) ?_)
  rintro ⟨waitError | settled, h'⟩ log ⟨hlog, hseen⟩
  · refine wp_kept hP trivial hlog fun told hlog => ?_
    have hnote : ∃ event ∈ log ++ [⟨.note (.waitFailed flow), told⟩],
        event.op = (.note (.waitFailed flow) : Op A) := ⟨⟨_, told⟩, by simp, rfl⟩
    cases moved with
    | error err => exact ⟨hlog, rfl, Or.inl hnote⟩
    | ok _ => exact ⟨hlog, rfl, Or.inl hnote⟩
  · -- only a completed wait looks at the partner's word
    cases settled with
    | undecided => exact ⟨hlog, trivial⟩
    | completed =>
        cases moved with
        | error err => exact ⟨hlog, rfl, Or.inr ⟨rfl, Or.inl rfl⟩⟩
        | ok _ =>
            refine wp_then (wp_liftOnly (wp_mono (wp_lastWord hP hreach hlog) ?_))
            rintro (err | v) last ⟨hlast, hword⟩
            · exact ⟨hlast, rfl, Or.inr ⟨rfl, Or.inr ⟨rfl, Or.inr hword⟩⟩⟩
            · cases v with
              | zero =>
                  refine wp_kept hP trivial hlast fun _ hlast => ⟨hlast, rfl, ?_⟩
                  exact Or.inr ⟨rfl, Or.inr ⟨rfl, Or.inl rfl⟩⟩
              | succ v =>
                  obtain ⟨a, bytes, told, tail, heq, hplace, hv⟩ := hword
                  refine ⟨hlast, rfl, log, a, bytes, told, tail, heq, hseen rfl, hplace, ?_⟩
                  rw [hv]
                  exact Nat.succ_ne_zero v

/-- What is written at the end, after the loop: nothing, or a zero in the host's pointer word,
    before the core is looked at. -/
def Told (place : Nat) (moved : Except Error Unit) (log : Transcript A) : Prop :=
  match moved with
  | .ok () => ∀ event ∈ log, event.op.Sparing
  | .error _ => ∃ before zero rest, log = before ++ zero :: rest ∧ zero.op.Zeroes place ∧
      (∀ event ∈ before, event.op.Unseen) ∧ ∀ event ∈ rest, event.op.Sparing

/-- The zero that tells the algorithm to give up. -/
theorem wp_zero {place : Nat} (hreach : (A.addr? place).isSome = true) :
    (recorder A).wp (fun _ => True) (putPointer place 0 : Link A Unit).run (fun _ log =>
      ∃ before zero, log = before ++ [zero] ∧ zero.op.Zeroes place ∧
        ∀ event ∈ before, event.op.Unseen) [] := by
  obtain ⟨a, ha⟩ := Option.isSome_iff_exists.mp hreach
  rw [putPointer, address, ha]
  refine wp_op trivial fun order => wp_op trivial fun shown => wp_op trivial fun stored => ?_
  have hzeroes : Op.Zeroes place (.call (.write a (order.encode 4 0)) : Op A) :=
    ⟨A.toNat_of_addr? ha, by cases order <;> rfl⟩
  have hbefore : ∀ event ∈ [⟨.feature .endian, order⟩, ⟨.note (.word a.toNat 0), shown⟩],
      (event : Event A).op.Unseen := by
    simp [Op.Unseen]
  cases stored <;> exact ⟨_, _, rfl, hzeroes, hbefore⟩

/-- The end of a transfer tells the algorithm of a failure, and of nothing else. -/
theorem wp_conclude_told (hreach : ∀ flow, (A.addr? (e.ring.own flow)).isSome = true)
    (patience : Nat) (moved : Except Error Unit) (stats : Stats) :
    (recorder A).wp (fun _ => True)
      ((e.conclude flow patience (e.ring.own flow) (e.ring.partner flow) moved stats).run h)
      (fun r log => Told (e.ring.own flow) moved log ∧ Judged e.ring flow moved stats log r.1)
      [] := by
  have hpartner : (A.addr? (e.ring.partner flow)).isSome = true := by
    cases flow
    · exact hreach .read
    · exact hreach .write
  cases moved with
  | ok _ =>
      rw [conclude_moved]
      refine wp_mono (wp_settle (kept_since Op.Sparing []) hpartner patience _ stats
        (since_refl _ _)) ?_
      rintro r log ⟨⟨tail, rfl, htail⟩, hjudged⟩
      exact ⟨htail, hjudged⟩
  | error err =>
      rw [conclude_failed]
      refine wp_then (wp_liftOnly (wp_mono (wp_zero (hreach flow)) ?_))
      rintro stored _ ⟨before, zero, rfl, hzero, hbefore⟩
      -- stored or not, nothing is written after the zero
      have hsettle : ∀ log : Transcript A, Since Op.Sparing (before ++ [zero]) log →
          (recorder A).wp (fun _ => True)
            ((e.settle flow patience (e.ring.partner flow) (.error err) stats).run h)
            (fun r log => Told (e.ring.own flow) (.error err) log ∧
              Judged e.ring flow (.error err) stats log r.1) log := by
        intro log hlog
        refine wp_mono (wp_settle (kept_since Op.Sparing _) hpartner patience _ stats hlog) ?_
        rintro r log ⟨⟨tail, rfl, htail⟩, hjudged⟩
        exact ⟨⟨before, zero, tail, by simp, hzero, hbefore, htail⟩, hjudged⟩
      cases stored with
      | error e =>
          refine wp_op trivial fun told => hsettle _ ?_
          exact (kept_since _ _).event told trivial (since_refl _ _)
      | ok _ => exact hsettle _ (since_refl _ _)

end Engine

/-! ## The loop -/

section Loop

variable {r : Ring} {flow : Flow} {data : List UInt8} {before : Transcript A} {op : Op A}

/-- A loop neither polls nor lets the core go. -/
theorem Allowed.steady (h : Allowed r flow data before op) : op.Steady := by
  cases op with
  | call c =>
      cases c with
      | read a n => trivial
      | write a bs => trivial
      | _ => exact h.elim
  | _ => trivial

/-- A loop stores its own pointer, and pieces in the fifo. -/
theorem Allowed.write {a : A.Addr} {bs : List UInt8}
    (h : Allowed r flow data before (.call (.write a bs))) :
    (a.toNat = r.own flow ∧ ∃ (order : Endian) (n : Nat), bs = order.encode 4 (r.place n)) ∨
      r.fifoStart ≤ a.toNat := by
  obtain ⟨-, ⟨hown, order, -, hbs⟩ | ⟨-, hpiece, -⟩⟩ := h
  · exact Or.inl ⟨hown, order, _, hbs⟩
  · right
    rw [hpiece.at_place]
    exact r.fifoStart_le_place _

/-- It leaves the partner's word alone: that is neither its own nor part of the fifo. -/
theorem Allowed.not_stores_partner (h : Allowed r flow data before op) :
    ¬ op.Stores (r.partner flow) := by
  cases op with
  | call c =>
      cases c with
      | write a bs =>
          rintro ⟨hlow, hhigh⟩
          rcases h.write with ⟨hown, order, n, rfl⟩ | hfifo
          · rw [hown, Endian.length_encode] at hhigh
            rw [hown] at hlow
            cases flow <;>
              simp only [Ring.own, Ring.partner, Ring.rpAddr_eq] at hlow hhigh <;> omega
          · have hst := r.fifoStart_eq
            cases flow <;> simp only [Ring.partner, Ring.rpAddr_eq] at hlow <;> omega
      | _ => exact id
  | _ => exact id

/-- What it stores in its own word is a pointer. -/
theorem Allowed.publishes (h : Allowed r flow data before op) (hs : op.Stores (r.own flow)) :
    ∃ a order n, op = .call (.write a (Endian.encode order 4 (r.place n))) ∧
      a.toNat = r.own flow := by
  cases op with
  | call c =>
      cases c with
      | write a bs =>
          rcases h.write with ⟨hown, order, n, rfl⟩ | hfifo
          · exact ⟨a, order, n, rfl, hown⟩
          · obtain ⟨hlow, -⟩ := hs
            have hst := r.fifoStart_eq
            cases flow <;> simp only [Ring.own, Ring.rpAddr_eq] at hlow <;> omega
      | _ => exact hs.elim
  | _ => exact hs.elim

/-- A pointer is never zero: it is an address of the fifo, and the ring does not begin there. -/
theorem Allowed.not_zeroes (h : Allowed r flow data before op) : ¬ op.Zeroes (r.own flow) := by
  cases op with
  | call c =>
      cases c with
      | write a bs =>
          rintro ⟨hown, rfl⟩
          rcases h.write with ⟨-, order, n, hbs⟩ | hfifo
          · have hlow := r.fifoStart_le_place n
            have hst := r.fifoStart_eq
            have hlt : r.place n < 256 ^ 4 := r.place_lt_word n
            -- four zero bytes stand for zero in both byte orders
            have hvalue := congrArg order.value hbs
            rw [Endian.value_encode, Nat.mod_eq_of_lt hlt] at hvalue
            have hz : order.value [0, 0, 0, 0] = 0 := by cases order <;> rfl
            omega
          · have hlt := r.own_lt flow
            omega
      | _ => exact id
  | _ => exact id

/-- A zero in the host's word leaves the partner's alone. -/
theorem Op.Zeroes.not_stores_partner (h : op.Zeroes (r.own flow)) :
    ¬ op.Stores (r.partner flow) := by
  cases op with
  | call c =>
      cases c with
      | write a bs =>
          obtain ⟨hown, rfl⟩ := h
          rintro ⟨hlow, hhigh⟩
          rw [hown] at hlow hhigh
          cases flow <;>
            simp only [Ring.own, Ring.partner, Ring.rpAddr_eq, List.length_cons,
              List.length_nil] at hlow hhigh <;> omega
      | _ => exact id
  | _ => exact id

end Loop

/-! ## A whole transfer -/

namespace Engine

variable {e : Engine} {flow : Flow} {h h₁ h' : Held A}

/-- A transfer in either direction, by how it ends. -/
def transfer (e : Engine) (patience : Nat) :
    Flow → List UInt8 → StateT (Held A) (Dialogue A) Outcome
  | .write, data => e.write patience data
  | .read, buffer => return (← e.read patience buffer).1

/-- Which pointer words are written once the algorithm runs. -/
structure Signals (r : Ring) (flow : Flow) (moved : Except Error Unit)
    (moving after : Transcript A) : Prop where
  /-- The partner's word is never written. -/
  partner : ∀ event ∈ moving ++ after, ¬ event.op.Stores (r.partner flow)
  /-- The loop does not poll. -/
  unpolled : ∀ event ∈ moving, event.op.Steady
  /-- What the loop writes in the host's word is a pointer into the fifo. -/
  pointers : ∀ event ∈ moving, event.op.Stores (r.own flow) → ∃ a order n,
    event.op = .call (.write a (Endian.encode order 4 (r.place n))) ∧ a.toNat = r.own flow
  /-- That is never a zero. -/
  unzeroed : ∀ event ∈ moving, ¬ event.op.Zeroes (r.own flow)
  /-- The zero comes after the loop. -/
  told : Told (r.own flow) moved after

/-- At the end, too, the partner's word is left alone. -/
theorem Told.not_stores_partner {r : Ring} {moved : Except Error Unit} {after : Transcript A}
    (h : Told (r.own flow) moved after) :
    ∀ event ∈ after, ¬ event.op.Stores (r.partner flow) := by
  intro event hm
  cases moved with
  | ok _ => exact (h event hm).not_stores _
  | error err =>
      obtain ⟨before, zero, rest, rfl, hzero, hbefore, hrest⟩ := h
      rcases List.mem_append.mp hm with hm | hm
      · exact (hbefore event hm).sparing.not_stores _
      · rcases List.mem_cons.mp hm with rfl | hm
        · exact hzero.not_stores_partner
        · exact (hrest event hm).not_stores _

/-- A transfer whose algorithm was started goes on with its loop, and then comes to its end. -/
theorem transfer_path {patience : Nat} {data : List UInt8} {before rest : Transcript A}
    {outcome : Outcome} (begun : ((e.begin flow).run.run h).Path before (.ok (), h₁))
    (run : ((e.transfer patience flow data).run h).Path (before ++ rest) (outcome, h')) :
    ∃ moving after moved p, rest = moving ++ after ∧
      ((e.carry flow data).run.run {}).Path moving (moved, p) ∧
      ((e.conclude flow patience (e.ring.own flow) (e.ring.partner flow) moved p.stats).run
        h₁).Path after (outcome, h') := by
  -- the part behind the start is the same in both directions
  have hrest : ∀ {β : Type} {f : Except Error Unit × Held A → Dialogue A β} {y : β},
      ((e.begin flow).run.run h >>= f).Path (before ++ rest) y →
      (f (.ok (), h₁)).Path rest y := by
    intro β f y hpath
    obtain ⟨l₁, l₂, x, hlog, h₁, h₂⟩ := path_bind.mp hpath
    obtain ⟨rfl, rfl⟩ := begun.unique h₁ hlog
    rw [List.append_cancel_left hlog]
    exact h₂
  cases flow with
  | write =>
      obtain ⟨moving, after, ⟨⟨moved, p⟩, h₂⟩, rfl, hlift, hafter⟩ := path_bind.mp (hrest run)
      obtain ⟨moving, none, ⟨moved, p⟩, rfl, hmoving, hnone⟩ := path_bind.mp hlift
      obtain ⟨rfl, hx⟩ := path_done.mp hnone
      cases hx
      exact ⟨moving, after, moved, p, by rw [List.append_nil], hmoving, hafter⟩
  | read =>
      obtain ⟨l, none, ⟨⟨outcome', filled⟩, h₂⟩, hl, hread, hnone⟩ := path_bind.mp run
      obtain ⟨rfl, hx⟩ := path_done.mp hnone
      cases hx
      rw [List.append_nil] at hl
      subst hl
      rw [Engine.read] at hread
      split at hread
      · -- a length that the ring does not serve: nothing is asked
        obtain ⟨hnil, -⟩ := path_done.mp hread
        obtain ⟨⟨_, _, _, hlast, -⟩, -⟩ := begin_resumed begun
        rw [hlast] at hnil
        simp at hnil
      · obtain ⟨moving, after, ⟨⟨moved, p⟩, h₂⟩, rfl, hlift, hafter⟩ := path_bind.mp (hrest hread)
        obtain ⟨moving, none, ⟨moved, p⟩, rfl, hmoving, hnone⟩ := path_bind.mp hlift
        obtain ⟨rfl, hx⟩ := path_done.mp hnone
        cases hx
        obtain ⟨after, none, ⟨outcome', h₂⟩, rfl, hafter, hnone⟩ := path_bind.mp hafter
        obtain ⟨rfl, hx⟩ := path_done.mp hnone
        cases hx
        exact ⟨moving, after, moved, p, by simp, hmoving, hafter⟩

end Engine

end DebugLink
