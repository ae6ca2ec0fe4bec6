import DebugLink.Proofs.Runner.Endings
import DebugLink.Proofs.Transfer.Abort

/-!
# What a transfer reports

Two things can fail independently once the algorithm runs, the loop and the wait, and a late look at
the partner's pointer may find that the algorithm gave up.  The report must lose none of them.

* `conclude_path` takes the end of a transfer apart: the word to the algorithm, THE WAIT, which
  comes once and after the loop, and what follows it.
* `Judgement` is the table of all ends, by how the loop and the wait ended, with all that is asked
  and said after the wait; `Reported` draws the conclusions from it.
* `begin_guard` and `Runner.wait_busy` say what becomes of the guard.

`transfer_reported` puts these together.
-/

namespace DebugLink

open Environment Transcript Dialogue

variable {A : Arch} {α : Type}

/-! ## The guard, up to the start -/

namespace Runner

/-- A start that succeeds finds the guard clear and leaves it up; one that fails leaves it alone. -/
def Guarded (h : Held A) (r : Except Error α × Held A) : Prop :=
  match r.1 with
  | .ok _ => h.busy = false ∧ r.2.busy = true ∧ r.2.runner.state.isActive = true
  | .error _ => r.2.busy = h.busy

/-- What does not change where a runner stands leaves the guard alone. -/
theorem busy_of_steady {x : RunM A α} (hx : Confined Op.Steady Held.standing x) :
    Confined (fun _ => True) Held.busy x :=
  (hx.weaken fun _ _ => trivial).through Held.busy

/-- A start raises the guard if it succeeds, and leaves it alone if not. -/
theorem start_guard (h : Held A) : ((start (A := A)).run.run h).Ends (Guarded h) := by
  have hlaunch : Confined (fun _ => True) Held.busy (launch (A := A)) :=
    .bind (busy_of_steady load_steady) fun _ => .bind .get fun _ =>
      .bind (.note trivial) fun _ => .call trivial
  show ((if h.busy = true then _ else _ : RunM A Unit).run.run h).Within _ _
  split
  · exact ⟨trivial, fun _ => rfl⟩
  · next hbusy =>
    show ((if h.runner.state.isActive = true then _ else _ : RunM A Unit).run.run h).Within _ _
    split
    · exact rfl
    · refine .seq (.lift ((only_any _).mono ?_))
      rintro (e | _) _
      · exact rfl
      · refine .seq (.outcome ((hlaunch h).mono ?_))
        rintro ⟨e | _, h₁⟩ hb₁
        · -- cleaning up is no concern of the guard's
          refine .seq (.outcome ((busy_of_steady disarm_steady h₁).mono ?_))
          rintro ⟨_, h₂⟩ hb₂
          refine .seq (.outcome ((busy_of_steady restoreContext_steady h₂).mono ?_))
          rintro ⟨_, h₃⟩ hb₃
          exact hb₃.trans (hb₂.trans hb₁)
        · exact ⟨(Bool.not_eq_true _).mp hbusy, rfl, rfl⟩

end Runner

namespace Engine

variable {e : Engine} {flow : Flow} {h h₁ h' : Held A} {patience : Nat} {data : List UInt8}

/-- So does the beginning of a transfer. -/
theorem begin_guard (h : Held A) :
    ((e.begin (A := A) flow).run.run h).Ends (Runner.Guarded h) := by
  show ((if h.busy = true then _ else _ : RunM A Unit).run.run h).Within _ _
  split
  · exact ⟨trivial, fun _ => rfl⟩
  · refine .seq (.lift ((only_any _).mono ?_))
    rintro (e | _) _
    · exact rfl
    · refine .seq (.lift ((only_any _).mono ?_))
      rintro (e | _) _
      · exact rfl
      · refine .seq (.lift ((only_any _).mono ?_))
        rintro (e | _) _
        · exact rfl
        · refine .seq (.outcome ((Runner.start_guard h).mono ?_))
          rintro ⟨e | _, h'⟩ hg
          · exact ⟨trivial, fun _ => hg⟩
          · exact hg

/-! ## The end of a transfer -/

/-- The word to the algorithm: a zero in the host's pointer word, if the loop failed. -/
def tell (flow : Flow) (own : Nat) : Except Error Unit → Dialogue A Unit
  | .ok () => return ()
  | .error _ => do
    if let .error _ ← (putPointer (A := A) own 0).run then
      note (.abortFailed flow)

/-- The last look at the partner's pointer. -/
def lastLook (partner : Nat) : Link A Nat := do
  readWord .full (← address partner)

/-- What is said of the pointer that the last look found. -/
def verdict (flow : Flow) : Except Error Nat → Transcript A
  | .ok 0 => [⟨.note (.abortedByTarget flow), ()⟩]
  | _ => []

/-- All ends of a transfer: how the loop ended and how the wait did, what was asked and said after
    that, and what is reported. -/
inductive Judgement (flow : Flow) (partner : Nat) (stats : Stats) :
    Except Error Unit → Except Error Runner.Settled → Transcript A → Outcome → Prop where
  | undecided (moved : Except Error Unit) :
      Judgement flow partner stats moved (.ok .undecided) [] .undecided
  | both (err waitError : Error) :
      Judgement flow partner stats (.error err) (.error waitError)
        [⟨.note (.waitFailed flow), ()⟩]
        (.failed { offset := stats.bytes, error := err, waitError := some waitError })
  | loop (err : Error) :
      Judgement flow partner stats (.error err) (.ok .completed) []
        (.failed { offset := stats.bytes, error := err })
  | wait (waitError : Error) :
      Judgement flow partner stats (.ok ()) (.error waitError) [⟨.note (.waitFailed flow), ()⟩]
        (.failed { offset := stats.bytes, error := waitError })
  | unread {look : Transcript A} {err : Error} : (lastLook partner).run.Path look (.error err) →
      Judgement flow partner stats (.ok ()) (.ok .completed) look
        (.failed { offset := stats.bytes, error := err })
  | zero {look : Transcript A} : (lastLook partner).run.Path look (.ok 0) →
      Judgement flow partner stats (.ok ()) (.ok .completed)
        (look ++ [⟨.note (.abortedByTarget flow), ()⟩])
        (.failed { offset := stats.bytes, error := .operationFailed })
  | finished {look : Transcript A} {ptr : Nat} : (lastLook partner).run.Path look (.ok ptr) →
      ptr ≠ 0 → Judgement flow partner stats (.ok ()) (.ok .completed) look (.finished stats)

/-- The end of a transfer is a wait, and a judgement on what was seen after it. -/
theorem settle_path {partner : Nat} {moved : Except Error Unit} {stats : Stats}
    {log : Transcript A} {outcome : Outcome}
    (run : ((e.settle flow patience partner moved stats).run h₁).Path log (outcome, h')) :
    ∃ waiting last waited, log = waiting ++ last ∧
      ((Runner.wait patience e.config.waitTimeout).run.run h₁).Path waiting (waited, h') ∧
      Judgement flow partner stats moved waited last outcome := by
  obtain ⟨waiting, last, ⟨waited, h₂⟩, rfl, hwait, hlast⟩ := path_bind.mp run
  suffices h : h₂ = h' ∧ Judgement flow partner stats moved waited last outcome by
    obtain ⟨rfl, hjudged⟩ := h
    exact ⟨waiting, last, waited, rfl, hwait, hjudged⟩
  -- by the wait first: only one that completed looks at the pointer
  match waited, hlast with
  | .error waitError, hlast =>
      obtain ⟨_, rest, rfl, hrest⟩ := path_ask.mp hlast
      cases moved with
      | error err =>
          obtain ⟨rfl, heq⟩ := path_done.mp hrest
          cases heq
          exact ⟨rfl, .both err waitError⟩
      | ok _ =>
          obtain ⟨rfl, heq⟩ := path_done.mp hrest
          cases heq
          exact ⟨rfl, .wait waitError⟩
  | .ok .undecided, hlast =>
      obtain ⟨rfl, heq⟩ := path_done.mp hlast
      cases heq
      exact ⟨rfl, .undecided moved⟩
  | .ok .completed, hlast =>
      cases moved with
      | error err =>
          obtain ⟨rfl, heq⟩ := path_done.mp hlast
          cases heq
          exact ⟨rfl, .loop err⟩
      | ok _ =>
          obtain ⟨l, more, ⟨looked, h₃⟩, rfl, hlift, hmore⟩ := path_bind.mp hlast
          obtain ⟨look, none, looked, rfl, hlook, hnone⟩ := path_bind.mp hlift
          obtain ⟨rfl, heq⟩ := path_done.mp hnone
          cases heq
          rw [List.append_nil]
          -- the word refused, zero, or any other
          match looked, hlook, hmore with
          | .error err, hlook, hmore =>
              obtain ⟨rfl, heq⟩ := path_done.mp hmore
              cases heq
              rw [List.append_nil]
              exact ⟨rfl, .unread hlook⟩
          | .ok 0, hlook, hmore =>
              obtain ⟨_, rest, rfl, hrest⟩ := path_ask.mp hmore
              obtain ⟨rfl, heq⟩ := path_done.mp hrest
              cases heq
              exact ⟨rfl, .zero hlook⟩
          | .ok (ptr + 1), hlook, hmore =>
              obtain ⟨rfl, heq⟩ := path_done.mp hmore
              cases heq
              rw [List.append_nil]
              exact ⟨rfl, .finished hlook (Nat.succ_ne_zero ptr)⟩

/-- The end of a transfer begins with the word to the algorithm. -/
theorem conclude_parts {own partner : Nat} {moved : Except Error Unit} {stats : Stats}
    {log : Transcript A} {outcome : Outcome}
    (run : ((e.conclude flow patience own partner moved stats).run h₁).Path log (outcome, h')) :
    ∃ told settling, log = told ++ settling ∧ (tell flow own moved).Path told () ∧
      ((e.settle flow patience partner moved stats).run h₁).Path settling (outcome, h') := by
  cases moved with
  | ok _ =>
      rw [conclude_moved] at run
      exact ⟨[], log, rfl, .done (), run⟩
  | error err =>
      rw [conclude_failed] at run
      obtain ⟨l, rest, ⟨stored, h₂⟩, rfl, hlift, hrest⟩ := path_bind.mp run
      obtain ⟨put, none, stored, rfl, hput, hnone⟩ := path_bind.mp hlift
      obtain ⟨rfl, heq⟩ := path_done.mp hnone
      cases heq
      -- the algorithm is told in either case; that it could not be is noted
      cases stored with
      | error _ =>
          obtain ⟨_, settling, rfl, hsettling⟩ := path_ask.mp hrest
          refine ⟨put ++ [⟨.note (.abortFailed flow), ()⟩], settling, by simp, ?_, hsettling⟩
          exact path_bind.mpr ⟨put, _, _, rfl, hput, .ask _ (.done ())⟩
      | ok _ =>
          refine ⟨put, rest, by simp, ?_, hrest⟩
          exact path_bind.mpr ⟨put, [], _, (List.append_nil _).symm, hput, .done ()⟩

/-- Then come the wait, and what follows it. -/
theorem conclude_path {own partner : Nat} {moved : Except Error Unit} {stats : Stats}
    {log : Transcript A} {outcome : Outcome}
    (run : ((e.conclude flow patience own partner moved stats).run h₁).Path log (outcome, h')) :
    ∃ told waiting last waited, log = told ++ (waiting ++ last) ∧
      (tell flow own moved).Path told () ∧
      ((Runner.wait patience e.config.waitTimeout).run.run h₁).Path waiting (waited, h') ∧
      Judgement flow partner stats moved waited last outcome := by
  obtain ⟨told, settling, rfl, htold, hsettling⟩ := conclude_parts run
  obtain ⟨waiting, last, waited, rfl, hwait, hjudged⟩ := settle_path hsettling
  exact ⟨told, waiting, last, waited, rfl, htold, hwait, hjudged⟩

/-! ## A whole transfer -/

/-- A transfer whose algorithm is not started reports that, and does nothing else; every other one
    begins with a start that succeeds. -/
theorem transfer_cases {log : Transcript A} {outcome : Outcome}
    (run : ((e.transfer patience flow data).run h).Path log (outcome, h')) :
    (∃ err, outcome = .failed { offset := 0, error := err } ∧
      (flow = .read ∧ data.length % e.ring.block ≠ 0 ∧ log = [] ∧ h' = h ∨
        ((e.begin flow).run.run h).Path log (.error err, h'))) ∨
      ∃ begun rest h₁, log = begun ++ rest ∧
        ((e.begin flow).run.run h).Path begun (.ok (), h₁) := by
  cases flow with
  | write =>
      obtain ⟨begun, rest, ⟨started, h₁⟩, rfl, hbegun, hrest⟩ := path_bind.mp run
      cases started with
      | error err =>
          obtain ⟨rfl, heq⟩ := path_done.mp hrest
          cases heq
          rw [List.append_nil]
          exact Or.inl ⟨err, rfl, Or.inr hbegun⟩
      | ok _ => exact Or.inr ⟨begun, rest, h₁, rfl, hbegun⟩
  | read =>
      obtain ⟨l, none, ⟨⟨outcome', filled⟩, h₂⟩, rfl, hread, hnone⟩ := path_bind.mp run
      obtain ⟨rfl, heq⟩ := path_done.mp hnone
      cases heq
      rw [List.append_nil]
      rw [Engine.read] at hread
      split at hread
      · -- a length that the ring does not serve: nothing is asked
        next hlength =>
        obtain ⟨rfl, heq⟩ := path_done.mp hread
        cases heq
        exact Or.inl ⟨_, rfl, Or.inl ⟨rfl, hlength, rfl, rfl⟩⟩
      · obtain ⟨begun, rest, ⟨started, h₁⟩, rfl, hbegun, hrest⟩ := path_bind.mp hread
        cases started with
        | error err =>
            obtain ⟨rfl, heq⟩ := path_done.mp hrest
            cases heq
            rw [List.append_nil]
            exact Or.inl ⟨err, rfl, Or.inr hbegun⟩
        | ok _ => exact Or.inr ⟨begun, rest, h₁, rfl, hbegun⟩

/-- What a transfer reports whose algorithm was started, from how the loop and the wait ended and
    what the partner's pointer was in the end. The offset is what went through the fifo. -/
structure Reported (r : Ring) (flow : Flow) (data : List UInt8) (moving : Transcript A)
    (moved : Except Error Unit) (waited : Except Error Runner.Settled) (last : Transcript A)
    (outcome : Outcome) : Prop where
  /-- A loop that does not fail moves every byte. -/
  all : moved = .ok () → (moving.moved r flow).length = data.length
  /-- The pointer is read back if neither the loop nor the wait failed. -/
  looked : moved = .ok () → waited = .ok .completed →
    ∃ (look : Transcript A) (ptr : Except Error Nat), last = look ++ verdict flow ptr ∧
      (lastLook (r.partner flow)).run.Path look ptr
  /-- Of a wait that failed there is a note, and nothing is asked after it. -/
  noted : ∀ err, waited = .error err → last = [⟨.note (.waitFailed flow), ()⟩]
  /-- Nor after a loop that failed, or while the wait has not come to an end. -/
  silent : (moved ≠ .ok () ∧ waited = .ok .completed) ∨ waited = .ok .undecided → last = []
  /-- A success needs all three. -/
  finished : (∃ stats, outcome = .finished stats) ↔
    moved = .ok () ∧ waited = .ok .completed ∧ ∃ (look more : Transcript A) (ptr : Nat),
      last = look ++ more ∧ (lastLook (r.partner flow)).run.Path look (.ok ptr) ∧ ptr ≠ 0
  count : ∀ stats, outcome = .finished stats → stats.bytes = data.length
  /-- The loop's error comes first, along with the wait's. -/
  loop : ∀ err, moved = .error err → waited ≠ .ok .undecided → outcome = .failed
    { offset := (moving.moved r flow).length, error := err, waitError := failure? waited }
  /-- Then the wait's. -/
  wait : moved = .ok () → ∀ err, waited = .error err → outcome = .failed
    { offset := (moving.moved r flow).length, error := err, waitError := none }
  /-- Then a zero in the partner's pointer word. -/
  zero : moved = .ok () → waited = .ok .completed → ∀ look more : Transcript A,
    last = look ++ more → (lastLook (r.partner flow)).run.Path look (.ok 0) → outcome = .failed
      { offset := (moving.moved r flow).length, error := .operationFailed, waitError := none }
  /-- Or that it could not be read. -/
  unread : moved = .ok () → waited = .ok .completed → ∀ (look more : Transcript A) (err : Error),
    last = look ++ more → (lastLook (r.partner flow)).run.Path look (.error err) →
      outcome = .failed
        { offset := (moving.moved r flow).length, error := err, waitError := none }
  undecided : outcome = .undecided ↔ waited = .ok .undecided

/-- With what is known of the loop, the judgement says what is reported. -/
theorem reported_of_judgement {moving last : Transcript A} {moved : Except Error Unit}
    {p : Progress} {waited : Except Error Runner.Settled} {outcome : Outcome}
    (hends : Contained.Ends e.ring flow data (moved, p) moving)
    (hjudged : Judgement flow (e.ring.partner flow) p.stats moved waited last outcome) :
    Reported e.ring flow data moving moved waited last outcome := by
  obtain ⟨bytes, hcontained, hcounted, hall, -⟩ := hends
  have hoffset : p.stats.bytes = (moving.moved e.ring flow).length :=
    hcounted.count.trans hcontained.length.symm
  have hlength : moved = .ok () → (moving.moved e.ring flow).length = data.length :=
    fun hmoved => hcontained.length.trans (hall hmoved)
  cases hjudged with
  | undecided moved =>
      exact ⟨hlength, nofun, nofun, fun _ => rfl, ⟨nofun, nofun⟩, nofun,
        fun _ _ hne => absurd rfl hne, nofun, nofun, nofun, ⟨fun _ => rfl, fun _ => rfl⟩⟩
  | both err waitError =>
      refine ⟨hlength, nofun, fun _ _ => rfl, nofun, ⟨nofun, nofun⟩, nofun, ?_, nofun, nofun, nofun,
        ⟨nofun, nofun⟩⟩
      rintro _ ⟨⟩ -
      rw [hoffset]
      rfl
  | loop err =>
      refine ⟨hlength, nofun, nofun, fun _ => rfl, ⟨nofun, nofun⟩, nofun, ?_, nofun, nofun, nofun,
        ⟨nofun, nofun⟩⟩
      rintro _ ⟨⟩ -
      rw [hoffset]
      rfl
  | wait waitError =>
      refine ⟨hlength, nofun, fun _ _ => rfl, nofun, ⟨nofun, nofun⟩, nofun, nofun, ?_, nofun, nofun,
        ⟨nofun, nofun⟩⟩
      rintro - _ ⟨⟩
      rw [hoffset]
  -- the transcript of the last look, whatever follows it, tells what was found: there is no other
  | @unread look err hlook =>
      refine ⟨hlength, fun _ _ => ⟨last, _, (List.append_nil _).symm, hlook⟩, nofun, nofun,
        ⟨nofun, ?_⟩, nofun, nofun, nofun, ?_, ?_, ⟨nofun, nofun⟩⟩
      · rintro ⟨-, -, look, more, ptr, rfl, hlook', -⟩
        cases (hlook.unique hlook' (List.append_nil _)).2
      · rintro - - look more rfl hlook'
        cases (hlook.unique hlook' (List.append_nil _)).2
      · rintro - - look more err' rfl hlook'
        cases (hlook.unique hlook' (List.append_nil _)).2
        rw [hoffset]
  | @zero look hlook =>
      refine ⟨hlength, fun _ _ => ⟨look, _, rfl, hlook⟩, nofun, nofun, ⟨nofun, ?_⟩, nofun, nofun,
        nofun, ?_, ?_, ⟨nofun, nofun⟩⟩
      · rintro ⟨-, -, look', more', ptr, heq, hlook', hne⟩
        cases (hlook.unique hlook' heq).2
        exact absurd rfl hne
      · intro _ _ look' more' _ _
        rw [hoffset]
      · intro _ _ look' more' err heq hlook'
        cases (hlook.unique hlook' heq).2
  | @finished look ptr hlook hne =>
      have hsilent : verdict (A := A) flow (.ok ptr) = [] := by
        obtain ⟨ptr, rfl⟩ := Nat.exists_eq_succ_of_ne_zero hne
        rfl
      refine ⟨hlength, fun _ _ => ⟨last, _, by rw [hsilent, List.append_nil], hlook⟩, nofun, nofun,
        ⟨fun _ => ⟨rfl, rfl, last, [], ptr, (List.append_nil _).symm, hlook, hne⟩,
          fun _ => ⟨_, rfl⟩⟩, ?_, nofun, nofun, ?_, ?_, ⟨nofun, nofun⟩⟩
      · rintro _ ⟨⟩
        exact hoffset.trans (hlength rfl)
      · rintro - - look more rfl hlook'
        cases (hlook.unique hlook' (List.append_nil _)).2
        exact absurd rfl hne
      · rintro - - look more err rfl hlook'
        cases (hlook.unique hlook' (List.append_nil _)).2

/-- NO FAILURE IS LOST, AND NONE IS REPORTED AS SUCCESS.  A transfer that fails before its algorithm
    is started reports that at offset zero; nothing is waited for, and the guard is what it was.
    Every other one is a start, the loop, a word to the algorithm if the loop failed, ONE wait, and
    what follows it; what it reports is told by the loop, the wait and the last look, and the target
    is busy afterwards if and only if the wait gave up, or has not come to an end. -/
theorem transfer_reported (e : Engine) (flow : Flow) (patience : Nat) (data : List UInt8)
    {h h' : Held A} {log : Transcript A} {outcome : Outcome}
    (run : ((e.transfer patience flow data).run h).Path log (outcome, h')) :
    (∃ err, outcome = .failed { offset := 0, error := err, waitError := none } ∧
      h'.busy = h.busy ∧
      (flow = .read ∧ data.length % e.ring.block ≠ 0 ∧ log = [] ∨
        ((e.begin flow).run.run h).Path log (.error err, h'))) ∨
    ∃ begun moving told waiting last h₁ moved p waited,
      log = begun ++ (moving ++ (told ++ (waiting ++ last))) ∧
      ((e.begin flow).run.run h).Path begun (.ok (), h₁) ∧
      ((e.carry flow data).run.run {}).Path moving (moved, p) ∧
      (tell flow (e.ring.own flow) moved).Path told () ∧
      ((Runner.wait patience e.config.waitTimeout).run.run h₁).Path waiting (waited, h') ∧
      Reported e.ring flow data moving moved waited last outcome ∧
      (h'.busy = true ↔ Runner.GaveUp waiting waited ∨ waited = .ok .undecided) := by
  rcases transfer_cases run with ⟨err, houtcome, hrefused⟩ | ⟨begun, rest, h₁, rfl, hbegun⟩
  · refine Or.inl ⟨err, houtcome, ?_, ?_⟩
    · rcases hrefused with ⟨-, -, -, rfl⟩ | hbegun
      · rfl
      · exact ((begin_guard h).path hbegun).2
    · rcases hrefused with ⟨hflow, hlength, hlog, -⟩ | hbegun
      · exact Or.inl ⟨hflow, hlength, hlog⟩
      · exact Or.inr hbegun
  · obtain ⟨moving, after, moved, p, rfl, hmoving, hafter⟩ := transfer_path hbegun run
    obtain ⟨told, waiting, last, waited, rfl, htold, hwait, hjudged⟩ := conclude_path hafter
    -- what the loop came to
    have hends : Contained.Ends e.ring flow data (moved, p) moving :=
      wp_path (fun _ _ h => h.midway) (Contained.wp_carry e flow data) hmoving
    obtain ⟨-, -, hbusy, hactive⟩ := (begin_guard h).path hbegun
    refine Or.inr ⟨begun, moving, told, waiting, last, h₁, moved, p, waited, rfl, hbegun, hmoving,
      htold, hwait, reported_of_judgement hends hjudged, ?_⟩
    exact Runner.wait_busy hactive hbusy hwait

/-- The algorithm takes the only byte and gives up after that: the wait succeeds, and the last look
    finds the zero. -/
theorem transfer_reported_afterLast :
    ((Engine.transfer ⟨.twoWords, {}⟩ 1 .write [1]).run GivesUp.idle).Path
      (GivesUp.start ++ (GivesUp.loop ++ GivesUp.wait))
      (.failed { offset := 1, error := .operationFailed },
        GivesUp.started .completed false []) ∧
    ∃ (moving last : Transcript (plainCore 32)) (moved : Except Error Unit)
      (waited : Except Error Runner.Settled),
      Reported .twoWords .write [1] moving moved waited last
        (.failed { offset := 1, error := .operationFailed }) := by
  refine ⟨GivesUp.ran, ?_⟩
  rcases transfer_reported ⟨.twoWords, {}⟩ .write 1 [1] GivesUp.ran with
    ⟨err, houtcome, -⟩ | ⟨_, moving, _, _, last, _, moved, _, waited, -, -, -, -, -, hreported, -⟩
  · cases houtcome
  · exact ⟨moving, last, moved, waited, hreported⟩

end Engine

end DebugLink
