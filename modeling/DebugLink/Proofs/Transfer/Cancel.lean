import DebugLink.Proofs.Runner.Apart
import DebugLink.Proofs.Runner.Cancel
import DebugLink.Proofs.Transfer.Outcome

/-!
# How long a transfer goes on after it is asked to stop

A round of a loop moves a piece and lets the rest of the host work, or it finds no room and sleeps.
Either way it asks before the next round, so a loop is spaced twice over: in its suspensions, and in
its STRIDES, which are sleeps and pieces (`Engine.wp_carry_spaced`).  The phases of a round are

* `Cleared`: somebody said "go on" since the last suspension and the last stride;
* `Laden`: a piece may have gone through since then;
* `Spent`: the host may have suspended itself as well, and must ask.

A transfer has two such loops, its own and that of its wait, and what is around them asks NOTHING of
the host (`begin_alone`, `tell_alone`, `settle_alone`).  `cancellation_prompt` puts them together.
-/

namespace DebugLink

open Environment Transcript Dialogue

variable {A : Arch} {α : Type}

/-- A piece went through the fifo. -/
def Event.carries (r : Ring) (flow : Flow) (event : Event A) : Bool :=
  !(event.moved r flow).isEmpty

/-- The loop slept, or moved a piece. -/
def Event.strides (r : Ring) (flow : Flow) (event : Event A) : Bool :=
  event.pauses || event.carries r flow

/-- Nothing is asked of the host, and the fifo is left alone. -/
def Op.Outside (r : Ring) : Op A → Prop
  | .host _ => False
  | .call (.read a _) | .call (.write a _) => a.toNat < r.fifoStart
  | _ => True

namespace Engine

variable {e : Engine} {r : Ring} {flow : Flow} {log : Transcript A} {op : Op A} {p : Progress}

/-- What is neither a call nor a request to the host is outside of the loop's business. -/
theorem outside_of_inward (op : Op A) (h : op.Inwardly Op.Offline) : op.Outside r := by
  cases op with
  | host _ | call _ => exact h.elim
  | _ => trivial

/-- And the other way around, it asks nothing of the host. -/
theorem inwardly_of_outside (h : op.Outside r) : op.Inwardly fun _ => True := by
  cases op with
  | host _ => exact h.elim
  | _ => trivial

/-- It takes the loop no further. -/
theorem strides_of_outside (a : op.Answer) (h : op.Outside r) :
    Event.strides r flow ⟨op, a⟩ = false := by
  cases op with
  | host _ => exact h.elim
  | call c =>
      cases c with
      | read b n =>
          have hlow : ¬ r.fifoStart ≤ b.toNat := Nat.not_le_of_lt h
          cases flow <;> cases a <;> simp [Event.strides, Event.pauses, Event.carries,
            Event.moved, hlow]
      | write b bs =>
          have hlow : ¬ r.fifoStart ≤ b.toNat := Nat.not_le_of_lt h
          cases flow <;> cases a <;> simp [Event.strides, Event.pauses, Event.carries,
            Event.moved, hlow]
      | _ => cases flow <;> rfl
  | _ => cases flow <;> rfl

/-! ## The phases of a round -/

/-- What is marked as a stride. -/
def Strides (r : Ring) (flow : Flow) (_ : Transcript A) (event : Event A) : Prop :=
  event.strides r flow = true

/-- Somebody said "go on" since the last suspension and the last stride. -/
structure Cleared (r : Ring) (flow : Flow) (log : Transcript A) : Prop where
  suspensions : log.Free Event.Suspends
  strides : log.Free (Strides r flow)

/-- A piece may have gone through since then. -/
structure Laden (r : Ring) (flow : Flow) (log : Transcript A) : Prop where
  suspensions : log.Free Event.Suspends
  strides : log.Spaced (Strides r flow)

/-- The host may have suspended itself as well. -/
structure Spent (r : Ring) (flow : Flow) (log : Transcript A) : Prop where
  suspensions : log.Spaced Event.Suspends
  strides : log.Spaced (Strides r flow)

/-- Without a stride since the last request to go on, there is at most one. -/
theorem Cleared.laden (h : Cleared r flow log) : Laden r flow log :=
  ⟨h.suspensions, h.strides.spaced⟩

/-- With at most one, the loop may as well pause. -/
theorem Laden.spent (h : Laden r flow log) : Spent r flow log :=
  ⟨h.suspensions.spaced, h.strides⟩

/-- What is outside of the loop's business takes no stride. -/
theorem kept_cleared : Kept (Op.Outside r) (fun _ => True) (Cleared (A := A) r flow) where
  event := fun a hop h =>
    { suspensions :=
        h.suspensions.append_other (Runner.not_suspends a (inwardly_of_outside hop))
      strides := h.strides.append_other (Bool.eq_false_iff.mp (strides_of_outside a hop)) }
  holds := fun _ => trivial

/-- Nor a second one. -/
theorem kept_laden : Kept (Op.Outside r) (fun _ => True) (Laden (A := A) r flow) where
  event := fun a hop h =>
    { suspensions :=
        h.suspensions.append_other (Runner.not_suspends a (inwardly_of_outside hop))
      strides := h.strides.append (Bool.eq_false_iff.mp (strides_of_outside a hop)) }
  holds := fun _ => trivial

/-- Any call may move a piece. -/
theorem Cleared.call (h : Cleared r flow log) {c : Call A} (a : (Op.call c).Answer) :
    Laden r flow (log ++ [⟨.call c, a⟩]) where
  suspensions := h.suspensions.append_other (Runner.not_suspends (K := fun _ => True) a trivial)
  strides := h.strides.append _

/-- A request to the host other than to sleep is no stride. -/
theorem not_strides_host {before : Transcript A} (request : HostRequest)
    (a : (Op.host (A := A) request).Answer) (hsleep : ∀ ms, request ≠ .sleep ms) :
    ¬ Strides r flow before ⟨.host request, a⟩ := by
  cases request with
  | sleep ms => exact absurd rfl (hsleep ms)
  | _ => cases flow <;> exact Bool.false_ne_true

/-- The rest of the host may work behind a piece, ... -/
theorem Laden.alive (h : Laden r flow log) : Spent r flow (log ++ [⟨.host .keepAlive, ()⟩]) where
  suspensions := h.suspensions.append _
  strides := h.strides.append (not_strides_host .keepAlive () fun _ => nofun)

/-- ... or behind a sleep. -/
theorem Cleared.slept (h : Cleared r flow log) (ms : Nat) :
    Spent r flow (log ++ [⟨.host (.sleep ms), ()⟩] ++ [⟨.host .keepAlive, ()⟩]) where
  suspensions := (h.suspensions.append _).append Runner.not_suspends_slept
  strides := (h.strides.append _).append (not_strides_host .keepAlive () fun _ => nofun)

/-- The host is asked whether it is shutting down. -/
theorem Spent.asked (h : Spent r flow log) (stop : Bool) :
    Spent r flow (log ++ [⟨.host .shutdownPending, stop⟩]) where
  suspensions := h.suspensions.append (Runner.not_suspends_host _ (fun _ => nofun) nofun)
  strides := h.strides.append (not_strides_host .shutdownPending _ fun _ => nofun)

/-- If it is not, the loop may take its next stride. -/
theorem Spent.goOn (h : Spent r flow log) : Cleared r flow (log ++ [.goOn]) where
  suspensions := h.suspensions.goOn (Runner.not_suspends_host _ (fun _ => nofun) nofun)
  strides := h.strides.goOn (not_strides_host .shutdownPending _ fun _ => nofun)

/-! ## The parts of a round -/

/-- The host's pointer lies before the fifo, so that publishing it is no stride. -/
theorem publish_outside {place : A.Addr} (hplace : place.toNat < r.fifoStart) (n : Nat) :
    (writeWord .full place n).run.Only (Op.Outside r) :=
  writeWord_within outside_of_inward fun _ => hplace

/-- Nor is a look at the partner's. -/
theorem partnerPointer_outside {place : A.Addr} (hplace : place.toNat < r.fifoStart) :
    Confined (Op.Outside r) Unseen (partnerPointer flow place) :=
  partnerPointer_within outside_of_inward hplace flow

/-- Nor is its check. -/
theorem checkPointer_outside (ptr : Nat) :
    Confined (A := A) (Op.Outside r) Unseen (e.checkPointer flow ptr) :=
  (checkPointer_inward flow ptr).weaken outside_of_inward

/-- An access to a block is reported and checked, and then there is one call at most. -/
theorem wp_access {told : Note} {a : A.Addr} {len : Nat} {c : Call A} (h : Cleared r flow log) :
    (recorder A).wp (fun _ => True)
      (do note told; checkFits a len; call c : Link A c.Answer).run
      (fun _ log => Laden r flow log) log := by
  refine wp_andThen (wp_kept kept_cleared trivial h fun _ h => wp_andThen ?_)
  rw [checkFits]
  split
  · refine wp_op trivial ?_
    rintro (e | _) <;> exact h.call _
  · exact wp_kept kept_cleared trivial h fun _ h => h.laden

/-- A piece that is written is one stride at most. -/
theorem wp_writeBuffer (a : A.Addr) (piece : List UInt8) (h : Cleared r flow log) :
    (recorder A).wp (fun _ => True) (writeBuffer a piece).run (fun _ log => Laden r flow log)
      log := by
  rw [writeBuffer]
  by_cases hpiece : piece = []
  · rw [if_pos hpiece]
    exact wp_andThen (wp_kept kept_cleared trivial h fun _ h => h.laden)
  · rw [if_neg hpiece]
    exact wp_access h

/-- So is one that is read. -/
theorem wp_readBuffer (a : A.Addr) (len : Nat) (h : Cleared r flow log) :
    (recorder A).wp (fun _ => True) (readBuffer a len).run (fun _ log => Laden r flow log)
      log := by
  rw [readBuffer]
  by_cases hlen : len = 0
  · rw [dif_pos hlen]
    exact wp_andThen (wp_kept kept_cleared trivial h fun _ h => h.laden)
  · rw [dif_neg hlen]
    exact wp_access h

/-- The loop goes on from a round that it may go on from, or it is over. -/
def Turned (r : Ring) (flow : Flow) (res : Except Error Unit × Progress) (log : Transcript A) :
    Prop :=
  match res.1 with
  | .ok _ => Cleared r flow log
  | .error _ => Spent r flow log

/-- The rest of the host works, and then it is asked. -/
theorem wp_giveWay_spaced (h : Spent r flow (log ++ [⟨.host .keepAlive, ()⟩])) :
    (recorder A).wp (fun _ => True) ((giveWay : StreamM A Unit).run.run p) (Turned r flow) log := by
  refine wp_op trivial fun _ => wp_op trivial fun stop => ?_
  cases stop with
  | false => exact h.goOn
  | true => exact h.asked true

/-- A loop that backs off sleeps, and asks whether the host is shutting down. -/
theorem wp_backOff_spaced (h : Cleared r flow log) :
    (recorder A).wp (fun _ => True) ((e.backOff : StreamM A Unit).run.run p) (Turned r flow) log :=
  wp_op trivial fun _ => wp_giveWay_spaced (h.slept _)

variable {next : StreamM A Unit}

/-- The first half of a round: the look, a report, and the check. -/
theorem wp_sight_spaced {place : A.Addr} (hplace : place.toNat < r.fifoStart)
    (h : Cleared r flow log) (report : Nat → Nat → Note) {next : Nat → StreamM A Unit}
    (hnext : ∀ ptr p log, Cleared r flow log →
      (recorder A).wp (fun _ => True) ((next ptr).run.run p) (fun _ => Spent r flow) log) :
    (recorder A).wp (fun _ => True) ((do
      let ptr ← partnerPointer flow place
      note (report (← get).stats.bytes ptr)
      e.checkPointer flow ptr
      next ptr : StreamM A Unit).run.run p) (fun _ => Spent r flow) log := by
  refine wp_seq (wp_mono (wp_confined kept_cleared (partnerPointer_outside hplace) h p) ?_)
  rintro ⟨err | ptr, p⟩ log ⟨h, -⟩
  · exact h.laden.spent
  · refine wp_get (wp_kept kept_cleared trivial h fun _ h => ?_)
    refine wp_seq (wp_mono (wp_confined kept_cleared (checkPointer_outside ptr) h p) ?_)
    rintro ⟨err | _, p⟩ log ⟨h, -⟩
    · exact h.laden.spent
    · exact hnext ptr p log h

/-- A round without room or data. -/
theorem wp_stall_spaced {stalls : Nat} (h : Cleared r flow log)
    (hnext : stalls < e.config.maxStalls → ∀ p log, Cleared r flow log →
      (recorder A).wp (fun _ => True) (next.run.run p) (fun _ => Spent r flow) log) :
    (recorder A).wp (fun _ => True) ((do
      e.backOff
      if _ : stalls < e.config.maxStalls then
        count fun s => { s with stalls := s.stalls + 1 }
        next
      else
        note .noProgress
        throw .streamTimeout : StreamM A Unit).run.run p) (fun _ => Spent r flow) log := by
  refine wp_seq (wp_mono (wp_backOff_spaced h) ?_)
  rintro ⟨err | _, p⟩ log hturned
  · exact hturned
  · split
    · next ht => exact wp_modify (hnext ht _ log hturned)
    · exact wp_kept kept_cleared trivial hturned fun _ h => h.laden.spent

/-- What comes behind a piece. -/
theorem wp_behind_spaced {place : A.Addr} (hplace : place.toNat < r.fifoStart) {len : Nat}
    {step : Nat × Bool} (h : Laden r flow log)
    (hnext : ∀ p log, Cleared r flow log →
      (recorder A).wp (fun _ => True) (next.run.run p) (fun _ => Spent r flow) log) :
    (recorder A).wp (fun _ => True) ((do
      countChunk len step.2
      writeWord .full place step.1
      giveWay
      next : StreamM A Unit).run.run p) (fun _ => Spent r flow) log := by
  refine wp_modify (wp_seq (wp_lift (wp_mono
    (wp_within kept_laden (publish_outside hplace _) h) ?_)))
  rintro (err | _) log ⟨h, -⟩
  · exact h.spent
  · refine wp_seq (wp_mono (wp_giveWay_spaced h.alive) ?_)
    rintro ⟨err | _, p⟩ log hturned
    · exact hturned
    · exact hnext p log hturned

/-- A round that hands a piece over. -/
theorem wp_hand_spaced {place : A.Addr} (hplace : place.toNat < r.fifoStart) {own len : Nat}
    {piece : List UInt8} {step : Nat × Bool} (h : Cleared r flow log)
    (hnext : ∀ p log, Cleared r flow log →
      (recorder A).wp (fun _ => True) (next.run.run p) (fun _ => Spent r flow) log) :
    (recorder A).wp (fun _ => True) ((do
      writeBuffer (← address (A := A) own) piece
      countChunk len step.2
      writeWord .full place step.1
      giveWay
      next : StreamM A Unit).run.run p) (fun _ => Spent r flow) log := by
  refine wp_seq (wp_lift (wp_mono (wp_within kept_cleared (address_only own) h) ?_))
  rintro (err | a) log ⟨h, -⟩
  · exact h.laden.spent
  · refine wp_seq (wp_lift (wp_mono (wp_writeBuffer a piece h) ?_))
    rintro (err | _) log h
    · exact h.spent
    · exact wp_behind_spaced hplace h hnext

/-- A round that takes a piece over. -/
theorem wp_take_spaced {place : A.Addr} (hplace : place.toNat < r.fifoStart) {own len : Nat}
    {step : Nat × Bool} (h : Cleared r flow log)
    (hnext : ∀ p log, Cleared r flow log →
      (recorder A).wp (fun _ => True) (next.run.run p) (fun _ => Spent r flow) log) :
    (recorder A).wp (fun _ => True) ((do
      let chunk ← readBuffer (← address (A := A) own) len
      receive chunk.val
      countChunk len step.2
      writeWord .full place step.1
      giveWay
      next : StreamM A Unit).run.run p) (fun _ => Spent r flow) log := by
  refine wp_seq (wp_lift (wp_mono (wp_within kept_cleared (address_only own) h) ?_))
  rintro (err | a) log ⟨h, -⟩
  · exact h.laden.spent
  · refine wp_seq (wp_lift (wp_mono (wp_readBuffer a len h) ?_))
    rintro (err | chunk) log h
    · exact h.spent
    · exact wp_modify (wp_behind_spaced hplace h hnext)

/-! ## The loops -/

/-- Between two strides of a write the host is asked whether it is shutting down. -/
theorem wp_feed_spaced {wpPlace rpPlace : A.Addr} (hwp : wpPlace.toNat < r.fifoStart)
    (hrp : rpPlace.toNat < r.fifoStart) (own : Nat) (rest : List UInt8) (stalls : Nat) :
    ∀ (p : Progress) (log : Transcript A), Cleared r .write log →
      (recorder A).wp (fun _ => True) ((e.feed wpPlace rpPlace own rest stalls).run.run p)
        (fun _ => Spent r .write) log := by
  induction own, rest, stalls using Engine.feed.induct e with
  | case1 own stalls =>
      intro p log h
      rw [feed, dif_pos rfl]
      exact h.laden.spent
  | case2 own rest stalls hne ihStall ihPiece =>
      intro p log h
      rw [feed, dif_neg hne]
      refine wp_sight_spaced hrp h (fun bytes rp => .progress bytes rest.length own rp) ?_
      intro rp p log h
      split
      · exact wp_stall_spaced h fun ht => ihStall rp ht
      · next hs => exact wp_hand_spaced hwp h (ihPiece rp hs)

/-- So it is between two strides of a read. -/
theorem wp_drain_spaced {wpPlace rpPlace : A.Addr} (hwp : wpPlace.toNat < r.fifoStart)
    (hrp : rpPlace.toNat < r.fifoStart) (own rest stalls : Nat) :
    ∀ (p : Progress) (log : Transcript A), Cleared r .read log →
      (recorder A).wp (fun _ => True) ((e.drain wpPlace rpPlace own rest stalls).run.run p)
        (fun _ => Spent r .read) log := by
  induction own, rest, stalls using Engine.drain.induct e with
  | case1 own stalls =>
      intro p log h
      rw [drain, dif_pos rfl]
      exact h.laden.spent
  | case2 own rest stalls hne ihStall ihPiece =>
      intro p log h
      rw [drain, dif_neg hne]
      refine wp_sight_spaced hwp h (fun bytes wp => .progress bytes rest wp own) ?_
      intro wp p log h
      split
      · exact wp_stall_spaced h fun ht => ihStall wp ht
      · next hs => exact wp_take_spaced hrp h (ihPiece wp hs)

/-- Both loops, from the beginning. -/
theorem wp_carry_spaced (e : Engine) (flow : Flow) (data : List UInt8) :
    (recorder A).wp (fun _ => True) ((e.carry flow data).run.run {})
      (fun _ => Spent e.ring flow) [] := by
  have hnil : Cleared (A := A) e.ring flow [] := ⟨free_nil, free_nil⟩
  -- an address that the core does not have ends it at once
  have hplaces : ∀ {f : A.Addr → A.Addr → StreamM A Unit},
      (∀ wpPlace rpPlace : A.Addr, wpPlace.toNat < e.ring.fifoStart →
        rpPlace.toNat < e.ring.fifoStart →
        (recorder A).wp (fun _ => True) ((f wpPlace rpPlace).run.run {})
          (fun _ => Spent e.ring flow) []) →
      (recorder A).wp (fun _ => True) ((do
        let wpPlace ← address (A := A) e.ring.wpAddr
        let rpPlace ← address (A := A) e.ring.rpAddr
        f wpPlace rpPlace : StreamM A Unit).run.run {}) (fun _ => Spent e.ring flow) [] := by
    intro f hf
    rw [address, address]
    cases hwp : A.addr? e.ring.wpAddr with
    | none => exact hnil.laden.spent
    | some wpPlace =>
        cases hrp : A.addr? e.ring.rpAddr with
        | none => exact hnil.laden.spent
        | some rpPlace =>
            refine hf wpPlace rpPlace ?_ ?_
            · rw [A.toNat_of_addr? hwp]
              exact Ring.own_lt .write
            · rw [A.toNat_of_addr? hrp]
              exact Ring.own_lt .read
  cases flow with
  | write => exact hplaces fun _ _ hwp hrp => wp_feed_spaced hwp hrp _ _ _ _ _ hnil
  | read => exact hplaces fun _ _ hwp hrp => wp_drain_spaced hwp hrp _ _ _ _ _ hnil

end Engine

/-! ## Around the loops -/

/-- Nothing is asked of the host. -/
abbrev Op.Alone : Op A → Prop :=
  Op.Inwardly fun _ => True

/-- A part of a run that asks nothing of the host does not pause. -/
theorem Confined.alone {σ τ : Type} {K : Op A → Prop} {view : σ → τ}
    {x : ExceptT Error (StateT σ (Dialogue A)) α} (hx : Confined (Op.Inwardly K) view x) :
    Confined Op.Alone (fun _ => ()) x :=
  (hx.weaken fun _ => .mono fun _ _ => trivial).through fun _ => ()

/-- Nor does a dialogue. -/
theorem Dialogue.Within.alone {K : Op A → Prop} {d : Dialogue A α} {Q : α → Prop}
    (hd : d.Within (Op.Inwardly K) Q) : d.Within Op.Alone Q :=
  hd.weaken fun _ => .mono fun _ _ => trivial

/-- What is no business of the host's is no pause. -/
theorem Op.Alone.not_pauses {event : Event A} (h : event.op.Alone) : event.pauses = false := by
  obtain ⟨op, a⟩ := event
  cases op with
  | host _ => exact h.elim
  | _ => rfl

namespace Runner

/-- A start goes through without a pause. -/
theorem start_alone : Confined Op.Alone (fun _ => ()) (start (A := A)) := by
  have hlaunch : Confined Op.Alone (fun _ => ()) (launch (A := A)) :=
    .bind load_confined.alone fun _ => .bind .get fun _ => .bind (.note trivial) fun _ =>
      .call trivial
  refine .bind .get fun h => ?_
  dsimp only
  split
  · exact .bind (.note trivial) fun _ => .throw_bind _ _
  · split
    · exact .throw_bind _ _
    · refine .bind (.lift requireHalted_glance.alone) fun _ => .bind (.outcome hlaunch) ?_
      rintro (e | _)
      · refine .bind (.outcome (disarm_quiet fun _ _ => rfl : Confined _ Held.standing _).alone) ?_
        exact fun _ => .bind (.outcome restoreContext_gentle.alone) fun _ => .throw _
      · exact .modify fun _ => rfl

end Runner

namespace Engine

variable {e : Engine} {flow : Flow} {patience : Nat} {h h₁ h' : Held A} {log : Transcript A}

/-- So does the beginning of a transfer. -/
theorem begin_alone : Confined Op.Alone (fun _ => ()) (e.begin (A := A) flow) := by
  refine .bind .get fun h => ?_
  dsimp only
  split
  · exact .bind (.note trivial) fun _ => .throw_bind _ _
  · refine .bind (.lift Runner.requireHalted_glance.alone) fun _ => ?_
    refine .bind (.lift (putPointer_data _ _).alone) fun _ => ?_
    refine .bind (.lift (putPointer_data _ _).alone) fun _ => ?_
    refine .bind (.outcome Runner.start_alone) ?_
    rintro (err | _)
    · exact .bind (.note trivial) fun _ => .throw _
    · exact .pure _

/-- So does the word to the algorithm. -/
theorem tell_alone (own : Nat) (moved : Except Error Unit) :
    (tell flow own moved : Dialogue A Unit).Only Op.Alone := by
  cases moved with
  | ok _ => trivial
  | error err =>
      refine Within.bind ((putPointer_data own 0).alone.mono ?_)
      rintro (err | _) _
      · exact ⟨trivial, fun _ => trivial⟩
      · trivial

/-- Nothing is asked of the host behind the wait, and nothing at all if that stays open. -/
theorem settle_alone {partner : Nat} {moved : Except Error Unit} {stats : Stats}
    {outcome : Outcome}
    (run : ((e.settle flow patience partner moved stats).run h₁).Path log (outcome, h')) :
    ∃ waiting last waited, log = waiting ++ last ∧
      ((Runner.wait patience e.config.waitTimeout).run.run h₁).Path waiting (waited, h') ∧
      (∀ event ∈ last, event.op.Alone) ∧
      (outcome = .undecided → waited = .ok .undecided ∧ last = []) := by
  obtain ⟨waiting, last, ⟨waited, h₂⟩, rfl, hwait, hlast⟩ := path_bind.mp run
  suffices h : h₂ = h' ∧ (∀ event ∈ last, event.op.Alone) ∧
      (outcome = .undecided → waited = .ok .undecided ∧ last = []) by
    obtain ⟨rfl, hends⟩ := h
    exact ⟨waiting, last, waited, rfl, hwait, hends⟩
  have hnote : ∀ told : Note, (⟨.note told, ()⟩ : Event A).op.Alone := fun _ => trivial
  -- by the wait: after it, nothing suspends the host
  match waited, hlast with
  | .error waitError, hlast =>
      obtain ⟨_, rest, rfl, hrest⟩ := path_ask.mp hlast
      cases moved <;>
      · obtain ⟨rfl, heq⟩ := path_done.mp hrest
        cases heq
        exact ⟨rfl, List.forall_mem_singleton.mpr (hnote _), nofun⟩
  | .ok .undecided, hlast =>
      obtain ⟨rfl, heq⟩ := path_done.mp hlast
      cases heq
      exact ⟨rfl, List.forall_mem_nil _, fun _ => ⟨rfl, rfl⟩⟩
  | .ok .completed, hlast =>
      cases moved with
      | error err =>
          obtain ⟨rfl, heq⟩ := path_done.mp hlast
          cases heq
          exact ⟨rfl, List.forall_mem_nil _, nofun⟩
      | ok _ =>
          have hread : (lastLook partner : Link A Nat).run.Only Op.Alone :=
            .andThen (address_data partner).alone fun _ => (readWord_gentle _ _).alone
          suffices hends : (∀ event ∈ last, event.op.Alone) ∧ h₂ = h' ∧ outcome ≠ .undecided by
            exact ⟨hends.2.1, hends.1, fun hu => absurd hu hends.2.2⟩
          refine Within.path (Q := fun r : Outcome × Held A => h₂ = r.2 ∧ r.1 ≠ .undecided) ?_ hlast
          refine Within.bind (Within.bind (hread.mono ?_))
          rintro (err | ptr) _
          · exact ⟨rfl, nofun⟩
          · cases ptr with
            | zero => exact ⟨trivial, fun _ => ⟨rfl, nofun⟩⟩
            | succ ptr => exact ⟨rfl, nofun⟩

/-- The host heeds a request to stop in its loop and in the wait that follows. -/
structure Heeds (e : Engine) (flow : Flow) (patience : Nat) (moving log : Transcript A)
    (waited : Except Error Runner.Settled) (outcome : Outcome) (h₁ h' : Held A) : Prop where
  /-- Between two suspensions of the loop it asks, and is told to go on. -/
  loop : moving.Spaced Event.Suspends
  /-- Without that there is one more piece in the loop, or one more sleep, ... -/
  strides : moving.Curbed (Event.strides e.ring flow) 1
  /-- ... and two more sleeps at all. -/
  pauses : log.Curbed Event.pauses 2
  /-- Then the transfer comes to an end. -/
  ends : 0 < patience → ∀ early late, log = early ++ late → late.Cancelled → late ≠ [] →
    outcome ≠ .undecided
  /-- The algorithm is left where it is if the wait was interrupted. -/
  kept : waited = .error .interrupted → h' = h₁ ∧ h'.busy = true

/-- A transfer heeds the host once its algorithm runs. -/
theorem transfer_heeds {data : List UInt8} {begun rest : Transcript A} {outcome : Outcome}
    (hbegun : ((e.begin flow).run.run h).Path begun (.ok (), h₁))
    (run : ((e.transfer patience flow data).run h).Path (begun ++ rest) (outcome, h')) :
    ∃ moving told waiting last moved p waited,
      rest = moving ++ (told ++ (waiting ++ last)) ∧
      ((e.carry flow data).run.run {}).Path moving (moved, p) ∧
      ((Runner.wait patience e.config.waitTimeout).run.run h₁).Path waiting (waited, h') ∧
      (∀ event ∈ begun ++ (told ++ last), event.op.Alone) ∧
      e.Heeds flow patience moving (begun ++ rest) waited outcome h₁ h' := by
  obtain ⟨moving, after, moved, p, rfl, hmoving, hafter⟩ := transfer_path hbegun run
  obtain ⟨told, settling, rfl, htold, hsettling⟩ := conclude_parts hafter
  obtain ⟨waiting, last, waited, rfl, hwait, hlast, hundecided⟩ := settle_alone hsettling
  have hspent : Spent e.ring flow moving :=
    wp_path (fun _ _ _ => trivial) (wp_carry_spaced e flow data) hmoving
  have hheeded := Runner.wait_heeds hwait
  have halone : (∀ event ∈ begun, event.op.Alone) ∧ ∀ event ∈ told, event.op.Alone :=
    ⟨((begin_alone h).path hbegun).1, ((tell_alone _ moved).path htold).1⟩
  obtain ⟨hbegunAlone, htoldAlone⟩ := halone
  have hnone : ∀ {log : Transcript A}, (∀ event ∈ log, event.op.Alone) →
      log.Curbed Event.pauses 0 :=
    fun h => curbed_none fun event hm => (h event hm).not_pauses
  refine ⟨moving, told, waiting, last, moved, p, waited, rfl, hmoving, hwait, ?_,
    hspent.suspensions, ?_, ?_, ?_, ?_⟩
  · intro event hm
    rcases List.mem_append.mp hm with hm | hm
    · exact hbegunAlone event hm
    · exact (List.mem_append.mp hm).elim (htoldAlone event) (hlast event)
  · exact hspent.strides.curbed fun _ _ => id
  · -- one sleep in each of the two loops
    have hloop : moving.Curbed Event.pauses 1 := hspent.suspensions.curbed fun _ _ => Or.inl
    have hwaiting : waiting.Curbed Event.pauses 1 := hheeded.1.curbed fun _ _ => Or.inl
    exact (hnone hbegunAlone).append (hloop.append ((hnone htoldAlone).append
      (hwaiting.append (hnone hlast))))
  · intro hpatience early late hlog hlate hne hu
    obtain ⟨hwaited, rfl⟩ := hundecided hu
    rcases hheeded.2.1 hwaited with hz | hwaitingLast
    · exact Nat.ne_of_gt hpatience hz
    · have hwne : waiting ≠ [] := by
        rintro rfl
        cases hwaitingLast
      have hlast : (early ++ late).getLast? = some .goOn → late = [] := hlate.eq_nil
      refine hne (hlast ?_)
      rw [← hlog, List.append_nil, List.getLast?_append_of_ne_nil _ (by simp [hwne]),
        List.getLast?_append_of_ne_nil _ (by simp [hwne]),
        List.getLast?_append_of_ne_nil _ hwne, hwaitingLast]
  · intro hinterrupted
    obtain rfl : h' = h₁ := hheeded.2.2 hinterrupted
    exact ⟨rfl, ((begin_guard h).path hbegun).2.2.1⟩

end Engine

/-- CANCELLATION IS PROMPT.  Whatever the target and the host answer: between any two suspensions of
    one loop the host has asked whether it is shutting down, and was told that it is not.  So from
    the moment on that it is, a wait sleeps once more at most, and an interrupted one changes
    nothing; a transfer moves one more piece at most, or sleeps once more in its loop, and once more
    in its wait, and then it is over.  What is around the two loops asks nothing of the host. -/
theorem cancellation_prompt :
    (∀ (patience timeout : Nat) (h h' : Held A) (log : Transcript A)
      (waited : Except Error Runner.Settled),
      ((Runner.wait patience timeout).run.run h).Path log (waited, h') →
      log.Spaced Event.Suspends ∧ log.Curbed Event.pauses 1 ∧
      (0 < patience → ∀ early late, log = early ++ late → late.Cancelled → late ≠ [] →
        waited ≠ .ok .undecided) ∧
      (waited = .error .interrupted → h' = h)) ∧
    ∀ (e : Engine) (flow : Flow) (patience : Nat) (data : List UInt8) (h h' : Held A)
      (log : Transcript A) (outcome : Outcome),
      ((e.transfer patience flow data).run h).Path log (outcome, h') →
      ((∃ err, outcome = .failed { offset := 0, error := err }) ∧
        ∀ event ∈ log, event.op.Alone) ∨
      ∃ begun moving told waiting last h₁ moved p waited,
        log = begun ++ (moving ++ (told ++ (waiting ++ last))) ∧
        ((e.begin flow).run.run h).Path begun (.ok (), h₁) ∧
        ((e.carry flow data).run.run {}).Path moving (moved, p) ∧
        ((Runner.wait patience e.config.waitTimeout).run.run h₁).Path waiting (waited, h') ∧
        (∀ event ∈ begun ++ (told ++ last), event.op.Alone) ∧
        e.Heeds flow patience moving log waited outcome h₁ h' := by
  constructor
  · intro patience timeout h h' log waited run
    have hheeded := Runner.wait_heeds run
    exact ⟨hheeded.1, hheeded.1.curbed fun _ _ => Or.inl,
      fun hpatience _ _ => hheeded.ends hpatience, hheeded.2.2⟩
  · intro e flow patience data h h' log outcome run
    rcases Engine.transfer_cases run with ⟨err, houtcome, hrefused⟩ | ⟨begun, rest, h₁, rfl, hbegun⟩
    · refine Or.inl ⟨⟨err, houtcome⟩, ?_⟩
      rcases hrefused with ⟨-, -, rfl, -⟩ | hbegun
      · exact List.forall_mem_nil _
      · exact ((Engine.begin_alone h).path hbegun).1
    · obtain ⟨moving, told, waiting, last, moved, p, waited, rfl, hmoving, hwait, halone, hheeds⟩ :=
        Engine.transfer_heeds hbegun run
      exact Or.inr ⟨begun, moving, told, waiting, last, h₁, moved, p, waited, rfl, hbegun, hmoving,
        hwait, halone, hheeds⟩

namespace Stopped

open Engine Engine.GivesUp

/-- The loop hands a byte over, and then the host shuts down. -/
def loop : Transcript (plainCore 32) :=
  GivesUp.loop.dropLast ++ [⟨.host .shutdownPending, true⟩]

/-- The word to the algorithm. -/
def told : Transcript (plainCore 32) :=
  [⟨.feature .endian, Endian.little⟩, ⟨.note (.word 0x1000 0), ()⟩,
    ⟨.call (.write 0x1000#32 [0, 0, 0, 0]), .ok ()⟩]

/-- The wait sleeps once, and is interrupted. -/
def wait : Transcript (plainCore 32) :=
  [⟨.host .now, (0 : UInt64)⟩, ⟨.call .poll, .ok .running⟩, ⟨.host .now, (0 : UInt64)⟩,
    ⟨.host (.sleep 1), ()⟩, ⟨.host .keepAlive, ()⟩, ⟨.host .shutdownPending, true⟩]

/-- What the transfer reports. -/
def report : Outcome :=
  .failed { offset := 1, error := .interrupted, waitError := some .interrupted }

/-- The loop of that transfer hands over one byte and finds the host shutting down. -/
theorem looped : ((Engine.feedAll (A := plainCore 32) ⟨.twoWords, {}⟩ [1]).run.run {}).Path loop
    (.error .interrupted, { stats := { bytes := 1, chunks := 1 } }) := by
  show (((⟨.twoWords, {}⟩ : Engine).feed (A := plainCore 32) 0x1000#32 0x1004#32 0x1008 [1]
    0).run.run {}).Path _ _
  rw [feed]
  exact .ask _ (.ask _ (.ask _ (.ask _ (.ask _ (.ask _ (.ask _ (.ask _ (.ask _ (.ask _
    (.ask _ (.done _)))))))))))

/-- All of it, with the wait that is cut short as well. -/
theorem ran : ((Engine.transfer ⟨.twoWords, {}⟩ 1 .write [1]).run idle).Path
    (start ++ (loop ++ (told ++ (wait ++ [⟨.note (.waitFailed .write), ()⟩]))))
    (report, started .started true [(.pc, 0x40#32)]) := by
  refine path_bind.mpr ⟨start, _, _, rfl, begun, ?_⟩
  refine path_bind.mpr ⟨loop, _, ((.error .interrupted, { stats := { bytes := 1, chunks := 1 } }),
    _), rfl, path_bind.mpr ⟨loop, [], _, rfl, looped, .done _⟩, ?_⟩
  exact .ask _ (.ask _ (.ask _ (.ask _ (.ask _ (.ask _ (.ask _ (.ask _ (.ask _ (.ask _
    (.done _))))))))))

end Stopped

/-- The host shuts down behind the only byte: the zero is written, the wait sleeps once, and the
    target stays busy. -/
theorem cancellation_prompt_stopped :
    ((Engine.transfer ⟨.twoWords, {}⟩ 1 .write [1]).run Engine.GivesUp.idle).Path
      (Engine.GivesUp.start ++ (Stopped.loop ++ (Stopped.told ++
        (Stopped.wait ++ [⟨.note (.waitFailed .write), ()⟩]))))
      (Stopped.report, Engine.GivesUp.started .started true [(.pc, 0x40#32)]) ∧
    ∃ (moving waiting : Transcript (plainCore 32)) (waited : Except Error Runner.Settled)
      (h₁ : Held (plainCore 32)),
      Engine.Heeds ⟨.twoWords, {}⟩ .write 1 moving
        (Engine.GivesUp.start ++ (Stopped.loop ++ (Stopped.told ++
          (Stopped.wait ++ [⟨.note (.waitFailed .write), ()⟩])))) waited Stopped.report h₁
        (Engine.GivesUp.started .started true [(.pc, 0x40#32)]) ∧
      waiting.Curbed Event.pauses 1 := by
  refine ⟨Stopped.ran, ?_⟩
  rcases cancellation_prompt.2 ⟨.twoWords, {}⟩ .write 1 [1] _ _ _ _ Stopped.ran with
    ⟨⟨err, houtcome⟩, -⟩ | ⟨_, moving, _, waiting, _, h₁, _, _, waited, -, -, -, hwait, -, hheeds⟩
  · cases houtcome
  · exact ⟨moving, waiting, waited, h₁, hheeds, (cancellation_prompt.1 _ _ _ _ _ _ hwait).2.1⟩

end DebugLink
