import DebugLink.Arch.Plain
import DebugLink.Proofs.Area.InSpace
import DebugLink.Proofs.Runner.OneAtATime
import DebugLink.Proofs.Transfer.Outcome
import DebugLink.Proofs.Transfer.Rounds

/-!
# Transfers stay in the address space

A ring is described without a target: its addresses are numbers below 2³², and those of the core may
be fewer.  The two words of a ring are accessed without a check of the range.  NONE IS NEEDED, since
they begin on a word, and the address space is made of words (`word_fits`).  A piece is checked, and
refused if it does not fit.

* `begin_checked`, `carry_inSpace` and `conclude_checked` are the three parts of a transfer.
* `Event.Overruns` is what precedes a piece that does not fit: the report of a round.  `Upright`
  says that it is the last piece of news from the loop, and that the loop fails accordingly.
* `AccessesFit` puts together what is known of areas, runners and transfers.
-/

namespace DebugLink

open Environment Dialogue Transcript

variable {A : Arch} {α β τ : Type}

/-- A word of the address space ends in it if it begins on a word. -/
theorem word_fits (hw : 2 ≤ A.width) {n : Nat} {a : A.Addr} (ha : A.addr? n = some a)
    (hn : n % 4 = 0) : a.toNat + 4 ≤ 2 ^ A.width := by
  have hdvd : 4 ∣ 2 ^ A.width := Nat.pow_dvd_pow 2 hw
  have hlt := a.isLt
  rw [A.toNat_of_addr? ha] at hlt ⊢
  omega

namespace Ring

variable {r : Ring}

/-- The write pointer is on a word, ... -/
theorem wpAddr_word : r.wpAddr % 4 = 0 :=
  r.aligned

/-- ... and so is the read pointer, ... -/
theorem rpAddr_word : r.rpAddr % 4 = 0 := by
  rw [rpAddr, Nat.add_mod_right]
  exact r.aligned

/-- ... whichever of them is the host's, ... -/
theorem own_word (flow : Flow) : r.own flow % 4 = 0 := by
  cases flow with
  | write => exact wpAddr_word
  | read => exact rpAddr_word

/-- ... and whichever the algorithm's. -/
theorem partner_word (flow : Flow) : r.partner flow % 4 = 0 := by
  cases flow with
  | write => exact rpAddr_word
  | read => exact wpAddr_word

end Ring

namespace Engine

variable {e : Engine} {flow : Flow} {h : Held A} {p : Progress} {log : Transcript A}

/-! ## Pointer words -/

/-- The address is there, or nothing is done. -/
theorem address_confined {K : Op A → Prop} {k : Nat} {f : A.Addr → StreamM A α}
    (hf : ∀ a, A.addr? k = some a → Confined K Unseen (f a)) :
    Confined K Unseen (do
      let a ← Engine.address (A := A) k
      f a : StreamM A α) := by
  intro p
  rw [Engine.address]
  cases ha : A.addr? k with
  | none => exact rfl
  | some a => exact hf a ha p

/-- A word on a word boundary does not run past the end of an address space made of words. -/
theorem putPointer_checked (hw : 2 ≤ A.width) {place : Nat} (hplace : place % 4 = 0) (v : Nat) :
    (putPointer place v : Link A Unit).run.Only Op.Checked := by
  rw [putPointer, address]
  cases ha : A.addr? place with
  | none => trivial
  | some a =>
      refine writeWord_within (fun _ h => h.kind.apart.checked) fun order => ⟨⟨?_, ?_⟩, trivial⟩
      · rw [Endian.length_encode]
        decide
      · rw [Endian.length_encode]
        exact word_fits hw ha hplace

/-- So the last look does not either. -/
theorem lastLook_checked (hw : 2 ≤ A.width) {place : Nat} (hplace : place % 4 = 0) :
    (lastLook place : Link A Nat).run.Only Op.Checked := by
  rw [lastLook, address]
  cases ha : A.addr? place with
  | none => trivial
  | some a =>
      refine readWord_within (fun _ h => h.kind.apart.checked) ⟨⟨by decide, ?_⟩, trivial⟩
      exact word_fits hw ha hplace

/-- Starting the algorithm, ... -/
theorem begin_checked (hw : 2 ≤ A.width) :
    Confined Op.Checked (fun _ => ()) (e.begin (A := A) flow) := by
  refine .bind .get fun h => ?_
  dsimp only
  split
  · exact .bind (.note ⟨trivial, trivial⟩) fun _ => .throw_bind _ _
  · refine .bind (.lift (Runner.requireHalted_apart.weaken fun _ => Op.Apart.checked)) fun _ => ?_
    refine .bind (.lift (putPointer_checked hw Ring.wpAddr_word _)) fun _ => ?_
    refine .bind (.lift (putPointer_checked hw Ring.rpAddr_word _)) fun _ => ?_
    refine .bind (.outcome Runner.start_checked) ?_
    rintro (err | _)
    · exact .bind (.note ⟨trivial, trivial⟩) fun _ => .throw _
    · exact .pure _

/-- ... and seeing to its end. -/
theorem conclude_checked (hw : 2 ≤ A.width) (e : Engine) (flow : Flow) (patience : Nat)
    (moved : Except Error Unit) (stats : Stats) (h : Held A) :
    ((e.conclude flow patience (e.ring.own flow) (e.ring.partner flow) moved stats).run h).Only
      Op.Checked := by
  have hwait := Runner.wait_checked (A := A) patience e.config.waitTimeout h
  exact conclude_held (P := fun _ => True) (fun _ h => h.apart.checked)
    (hwait.mono fun _ _ => trivial) (putPointer_checked hw (Ring.own_word flow) 0)
    (lastLook_checked hw (Ring.partner_word flow)) flow moved stats

/-! ## The loops -/

section Loops

variable {wpPlace rpPlace : A.Addr}

/-- Without a call there is no access. -/
theorem offline_inSpace (op : Op A) (h : op.Offline) : op.InSpace :=
  h.apart.inSpace

/-- A look at the partner's pointer stays inside if the pointer does. -/
theorem sight_inSpace {place : A.Addr} (hplace : place.toNat + 4 ≤ 2 ^ A.width) :
    Confined (A := A) Op.InSpace Unseen (partnerPointer flow place) :=
  partnerPointer_within (fun op h => offline_inSpace op h.kind) ⟨by decide, hplace⟩ flow

/-- So does publishing the host's. -/
theorem publish_inSpace {place : A.Addr} (hplace : place.toNat + 4 ≤ 2 ^ A.width) (n : Nat) :
    (writeWord .full place n : Link A Unit).run.Only Op.InSpace := by
  refine writeWord_within (fun op h => offline_inSpace op h.kind) fun order => ?_
  rw [Op.InSpace, Endian.length_encode]
  exact ⟨by decide, hplace⟩

/-- A write accesses the two pointers, and blocks that were checked. -/
theorem feed_inSpace (hwp : wpPlace.toNat + 4 ≤ 2 ^ A.width)
    (hrp : rpPlace.toNat + 4 ≤ 2 ^ A.width) (wp : Nat) (rest : List UInt8) (stalls : Nat) :
    Confined Op.InSpace Unseen (e.feed wpPlace rpPlace wp rest stalls) := by
  induction wp, rest, stalls using Engine.feed.induct e with
  | case1 wp stalls =>
      rw [feed, dif_pos rfl]
      exact .pure _
  | case2 wp rest stalls hne ihStall ihPiece =>
      rw [feed, dif_neg hne]
      refine .bind (sight_inSpace hrp) fun rp => .bind .get fun _ => ?_
      refine .bind (.note trivial) fun _ => ?_
      refine .bind ((checkPointer_offline _ _).weaken offline_inSpace) fun _ => ?_
      split
      · refine .bind (backOff_offline.weaken offline_inSpace) fun _ => ?_
        split
        · next ht => exact .bind (.modify fun _ => rfl) fun _ => ihStall rp ht
        · exact .bind (.note trivial) fun _ => .throw _
      · next hs =>
        have hpiece := fun a bs =>
          (writeBuffer_checked (A := A) a bs).weaken fun _ => Op.Checked.inSpace
        refine .bind (.lift (address_only _)) fun a => .bind (.lift (hpiece a _)) fun _ => ?_
        refine .bind (.modify fun _ => rfl) fun _ => ?_
        refine .bind (.lift (publish_inSpace hwp _)) fun _ => ?_
        exact .bind (giveWay_offline.weaken offline_inSpace) fun _ => ihPiece rp hs

/-- So does a read. -/
theorem drain_inSpace (hwp : wpPlace.toNat + 4 ≤ 2 ^ A.width)
    (hrp : rpPlace.toNat + 4 ≤ 2 ^ A.width) (rp rest stalls : Nat) :
    Confined Op.InSpace Unseen (e.drain wpPlace rpPlace rp rest stalls) := by
  induction rp, rest, stalls using Engine.drain.induct e with
  | case1 rp stalls =>
      rw [drain, dif_pos rfl]
      exact .pure _
  | case2 rp rest stalls hne ihStall ihPiece =>
      rw [drain, dif_neg hne]
      refine .bind (sight_inSpace hwp) fun wp => .bind .get fun _ => ?_
      refine .bind (.note trivial) fun _ => ?_
      refine .bind ((checkPointer_offline _ _).weaken offline_inSpace) fun _ => ?_
      split
      · refine .bind (backOff_offline.weaken offline_inSpace) fun _ => ?_
        split
        · next ht => exact .bind (.modify fun _ => rfl) fun _ => ihStall wp ht
        · exact .bind (.note trivial) fun _ => .throw _
      · next hs =>
        have hpiece := fun a n =>
          (readBuffer_checked (A := A) a n).weaken fun _ => Op.Checked.inSpace
        refine .bind (.lift (address_only _)) fun a => .bind (.lift (hpiece a _)) fun _ => ?_
        refine .bind (.modify fun _ => rfl) fun _ => .bind (.modify fun _ => rfl) fun _ => ?_
        refine .bind (.lift (publish_inSpace hrp _)) fun _ => ?_
        exact .bind (giveWay_offline.weaken offline_inSpace) fun _ => ihPiece wp hs

/-- Both loops, from the beginning. -/
theorem carry_inSpace (hw : 2 ≤ A.width) (e : Engine) (flow : Flow) (data : List UInt8) :
    Confined (A := A) Op.InSpace Unseen (e.carry flow data) := by
  cases flow with
  | write =>
      refine address_confined fun wpPlace hwp => address_confined fun rpPlace hrp => ?_
      have hwp4 := word_fits hw hwp Ring.wpAddr_word
      exact feed_inSpace hwp4 (word_fits hw hrp Ring.rpAddr_word) _ _ _
  | read =>
      refine address_confined fun wpPlace hwp => address_confined fun rpPlace hrp => ?_
      have hwp4 := word_fits hw hwp Ring.wpAddr_word
      exact drain_inSpace hwp4 (word_fits hw hrp Ring.rpAddr_word) _ _ _

end Loops

end Engine

/-! ## Pieces that do not fit -/

/-- The host's pointer, of the two that a round goes by. -/
def Flow.own : Flow → (wp rp : Nat) → Nat
  | .write, wp, _ => wp
  | .read, _, rp => rp

/-- The partner's pointer. -/
def Flow.partner : Flow → (wp rp : Nat) → Nat
  | .write, _, rp => rp
  | .read, wp, _ => wp

/-- The room that a round finds. -/
def Ring.room (r : Ring) (flow : Flow) (wp rp : Nat) : Nat :=
  r.space flow (flow.own wp rp) (flow.partner wp rp)

/-- It is reported where a round stands, the partner's pointer will do, and there is room for a
    piece; but this one, of `len` bytes at `own`, runs past the end of the address space. -/
def Event.Overruns (r : Ring) (flow : Flow) (own len : Nat) : Event A → Prop
  | ⟨.note (.progress _ left wp rp), _⟩ =>
      r.isValidPtr (flow.partner wp rp) = true ∧ r.room flow wp rp ≠ 0 ∧
        own = flow.own wp rp ∧ len = trimChunk rp (min (r.room flow wp rp) left) ∧
        2 ^ A.width < own + len
  | _ => False

/-- How a transfer fails for it: there is no address for the piece, or no room. -/
def Arch.overrun (A : Arch) (own len : Nat) : Error :=
  if own < 2 ^ A.width then .addressWrap own len
  else .invalidRing "buffer lies outside the target's address space"

/-- If a piece does not fit, then nothing is exchanged with the target from there on, and that is
    the failure. -/
def Transcript.Upright (r : Ring) (flow : Flow) (log : Transcript A) (res : Except Error α) :
    Prop :=
  ∀ (before : Transcript A) event (after : Transcript A) own len, log = before ++ event :: after →
    event.Overruns r flow own len → after.exchanges = [] ∧ res = .error (A.overrun own len)

/-- Only a report of the pointers tells of a piece that does not fit. -/
theorem Op.Mute.not_overruns {r : Ring} {flow : Flow} {event : Event A} (h : event.op.Mute)
    (own len : Nat) : ¬ event.Overruns r flow own len := by
  intro hover
  obtain ⟨op, a⟩ := event
  cases op with
  | note n =>
      cases n with
      | progress => exact h
      | _ => exact hover
  | _ => exact hover

namespace Transcript.Upright

variable {r : Ring} {flow : Flow} {l₁ l₂ : Transcript A} {res : Except Error α} {event : Event A}

/-- Without such a report there is nothing to answer for. -/
theorem of_mute (h : ∀ event ∈ l₁, event.op.Mute) : l₁.Upright r flow res := by
  rintro before event after own len rfl hover
  have hm := List.mem_append_right before (List.mem_cons_self (a := event) (l := after))
  exact absurd hover ((h event hm).not_overruns own len)

/-- A report of the pointers, and what follows it. -/
theorem cons (hevent : ∀ own len, event.Overruns r flow own len →
    l₂.exchanges = [] ∧ res = .error (A.overrun own len)) (h : l₂.Upright r flow res) :
    Upright r flow (event :: l₂) res := by
  intro before event' after own len heq hover
  cases before with
  | nil =>
      obtain ⟨rfl, rfl⟩ := List.cons.inj heq
      exact hevent own len hover
  | cons first before =>
      obtain ⟨rfl, rfl⟩ := List.cons.inj heq
      exact h before event' after own len rfl hover

/-- What comes before the first such report does not matter. -/
theorem append (hnone : ∀ event ∈ l₁, ∀ own len, ¬ event.Overruns r flow own len)
    (h : l₂.Upright r flow res) : Upright r flow (l₁ ++ l₂) res := by
  induction l₁ with
  | nil => exact h
  | cons event l₁ ih =>
      obtain ⟨hevent, hrest⟩ := List.forall_mem_cons.mp hnone
      exact cons (fun own len hover => absurd hover (hevent own len)) (ih hrest)

/-- Where nothing failed, every piece fits. -/
theorem none {a : α} (h : l₁.Upright r flow (.ok a)) :
    ∀ event ∈ l₁, ∀ own len, ¬ event.Overruns r flow own len := by
  intro event hm own len hover
  obtain ⟨before, after, rfl⟩ := List.append_of_mem hm
  exact absurd (h before event after own len rfl hover).2 nofun

/-- A failure is handed on, whatever would have been the result. -/
theorem of_error {err : Error} (h : l₁.Upright r flow (.error err : Except Error α)) :
    l₁.Upright r flow (.error err : Except Error β) := by
  intro before event after own len heq hover
  obtain ⟨hafter, hres⟩ := h before event after own len heq hover
  exact ⟨hafter, congrArg Except.error (Except.error.inj hres)⟩

end Transcript.Upright

namespace Engine

variable {e : Engine} {flow : Flow} {h h' : Held A} {p : Progress} {log : Transcript A}

/-- Whatever is answered to it, it is upright. -/
def Forthright (r : Ring) (flow : Flow) (x : StreamM A α) : Prop :=
  ∀ p log y, (x.run.run p).Path log y → log.Upright r flow y.1

namespace Forthright

variable {r : Ring} {x : StreamM A α} {f : α → StreamM A β}

/-- A part of a transfer that does not report the pointers tells of no piece. -/
theorem of_confined (hx : Confined Op.Mute Unseen x) : Forthright r flow x :=
  fun p _ _ run => .of_mute ((hx p).path run).1

/-- A failure of the first part is that of the whole; without one, the second answers for itself. -/
theorem bind (hx : Forthright r flow x) (hf : ∀ a, Forthright r flow (f a)) :
    Forthright r flow (x >>= f) := by
  intro p log y run
  rcases path_seq run with ⟨l₁, l₂, a, p', rfl, h₁, h₂⟩ | ⟨err, p', rfl, h₁⟩
  · exact .append (hx _ _ _ h₁).none (hf a _ _ _ h₂)
  · exact (hx _ _ _ h₁).of_error

/-- Without calls and reports there is nothing to tell. -/
theorem of_offline (hx : Confined Op.Offline Unseen x) : Forthright r flow x :=
  .of_confined (hx.weaken fun _ h => h.apart.mute)

/-- Nor where every block was checked. -/
theorem of_checked {x : Link A α} (hx : x.run.Only Op.Checked) :
    Forthright r flow (liftM x : StreamM A α) :=
  .of_confined (.lift (hx.weaken fun _ => Op.Checked.mute))

/-- The host's pointer is published, and the loop goes on. -/
theorem publish {place : A.Addr} {n : Nat} {next : StreamM A Unit}
    (hnext : Forthright r flow next) :
    Forthright r flow (do
      writeWord .full place n
      giveWay
      next : StreamM A Unit) := by
  have hpublish : (writeWord .full place n : Link A Unit).run.Only Op.Mute :=
    writeWord_within (fun _ h => h.kind.apart.mute) fun _ => trivial
  refine .bind (.of_confined (.lift hpublish)) fun _ => ?_
  exact .bind (.of_offline giveWay_offline) fun _ => hnext

/-- A round: the look, a report, the check, and what follows. If the report is of a piece that does
    not fit, it all depends on what follows. -/
theorem round {place : A.Addr} (report : Nat → Nat → Note) {next : Nat → StreamM A Unit}
    (hover : ∀ bytes ptr own len,
      (⟨.note (report bytes ptr), ()⟩ : Event A).Overruns e.ring flow own len →
      e.ring.isValidPtr ptr = true ∧ ∀ p log y, ((next ptr).run.run p).Path log y →
        log.exchanges = [] ∧ y.1 = .error (A.overrun own len))
    (hnext : ∀ ptr, Forthright e.ring flow (next ptr)) :
    Forthright e.ring flow (do
      let ptr ← partnerPointer flow place
      note (report (← get).stats.bytes ptr)
      e.checkPointer flow ptr
      next ptr : StreamM A Unit) := by
  have hlook : Confined (A := A) Op.Mute Unseen (partnerPointer flow place) :=
    partnerPointer_within (fun _ h => h.kind.apart.mute) trivial flow
  refine .bind (.of_confined hlook) fun ptr => ?_
  intro p log y run
  obtain ⟨_, rest, rfl, hrest⟩ := path_ask.mp (path_get.mp run)
  have hgo : Forthright e.ring flow (do e.checkPointer flow ptr; next ptr) :=
    .bind (.of_offline (checkPointer_offline flow ptr)) fun _ => hnext ptr
  refine .cons (fun own len hover' => ?_) (hgo _ _ _ hrest)
  obtain ⟨hvalid, hfails⟩ := hover _ _ own len hover'
  rcases path_seq hrest with ⟨l₁, l₂, _, p', rfl, hcheck, hafter⟩ | ⟨err, p', rfl, hcheck⟩
  · rcases check_path hcheck with ⟨rfl, heq, -⟩ | ⟨_, _, _, heq, -⟩
    · cases heq
      exact hfails _ _ _ hafter
    · cases heq
  · rcases check_path hcheck with ⟨_, heq, -⟩ | ⟨_, _, _, -, -, hinvalid⟩
    · cases heq
    · rw [hvalid] at hinvalid
      cases hinvalid

/-- A round without room or data. -/
theorem stall {stalls : Nat} {next : StreamM A Unit}
    (hnext : stalls < e.config.maxStalls → Forthright r flow next) :
    Forthright r flow (do
      e.backOff
      if _ : stalls < e.config.maxStalls then
        count fun s => { s with stalls := s.stalls + 1 }
        next
      else
        note .noProgress
        throw .streamTimeout : StreamM A Unit) := by
  refine .bind (.of_offline backOff_offline) fun _ => ?_
  split
  · next ht => exact .bind (.of_offline (.modify fun _ => rfl)) fun _ => hnext ht
  · exact .of_offline (.bind (.note trivial) fun _ => .throw _)

end Forthright

/-- The core has an address for every number below the end of the address space, and no other. -/
theorem addr?_eq_none {n : Nat} : A.addr? n = none ↔ 2 ^ A.width ≤ n := by
  rw [Arch.addr?]
  split
  · next hle => exact ⟨nofun, fun hge => absurd hge (Nat.not_le_of_lt (Areas.le_top_iff.mp hle))⟩
  · next hnot => exact ⟨fun _ => Nat.le_of_not_lt (mt Areas.le_top_iff.mpr hnot), fun _ => rfl⟩

/-- An access to a piece that does not fit: there is no address for it, or the access is refused. -/
theorem piece_overruns {own len : Nat} {x : A.Addr → Link A α} {f : α → StreamM A β}
    {y : Except Error β × Progress} (hover : 2 ^ A.width < own + len)
    (hx : ∀ {a : A.Addr} {log : Transcript A} {res}, 2 ^ A.width < a.toNat + len →
      (x a).run.Path log res → log.exchanges = [] ∧ res = .error (.addressWrap a.toNat len))
    (run : ((do
      let b ← x (← Engine.address (A := A) own)
      f b : StreamM A β).run.run p).Path log y) :
    log.exchanges = [] ∧ y.1 = .error (A.overrun own len) := by
  rw [address] at run
  cases ha : A.addr? own with
  | none =>
      rw [ha] at run
      obtain ⟨rfl, rfl⟩ := path_done.mp run
      refine ⟨rfl, ?_⟩
      rw [Arch.overrun, if_neg (Nat.not_lt_of_le (addr?_eq_none.mp ha))]
  | some a =>
      have hat : a.toNat = own := A.toNat_of_addr? ha
      subst hat
      rw [ha] at run
      replace run : ((liftM (x a) >>= f : StreamM A β).run.run p).Path log y := run
      have hfails : ∀ {log y'}, ((liftM (x a) : StreamM A α).run.run p).Path log y' →
          log.exchanges = [] ∧ y' = (.error (.addressWrap a.toNat len), p) := by
        intro log y' hlift
        obtain ⟨res, rfl, hpath⟩ := path_lift.mp hlift
        obtain ⟨hnone, rfl⟩ := hx hover hpath
        exact ⟨hnone, rfl⟩
      rcases path_seq run with ⟨l₁, l₂, b, p', rfl, hpath, -⟩ | ⟨err, p', rfl, hpath⟩
      · cases (hfails hpath).2
      · obtain ⟨hnone, heq⟩ := hfails hpath
        cases heq
        rw [Arch.overrun, if_pos a.isLt]
        exact ⟨hnone, rfl⟩

/-! ## The loops tell of them -/

/-- A write that comes to a piece which does not fit fails with it, and asks nothing more. -/
theorem feed_forthright (wpPlace rpPlace : A.Addr) (wp : Nat) (rest : List UInt8) (stalls : Nat) :
    Forthright e.ring .write (e.feed wpPlace rpPlace wp rest stalls) := by
  induction wp, rest, stalls using Engine.feed.induct e with
  | case1 wp stalls =>
      rw [feed, dif_pos rfl]
      exact .of_offline (.pure _)
  | case2 wp rest stalls hne ihStall ihPiece =>
      rw [feed, dif_neg hne]
      refine .round (fun bytes rp => .progress bytes rest.length wp rp) ?_ fun rp => ?_
      · rintro _ rp own len ⟨hvalid, hroom, hown, hlen, hover⟩
        obtain rfl : wp = own := hown.symm
        have hs : e.ring.writeSpace wp rp ≠ 0 := hroom
        refine ⟨hvalid, fun p log y run => ?_⟩
        rw [dif_neg hs] at run
        have hle : len ≤ rest.length :=
          hlen ▸ Nat.le_trans (trimChunk_le _ _) (Nat.min_le_right _ _)
        replace run : ((do
          writeBuffer (← Engine.address (A := A) wp) (rest.take len)
          _ : StreamM A Unit).run.run p).Path log y := hlen ▸ run
        refine piece_overruns hover (fun {a log res} hwraps hpath => ?_) run
        rw [← List.length_take_of_le hle] at hwraps ⊢
        obtain ⟨rfl, hres⟩ := writeBuffer_refused hwraps hpath
        exact ⟨rfl, hres⟩
      · split
        · exact .stall fun ht => ihStall rp ht
        · next hs =>
          refine .bind (.of_checked (address_only _)) fun a => ?_
          refine .bind (.of_checked (writeBuffer_checked a _)) fun _ => ?_
          exact .bind (.of_offline (.modify fun _ => rfl)) fun _ => .publish (ihPiece rp hs)

/-- So does a read. -/
theorem drain_forthright (wpPlace rpPlace : A.Addr) (rp rest stalls : Nat) :
    Forthright e.ring .read (e.drain wpPlace rpPlace rp rest stalls) := by
  induction rp, rest, stalls using Engine.drain.induct e with
  | case1 rp stalls =>
      rw [drain, dif_pos rfl]
      exact .of_offline (.pure _)
  | case2 rp rest stalls hne ihStall ihPiece =>
      rw [drain, dif_neg hne]
      refine .round (fun bytes wp => .progress bytes rest wp rp) ?_ fun wp => ?_
      · rintro _ wp own len ⟨hvalid, hroom, hown, rfl, hover⟩
        obtain rfl : rp = own := hown.symm
        have hs : e.ring.readSpace wp rp ≠ 0 := hroom
        refine ⟨hvalid, fun p log y run => ?_⟩
        rw [dif_neg hs] at run
        refine piece_overruns hover (fun hwraps hpath => ?_) run
        obtain ⟨rfl, hres⟩ := readBuffer_refused hwraps hpath
        exact ⟨rfl, hres⟩
      · split
        · exact .stall fun ht => ihStall wp ht
        · next hs =>
          refine .bind (.of_checked (address_only _)) fun a => ?_
          refine .bind (.of_checked (readBuffer_checked a _)) fun _ => ?_
          refine .bind (.of_offline (.modify fun _ => rfl)) fun _ => ?_
          exact .bind (.of_offline (.modify fun _ => rfl)) fun _ => .publish (ihPiece wp hs)

/-- So do both, from the beginning. -/
theorem carry_forthright (e : Engine) (flow : Flow) (data : List UInt8) :
    Forthright (A := A) e.ring flow (e.carry flow data) := by
  cases flow with
  | write =>
      refine .bind (.of_checked (address_only _)) fun wpPlace => ?_
      exact .bind (.of_checked (address_only _)) fun rpPlace => feed_forthright _ _ _ _ _
  | read =>
      refine .bind (.of_checked (address_only _)) fun wpPlace => ?_
      exact .bind (.of_checked (address_only _)) fun rpPlace => drain_forthright _ _ _ _ _

/-! ## Whole transfers -/

/-- What a transfer reports that failed in its loop, unless the wait has not come to an end. -/
theorem failed_of_conclude {own partner patience : Nat} {err : Error} {stats : Stats}
    {outcome : Outcome}
    (run : ((e.conclude flow patience own partner (.error err) stats).run h).Path log
      (outcome, h')) :
    outcome = .undecided ∨ ∃ f, outcome = .failed f ∧ f.error = err := by
  obtain ⟨_, _, _, _, -, -, -, hjudged⟩ := conclude_path run
  cases hjudged with
  | undecided => exact Or.inl rfl
  | both _ waitError => exact Or.inr ⟨_, rfl, rfl⟩
  | loop => exact Or.inr ⟨_, rfl, rfl⟩

/-- A transfer with a piece that does not fit fails accordingly. -/
theorem transfer_overrun (hw : 2 ≤ A.width) {patience : Nat} {data : List UInt8}
    {outcome : Outcome} (run : ((e.transfer patience flow data).run h).Path log (outcome, h'))
    {event : Event A} (hm : event ∈ log) {own len : Nat}
    (hover : event.Overruns e.ring flow own len) :
    outcome = .undecided ∨ ∃ f, outcome = .failed f ∧ f.error = A.overrun own len := by
  have hbegin {l : Transcript A} {y} (run : ((e.begin flow).run.run h).Path l y)
      (hm : event ∈ l) : False :=
    (((begin_checked hw h).path run).1 event hm).mute.not_overruns own len hover
  rcases transfer_cases run with
    ⟨err, -, ⟨-, -, rfl, -⟩ | hbegun⟩ | ⟨begun, rest, h₁, rfl, hbegun⟩
  · exact absurd hm List.not_mem_nil
  · exact (hbegin hbegun hm).elim
  · obtain ⟨moving, after, moved, p, rfl, hmoving, hafter⟩ := transfer_path hbegun run
    rcases List.mem_append.mp hm with hm | hm
    · exact (hbegin hbegun hm).elim
    · rcases List.mem_append.mp hm with hm | hm
      · obtain ⟨l₁, l₂, rfl⟩ := List.append_of_mem hm
        have hupright := carry_forthright e flow data _ _ _ hmoving
        obtain ⟨-, rfl⟩ := hupright l₁ event l₂ own len rfl hover
        exact failed_of_conclude hafter
      · have hchecked := (conclude_checked hw e flow patience moved p.stats h₁).path hafter
        exact absurd hover ((hchecked.1 event hm).mute.not_overruns own len)

/-- No access of a write leaves the address space. -/
theorem write_inSpace (hw : 2 ≤ A.width) (e : Engine) (patience : Nat) (data : List UInt8)
    (h : Held A) : ((e.write patience data).run h).Only Op.InSpace := by
  refine Within.bind (((begin_checked hw h).weaken fun _ => Op.Checked.inSpace).mono ?_)
  rintro ⟨err | _, h'⟩ -
  · trivial
  · refine Within.bind (Within.bind ((carry_inSpace hw e .write data {}).mono ?_))
    rintro ⟨moved, progress⟩ -
    have hconclude := conclude_checked hw e .write patience moved progress.stats h'
    exact hconclude.weaken fun _ => Op.Checked.inSpace

/-- Nor does one of a read. -/
theorem read_inSpace (hw : 2 ≤ A.width) (e : Engine) (patience : Nat) (buffer : List UInt8)
    (h : Held A) : ((e.read patience buffer).run h).Only Op.InSpace := by
  rw [Engine.read]
  split
  · trivial
  · refine Within.bind (((begin_checked hw h).weaken fun _ => Op.Checked.inSpace).mono ?_)
    rintro ⟨err | _, h'⟩ -
    · trivial
    · refine Within.bind (Within.bind ((carry_inSpace hw e .read buffer {}).mono ?_))
      rintro ⟨moved, progress⟩ -
      have hconclude := conclude_checked hw e .read patience moved progress.stats h'
      exact Within.bind ((hconclude.weaken fun _ => Op.Checked.inSpace).mono fun _ _ => trivial)

/-- The target was busy or not halted, or refused an access. -/
def Refusal (err : Error) : Prop :=
  err = .alreadyRunning ∨ err = .notHalted ∨ ∃ e, err = .ofTarget e

/-- No algorithm is started with a ring whose pointer words have no address. -/
theorem begin_unreachable (hplace : 2 ^ A.width ≤ e.ring.rpAddr) (h : Held A) :
    ((e.begin (A := A) flow).run.run h).Ends fun r => ∃ err, r.1 = .error err ∧
      (err = .invalidRing "buffer lies outside the target's address space" ∨ Refusal err) := by
  have hput (place v : Nat) : FailsAlone (fun err =>
      err = .invalidRing "buffer lies outside the target's address space" ∨
        ∃ e, err = .ofTarget e) (putPointer place v : Link A Unit) := by
    rw [putPointer, address]
    cases A.addr? place with
    | none => exact failsAs_error (Or.inl rfl)
    | some a =>
      exact ⟨trivial, fun _ => ⟨trivial, fun _ => FailsAlone.call (fun e => Or.inr ⟨e, rfl⟩) _⟩⟩
  have hhalted : FailsAlone (fun err => err = .notHalted ∨ ∃ e, err = .ofTarget e)
      (Runner.requireHalted (A := A)) :=
    Runner.requireHalted_fails (fun e => Or.inr ⟨e, rfl⟩) (Or.inl rfl)
  show ((if h.busy = true then _ else _ : RunM A Unit).run.run h).Within _ _
  split
  · exact ⟨trivial, fun _ => ⟨_, rfl, Or.inr (Or.inl rfl)⟩⟩
  · refine .seq (.lift (hhalted.mono ?_))
    rintro (err | _) herr
    · exact ⟨err, rfl, Or.inr (Or.inr (herr err rfl))⟩
    · refine .seq (.lift ((hput _ _).mono ?_))
      rintro (err | _) herr
      · exact ⟨err, rfl, (herr err rfl).imp_right fun h => Or.inr (Or.inr h)⟩
      · -- the second word has no address
        refine .seq (.lift ?_)
        rw [putPointer, address, addr?_eq_none.mpr hplace]
        exact ⟨_, rfl, Or.inl rfl⟩

end Engine

/-- WHAT IS KNOWN OF ALL ACCESSES, on a core of any kind. -/
structure AccessesFit (A : Arch) : Prop where
  /-- The areas access nothing outside of the address space, and none of their accesses is refused
      for it. -/
  areas : ∀ {s : Areas A.width} {live : List (Area A.width)} {mmu : Bool},
    Areas.Reachable A s live mmu → ∀ request : AreaRequest A.width,
      (request.perform.run s).Only Op.Safe
  /-- Nor does a runner, or a transfer. -/
  tasks : ∀ (task : Task) (h : Held A), (task.perform.run h).Only Op.InSpace
  /-- The first input parameter that does not fit is what loading fails for. -/
  inputs : ∀ {before after : List (MemParam A.width)} {p : MemParam A.width} {log : Transcript A}
    {r : Except Error Unit}, Runner.Fitting Direction.isInput before →
      p.direction.isInput = true → 2 ^ A.width < p.address.toNat + p.data.length →
      (Runner.writeMem (before ++ p :: after)).run.Path log r → Runner.Overrun p r
  /-- The first output parameter that does not fit is what gathering the results fails for. -/
  outputs : ∀ {before after : List (MemParam A.width)} {p : MemParam A.width} {log : Transcript A}
    {r : Except Error Unit × List (MemParam A.width)}, Runner.Fitting Direction.isOutput before →
      p.direction.isOutput = true → 2 ^ A.width < p.address.toNat + p.data.length →
      (Runner.readMem (before ++ p :: after)).Path log r → Runner.Overrun p r.1
  /-- A start names what does not fit, and succeeds only if all inputs do. -/
  starts : Honest (Runner.start (A := A)) ∧ ∀ h : Held A, (Runner.start.run.run h).Ends fun r =>
    r.1 = .ok () → Runner.Fitting Direction.isInput h.runner.image.mem
  /-- So it is with a wait and the outputs. -/
  waits : ∀ patience timeout, Honest (Runner.wait (A := A) patience timeout) ∧
    ∀ h : Held A, ((Runner.wait patience timeout).run.run h).Ends fun r =>
      r.1 = .ok .completed → Runner.Fitting Direction.isOutput h.runner.image.mem
  runs : ∀ patience, Honest (Runner.run (A := A) patience)
  /-- No algorithm is started with a ring whose pointer words have no address. -/
  words : ∀ (e : Engine) (flow : Flow) (h : Held A), 2 ^ A.width ≤ e.ring.rpAddr →
    ((e.begin flow).run.run h).Ends fun r => ∃ err, r.1 = .error err ∧
      (err = .invalidRing "buffer lies outside the target's address space" ∨ Engine.Refusal err)
  /-- A piece that does not fit is what a loop fails for, without another exchange. -/
  pieces : ∀ (e : Engine) (flow : Flow) (data : List UInt8),
    Engine.Forthright (A := A) e.ring flow (e.carry flow data)
  /-- And so does the transfer. -/
  transfers : ∀ {e : Engine} {flow : Flow} {patience : Nat} {data : List UInt8} {h h' : Held A}
    {log : Transcript A} {outcome : Outcome},
    ((e.transfer patience flow data).run h).Path log (outcome, h') →
      ∀ event ∈ log, ∀ own len, event.Overruns e.ring flow own len →
        outcome = .undecided ∨ ∃ f, outcome = .failed f ∧ f.error = A.overrun own len

/-- Whatever a task accesses is in the address space. -/
theorem Task.perform_inSpace (hw : 2 ≤ A.width) (task : Task) (h : Held A) :
    (task.perform.run h).Only Op.InSpace := by
  have hchecked {ε α : Type} {x : ExceptT ε (StateT (Held A) (Dialogue A)) α}
      (hx : Confined Op.Checked (fun _ => ()) x) : (x.run.run h).Only Op.InSpace :=
    ((hx h).weaken fun _ => Op.Checked.inSpace).mono fun _ _ => trivial
  cases task with
  | start => exact Within.bind ((hchecked Runner.start_checked).mono fun _ _ => trivial)
  | wait patience timeout =>
      exact Within.bind ((hchecked (Runner.wait_checked _ _)).mono fun _ _ => trivial)
  | run patience => exact Within.bind ((hchecked (Runner.run_checked _)).mono fun _ _ => trivial)
  | abandon => exact Within.bind ((hchecked Runner.abandon_apart.checked).mono fun _ _ => trivial)
  | write engine patience data =>
      exact Within.bind ((Engine.write_inSpace hw engine patience data h).mono fun _ _ => trivial)
  | read engine patience buffer =>
      exact Within.bind ((Engine.read_inSpace hw engine patience buffer h).mono fun _ _ => trivial)

/-- NO ACCESS IS EMPTY, AND NONE WRAPS, whatever an image, a ring and a window are like and whatever
    the target answers.  A parameter or a piece that would is refused and named, without the access;
    what the areas access never is. -/
theorem accesses_fit (hw : 2 ≤ A.width) : AccessesFit A where
  areas := fun h request => h.safe request
  tasks := fun task h => task.perform_inSpace hw h
  inputs := Runner.writeMem_overrun
  outputs := Runner.readMem_overrun
  starts := ⟨Runner.start_honest, Runner.start_fitting⟩
  waits := fun patience timeout =>
    ⟨Runner.wait_honest patience timeout, fun h => Runner.wait_fitting h patience timeout⟩
  runs := fun patience => .bind Runner.start_honest fun _ => .bind (.of_confined .get) fun _ =>
    Runner.wait_honest patience _
  words := fun _ _ h hplace => Engine.begin_unreachable hplace h
  pieces := Engine.carry_forthright
  transfers := fun run _ hm _ _ hover => Engine.transfer_overrun hw run hm hover

/-- A ring whose fifo begins four bytes below the end of a 16-bit address space, and is longer. -/
def Ring.topmost : Ring where
  start := 0xfff4
  size := 20
  block := 1
  block_pow := by decide
  pointers_fit := by decide
  two_blocks := by decide
  aligned := by decide
  start_pos := by decide
  in_reach := by decide

/-- Five bytes for it, ... -/
def Engine.topmostLook : Transcript (plainCore 16) :=
  [⟨.call (.read 0xfff8#16 4), .ok ⟨[0xfc, 0xff, 0, 0], rfl⟩⟩, ⟨.feature .endian, .little⟩,
    ⟨.note (.word 0xfff8 0xfffc), ()⟩]

/-- ... which are refused. -/
def Engine.topmostRefusal : Transcript (plainCore 16) :=
  [⟨.note (.writingBuffer 5 0xfffc), ()⟩, ⟨.note (.rangeWrapped 0xfffc 5), ()⟩]

/-- A piece of five bytes, four bytes below the end of the address space. -/
theorem accesses_fit_topmost : 2 ≤ (plainCore 16).width ∧
    (((⟨.topmost, {}⟩ : Engine).carry .write [1, 2, 3, 4, 5]).run.run {}).Path
      (Engine.topmostLook ++ ⟨.note (.progress 0 5 0xfffc 0xfffc), ()⟩ :: Engine.topmostRefusal)
      (.error (.addressWrap 0xfffc 5), {}) ∧
    Engine.topmostRefusal.exchanges = [] ∧
    (.error (.addressWrap 0xfffc 5) : Except Error Unit) =
      .error ((plainCore 16).overrun 0xfffc 5) := by
  have hw : 2 ≤ (plainCore 16).width := by decide
  have hpath : (((⟨.topmost, {}⟩ : Engine).carry .write [1, 2, 3, 4, 5]).run.run {}).Path
      (Engine.topmostLook ++ ⟨.note (.progress 0 5 0xfffc 0xfffc), ()⟩ :: Engine.topmostRefusal)
      (.error (.addressWrap 0xfffc 5), {}) := by
    show (((⟨.topmost, {}⟩ : Engine).feed (A := plainCore 16) 0xfff4#16 0xfff8#16 0xfffc
      [1, 2, 3, 4, 5] 0).run.run {}).Path _ _
    rw [Engine.feed]
    exact .ask _ (.ask _ (.ask _ (.ask _ (.ask _ (.ask _ (.done _))))))
  have hover : (⟨.note (.progress 0 5 0xfffc 0xfffc), ()⟩ : Event (plainCore 16)).Overruns
      .topmost .write 0xfffc 5 := by
    refine ⟨by decide, by decide, rfl, by decide, by decide⟩
  exact ⟨hw, hpath, (accesses_fit hw).pieces ⟨.topmost, {}⟩ .write [1, 2, 3, 4, 5] _ _ _ hpath _ _ _
    0xfffc 5 rfl hover⟩

end DebugLink
