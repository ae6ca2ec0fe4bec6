import DebugLink.Proofs.Transfer.Containment

/-!
# The loops end

Whatever the target puts in its pointer word, whatever it refuses and whatever the host says, no
loop goes on for ever.  A run is a list of rounds, each of which begins with a look at the partner's
pointer, and then there are three kinds of them.

* A `Stall` finds a valid pointer without room (or data), pauses, and is not asked to stop: only so
  many of them IN A ROW.
* A piece moves AT LEAST ONE BYTE, because room is room for a byte and trimming leaves one.
* Anything else is the last round.

`Course` is a run in these terms, with the bytes that are left and the stalls that are behind: the
lexicographic measure of the recursion.  `feed_course` and `drain_course` show that the loops run
like this; whatever is counted afterwards is counted on `Course` alone, by induction.
-/

namespace DebugLink

open Environment Dialogue

variable {A : Arch} {α β : Type}

/-! ## What is counted -/

/-- A look at the partner's pointer. -/
def Event.looks (r : Ring) (flow : Flow) : Event A → Bool
  | ⟨.call (.read a _), _⟩ => a.toNat = r.partner flow
  | _ => false

/-- The host suspends itself. -/
def Event.pauses : Event A → Bool
  | ⟨.host (.sleep _), _⟩ => true
  | _ => false

namespace Transcript

/-- How often the host looked at the partner's pointer. -/
def looks (r : Ring) (flow : Flow) (log : Transcript A) : Nat :=
  log.countP (Event.looks r flow)

/-- How often it suspended itself. -/
def pauses (log : Transcript A) : Nat :=
  log.countP Event.pauses

variable {r : Ring} {flow : Flow} {log more : Transcript A}

@[simp] theorem looks_append : looks r flow (log ++ more) = log.looks r flow + more.looks r flow :=
  List.countP_append

@[simp] theorem pauses_append : pauses (log ++ more) = log.pauses + more.pauses :=
  List.countP_append

@[simp] theorem moved_both : moved r flow (log ++ more) = log.moved r flow ++ more.moved r flow :=
  List.flatMap_append

end Transcript

namespace Engine

variable {e : Engine} {r : Ring} {flow : Flow} {n k m m' : Nat} {log more : Transcript A}
  {p : Progress} {y : Except Error Unit × Progress}

/-! ## Rounds -/

/-- The round found `ptr` in the partner's pointer word. -/
def Found (r : Ring) (flow : Flow) (ptr : Nat) (round : Transcript A) : Prop :=
  ∃ (place : A.Addr) (bytes : Bytes 4) (order : Endian) (rest : Transcript A),
    place.toNat = r.partner flow ∧ order.value bytes.val = ptr ∧
      round = ⟨.call (.read place 4), .ok bytes⟩ :: ⟨.feature .endian, order⟩ :: rest

/-- The round found a valid pointer, no room (or no data), and nobody who wants the host to stop;
    the host's own pointer is at `own`. -/
def Stall (r : Ring) (flow : Flow) (own : Nat) (round : Transcript A) : Prop :=
  ∃ ptr, Found r flow ptr round ∧ r.isValidPtr ptr = true ∧ r.space flow own ptr = 0 ∧
    ∀ event ∈ round, event ≠ ⟨.host .shutdownPending, true⟩

/-- A round begins with the only look in it.  It pauses once at most, and not if it moves
    anything. -/
structure Round (r : Ring) (flow : Flow) (round : Transcript A) : Prop where
  begins : ∃ look rest, round = look :: rest ∧ look.looks r flow = true ∧
    Transcript.looks r flow rest = 0
  pauses : round.pauses ≤ 1
  busy : round.moved r flow ≠ [] → round.pauses = 0
  short : round.length ≤ 11

/-- A round begins with one word, which is decoded in one way. -/
theorem Found.unique {ptr ptr' : Nat} {round : Transcript A} (h : Found r flow ptr round)
    (h' : Found r flow ptr' round) : ptr = ptr' := by
  obtain ⟨place, bytes, order, rest, -, rfl, rfl⟩ := h
  obtain ⟨place', bytes', order', rest', -, rfl, heq⟩ := h'
  obtain ⟨hread, heq⟩ := List.cons.inj heq
  obtain ⟨horder, -⟩ := List.cons.inj heq
  cases hread
  cases horder
  rfl

/-- A run of a loop, round by round: `n` bytes are moved and `rest` are left, and `stalls` rounds in
    a row were stalls. -/
inductive Course (e : Engine) (flow : Flow) :
    Nat → Nat → Nat → List (Transcript A) → Except Error Unit → Prop
  | finished {n stalls : Nat} : Course e flow n stalls 0 [] (.ok ())
  /-- The ring is out of the core's reach. -/
  | unreachable {n stalls rest : Nat} {err : Error} : err ≠ .streamTimeout →
      Course e flow n stalls rest [] (.error err)
  | failed {n stalls rest : Nat} {round : Transcript A} {err : Error} :
      Round e.ring flow round → ¬ Stall e.ring flow (e.ring.place n) round →
      err ≠ .streamTimeout → Course e flow n stalls rest [round] (.error err)
  | gaveUp {n stalls rest : Nat} {round : Transcript A} : e.config.maxStalls ≤ stalls →
      Round e.ring flow round → Stall e.ring flow (e.ring.place n) round →
      round.moved e.ring flow = [] → Course e flow n stalls rest [round] (.error .streamTimeout)
  | stall {n stalls rest : Nat} {round : Transcript A} {rounds : List (Transcript A)}
      {res : Except Error Unit} : stalls < e.config.maxStalls → Round e.ring flow round →
      Stall e.ring flow (e.ring.place n) round → round.moved e.ring flow = [] →
      Course e flow n (stalls + 1) rest rounds res →
      Course e flow n stalls rest (round :: rounds) res
  | piece {n stalls rest k : Nat} {round : Transcript A} {rounds : List (Transcript A)}
      {res : Except Error Unit} : 0 < k → k ≤ rest → Round e.ring flow round →
      ¬ Stall e.ring flow (e.ring.place n) round → (round.moved e.ring flow).length = k →
      Course e flow (n + k) 0 (rest - k) rounds res →
      Course e flow n stalls rest (round :: rounds) res

/-! ## Behind the look -/

/-- A part of a round behind the look: it moved `k` bytes in `m` operations at most, without a
    pause. -/
structure Behind (r : Ring) (flow : Flow) (k m : Nat) (log : Transcript A) : Prop where
  looks : log.looks r flow = 0
  pauses : log.pauses = 0
  moved : (log.moved r flow).length = k
  short : log.length ≤ m

theorem Behind.append {k' : Nat} (h : Behind r flow k m log) (h' : Behind r flow k' m' more) :
    Behind r flow (k + k') (m + m') (log ++ more) where
  looks := by rw [Transcript.looks_append, h.looks, h'.looks]
  pauses := by rw [Transcript.pauses_append, h.pauses, h'.pauses]
  moved := by rw [Transcript.moved_both, List.length_append, h.moved, h'.moved]
  short := by
    rw [List.length_append]
    exact Nat.add_le_add h.short h'.short

theorem Behind.weaken (h : Behind r flow k m log) (hm : m ≤ m') : Behind r flow k m' log :=
  { h with short := Nat.le_trans h.short hm }

/-- How a step ends that may fail, but not for want of progress. -/
def Ended (r : Ring) (flow : Flow) (k m : Nat) (log : Transcript A) : Except Error α → Prop
  | .ok _ => Behind r flow k m log
  | .error err => err ≠ .streamTimeout ∧ ∃ k', Behind r flow k' m log

/-- A step that moves `k` bytes in `m` operations at most, or fails. -/
def Carries (r : Ring) (flow : Flow) (k m : Nat) (x : StreamM A α) : Prop :=
  ∀ p log y, (x.run.run p).Path log y → Ended r flow k m log y.1

/-- One step after the other: the bytes add up, and so do the operations. -/
theorem Carries.bind {k' : Nat} {x : StreamM A α} {f : α → StreamM A β}
    (hx : Carries r flow k m x) (hf : ∀ a, Carries r flow k' m' (f a)) :
    Carries r flow (k + k') (m + m') (x >>= f) := by
  intro p log y run
  -- the second step is reached only if the first one was carried out
  rcases path_seq run with ⟨l₁, l₂, a, p', rfl, h₁, h₂⟩ | ⟨err, p', rfl, h⟩
  · have hfirst : Behind r flow k m l₁ := hx p l₁ _ h₁
    have hrest := hf a p' l₂ y h₂
    obtain ⟨err | b, p''⟩ := y
    · obtain ⟨herr, k'', hrest⟩ := hrest
      exact ⟨herr, _, hfirst.append hrest⟩
    · exact hfirst.append hrest
  · obtain ⟨herr, k'', h⟩ := hx p log _ h
    exact ⟨herr, k'', h.weaken (Nat.le_add_right m m')⟩

/-- A step of the link below carries what it carries. -/
theorem Carries.lift {x : Link A α} (hx : ∀ log y, x.run.Path log y → Ended r flow k m log y) :
    Carries r flow k m (liftM x : StreamM A α) := by
  intro p log y run
  obtain ⟨res, rfl, h⟩ := path_lift.mp run
  exact hx log res h

/-- Nothing is asked. -/
theorem behind_nil : Behind r flow 0 0 ([] : Transcript A) :=
  ⟨rfl, rfl, rfl, Nat.le_refl _⟩

theorem count_carries (f : Stats → Stats) : Carries r flow 0 0 (count f : StreamM A Unit) := by
  intro p log y run
  obtain ⟨rfl, rfl⟩ := path_done.mp run
  exact behind_nil

theorem receive_carries (chunk : List UInt8) :
    Carries r flow 0 0 (receive chunk : StreamM A Unit) := by
  intro p log y run
  obtain ⟨rfl, rfl⟩ := path_done.mp run
  exact behind_nil

/-- What a target answers is never taken for a lack of progress. -/
theorem ofTarget_ne (e : TargetError) : Error.ofTarget e ≠ .streamTimeout := by
  cases e <;> exact Error.noConfusion

/-- The host is kept alive, and asked whether it wants to stop. -/
theorem giveWay_path (run : ((giveWay : StreamM A Unit).run.run p).Path log y) :
    ∃ stop, log = [⟨.host .keepAlive, ()⟩, ⟨.host .shutdownPending, stop⟩] ∧
      y = (if stop then .error .interrupted else .ok (), p) := by
  obtain ⟨_, l, rfl, halive⟩ := path_ask.mp run
  obtain ⟨stop, l, rfl, hstop⟩ := path_ask.mp halive
  refine ⟨stop, ?_⟩
  cases stop with
  | false =>
      obtain ⟨rfl, rfl⟩ := path_done.mp hstop
      exact ⟨rfl, rfl⟩
  | true =>
      obtain ⟨rfl, rfl⟩ := path_done.mp hstop
      exact ⟨rfl, rfl⟩

theorem giveWay_carries : Carries r flow 0 2 (giveWay : StreamM A Unit) := by
  intro p log y run
  obtain ⟨stop, rfl, rfl⟩ := giveWay_path run
  have h : Behind r flow 0 2
      ([⟨.host .keepAlive, ()⟩, ⟨.host .shutdownPending, stop⟩] : Transcript A) := by
    refine ⟨rfl, rfl, ?_, Nat.le_refl _⟩
    cases flow <;> rfl
  cases stop with
  | false => exact h
  | true => exact ⟨Error.noConfusion, 0, h⟩

/-- Publishing a pointer moves nothing: the word lies below the buffer. -/
theorem publish_carries {place : A.Addr} (hplace : place.toNat = r.own flow) (n : Nat) :
    Carries r flow 0 3 (writeWord .full place n : StreamM A Unit) := by
  refine .lift ?_
  intro log y run
  obtain ⟨order, l, rfl, hword⟩ := path_ask.mp run
  obtain ⟨_, l, rfl, hcall⟩ := path_ask.mp hword
  obtain ⟨answer, l, rfl, hend⟩ := path_ask.mp hcall
  -- so the stored word is not counted as data that moved
  have hlow : ¬ r.fifoStart ≤ place.toNat := by
    rw [hplace]
    exact Nat.not_le_of_lt (Ring.own_lt flow)
  cases answer with
  | error err =>
      obtain ⟨rfl, rfl⟩ := path_done.mp hend
      refine ⟨ofTarget_ne err, 0, rfl, rfl, ?_, Nat.le_refl _⟩
      cases flow <;> rfl
  | ok _ =>
      obtain ⟨rfl, rfl⟩ := path_done.mp hend
      refine ⟨rfl, rfl, ?_, Nat.le_refl _⟩
      cases flow with
      | write => simp [Transcript.moved, Event.moved, hlow]
      | read => rfl

/-- A note, and what comes behind it. -/
theorem Behind.note (h : Behind r flow k m log) (told : Note) (a : (Op.note told : Op A).Answer) :
    Behind r flow k (m + 1) (⟨.note told, a⟩ :: log) where
  looks := h.looks
  pauses := h.pauses
  moved := by
    have hnone : Event.moved r flow ⟨(.note told : Op A), a⟩ = [] := by cases flow <;> rfl
    rw [Transcript.moved, List.flatMap_cons, hnone]
    exact h.moved
  short := Nat.succ_le_succ h.short

/-- An access to a block: it is reported, checked, and carried out, or refused. -/
theorem access_ended {told : Note} {a : A.Addr} {len : Nat} {c : Call A}
    {res : Except Error c.Answer}
    (hok : ∀ answer, Behind r flow k 1 [⟨.call c, .ok answer⟩])
    (herr : ∀ err, Behind r flow 0 1 [⟨.call c, .error err⟩])
    (run : (do note told; checkFits a len; call c : Link A c.Answer).run.Path log res) :
    Ended r flow k 2 log res := by
  obtain ⟨told', l, rfl, hchecked⟩ := path_ask.mp run
  by_cases hfits : Arch.Fits a len
  · replace hchecked : (call c : Link A c.Answer).run.Path l res := by
      rwa [checkFits, if_pos hfits] at hchecked
    obtain ⟨answer, l, rfl, hend⟩ := path_ask.mp hchecked
    cases answer with
    | error err =>
        obtain ⟨rfl, rfl⟩ := path_done.mp hend
        exact ⟨ofTarget_ne err, 0, (herr err).note told told'⟩
    | ok answer =>
        obtain ⟨rfl, rfl⟩ := path_done.mp hend
        exact (hok answer).note told told'
  · rw [checkFits, if_neg hfits] at hchecked
    obtain ⟨_, l, rfl, hend⟩ := path_ask.mp hchecked
    obtain ⟨rfl, rfl⟩ := path_done.mp hend
    exact ⟨Error.noConfusion, 0, (behind_nil.note _ _).note told told'⟩

/-- A piece is written, or it is not. -/
theorem writeBuffer_carries {a : A.Addr} {piece : List UInt8} (hpiece : piece ≠ [])
    (ha : r.fifoStart ≤ a.toNat) :
    Carries r .write piece.length 2 (writeBuffer a piece : StreamM A Unit) := by
  refine .lift fun log y run => ?_
  rw [writeBuffer, if_neg hpiece] at run
  refine access_ended (fun _ => ⟨rfl, rfl, ?_, Nat.le_refl _⟩) (fun _ => ?_) run
  · simp [Transcript.moved, Event.moved, ha, spread]
  · exact ⟨rfl, rfl, rfl, Nat.le_refl _⟩

/-- A piece is read, or it is not. -/
theorem readBuffer_carries {a : A.Addr} {len : Nat} (hlen : len ≠ 0)
    (ha : r.fifoStart ≤ a.toNat) :
    Carries r .read len 2 (readBuffer a len : StreamM A (Bytes len)) := by
  refine .lift fun log y run => ?_
  rw [readBuffer, dif_neg hlen] at run
  have hother : a.toNat ≠ r.partner .read :=
    Nat.ne_of_gt (Nat.lt_of_lt_of_le (Ring.partner_lt .read) ha)
  have hlooks : ∀ answer : (Op.call (.read a len)).Answer,
      Transcript.looks r .read [⟨.call (.read a len), answer⟩] = 0 := by
    intro answer
    simp [Transcript.looks, Event.looks, hother]
  refine access_ended (fun bytes => ⟨hlooks _, rfl, ?_, Nat.le_refl _⟩) (fun _ => ?_) run
  · simp [Transcript.moved, Event.moved, ha, spread, bytes.property]
  · exact ⟨hlooks _, rfl, rfl, Nat.le_refl _⟩

/-- An address that the core has, or has not. -/
theorem address_path {n : Nat} {y : Except Error A.Addr × Progress}
    (run : ((liftM (address (A := A) n) : StreamM A A.Addr).run.run p).Path log y) :
    log = [] ∧ ((∃ a : A.Addr, a.toNat = n ∧ y = (.ok a, p)) ∨
      ∃ err, err ≠ .streamTimeout ∧ y = (.error err, p)) := by
  obtain ⟨res, rfl, haddress⟩ := path_lift.mp run
  rw [address] at haddress
  cases ha : A.addr? n with
  | none =>
      rw [ha] at haddress
      obtain ⟨rfl, rfl⟩ := path_done.mp haddress
      exact ⟨rfl, Or.inr ⟨_, Error.noConfusion, rfl⟩⟩
  | some a =>
      rw [ha] at haddress
      obtain ⟨rfl, rfl⟩ := path_done.mp haddress
      exact ⟨rfl, Or.inl ⟨a, A.toNat_of_addr? ha, rfl⟩⟩

theorem address_carries {own : Nat} {f : A.Addr → StreamM A α}
    (hf : ∀ a : A.Addr, a.toNat = own → Carries r flow k m (f a)) :
    Carries r flow k m ((liftM (address (A := A) own) : StreamM A A.Addr) >>= f) := by
  intro p log y run
  rcases path_seq run with ⟨l, l', a, p', rfl, haddress, hrest⟩ | ⟨err, p', rfl, haddress⟩
  · obtain ⟨rfl, ⟨a', ha, heq⟩ | ⟨_, _, heq⟩⟩ := address_path haddress
    · cases heq
      exact hf a ha p l' y hrest
    · cases heq
  · -- no address, no operation: not even a piece is begun
    obtain ⟨rfl, ⟨_, _, heq⟩ | ⟨_, herr, heq⟩⟩ := address_path haddress
    · cases heq
    · cases heq
      exact ⟨herr, 0, behind_nil.weaken (Nat.zero_le m)⟩

/-- A piece is handed over at `own`, and the host's pointer published behind it. -/
def hand (place : A.Addr) (own : Nat) (piece : List UInt8) (len : Nat) (next : Nat × Bool) :
    StreamM A Unit := do
  writeBuffer (← address (A := A) own) piece
  countChunk len next.2
  writeWord .full place next.1
  giveWay

/-- A piece is taken over from `own`, and the host's pointer published behind it. -/
def take (place : A.Addr) (own len : Nat) (next : Nat × Bool) : StreamM A Unit := do
  let chunk ← readBuffer (← address (A := A) own) len
  receive chunk.val
  countChunk len next.2
  writeWord .full place next.1
  giveWay

theorem hand_bind (place : A.Addr) (own : Nat) (piece : List UInt8) (len : Nat) (next : Nat × Bool)
    (x : StreamM A Unit) :
    (do
      hand place own piece len next
      x) =
    (do
      writeBuffer (← address (A := A) own) piece
      countChunk len next.2
      writeWord .full place next.1
      giveWay
      x) := by
  simp only [hand, LawfulMonad.bind_assoc]

theorem take_bind (place : A.Addr) (own len : Nat) (next : Nat × Bool) (x : StreamM A Unit) :
    (do
      take place own len next
      x) =
    (do
      let chunk ← readBuffer (← address (A := A) own) len
      receive chunk.val
      countChunk len next.2
      writeWord .full place next.1
      giveWay
      x) := by
  simp only [take, LawfulMonad.bind_assoc]

/-- Handing over moves the piece, ... -/
theorem hand_carries {place : A.Addr} (hplace : place.toNat = r.own .write) {own : Nat}
    (hown : r.fifoStart ≤ own) {piece : List UInt8} (hpiece : piece ≠ []) (len : Nat)
    (next : Nat × Bool) : Carries r .write piece.length 7 (hand place own piece len next) := by
  refine address_carries fun a ha => ?_
  have hbuffer : Carries r .write piece.length 2 (writeBuffer a piece : StreamM A Unit) :=
    writeBuffer_carries hpiece (ha ▸ hown)
  exact hbuffer.bind fun _ => (count_carries _).bind fun _ =>
    (publish_carries hplace next.1).bind fun _ => giveWay_carries

/-- ... and so does taking it over. -/
theorem take_carries {place : A.Addr} (hplace : place.toNat = r.own .read) {own : Nat}
    (hown : r.fifoStart ≤ own) {len : Nat} (hlen : len ≠ 0) (next : Nat × Bool) :
    Carries r .read len 7 (take place own len next) := by
  refine address_carries fun a ha => ?_
  have hbuffer : Carries r .read len 2 (readBuffer a len : StreamM A (Bytes len)) :=
    readBuffer_carries hlen (ha ▸ hown)
  exact hbuffer.bind fun chunk => (receive_carries chunk.val).bind fun _ =>
    (count_carries _).bind fun _ => (publish_carries hplace next.1).bind fun _ => giveWay_carries

/-! ## The look -/

/-- What a round sees first: the word, the byte order, and two reports. -/
def sight (place : A.Addr) (bytes : Bytes 4) (order : Endian) (told told' : Note) :
    Transcript A :=
  [⟨.call (.read place 4), .ok bytes⟩, ⟨.feature .endian, order⟩, ⟨.note told, ()⟩,
    ⟨.note told', ()⟩]

section Sight

variable {place : A.Addr} {bytes : Bytes 4} {order : Endian} {told told' : Note}

/-- What the round found is the word it read. -/
theorem sight_found (hplace : place.toNat = r.partner flow) (rest : Transcript A) :
    Found r flow (order.value bytes.val) (sight place bytes order told told' ++ rest) :=
  ⟨place, bytes, order, _, hplace, rfl, rfl⟩

theorem sight_moved (hplace : place.toNat = r.partner flow) :
    (sight place bytes order told told').moved r flow = [] := by
  have hlow : ¬ r.fifoStart ≤ place.toNat := by
    rw [hplace]
    exact Nat.not_le_of_lt (Ring.partner_lt flow)
  cases flow with
  | write => rfl
  | read => simp [sight, Transcript.moved, Event.moved, hlow]

/-- A round is a look and something behind it. -/
theorem sight_round (hplace : place.toNat = r.partner flow) {rest : Transcript A}
    (hlooks : rest.looks r flow = 0) (hpauses : rest.pauses ≤ 1)
    (hbusy : rest.moved r flow ≠ [] → rest.pauses = 0) (hshort : rest.length ≤ 7) :
    Round r flow (sight place bytes order told told' ++ rest) where
  begins := by
    refine ⟨_, _, rfl, decide_eq_true hplace, ?_⟩
    rw [← hlooks]
    exact List.countP_append.trans (Nat.zero_add _)
  pauses := by
    rw [Transcript.pauses_append]
    exact Nat.le_trans (Nat.le_of_eq (Nat.zero_add _)) hpauses
  busy := by
    rw [Transcript.moved_both, sight_moved hplace, List.nil_append, Transcript.pauses_append]
    exact fun hmoved => (Nat.zero_add _).trans (hbusy hmoved)
  short := by
    rw [List.length_append]
    exact Nat.add_le_add_left hshort 4

/-- A look with something behind it that makes no pause is a round. -/
theorem Behind.round (h : Behind r flow k 7 log) (hplace : place.toNat = r.partner flow) :
    Round r flow (sight place bytes order told told' ++ log) :=
  sight_round hplace h.looks (h.pauses ▸ Nat.zero_le 1) (fun _ => h.pauses) h.short

/-- What a round sees tells whether it is a stall. -/
theorem sight_stall (hplace : place.toNat = r.partner flow) {own : Nat} {rest : Transcript A} :
    Stall r flow own (sight place bytes order told told' ++ rest) ↔
      r.isValidPtr (order.value bytes.val) = true ∧ r.space flow own (order.value bytes.val) = 0 ∧
        ∀ event ∈ rest, event ≠ ⟨.host .shutdownPending, true⟩ := by
  constructor
  · rintro ⟨ptr, hfound, hvalid, hspace, hstop⟩
    obtain rfl := hfound.unique (sight_found hplace rest)
    exact ⟨hvalid, hspace, fun event hm => hstop event (List.mem_append_right _ hm)⟩
  · rintro ⟨hvalid, hspace, hstop⟩
    refine ⟨_, sight_found hplace rest, hvalid, hspace, fun event hm => ?_⟩
    rcases List.mem_append.mp hm with hm | hm
    · rintro rfl
      simp [sight] at hm
    · exact hstop event hm

end Sight

/-- A look at the partner's pointer, which may be refused. -/
theorem look_path {place : A.Addr} {y : Except Error Nat × Progress}
    (run : ((partnerPointer flow place : StreamM A Nat).run.run p).Path log y) :
    (∃ bytes order told, log = [⟨.call (.read place 4), .ok bytes⟩, ⟨.feature .endian, order⟩,
        ⟨.note told, ()⟩] ∧ y = (.ok (order.value bytes.val), p)) ∨
      ∃ err told told', log = [⟨.call (.read place 4), .error err⟩, ⟨.note told, ()⟩,
        ⟨.note told', ()⟩] ∧ y = (.error (.ofTarget err), p) := by
  obtain ⟨answer, l, rfl, hread⟩ := path_ask.mp run
  cases answer with
  | error err =>
      obtain ⟨_, l, rfl, hnote⟩ := path_ask.mp hread
      obtain ⟨_, l, rfl, hend⟩ := path_ask.mp hnote
      obtain ⟨rfl, rfl⟩ := path_done.mp hend
      exact Or.inr ⟨err, _, _, rfl, rfl⟩
  | ok bytes =>
      obtain ⟨order, l, rfl, hnote⟩ := path_ask.mp hread
      obtain ⟨_, l, rfl, hend⟩ := path_ask.mp hnote
      obtain ⟨rfl, rfl⟩ := path_done.mp hend
      exact Or.inl ⟨bytes, order, _, rfl, rfl⟩

/-- The check of a pointer. -/
theorem check_path {ptr : Nat}
    (run : ((e.checkPointer flow ptr : StreamM A Unit).run.run p).Path log y) :
    (log = [] ∧ y = (.ok (), p) ∧ e.ring.isValidPtr ptr = true) ∨
      ∃ told err, log = [⟨.note told, ()⟩] ∧ y = (.error err, p) ∧ err ≠ .streamTimeout ∧
        e.ring.isValidPtr ptr = false := by
  rw [checkPointer] at run
  by_cases hz : ptr = 0
  · simp only [hz, ↓reduceIte] at run
    obtain ⟨_, l, rfl, hend⟩ := path_ask.mp run
    obtain ⟨rfl, rfl⟩ := path_done.mp hend
    refine Or.inr ⟨_, _, rfl, rfl, Error.noConfusion, ?_⟩
    rw [hz, ← Bool.not_eq_true, Ring.isValidPtr_iff]
    have hpos := e.ring.fifoStart_eq
    omega
  · cases hv : e.ring.isValidPtr ptr with
    | true =>
        simp only [hz, hv, Bool.not_true, ↓reduceIte] at run
        obtain ⟨rfl, rfl⟩ := path_done.mp run
        exact Or.inl ⟨rfl, rfl, rfl⟩
    | false =>
        simp only [hz, hv, Bool.not_false, ↓reduceIte] at run
        obtain ⟨_, l, rfl, hend⟩ := path_ask.mp run
        obtain ⟨rfl, rfl⟩ := path_done.mp hend
        exact Or.inr ⟨_, _, rfl, rfl, Error.noConfusion, rfl⟩

/-- The first half of a round: the look, a report, and the check. -/
theorem sight_path {place : A.Addr} (hplace : place.toNat = e.ring.partner flow)
    (report : Nat → Nat → Note) {next : Nat → StreamM A Unit}
    (run : ((do
      let ptr ← partnerPointer flow place
      note (report (← get).stats.bytes ptr)
      e.checkPointer flow ptr
      next ptr : StreamM A Unit).run.run p).Path log y) :
    (∃ bytes order told told' rest, log = sight place bytes order told told' ++ rest ∧
        e.ring.isValidPtr (order.value bytes.val) = true ∧
        ((next (order.value bytes.val)).run.run p).Path rest y) ∨
      ∃ err, y.1 = .error err ∧ err ≠ .streamTimeout ∧ Round e.ring flow log ∧
        ∀ own, ¬ Stall e.ring flow own log := by
  rcases path_seq run with ⟨look, l, ptr, p', rfl, hlook, hreport⟩ | ⟨err, p', rfl, hlook⟩
  · rcases look_path hlook with ⟨bytes, order, told, rfl, heq⟩ | ⟨_, _, _, _, heq⟩
    · cases heq
      obtain ⟨_, l, rfl, hchecked⟩ := path_ask.mp hreport
      rcases path_seq hchecked with
        ⟨check, rest, _, p', rfl, hcheck, hnext⟩ | ⟨err, p', rfl, hcheck⟩
      · -- the one way on: a pointer that was read and is valid
        rcases check_path hcheck with ⟨rfl, heq, hvalid⟩ | ⟨_, _, _, heq, _⟩
        · cases heq
          exact Or.inl ⟨bytes, order, told, _, rest, rfl, hvalid, hnext⟩
        · cases heq
      · rcases check_path hcheck with ⟨_, heq, _⟩ | ⟨told', _, rfl, heq, herr, hvalid⟩
        · cases heq
        · cases heq
          -- an invalid pointer ends the run, and a stall has a valid one
          refine Or.inr ⟨err, rfl, herr, ?_, fun own hstall => ?_⟩
          · exact ((behind_nil.note told' ()).weaken (by decide)).round hplace
          · have hvalid' := ((sight_stall hplace).mp hstall).1
            rw [hvalid] at hvalid'
            exact Bool.false_ne_true hvalid'
    · cases heq
  · rcases look_path hlook with ⟨_, _, _, _, heq⟩ | ⟨err, told, told', rfl, heq⟩
    · cases heq
    · cases heq
      refine Or.inr ⟨_, rfl, ofTarget_ne err, ?_, ?_⟩
      · exact ⟨⟨_, _, rfl, decide_eq_true hplace, rfl⟩, Nat.zero_le 1, fun _ => rfl,
          Nat.le_add_right 3 8⟩
      · rintro own ⟨ptr, ⟨_, _, _, _, _, _, heq⟩, _⟩
        cases heq

/-! ## The loops, round by round -/

section Rounds

variable {place : A.Addr} {bytes : Bytes 4} {order : Endian} {told told' : Note} {stalls rest : Nat}
  {next : StreamM A Unit}

/-- A pause, and what the host answers. -/
def pause (ms : Nat) (stop : Bool) : Transcript A :=
  [⟨.host (.sleep ms), ()⟩, ⟨.host .keepAlive, ()⟩, ⟨.host .shutdownPending, stop⟩]

/-- A pause, and the host may want to stop after it. -/
theorem backOff_path (run : ((e.backOff : StreamM A Unit).run.run p).Path log y) :
    ∃ stop, log = pause e.config.pollInterval stop ∧
      y = (if stop then .error .interrupted else .ok (), p) := by
  obtain ⟨_, l, rfl, hgive⟩ := path_ask.mp run
  obtain ⟨stop, rfl, rfl⟩ := giveWay_path hgive
  exact ⟨stop, rfl, rfl⟩

/-- A round with a pause moves nothing. -/
theorem pause_round (hplace : place.toNat = r.partner flow) (ms : Nat) (stop : Bool)
    {more : Transcript A} (hmore : Behind r flow 0 1 more) :
    Round r flow (sight place bytes order told told' ++ (pause ms stop ++ more)) ∧
      Transcript.moved r flow (sight place bytes order told told' ++ (pause ms stop ++ more)) =
        [] := by
  have hpause : Transcript.moved r flow (pause (A := A) ms stop) = [] := by cases flow <;> rfl
  have hmoved : Transcript.moved r flow (pause ms stop ++ more) = [] := by
    rw [Transcript.moved_both, hpause, List.length_eq_zero_iff.mp hmore.moved]
    rfl
  constructor
  · refine sight_round hplace ?_ ?_ (absurd hmoved) ?_
    · rw [Transcript.looks_append, hmore.looks]
      rfl
    · rw [Transcript.pauses_append, hmore.pauses]
      exact Nat.le_refl 1
    · rw [List.length_append]
      exact Nat.add_le_add (Nat.le_refl 3) (Nat.le_trans hmore.short (Nat.le_add_left 1 3))
  · rw [Transcript.moved_both, sight_moved hplace, hmoved]
    rfl

/-- It is a stall if there is no room, and nobody wants the host to stop. -/
theorem pause_stall (hplace : place.toNat = r.partner flow) {own ms : Nat} {stop : Bool}
    {more : Transcript A} (hvalid : r.isValidPtr (order.value bytes.val) = true)
    (hspace : r.space flow own (order.value bytes.val) = 0)
    (hmore : ∀ event ∈ more, event ≠ ⟨.host .shutdownPending, true⟩) :
    Stall r flow own (sight place bytes order told told' ++ (pause ms stop ++ more)) ↔
      stop = false := by
  rw [sight_stall hplace]
  constructor
  · rintro ⟨-, -, hstop⟩
    cases stop with
    | false => rfl
    | true => exact absurd rfl (hstop ⟨.host .shutdownPending, true⟩ (by simp [pause]))
  · rintro rfl
    refine ⟨hvalid, hspace, fun event hm => ?_⟩
    rcases List.mem_append.mp hm with hm | hm
    · rintro rfl
      simp [pause] at hm
    · exact hmore event hm

/-- A round without room, and the rest of the run. -/
theorem stall_course (hplace : place.toNat = e.ring.partner flow)
    (hvalid : e.ring.isValidPtr (order.value bytes.val) = true)
    (hspace : e.ring.space flow (e.ring.place n) (order.value bytes.val) = 0)
    (hnext : stalls < e.config.maxStalls → ∀ p log, (next.run.run p).Path log y →
      ∃ rounds, log = rounds.flatten ∧ Course e flow n (stalls + 1) rest rounds y.1)
    (run : ((do
      e.backOff
      if _ : stalls < e.config.maxStalls then
        count fun s => { s with stalls := s.stalls + 1 }
        next
      else
        note .noProgress
        throw .streamTimeout : StreamM A Unit).run.run p).Path log y) :
    ∃ rounds, sight place bytes order told told' ++ log = rounds.flatten ∧
      Course e flow n stalls rest rounds y.1 := by
  have hround : ∀ (stop : Bool) {more : Transcript A}, Behind e.ring flow 0 1 more →
      Round e.ring flow (sight place bytes order told told' ++
        (pause e.config.pollInterval stop ++ more)) ∧ _ :=
    fun stop _ hmore => pause_round hplace e.config.pollInterval stop hmore
  have hnone : Behind e.ring flow 0 1 ([] : Transcript A) := behind_nil.weaken (Nat.zero_le 1)
  rcases path_seq run with ⟨l, l', _, p', rfl, hpause, hrest⟩ | ⟨err, p', rfl, hpause⟩
  · obtain ⟨stop, rfl, heq⟩ := backOff_path hpause
    cases stop with
    | true => cases heq
    | false =>
        -- nobody wants to stop: only the number of stalls decides
        by_cases ht : stalls < e.config.maxStalls
        · rw [dif_pos ht] at hrest
          obtain ⟨rounds, rfl, hcourse⟩ := hnext ht _ _ hrest
          obtain ⟨hround, hmoved⟩ := hround false hnone
          refine ⟨_ :: rounds, ?_, .stall ht hround ?_ hmoved hcourse⟩
          · rw [List.flatten_cons, List.append_nil, List.append_assoc]
          · exact (pause_stall hplace hvalid hspace (List.forall_mem_nil _)).mpr rfl
        · rw [dif_neg ht] at hrest
          obtain ⟨_, l, rfl, hend⟩ := path_ask.mp hrest
          obtain ⟨rfl, rfl⟩ := path_done.mp hend
          obtain ⟨hround, hmoved⟩ := hround false (behind_nil.note .noProgress ())
          refine ⟨[_], ?_, .gaveUp (Nat.le_of_not_lt ht) hround ?_ hmoved⟩
          · rw [List.flatten_singleton]
          · refine (pause_stall hplace hvalid hspace fun event hm => ?_).mpr rfl
            obtain rfl := List.mem_singleton.mp hm
            exact fun heq => nomatch heq
  · obtain ⟨stop, rfl, heq⟩ := backOff_path hpause
    cases stop with
    | false => cases heq
    | true =>
        cases heq
        obtain ⟨hround, -⟩ := hround true hnone
        -- the host wants to stop, so this round does not count as a stall
        refine ⟨[_], ?_, .failed hround ?_ Error.noConfusion⟩
        · rw [List.flatten_singleton, List.append_nil]
        · rw [pause_stall hplace hvalid hspace (List.forall_mem_nil _)]
          exact Bool.noConfusion

/-- A round with a piece, and the rest of the run. -/
theorem piece_course (hplace : place.toNat = e.ring.partner flow)
    (hspace : e.ring.space flow (e.ring.place n) (order.value bytes.val) ≠ 0) (hpos : 0 < k)
    (hle : k ≤ rest) {x : StreamM A Unit} (hx : Carries e.ring flow k 7 x)
    (hnext : ∀ p log, (next.run.run p).Path log y →
      ∃ rounds, log = rounds.flatten ∧ Course e flow (n + k) 0 (rest - k) rounds y.1)
    (run : ((x >>= fun _ => next).run.run p).Path log y) :
    ∃ rounds, sight place bytes order told told' ++ log = rounds.flatten ∧
      Course e flow n stalls rest rounds y.1 := by
  have hstall : ∀ more, ¬ Stall e.ring flow (e.ring.place n)
      (sight place bytes order told told' ++ more) :=
    fun more h => hspace ((sight_stall hplace).mp h).2.1
  rcases path_seq run with ⟨l, l', _, p', rfl, hpiece, hrest⟩ | ⟨err, p', rfl, hpiece⟩
  · have hbehind : Behind e.ring flow k 7 l := hx _ _ _ hpiece
    obtain ⟨rounds, rfl, hcourse⟩ := hnext _ _ hrest
    refine ⟨_ :: rounds, ?_, .piece hpos hle (hbehind.round hplace) (hstall l) ?_ hcourse⟩
    · rw [List.flatten_cons, List.append_assoc]
    · rw [Transcript.moved_both, sight_moved hplace]
      exact hbehind.moved
  · obtain ⟨herr, k', hbehind⟩ := hx _ _ _ hpiece
    exact ⟨[_], List.flatten_singleton.symm, .failed (hbehind.round hplace) (hstall log) herr⟩

end Rounds

/-- The loop of a write runs like this, ... -/
theorem feed_course {wpPlace rpPlace : A.Addr} (hwp : wpPlace.toNat = e.ring.own .write)
    (hrp : rpPlace.toNat = e.ring.partner .write) (own : Nat) (rest : List UInt8) (stalls : Nat) :
    ∀ (n : Nat) (p : Progress) (log : Transcript A), own = e.ring.place n →
      ((e.feed wpPlace rpPlace own rest stalls).run.run p).Path log y →
      ∃ rounds, log = rounds.flatten ∧ Course e .write n stalls rest.length rounds y.1 := by
  -- by the recursion of the loop: a stall raises the count, a piece takes bytes
  induction own, rest, stalls using Engine.feed.induct e with
  | case1 own stalls =>
      intro n p log _ run
      rw [feed, dif_pos rfl] at run
      obtain ⟨rfl, rfl⟩ := path_done.mp run
      exact ⟨[], rfl, .finished⟩
  | case2 own rest stalls hne ihStall ihPiece =>
      rintro n p log rfl run
      rw [feed, dif_neg hne] at run
      rcases sight_path hrp (fun bytes rp => .progress bytes rest.length (e.ring.place n) rp) run
        with ⟨bytes, order, told, told', l, rfl, hvalid, hrest⟩ | ⟨err, hres, herr, hround, hstall⟩
      · by_cases hs : e.ring.writeSpace (e.ring.place n) (order.value bytes.val) = 0
        · rw [dif_pos hs] at hrest
          exact stall_course hrp hvalid hs
            (fun ht p log hnext => ihStall 0 ht n p log rfl hnext) hrest
        · rw [dif_neg hs] at hrest
          obtain ⟨len, hlen⟩ : ∃ len, len = trimChunk (order.value bytes.val)
              (min (e.ring.writeSpace (e.ring.place n) (order.value bytes.val)) rest.length) :=
            ⟨_, rfl⟩
          have hk := ihPiece _ hs
          -- the piece fits in front of the wrap, and is not empty
          simp only [← hlen] at hk hrest
          obtain ⟨hpos, hle, hend⟩ := Ring.piece_bounds .write hvalid hs
            (mt List.length_eq_zero_iff.mp hne) hlen
          have hpiece : (rest.take len).length = len := List.length_take_of_le hle
          have hhand : Carries e.ring .write len 7 (hand wpPlace (e.ring.place n) (rest.take len)
              len (e.ring.advance (e.ring.place n) len)) := by
            have hne' := List.ne_nil_of_length_pos (hpiece.symm ▸ hpos)
            have h := hand_carries hwp (e.ring.fifoStart_le_place n) hne' len
              (e.ring.advance (e.ring.place n) len)
            rwa [hpiece] at h
          rw [← hand_bind] at hrest
          refine piece_course hrp hs hpos hle hhand (fun p log hnext => ?_) hrest
          rw [← List.length_drop]
          exact hk (n + len) p log (Ring.advance_place hend) hnext
      · rw [hres]
        exact ⟨[log], List.flatten_singleton.symm, .failed hround (hstall _) herr⟩

/-- ... and so does the loop of a read. -/
theorem drain_course {wpPlace rpPlace : A.Addr} (hwp : wpPlace.toNat = e.ring.partner .read)
    (hrp : rpPlace.toNat = e.ring.own .read) (own rest stalls : Nat) :
    ∀ (n : Nat) (p : Progress) (log : Transcript A), own = e.ring.place n →
      ((e.drain wpPlace rpPlace own rest stalls).run.run p).Path log y →
      ∃ rounds, log = rounds.flatten ∧ Course e .read n stalls rest rounds y.1 := by
  -- the same recursion, with the pointers the other way around
  induction own, rest, stalls using Engine.drain.induct e with
  | case1 own stalls =>
      intro n p log _ run
      rw [drain, dif_pos rfl] at run
      obtain ⟨rfl, rfl⟩ := path_done.mp run
      exact ⟨[], rfl, .finished⟩
  | case2 own rest stalls hne ihStall ihPiece =>
      rintro n p log rfl run
      rw [drain, dif_neg hne] at run
      rcases sight_path hwp (fun bytes wp => .progress bytes rest wp (e.ring.place n)) run
        with ⟨bytes, order, told, told', l, rfl, hvalid, hrest⟩ | ⟨err, hres, herr, hround, hstall⟩
      · by_cases hs : e.ring.readSpace (order.value bytes.val) (e.ring.place n) = 0
        · rw [dif_pos hs] at hrest
          exact stall_course hwp hvalid hs
            (fun ht p log hnext => ihStall 0 ht n p log rfl hnext) hrest
        · rw [dif_neg hs] at hrest
          obtain ⟨len, hlen⟩ : ∃ len, len = trimChunk (e.ring.place n)
              (min (e.ring.readSpace (order.value bytes.val) (e.ring.place n)) rest) := ⟨_, rfl⟩
          obtain ⟨hpos, hle, hend⟩ := Ring.piece_bounds .read hvalid hs hne hlen
          have htake := take_carries hrp (e.ring.fifoStart_le_place n) (Nat.ne_zero_of_lt hpos)
            (e.ring.advance (e.ring.place n) len)
          have hrun : ((do
              take rpPlace (e.ring.place n) len (e.ring.advance (e.ring.place n) len)
              e.drain wpPlace rpPlace (e.ring.advance (e.ring.place n) len).1 (rest - len)
                0 : StreamM A Unit).run.run p).Path l y := by
            rw [take_bind]
            subst hlen
            exact hrest
          refine piece_course hwp hs hpos hle htake (fun p log hnext => ?_) hrun
          subst hlen
          exact ihPiece _ hs _ p log (Ring.advance_place hend) hnext
      · rw [hres]
        exact ⟨[log], List.flatten_singleton.symm, .failed hround (hstall _) herr⟩

/-! ## What is counted on the rounds -/

namespace Course

variable {stalls rest : Nat} {before between last after rounds : List (Transcript A)}
  {round second : Transcript A} {res : Except Error Unit}

/-- The measure of the recursion: a piece takes a byte, a stall takes one of the stalls left. -/
theorem length_le (h : Course e flow n stalls rest rounds res) (hs : stalls ≤ e.config.maxStalls) :
    rounds.length + stalls ≤ (rest + 1) * (e.config.maxStalls + 1) := by
  have hone : ∀ rest, e.config.maxStalls + 1 ≤ (rest + 1) * (e.config.maxStalls + 1) :=
    fun rest => Nat.le_mul_of_pos_left _ (Nat.succ_pos rest)
  induction h with
  | finished =>
      have := hone 0
      simp only [List.length_nil]
      omega
  | @unreachable _ _ rest _ _ =>
      have := hone rest
      simp only [List.length_nil]
      omega
  | @failed _ _ rest _ _ _ _ _ =>
      have := hone rest
      simp only [List.length_singleton]
      omega
  | @gaveUp _ _ rest _ _ _ _ _ =>
      have := hone rest
      simp only [List.length_singleton]
      omega
  | stall ht _ _ _ _ ih =>
      have := ih ht
      rw [List.length_cons]
      omega
  | @piece _ stalls rest k _ rounds _ hpos hle _ _ _ _ ih =>
      have hrounds := ih (Nat.zero_le _)
      -- the piece pays for all the stalls that may come again
      have hmul : (rest - k + 1 + 1) * (e.config.maxStalls + 1) ≤
          (rest + 1) * (e.config.maxStalls + 1) := Nat.mul_le_mul_right _ (by omega)
      rw [Nat.add_one_mul] at hmul
      rw [List.length_cons]
      omega

theorem all_rounds (h : Course e flow n stalls rest rounds res) :
    ∀ round ∈ rounds, Round e.ring flow round := by
  induction h with
  | finished => exact List.forall_mem_nil _
  | unreachable _ => exact List.forall_mem_nil _
  | failed hround _ _ => exact List.forall_mem_singleton.mpr hround
  | gaveUp _ hround _ _ => exact List.forall_mem_singleton.mpr hround
  | stall _ hround _ _ _ ih => exact List.forall_mem_cons.mpr ⟨hround, ih⟩
  | piece _ _ hround _ _ _ ih => exact List.forall_mem_cons.mpr ⟨hround, ih⟩

/-- The run from one of its rounds on. -/
theorem drop (h : Course e flow n stalls rest (before ++ rounds) res)
    (hs : stalls ≤ e.config.maxStalls) (hrounds : rounds ≠ []) :
    ∃ stalls' rest', stalls' ≤ e.config.maxStalls ∧
      Course e flow (n + (Transcript.moved e.ring flow before.flatten).length) stalls' rest' rounds
        res := by
  induction before generalizing n stalls rest with
  | nil => exact ⟨stalls, rest, hs, h⟩
  | cons round before ih =>
      obtain ⟨more, hmore⟩ : ∃ more, more = before ++ rounds := ⟨_, rfl⟩
      rw [List.cons_append, ← hmore] at h
      rw [List.flatten_cons, Transcript.moved_both, List.length_append]
      cases h with
      -- a run that ended has no rounds left to drop
      | failed _ _ _ => exact absurd (List.append_eq_nil_iff.mp hmore.symm).2 hrounds
      | gaveUp _ _ _ _ => exact absurd (List.append_eq_nil_iff.mp hmore.symm).2 hrounds
      | stall ht _ _ hmoved h =>
          rw [hmoved, List.length_nil, Nat.zero_add]
          exact ih (hmore ▸ h) ht
      | piece _ _ _ _ hmoved h =>
          rw [hmoved, ← Nat.add_assoc]
          exact ih (hmore ▸ h) (Nat.zero_le _)

/-- What a round is. -/
theorem first (h : Course e flow n stalls rest (round :: after) res) :
    Stall e.ring flow (e.ring.place n) round ∨ round.moved e.ring flow ≠ [] ∨
      after = [] ∧ ∃ err, res = .error err := by
  cases h with
  | failed _ _ _ => exact Or.inr (Or.inr ⟨rfl, _, rfl⟩)
  | gaveUp _ _ hstall _ => exact Or.inl hstall
  | stall _ _ hstall _ _ => exact Or.inl hstall
  | piece hpos _ _ _ hmoved _ =>
      exact Or.inr (Or.inl (List.ne_nil_of_length_pos (hmoved.symm ▸ hpos)))

/-- What moves nothing and is not the end of the run is a stall. -/
theorem pauses_le (h : Course e flow n stalls rest (between ++ second :: after) res)
    (hs : stalls ≤ e.config.maxStalls)
    (hnone : ∀ round ∈ between, Transcript.moved e.ring flow round = []) :
    Transcript.pauses between.flatten + stalls ≤ e.config.maxStalls := by
  induction between generalizing n stalls rest with
  | nil => exact (Nat.zero_add stalls).symm ▸ hs
  | cons round between ih =>
      obtain ⟨more, hmore⟩ : ∃ more, more = between ++ second :: after := ⟨_, rfl⟩
      have hne : more ≠ [] := hmore ▸ List.append_ne_nil_of_right_ne_nil _ (List.cons_ne_nil _ _)
      obtain ⟨hround, hnone⟩ := List.forall_mem_cons.mp hnone
      rw [List.cons_append, ← hmore] at h
      rw [List.flatten_cons, Transcript.pauses_append]
      cases h with
      | failed _ _ _ => exact absurd rfl hne
      | gaveUp _ _ _ _ => exact absurd rfl hne
      | stall ht hr _ _ h =>
          have hrest := ih (hmore ▸ h) ht hnone
          have hone := hr.pauses
          omega
      | piece hpos _ _ _ hmoved _ =>
          rw [hround] at hmoved
          exact absurd hmoved (Nat.ne_of_lt hpos)

/-- The loop gives up after so many stalls in a row, ... -/
theorem stalls_of_timeout (h : Course e flow n stalls rest rounds res)
    (hs : stalls ≤ e.config.maxStalls) (hres : res = .error .streamTimeout) :
    (∀ round ∈ rounds, Stall e.ring flow (e.ring.place n) round) ∧
        rounds.length + stalls = e.config.maxStalls + 1 ∨
      ∃ before last, rounds = before ++ last ∧ last.length = e.config.maxStalls + 1 ∧
        ∀ round ∈ last, Stall e.ring flow
          (e.ring.place (n + (Transcript.moved e.ring flow before.flatten).length)) round := by
  -- either all rounds so far are stalls and count, or a piece lies before the last of them
  induction h with
  | finished => cases hres
  | unreachable herr => exact absurd (Except.error.inj hres) herr
  | failed _ _ herr => exact absurd (Except.error.inj hres) herr
  | gaveUp ht _ hstall _ =>
      refine Or.inl ⟨List.forall_mem_singleton.mpr hstall, ?_⟩
      rw [List.length_singleton, Nat.le_antisymm hs ht, Nat.add_comm]
  | @stall n _ _ round _ _ ht _ hstall hmoved _ ih =>
      rcases ih ht hres with ⟨hall, hlength⟩ | ⟨before, last, rfl, hlength, hall⟩
      · refine Or.inl ⟨List.forall_mem_cons.mpr ⟨hstall, hall⟩, ?_⟩
        rw [List.length_cons]
        omega
      · refine Or.inr ⟨round :: before, last, rfl, hlength, ?_⟩
        rw [List.flatten_cons, Transcript.moved_both, hmoved, List.nil_append]
        exact hall
  | @piece n _ _ k round rounds _ _ _ _ _ hmoved _ ih =>
      rcases ih (Nat.zero_le _) hres with ⟨hall, hlength⟩ | ⟨before, last, rfl, hlength, hall⟩
      · refine Or.inr ⟨[round], rounds, rfl, hlength, ?_⟩
        rw [List.flatten_singleton, hmoved]
        exact hall
      · refine Or.inr ⟨round :: before, last, rfl, hlength, ?_⟩
        rw [List.flatten_cons, Transcript.moved_both, List.length_append, hmoved, ← Nat.add_assoc]
        exact hall

/-- ... and after so many it gives up. -/
theorem timeout_of_stalls (h : Course e flow n stalls rest (last ++ after) res)
    (hlast : last ≠ []) (hlength : e.config.maxStalls < last.length + stalls)
    (hall : ∀ round ∈ last, Stall e.ring flow (e.ring.place n) round) :
    res = .error .streamTimeout := by
  induction last generalizing n stalls rest with
  | nil => exact absurd rfl hlast
  | cons round last ih =>
      obtain ⟨more, hmore⟩ : ∃ more, more = last ++ after := ⟨_, rfl⟩
      obtain ⟨hround, hall⟩ := List.forall_mem_cons.mp hall
      rw [List.cons_append, ← hmore] at h
      rw [List.length_cons] at hlength
      cases h with
      | failed _ hstall _ => exact absurd hround hstall
      | gaveUp _ _ _ _ => rfl
      | stall ht _ _ _ h =>
          have hne : last ≠ [] := by
            rintro rfl
            rw [List.length_nil] at hlength
            omega
          exact ih (hmore ▸ h) hne (by omega) hall
      | piece _ _ _ hstall _ _ => exact absurd hround hstall

end Course

/-! ## Both loops -/

/-- What is known of the rounds of a loop over `len` bytes.  The host's pointer is at the place of
    the next byte. -/
structure Bounded (e : Engine) (flow : Flow) (len : Nat) (rounds : List (Transcript A))
    (res : Except Error Unit) : Prop where
  count : rounds.length ≤ (len + 1) * (e.config.maxStalls + 1)
  each : ∀ round ∈ rounds, Round e.ring flow round
  /-- Between two pieces there are only so many pauses. -/
  pauses : ∀ before first between second after,
    rounds = before ++ (first :: between ++ second :: after) →
    Transcript.moved e.ring flow first ≠ [] →
    (∀ round ∈ between, Transcript.moved e.ring flow round = []) →
    Transcript.moved e.ring flow second ≠ [] →
    Transcript.pauses (first ++ (between.flatten ++ second)) ≤ e.config.maxStalls
  /-- The loop gives up after so many stalls in a row, and only then. -/
  timeout : res = .error .streamTimeout ↔ ∃ before last after, rounds = before ++ (last ++ after) ∧
    last.length = e.config.maxStalls + 1 ∧
    ∀ round ∈ last, Stall e.ring flow
      (e.ring.place (Transcript.moved e.ring flow before.flatten).length) round
  /-- A round that is neither a stall nor the end of a failed run moves something. -/
  moves : ∀ before round after, rounds = before ++ round :: after →
    Stall e.ring flow (e.ring.place (Transcript.moved e.ring flow before.flatten).length) round ∨
      Transcript.moved e.ring flow round ≠ [] ∨ after = [] ∧ ∃ err, res = .error err

/-- The rounds of a loop that starts at the beginning are bounded. -/
theorem Course.bounded {rounds : List (Transcript A)} {res : Except Error Unit} {len : Nat}
    (h : Course e flow 0 0 len rounds res) : Bounded e flow len rounds res where
  count := h.length_le (Nat.zero_le _)
  each := h.all_rounds
  pauses := by
    rintro before first between second after rfl hfirst hnone hsecond
    have hrounds := h.all_rounds
    have hbusy₁ := (hrounds first (by simp)).busy hfirst
    have hbusy₂ := (hrounds second (by simp)).busy hsecond
    rw [List.cons_append, List.append_cons] at h
    obtain ⟨stalls, rest, hs, h⟩ := h.drop (Nat.zero_le _)
      (List.append_ne_nil_of_right_ne_nil _ (List.cons_ne_nil _ _))
    have hbetween := h.pauses_le hs hnone
    rw [Transcript.pauses_append, Transcript.pauses_append]
    omega
  timeout := by
    constructor
    · intro hres
      rcases h.stalls_of_timeout (Nat.zero_le _) hres with
        ⟨hall, hlength⟩ | ⟨before, last, rfl, hlength, hall⟩
      · exact ⟨[], rounds, [], (List.append_nil _).symm, hlength, hall⟩
      · refine ⟨before, last, [], by rw [List.append_nil], hlength, ?_⟩
        rwa [Nat.zero_add] at hall
    · rintro ⟨before, last, after, rfl, hlength, hall⟩
      have hlast : last ≠ [] := List.ne_nil_of_length_pos (hlength.symm ▸ Nat.succ_pos _)
      obtain ⟨stalls, rest, hs, h⟩ := h.drop (Nat.zero_le _)
        (List.append_ne_nil_of_left_ne_nil hlast _)
      rw [Nat.zero_add] at h
      exact h.timeout_of_stalls hlast (by omega) hall
  moves := by
    rintro before round after rfl
    obtain ⟨stalls, rest, -, h⟩ := h.drop (Nat.zero_le _) (List.cons_ne_nil _ _)
    rw [Nat.zero_add] at h
    exact h.first

/-- An address is needed first. -/
theorem address_course {own len : Nat} {f : A.Addr → StreamM A Unit}
    (hf : ∀ (a : A.Addr) p log, a.toNat = own → ((f a).run.run p).Path log y →
      ∃ rounds, log = rounds.flatten ∧ Course e flow 0 0 len rounds y.1)
    (run : (((liftM (address (A := A) own) : StreamM A A.Addr) >>= f).run.run p).Path log y) :
    ∃ rounds, log = rounds.flatten ∧ Course e flow 0 0 len rounds y.1 := by
  rcases path_seq run with ⟨l, l', a, p', rfl, haddress, hrest⟩ | ⟨err, p', rfl, haddress⟩
  · obtain ⟨rfl, ⟨a', ha, heq⟩ | ⟨_, _, heq⟩⟩ := address_path haddress
    · cases heq
      exact hf a _ l' ha hrest
    · cases heq
  · obtain ⟨rfl, ⟨_, _, heq⟩ | ⟨_, herr, heq⟩⟩ := address_path haddress
    · cases heq
    · cases heq
      exact ⟨[], rfl, .unreachable herr⟩

/-- Both loops, from the beginning. -/
theorem carry_course (data : List UInt8) (run : ((e.carry flow data).run.run p).Path log y) :
    ∃ rounds, log = rounds.flatten ∧ Course e flow 0 0 data.length rounds y.1 := by
  cases flow with
  | write =>
      refine address_course (fun wpPlace p log hwp run => ?_) run
      refine address_course (fun rpPlace p log hrp run => ?_) run
      exact feed_course hwp hrp _ data 0 0 p log e.ring.place_zero.symm run
  | read =>
      refine address_course (fun wpPlace p log hwp run => ?_) run
      refine address_course (fun rpPlace p log hrp run => ?_) run
      exact drain_course hwp hrp _ data.length 0 0 p log e.ring.place_zero.symm run

namespace Bounded

variable {rounds : List (Transcript A)} {res : Except Error Unit} {len : Nat}

/-- There is one look in each round, ... -/
theorem looks_eq (h : ∀ round ∈ rounds, Round e.ring flow round) :
    Transcript.looks e.ring flow rounds.flatten = rounds.length := by
  induction rounds with
  | nil => rfl
  | cons round rounds ih =>
      obtain ⟨hround, hrounds⟩ := List.forall_mem_cons.mp h
      obtain ⟨look, rest, rfl, hlook, hrest⟩ := hround.begins
      have hone : Transcript.looks e.ring flow (look :: rest) = 1 := by
        rw [Transcript.looks, List.countP_cons_of_pos hlook]
        exact congrArg (· + 1) hrest
      rw [List.flatten_cons, Transcript.looks_append, ih hrounds, hone, List.length_cons,
        Nat.add_comm]

/-- ... and eleven operations at most. -/
theorem operations_le (h : ∀ round ∈ rounds, Round e.ring flow round) :
    rounds.flatten.length ≤ 11 * rounds.length := by
  induction rounds with
  | nil => exact Nat.zero_le _
  | cons round rounds ih =>
      obtain ⟨hround, hrounds⟩ := List.forall_mem_cons.mp h
      have hshort := hround.short
      have hrest := ih hrounds
      rw [List.flatten_cons, List.length_append, List.length_cons]
      omega

end Bounded

/-- THE LOOPS END.  Whatever is answered, and whenever the run is looked at: there were only so many
    rounds and operations so far.  A finished run is made of rounds that are `Bounded`. -/
theorem carry_bounded (e : Engine) (flow : Flow) (data : List UInt8)
    {d : Dialogue A (Except Error Unit × Progress)} {log : Transcript A}
    (run : (recorder A).Reaches ((e.carry flow data).run.run {}) [] d log) :
    log.looks e.ring flow ≤ (data.length + 1) * (e.config.maxStalls + 1) ∧
    log.length ≤ 11 * ((data.length + 1) * (e.config.maxStalls + 1)) ∧
    ∀ res p, d = .done (res, p) →
      ∃ rounds, log = rounds.flatten ∧ Bounded e flow data.length rounds res := by
  have hbounded : ∀ {log res p},
      (recorder A).Reaches ((e.carry flow data).run.run {}) [] (.done (res, p)) log →
      ∃ rounds, log = rounds.flatten ∧ Bounded e flow data.length rounds res := by
    intro log res p run
    obtain ⟨_, rfl, hpath⟩ := Path.of_reaches run
    obtain ⟨rounds, rfl, hcourse⟩ := carry_course data hpath
    exact ⟨rounds, rfl, hcourse.bounded⟩
  -- every moment is followed by the end of some run
  obtain ⟨more, hcut⟩ := Transcript.reaches_cutOff .little d log
  obtain ⟨rounds, hlog, hrounds⟩ := hbounded (run.trans hcut)
  have hlooks := Bounded.looks_eq hrounds.each
  have hoperations := Bounded.operations_le hrounds.each
  have hcount := hrounds.count
  rw [← hlog, Transcript.looks_append] at hlooks
  rw [← hlog, List.length_append] at hoperations
  refine ⟨by omega, by omega, ?_⟩
  rintro res p rfl
  exact hbounded run

/-- A consumer that takes nothing: a piece, and two stalls. -/
theorem carry_bounded_stalled :
    ∃ (log : Transcript (plainCore 32)) (p : Progress),
      (recorder (plainCore 32)).Reaches
        (((⟨.twoWords, { maxStalls := 1 }⟩ : Engine).carry .write
          [1, 2, 3, 4, 5, 6, 7, 8]).run.run {}) [] (.done (.error .streamTimeout, p)) log ∧
      log.looks .twoWords .write ≤ 18 ∧
      ∃ before last after : List (Transcript (plainCore 32)),
        log = (before ++ (last ++ after)).flatten ∧ last.length = 2 ∧
        ∀ round ∈ last, Stall .twoWords .write
          (Ring.twoWords.place (Transcript.moved .twoWords .write before.flatten).length)
          round := by
  have hrun : ∃ log, (((⟨.twoWords, { maxStalls := 1 }⟩ : Engine).feed (A := plainCore 32)
      0x1000#32 0x1004#32 0x1008 [1, 2, 3, 4, 5, 6, 7, 8] 0).run.run {}).Path log
      (.error .streamTimeout, { stats := { bytes := 4, chunks := 1, stalls := 1 } }) := by
    rw [feed]
    -- the read pointer, the piece, the write pointer
    refine path_answer (.ok ⟨[0x08, 0x10, 0, 0], rfl⟩) (path_answer Endian.little ?_)
    refine path_answer () (path_answer () (path_answer () (path_answer (.ok ()) ?_)))
    refine path_answer Endian.little (path_answer () (path_answer (.ok ()) ?_))
    refine path_answer () (path_answer false ?_)
    show ∃ log, (((⟨.twoWords, { maxStalls := 1 }⟩ : Engine).feed (A := plainCore 32)
      0x1000#32 0x1004#32 0x100c [5, 6, 7, 8] 0).run.run _).Path log _
    rw [feed]
    -- the read pointer again, and a pause
    refine path_answer (.ok ⟨[0x08, 0x10, 0, 0], rfl⟩) (path_answer Endian.little ?_)
    refine path_answer () (path_answer () (path_answer () (path_answer () ?_)))
    refine path_answer false ?_
    show ∃ log, (((⟨.twoWords, { maxStalls := 1 }⟩ : Engine).feed (A := plainCore 32)
      0x1000#32 0x1004#32 0x100c [5, 6, 7, 8] 1).run.run _).Path log _
    rw [feed]
    refine path_answer (.ok ⟨[0x08, 0x10, 0, 0], rfl⟩) (path_answer Endian.little ?_)
    refine path_answer () (path_answer () (path_answer () (path_answer () ?_)))
    refine path_answer false (path_answer () ?_)
    exact ⟨[], .done _⟩
  obtain ⟨log, hpath⟩ := hrun
  have hrun : (recorder (plainCore 32)).Reaches
      (((⟨.twoWords, { maxStalls := 1 }⟩ : Engine).carry .write
        [1, 2, 3, 4, 5, 6, 7, 8]).run.run {}) []
      (.done (.error .streamTimeout, { stats := { bytes := 4, chunks := 1, stalls := 1 } })) log :=
    hpath.reaches []
  obtain ⟨hlooks, -, hdone⟩ := carry_bounded (⟨.twoWords, { maxStalls := 1 }⟩ : Engine) .write
    [1, 2, 3, 4, 5, 6, 7, 8] hrun
  obtain ⟨rounds, rfl, hrounds⟩ := hdone _ _ rfl
  obtain ⟨before, last, after, rfl, hlength, hall⟩ := hrounds.timeout.mp rfl
  exact ⟨_, _, hrun, hlooks, before, last, after, rfl, hlength, hall⟩

end Engine

end DebugLink
