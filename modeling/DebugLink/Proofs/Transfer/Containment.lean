import DebugLink.Arch.Plain
import DebugLink.Proofs.Path
import DebugLink.Proofs.Ring.Checked
import DebugLink.Transfer.Read
import DebugLink.Transfer.Write

/-!
# What the loops do to any target

Nothing is assumed of the target: it answers every look at the partner's pointer with any word,
and refuses any access.  All that protects the rest of its memory is the check of the pointer
and the arithmetic behind it.

* `Allowed` is what a loop may do at a moment of its run, told from the transcript before: the
  next look, the next piece at the place of the next byte, the host's pointer behind it.
* `Moved` says that a transcript is made of such operations and moved a given list of bytes, and
  `At` that no call was refused so far.  `wp_feed` and `wp_drain` keep `At` from round to round.
* `carry_contained`: WHATEVER IS ANSWERED, byte `k` goes through `place k` and no other address,
  once and in order, the host's pointer word gets `place n` and nothing else, and no step of the
  arithmetic leaves a machine word.

A loop that fails without a word from the algorithm had a reason (`Blamed`).
-/

namespace DebugLink

open Environment Dialogue

variable {A : Arch}

/-! ## Streams in a ring -/

/-- Bytes at consecutive addresses. -/
def spread (a : Nat) (bs : List UInt8) : List (Nat × UInt8) :=
  bs.mapIdx fun k b => (a + k, b)

namespace Ring

variable (r : Ring)

/-- The bytes of a stream, each at its place. -/
def laid (bytes : List UInt8) : List (Nat × UInt8) :=
  bytes.mapIdx fun k b => (r.place k, b)

/-- The address of the host's pointer word. -/
def own : Flow → Nat
  | .write => r.wpAddr
  | .read => r.rpAddr

/-- The address of the algorithm's pointer word. -/
def partner : Flow → Nat
  | .write => r.rpAddr
  | .read => r.wpAddr

/-- Room between the host's pointer and the partner's, or data. -/
def space : Flow → (own ptr : Nat) → Nat
  | .write, own, ptr => r.writeSpace own ptr
  | .read, own, ptr => r.readSpace ptr own

/-- The core has an address for every byte of the buffer. -/
def Representable (A : Arch) : Prop :=
  ∀ x, r.start ≤ x → x < r.fifoEnd → (A.addr? x).isSome = true

/-- The piece of `len` bytes at `a` comes next in a stream of `total` bytes of which `n` have
    been moved. -/
structure Piece (n total a len : Nat) : Prop where
  pos : 0 < len
  at_place : a = r.place n
  fits : a + len ≤ r.fifoEnd
  le : n + len ≤ total
  advances : r.advance? a len = some (r.advance a len)

/-- The pointers that the host goes by after `n` bytes: its own is at the place of the next
    byte, and the room between the two is a machine word. -/
def Sighted (n wp rp : Nat) : Flow → Prop
  | .write => wp = r.place n ∧ r.writeSpace? wp rp = some (r.writeSpace wp rp)
  | .read => rp = r.place n ∧ r.readSpace? wp rp = some (r.readSpace wp rp)

variable {r}

/-- A piece more is laid right behind the others. -/
theorem laid_append {bytes piece : List UInt8}
    (h : r.place bytes.length + piece.length ≤ r.fifoEnd) :
    r.laid (bytes ++ piece) = r.laid bytes ++ spread (r.place bytes.length) piece := by
  rw [laid, laid, spread, List.mapIdx_append]
  congr 1
  refine List.ext_getElem (by simp) ?_
  intro k hk _
  rw [List.length_mapIdx] at hk
  rw [List.getElem_mapIdx, List.getElem_mapIdx, Nat.add_comm k,
    place_add (Nat.lt_of_lt_of_le (Nat.add_lt_add_left hk _) h)]

/-- Where a stream lies tells what it is. -/
theorem laid_injective {bytes bytes' : List UInt8} (h : r.laid bytes = r.laid bytes') :
    bytes = bytes' := by
  have hmap : ∀ bytes : List UInt8, (r.laid bytes).map Prod.snd = bytes := fun bytes =>
    List.ext_getElem (by simp [laid]) fun _ _ _ => by simp [laid]
  rw [← hmap bytes, h, hmap]

/-- The host's word lies below the fifo, ... -/
theorem own_lt (flow : Flow) : r.own flow < r.fifoStart := by
  rw [fifoStart_eq]
  cases flow
  · exact Nat.lt_add_of_pos_right (by decide)
  · exact Nat.add_lt_add_left (show 4 < 8 by decide) _

/-- ... and so does the partner's. -/
theorem partner_lt (flow : Flow) : r.partner flow < r.fifoStart := by
  cases flow
  · exact r.own_lt .read
  · exact r.own_lt .write

/-- Where there is room a piece has at least one byte, and ends in the fifo. -/
theorem piece_bounds (flow : Flow) {n ptr rest len at' : Nat}
    (hvalid : r.isValidPtr ptr = true) (hspace : r.space flow (r.place n) ptr ≠ 0)
    (hrest : rest ≠ 0) (hlen : len = trimChunk at' (min (r.space flow (r.place n) ptr) rest)) :
    0 < len ∧ len ≤ rest ∧ r.place n + len ≤ r.fifoEnd := by
  have hptr := (isValidPtr_iff.mp hvalid).2.1
  have hfits : r.place n + r.space flow (r.place n) ptr ≤ r.fifoEnd := by
    cases flow with
    | write => exact writeSpace_fits (r.place_lt n) (Nat.le_of_lt hptr)
    | read => exact readSpace_fits hptr (r.place_lt n)
  have hpos : 0 < trimChunk at' (min (r.space flow (r.place n) ptr) rest) :=
    trimChunk_pos (by omega)
  have hle := trimChunk_le at' (min (r.space flow (r.place n) ptr) rest)
  rw [hlen]
  omega

end Ring

/-! ## What a transcript says -/

/-- The call was refused. -/
def Event.Refused : Event A → Prop
  | ⟨.call _, .error _⟩ => True
  | _ => False

/-- The byte order that was told. -/
def Event.order? : Event A → Option Endian
  | ⟨.feature .endian, order⟩ => some order
  | _ => none

/-- The bytes that an access moved through the fifo, each with its address. -/
def Event.moved (r : Ring) : Flow → Event A → List (Nat × UInt8)
  | .write, ⟨.call (.write a bs), .ok _⟩ =>
      if r.fifoStart ≤ a.toNat then spread a.toNat bs else []
  | .read, ⟨.call (.read a _), .ok bytes⟩ =>
      if r.fifoStart ≤ a.toNat then spread a.toNat bytes.val else []
  | _, _ => []

/-- A reason to give up that is not the algorithm's: a call that was refused, a pointer that the
    partner cannot have published, a shutdown, or the limit on stalls.  Pointers are words in
    `order`, and so the target must not tell another order. -/
def Event.Excuse (r : Ring) (flow : Flow) (order : Endian) : Event A → Prop
  | ⟨.call _, .error _⟩ => True
  | ⟨.call (.read a _), .ok bytes⟩ =>
      a.toNat = r.partner flow ∧ order.value bytes.val ≠ 0 ∧
        r.isValidPtr (order.value bytes.val) = false
  | ⟨.feature .endian, told⟩ => told ≠ order
  | ⟨.host .shutdownPending, stop⟩ => stop = true
  | ⟨.note .noProgress, _⟩ => True
  | _ => False

namespace Transcript

/-- No call was refused. -/
def Smooth (log : Transcript A) : Prop :=
  ∀ event ∈ log, ¬ event.Refused

/-- The byte order that was told last. -/
def order? (log : Transcript A) : Option Endian :=
  (log.filterMap Event.order?).getLast?

/-- The bytes that went through the fifo, each with its address. -/
def moved (r : Ring) (flow : Flow) (log : Transcript A) : List (Nat × UInt8) :=
  log.flatMap (Event.moved r flow)

/-- There was a reason to give up that is not the algorithm's. -/
def Excused (r : Ring) (flow : Flow) (order : Endian) (log : Transcript A) : Prop :=
  ∃ event ∈ log, event.Excuse r flow order

/-- There was such a reason, whatever the byte order, or the ring is out of the core's reach. -/
def Blamed (r : Ring) (flow : Flow) (log : Transcript A) : Prop :=
  (∀ order, log.Excused r flow order) ∨ ¬ r.Representable A

variable {r : Ring} {flow : Flow} {log : Transcript A} {op : Op A} {event : Event A}

/-- A run is smooth until something is refused. -/
theorem Smooth.append (h : log.Smooth) (he : ¬ event.Refused) : Smooth (log ++ [event]) := by
  intro event' hm
  rcases List.mem_append.mp hm with hm | hm
  · exact h event' hm
  · rw [List.mem_singleton.mp hm]
    exact he

/-- What moves is read off event by event. -/
theorem moved_append (event : Event A) :
    moved r flow (log ++ [event]) = log.moved r flow ++ event.moved r flow := by
  simp [moved]

/-- The byte order that was told last counts, ... -/
theorem order?_told (log : Transcript A) (order : Endian) :
    order? (log ++ [⟨.feature .endian, order⟩]) = some order := by
  simp [order?, Event.order?]

/-- ... and a note is not an answer. -/
theorem order?_note (log : Transcript A) (n : Note) (a : (Op.note n : Op A).Answer) :
    order? (log ++ [⟨.note n, a⟩]) = log.order? := by
  simp [order?, Event.order?]

/-- What is to blame stays so. -/
theorem Blamed.append (h : log.Blamed r flow) (event : Event A) :
    Blamed r flow (log ++ [event]) :=
  h.imp_left fun he order =>
    (he order).imp fun _ ⟨hm, hx⟩ => ⟨List.mem_append_left _ hm, hx⟩

/-- An excuse that holds for either byte order is one. -/
theorem blamed (he : ∀ order, event.Excuse r flow order) : Blamed r flow (log ++ [event]) :=
  Or.inl fun order => ⟨event, List.mem_append_right _ (List.mem_singleton_self _), he order⟩

end Transcript

/-! ## What a loop may do -/

/-- What a loop may do after `before`. -/
def Allowed (r : Ring) (flow : Flow) (data : List UInt8) (before : Transcript A) : Op A → Prop
  | .call (.write a bs) => before.Smooth ∧
      ((a.toNat = r.own flow ∧ ∃ order, before.order? = some order ∧
          bs = order.encode 4 (r.place (before.moved r flow).length)) ∨
        (flow = .write ∧ r.Piece (before.moved r flow).length data.length a.toNat bs.length ∧
          bs <+: data.drop (before.moved r flow).length))
  | .call (.read a len) => before.Smooth ∧
      ((a.toNat = r.partner flow ∧ len = 4) ∨
        (flow = .read ∧ r.Piece (before.moved r flow).length data.length a.toNat len))
  | .call _ => False
  | .note (.progress bytes _ wp rp) =>
      bytes = (before.moved r flow).length ∧ r.Sighted bytes wp rp flow
  | _ => True

/-- Neither an access nor a report of the pointers. -/
def Op.Silent : Op A → Prop
  | .call _ | .note (.progress ..) => False
  | _ => True

namespace Engine

/-- The loop of a transfer. -/
def carry (e : Engine) : Flow → List UInt8 → StreamM A Unit
  | .write, data => e.feedAll data
  | .read, buffer => e.drainAll buffer.length

open Transcript

/-- A transcript of a loop that moved `bytes`. -/
structure Contained (r : Ring) (flow : Flow) (data bytes : List UInt8) (log : Transcript A) :
    Prop where
  allowed : ∀ before event after, log = before ++ event :: after →
    Allowed r flow data before event.op
  moved : log.moved r flow = r.laid bytes
  le : bytes.length ≤ data.length
  part : flow = .write → bytes <+: data

/-- What the host counts is what was moved. -/
structure Counted (r : Ring) (flow : Flow) (bytes : List UInt8) (p : Progress) : Prop where
  count : p.stats.bytes = bytes.length
  wraps : p.stats.wraps = r.rounds bytes.length
  received : flow = .read → p.received = bytes

/-- A piece that is counted. -/
theorem Counted.piece {r : Ring} {flow : Flow} {bytes piece received : List UInt8} {s : Stats}
    (hcount : s.bytes = bytes.length) (hwraps : s.wraps = r.rounds bytes.length)
    (hend : r.place bytes.length + piece.length ≤ r.fifoEnd)
    (hreceived : flow = .read → received = bytes ++ piece) :
    Counted r flow (bytes ++ piece)
      { stats :=
          { s with
            bytes := s.bytes + piece.length
            chunks := s.chunks + 1
            wraps := s.wraps + (r.advance (r.place bytes.length) piece.length).2.toUInt32 }
        received } where
  count := by rw [List.length_append, hcount]
  wraps := by rw [List.length_append, Ring.rounds_add hend, hwraps]
  received := hreceived

namespace Contained

/-- What holds at every moment. -/
def Midway (r : Ring) (flow : Flow) (data : List UInt8) (log : Transcript A) : Prop :=
  ∃ bytes, Contained r flow data bytes log

/-- The loop goes on. -/
structure Goes (r : Ring) (flow : Flow) (data bytes : List UInt8) (log : Transcript A) : Prop
    extends Contained r flow data bytes log where
  smooth : log.Smooth

/-- The loop gives up, and has a reason. -/
structure Gone (r : Ring) (flow : Flow) (data bytes : List UInt8) (log : Transcript A) : Prop
    extends Contained r flow data bytes log where
  blamed : log.Blamed r flow

/-- How a loop ends. -/
def Ends (r : Ring) (flow : Flow) (data : List UInt8) (res : Except Error Unit × Progress)
    (log : Transcript A) : Prop :=
  ∃ bytes, Contained r flow data bytes log ∧ Counted r flow bytes res.2 ∧
    (res.1 = .ok () → bytes.length = data.length) ∧
    ∀ err, res.1 = .error err → err = .operationFailed ∨ log.Blamed r flow

variable {r : Ring} {flow : Flow} {data bytes : List UInt8} {log : Transcript A} {op : Op A}
  {p : Progress}

/-- As many bytes were moved as there are places. -/
theorem length (h : Contained r flow data bytes log) :
    (log.moved r flow).length = bytes.length := by
  rw [h.moved, Ring.laid, List.length_mapIdx]

/-! ## One more operation -/

/-- One operation that is allowed may move some bytes more. -/
theorem step {more : List UInt8} (h : Contained r flow data bytes log) (a : op.Answer)
    (hop : Allowed r flow data log op)
    (hmoved : r.laid bytes ++ Event.moved r flow ⟨op, a⟩ = r.laid more)
    (hle : more.length ≤ data.length) (hpart : flow = .write → more <+: data) :
    Contained r flow data more (log ++ [⟨op, a⟩]) where
  allowed := by
    intro before event after heq
    rcases Transcript.split_last heq with ⟨rfl, rfl, -⟩ | ⟨after', hlog, -⟩
    · exact hop
    · exact h.allowed before event after' hlog
  moved := by rw [Transcript.moved_append, h.moved, hmoved]
  le := hle
  part := hpart

/-- An operation that moves nothing. -/
theorem idle (h : Contained r flow data bytes log) (a : op.Answer)
    (hop : Allowed r flow data log op) (hmoved : Event.moved r flow ⟨op, a⟩ = []) :
    Contained r flow data bytes (log ++ [⟨op, a⟩]) :=
  h.step a hop (by rw [hmoved, List.append_nil]) h.le h.part

/-- An operation that moves nothing keeps what holds. -/
theorem silent (h : Contained r flow data bytes log) (hop : op.Silent) (a : op.Answer) :
    Contained r flow data bytes (log ++ [⟨op, a⟩]) := by
  refine h.idle a ?_ ?_
  · unfold Op.Silent at hop
    unfold Allowed
    split <;> simp_all
  · cases op with
    | call c => exact hop.elim
    | _ => cases flow <;> rfl

/-- A refused call. -/
theorem refused {c : Call A} (h : Contained r flow data bytes log)
    (hop : Allowed r flow data log (.call c)) (err : TargetError) :
    Gone r flow data bytes (log ++ [⟨.call c, .error err⟩]) where
  toContained := h.idle _ hop (by cases flow <;> cases c <;> rfl)
  blamed := Transcript.blamed fun _ => by cases c <;> trivial

/-- The run goes on, ... -/
theorem Goes.silent (h : Goes r flow data bytes log) (hop : op.Silent) (a : op.Answer) :
    Goes r flow data bytes (log ++ [⟨op, a⟩]) where
  toContained := h.toContained.silent hop a
  smooth := h.smooth.append (by cases op <;> first | exact hop.elim | exact id)

/-- ... and stays contained at every moment of it. -/
theorem kept_goes (bytes : List UInt8) :
    Kept Op.Silent (Midway (A := A) r flow data) (Goes r flow data bytes) where
  event := fun a hop h => h.silent hop a
  holds := fun h => ⟨bytes, h.toContained⟩

/-- A run that is over stays what it is. -/
theorem kept_gone (bytes : List UInt8) :
    Kept Op.Silent (Midway (A := A) r flow data) (Gone r flow data bytes) where
  event := fun a hop h => ⟨h.toContained.silent hop a, h.blamed.append _⟩
  holds := fun h => ⟨bytes, h.toContained⟩

/-- A run that went wrong ends with what was counted. -/
theorem Gone.ends (h : Gone r flow data bytes log) (hp : Counted r flow bytes p) (err : Error) :
    Ends r flow data (.error err, p) log :=
  ⟨bytes, h.toContained, hp, nofun, fun _ _ => Or.inr h.blamed⟩

/-- The core has no address for it. -/
theorem Goes.outOfReach (h : Goes r flow data bytes log) (hr : ¬ r.Representable A) :
    Gone r flow data bytes log :=
  ⟨h.toContained, Or.inr hr⟩

/-! ## The parts of a round -/

variable {Q : Except Error Unit × Progress → Transcript A → Prop}

/-- A look at the partner's pointer. -/
theorem wp_look {place : A.Addr} (hplace : place.toNat = r.partner flow)
    {Q : Except Error Nat × Progress → Transcript A → Prop} (h : Goes r flow data bytes log)
    (ok : ∀ v log, Goes r flow data bytes log →
      (v ≠ 0 → r.isValidPtr v = false → log.Blamed r flow) → Q (.ok v, p) log)
    (err : ∀ err log, Gone r flow data bytes log → Q (.error err, p) log) :
    (recorder A).wp (Midway r flow data) ((partnerPointer flow place).run.run p) Q log := by
  have hlook : Allowed r flow data log (.call (.read place 4)) :=
    ⟨h.smooth, Or.inl ⟨hplace, rfl⟩⟩
  have hlow : ¬ r.fifoStart ≤ place.toNat := by
    rw [hplace]
    exact Nat.not_le_of_lt (Ring.partner_lt flow)
  rw [partnerPointer]
  refine wp_seq (wp_outcome (wp_lift ?_))
  rw [readWord]
  refine wp_andThen (wp_op ⟨bytes, h.toContained⟩ ?_)
  rintro (e | word)
  · -- refused: the partner's pointer is not known
    refine wp_kept (kept_gone bytes) trivial (h.toContained.refused hlook e) fun _ hg => ?_
    exact wp_kept (kept_gone bytes) trivial hg fun _ hg => err _ _ hg
  · have hread : Goes r flow data bytes (log ++ [⟨.call (.read place 4), .ok word⟩]) := by
      refine ⟨h.toContained.idle _ hlook ?_, h.smooth.append id⟩
      cases flow
      · rfl
      · exact if_neg hlow
    refine wp_kept (kept_goes bytes) trivial hread fun told hg => ?_
    refine wp_kept (kept_goes bytes) trivial hg fun _ hg => ok _ _ hg ?_
    intro hv hbad
    refine Or.inl fun order => ?_
    -- the word is bad in the order it was read in; any other order was not told
    by_cases ho : told = order
    · exact ⟨⟨.call (.read place WordSize.full.bytes), .ok word⟩, by simp, hplace,
        ho ▸ hv, ho ▸ hbad⟩
    · exact ⟨⟨.feature .endian, told⟩, by simp, ho⟩

/-- The check of a pointer, with the reason to refuse it. -/
theorem wp_check {e : Engine} {v : Nat} (h : Goes r flow data bytes log)
    (hp : Counted r flow bytes p) (he : e.ring = r)
    (hbad : v ≠ 0 → r.isValidPtr v = false → log.Blamed r flow)
    (ok : ∀ log, r.isValidPtr v = true → Goes r flow data bytes log → Q (.ok (), p) log)
    (err : ∀ err log, Ends r flow data (.error err, p) log → Q (.error err, p) log) :
    (recorder A).wp (Midway r flow data) ((e.checkPointer flow v : StreamM A Unit).run.run p) Q
      log := by
  rw [checkPointer, he]
  by_cases hz : v = 0
  · simp only [hz, ↓reduceIte]
    refine wp_kept (kept_goes bytes) trivial h fun _ h => err _ _ ?_
    -- the partner gave up, which is nobody else's fault
    exact ⟨bytes, h.toContained, hp, nofun, fun _ heq => Or.inl (Except.error.inj heq).symm⟩
  · cases hv : r.isValidPtr v with
    | true =>
        simp only [hz, Bool.not_true, ↓reduceIte]
        exact ok _ hv h
    | false =>
        simp only [hz, Bool.not_false, ↓reduceIte]
        have hg : Gone r flow data bytes log := ⟨h.toContained, hbad hz hv⟩
        exact wp_kept (kept_gone bytes) trivial hg fun _ hg => err _ _ (hg.ends hp _)

/-- A stop for the rest of the host. -/
theorem wp_stop (h : Goes r flow data bytes log)
    (ok : ∀ log, Goes r flow data bytes log → Q (.ok (), p) log)
    (err : ∀ err log, Gone r flow data bytes log → Q (.error err, p) log) :
    (recorder A).wp (Midway r flow data) ((giveWay : StreamM A Unit).run.run p) Q log := by
  refine wp_kept (kept_goes bytes) trivial h fun _ h => ?_
  refine wp_kept (kept_goes bytes) trivial h fun stop hg => ?_
  cases stop with
  | false => exact ok _ hg
  | true => exact err _ _ ⟨hg.toContained, blamed fun _ => rfl⟩

/-- A pause. -/
theorem wp_pause {e : Engine} (h : Goes r flow data bytes log)
    (ok : ∀ log, Goes r flow data bytes log → Q (.ok (), p) log)
    (err : ∀ err log, Gone r flow data bytes log → Q (.error err, p) log) :
    (recorder A).wp (Midway r flow data) ((e.backOff : StreamM A Unit).run.run p) Q log :=
  wp_kept (kept_goes bytes) trivial h fun _ h => wp_stop h ok err

/-- An address of the ring. -/
theorem wp_place {n : Nat} {Q : Except Error A.Addr → Transcript A → Prop}
    (hlow : r.start ≤ n) (hhigh : n < r.fifoEnd)
    (ok : ∀ a, A.addr? n = some a → Q (.ok a) log)
    (err : ∀ err, ¬ r.Representable A → Q (.error err) log) :
    (recorder A).wp (Midway r flow data) (address n).run Q log := by
  rw [address]
  cases ha : A.addr? n with
  | some a => exact ok a ha
  | none =>
      refine err _ fun hr => ?_
      have hsome := hr n hlow hhigh
      rw [ha] at hsome
      exact Bool.false_ne_true hsome

/-- The host's pointer, behind what was moved. -/
theorem wp_publish {place : A.Addr} {n : Nat} (hplace : place.toNat = r.own flow)
    (hn : n = r.place bytes.length) (h : Goes r flow data bytes log)
    {Q : Except Error Unit → Transcript A → Prop}
    (ok : ∀ log, Goes r flow data bytes log → Q (.ok ()) log)
    (err : ∀ err log, Gone r flow data bytes log → Q (.error err) log) :
    (recorder A).wp (Midway r flow data) (writeWord .full place n).run Q log := by
  rw [writeWord]
  refine wp_andThen (wp_kept (kept_goes bytes) trivial h fun order h => ?_)
  refine wp_kept (kept_goes bytes) trivial h fun _ h => wp_op ⟨bytes, h.toContained⟩ ?_
  have hlow : ¬ r.fifoStart ≤ place.toNat := by
    rw [hplace]
    exact Nat.not_le_of_lt (Ring.own_lt flow)
  -- the order was told just before, and only noted since
  have hop : ∀ log : Transcript A, Goes r flow data bytes log → log.order? = some order →
      Allowed r flow data log (.call (.write place (order.encode 4 n))) := by
    intro log h ho
    exact ⟨h.smooth, Or.inl ⟨hplace, order, ho, by rw [h.length, hn]⟩⟩
  replace hop := hop _ h ((order?_note _ _ _).trans (order?_told _ order))
  rintro (e | _)
  · exact err _ _ (h.toContained.refused hop e)
  · refine ok _ ⟨h.toContained.idle _ hop ?_, h.smooth.append id⟩
    cases flow
    · exact if_neg hlow
    · rfl

/-! ## Pieces -/

/-- The next piece of the stream. -/
theorem piece_of {n len : Nat} (hn : n = bytes.length) (hpos : 0 < len)
    (hend : r.place bytes.length + len ≤ r.fifoEnd) (hle : bytes.length + len ≤ data.length)
    {a : A.Addr} (ha : A.addr? (r.place bytes.length) = some a) :
    r.Piece n data.length a.toNat len := by
  rw [A.toNat_of_addr? ha, hn]
  exact ⟨hpos, rfl, hend, hle, Ring.advance?_eq hend⟩

/-- A piece that ends in the fifo ends within the core's reach, or the ring does not. -/
theorem fits_of_representable {a : A.Addr} {n len : Nat} (hr : r.Representable A)
    (ha : A.addr? (r.place n) = some a) (hend : r.place n + len ≤ r.fifoEnd) (hpos : 0 < len) :
    Arch.Fits a len := by
  have hlow := r.fifoStart_le_place n
  have hstart : r.fifoStart = r.start + 8 := rfl
  have hlast := hr (r.place n + (len - 1)) (by omega) (by omega)
  right
  rw [A.toNat_of_addr? ha]
  unfold Arch.addr? at hlast
  split at hlast
  · assumption
  · exact absurd hlast Bool.false_ne_true

/-- The next piece is written. -/
theorem wp_writePiece {a : A.Addr} {piece : List UInt8}
    {Q : Except Error Unit → Transcript A → Prop}
    (ha : A.addr? (r.place bytes.length) = some a) (hpos : 0 < piece.length)
    (hend : r.place bytes.length + piece.length ≤ r.fifoEnd) (hdata : bytes ++ piece <+: data)
    (h : Goes r .write data bytes log)
    (ok : ∀ log, Goes r .write data (bytes ++ piece) log → Q (.ok ()) log)
    (err : ∀ err log, Gone r .write data bytes log → Q (.error err) log) :
    (recorder A).wp (Midway r .write data) (writeBuffer a piece).run Q log := by
  have hle : bytes.length + piece.length ≤ data.length := by
    rw [← List.length_append]
    exact hdata.length_le
  have hrest : piece <+: data.drop bytes.length := by
    obtain ⟨rest, rfl⟩ := hdata
    rw [List.append_assoc, List.drop_left]
    exact List.prefix_append _ _
  rw [writeBuffer]
  refine wp_andThen (wp_kept (kept_goes bytes) trivial h fun _ h => ?_)
  show (recorder A).wp _ (ExceptT.run (if piece = [] then pure () else _)) Q _
  rw [if_neg (List.ne_nil_of_length_pos hpos)]
  refine wp_andThen ?_
  rw [checkFits]
  split
  · -- the piece is what comes next, where it belongs
    have hop : Allowed r .write data _ (.call (.write a piece)) :=
      ⟨h.smooth, Or.inr ⟨rfl, piece_of h.length hpos hend hle ha, h.length ▸ hrest⟩⟩
    refine wp_op ⟨bytes, h.toContained⟩ ?_
    rintro (e | _)
    · exact err _ _ (h.toContained.refused hop e)
    · refine ok _ ⟨h.toContained.step _ hop ?_ ?_ fun _ => hdata, h.smooth.append id⟩
      · rw [Event.moved, A.toNat_of_addr? ha, if_pos (r.fifoStart_le_place _),
          Ring.laid_append hend]
      · rw [List.length_append]
        exact hle
  · -- an address that wraps around: then the ring is out of the core's reach
    next hfits =>
    have hg := h.outOfReach fun hr => hfits (fits_of_representable hr ha hend hpos)
    exact wp_kept (kept_gone bytes) trivial hg fun _ hg => err _ _ hg

/-- The next piece is read. -/
theorem wp_readPiece {a : A.Addr} {len : Nat} {Q : Except Error (Bytes len) → Transcript A → Prop}
    (ha : A.addr? (r.place bytes.length) = some a) (hpos : 0 < len)
    (hend : r.place bytes.length + len ≤ r.fifoEnd) (hle : bytes.length + len ≤ data.length)
    (h : Goes r .read data bytes log)
    (ok : ∀ (piece : Bytes len) log, Goes r .read data (bytes ++ piece.val) log →
      Q (.ok piece) log)
    (err : ∀ err log, Gone r .read data bytes log → Q (.error err) log) :
    (recorder A).wp (Midway r .read data) (readBuffer a len).run Q log := by
  rw [readBuffer]
  refine wp_andThen (wp_kept (kept_goes bytes) trivial h fun _ h => ?_)
  show (recorder A).wp _ (ExceptT.run (if h : len = 0 then pure ⟨[], h.symm⟩ else _)) Q _
  rw [dif_neg (Nat.pos_iff_ne_zero.mp hpos)]
  refine wp_andThen ?_
  rw [checkFits]
  split
  · have hop : Allowed r .read data _ (.call (.read a len)) :=
      ⟨h.smooth, Or.inr ⟨rfl, piece_of h.length hpos hend hle ha⟩⟩
    refine wp_op ⟨bytes, h.toContained⟩ ?_
    rintro (e | piece)
    · exact err _ _ (h.toContained.refused hop e)
    · have hlen := piece.property
      refine ok _ _ ⟨h.toContained.step _ hop ?_ ?_ nofun, h.smooth.append id⟩
      · rw [Event.moved, A.toNat_of_addr? ha, if_pos (r.fifoStart_le_place _),
          Ring.laid_append (hlen.symm ▸ hend)]
      · rw [List.length_append, hlen]
        exact hle
  · next hfits =>
    have hg := h.outOfReach fun hr => hfits (fits_of_representable hr ha hend hpos)
    exact wp_kept (kept_gone bytes) trivial hg fun _ hg => err _ _ hg

variable {e : Engine}

/-- What comes behind a piece: it is counted, and the host's pointer published. -/
theorem wp_behind {place : A.Addr} (hplace : place.toNat = e.ring.own flow)
    {piece : List UInt8} {next : StreamM A Unit}
    (h : Goes e.ring flow data (bytes ++ piece) log)
    (hend : e.ring.place bytes.length + piece.length ≤ e.ring.fifoEnd)
    (hcount : p.stats.bytes = bytes.length)
    (hwraps : p.stats.wraps = e.ring.rounds bytes.length)
    (hreceived : flow = .read → p.received = bytes ++ piece)
    (hnext : ∀ p log, Goes e.ring flow data (bytes ++ piece) log →
      Counted e.ring flow (bytes ++ piece) p →
      (recorder A).wp (Midway e.ring flow data) (next.run.run p) (Ends e.ring flow data) log) :
    (recorder A).wp (Midway e.ring flow data)
      ((do
        countChunk piece.length (e.ring.advance (e.ring.place bytes.length) piece.length).2
        writeWord .full place (e.ring.advance (e.ring.place bytes.length) piece.length).1
        giveWay
        next : StreamM A Unit).run.run p) (Ends e.ring flow data) log := by
  have hp : Counted e.ring flow (bytes ++ piece) _ := Counted.piece hcount hwraps hend hreceived
  -- the pointer that is published is the place of the next byte
  have hat : (e.ring.advance (e.ring.place bytes.length) piece.length).1 =
      e.ring.place (bytes ++ piece).length := by
    rw [Ring.advance_place hend, List.length_append]
  refine wp_modify (wp_seq (wp_lift (wp_publish hplace hat h ?_ ?_)))
  · intro log h
    rw [after_ok]
    refine wp_seq (wp_stop h ?_ ?_)
    · intro log h
      exact hnext _ log h hp
    · intro err log hg
      exact hg.ends hp err
  · intro err log hg
    exact hg.ends hp err

/-- Where the next byte goes is an address of the ring. -/
theorem wp_next {n : Nat} {Q : Except Error A.Addr → Transcript A → Prop}
    (ok : ∀ a, A.addr? (r.place n) = some a → Q (.ok a) log)
    (err : ∀ err, ¬ r.Representable A → Q (.error err) log) :
    (recorder A).wp (Midway r flow data) (address (r.place n)).run Q log :=
  wp_place (Nat.le_trans (Nat.le_add_right _ _) (r.fifoStart_le_place n)) (r.place_lt n) ok err

/-- A piece is handed over, and what comes behind it. -/
theorem wp_handPiece {place : A.Addr} (hplace : place.toNat = e.ring.own .write)
    {piece : List UInt8} {next : StreamM A Unit} (h : Goes e.ring .write data bytes log)
    (hp : Counted e.ring .write bytes p) (hpos : 0 < piece.length)
    (hend : e.ring.place bytes.length + piece.length ≤ e.ring.fifoEnd)
    (hdata : bytes ++ piece <+: data)
    (hnext : ∀ p log, Goes e.ring .write data (bytes ++ piece) log →
      Counted e.ring .write (bytes ++ piece) p →
      (recorder A).wp (Midway e.ring .write data) (next.run.run p) (Ends e.ring .write data)
        log) :
    (recorder A).wp (Midway e.ring .write data)
      ((do
        writeBuffer (← address (A := A) (e.ring.place bytes.length)) piece
        countChunk piece.length (e.ring.advance (e.ring.place bytes.length) piece.length).2
        writeWord .full place (e.ring.advance (e.ring.place bytes.length) piece.length).1
        giveWay
        next : StreamM A Unit).run.run p) (Ends e.ring .write data) log := by
  refine wp_seq (wp_lift (wp_next ?_ fun err hr => (h.outOfReach hr).ends hp err))
  intro a ha
  rw [after_ok]
  refine wp_seq (wp_lift (wp_writePiece ha hpos hend hdata h ?_ fun err log hg => hg.ends hp err))
  intro log h
  rw [after_ok]
  exact wp_behind hplace h hend hp.count hp.wraps nofun hnext

/-- A piece is taken over, and what comes behind it. -/
theorem wp_takePiece {place : A.Addr} (hplace : place.toNat = e.ring.own .read) {len : Nat}
    {next : StreamM A Unit} (h : Goes e.ring .read data bytes log)
    (hp : Counted e.ring .read bytes p) (hpos : 0 < len)
    (hend : e.ring.place bytes.length + len ≤ e.ring.fifoEnd)
    (hle : bytes.length + len ≤ data.length)
    (hnext : ∀ (piece : Bytes len) p log, Goes e.ring .read data (bytes ++ piece.val) log →
      Counted e.ring .read (bytes ++ piece.val) p →
      (recorder A).wp (Midway e.ring .read data) (next.run.run p) (Ends e.ring .read data) log) :
    (recorder A).wp (Midway e.ring .read data)
      ((do
        let chunk ← readBuffer (← address (A := A) (e.ring.place bytes.length)) len
        receive chunk.val
        countChunk len (e.ring.advance (e.ring.place bytes.length) len).2
        writeWord .full place (e.ring.advance (e.ring.place bytes.length) len).1
        giveWay
        next : StreamM A Unit).run.run p) (Ends e.ring .read data) log := by
  refine wp_seq (wp_lift (wp_next ?_ fun err hr => (h.outOfReach hr).ends hp err))
  intro a ha
  rw [after_ok]
  refine wp_seq (wp_lift (wp_readPiece ha hpos hend hle h ?_ fun err log hg => hg.ends hp err))
  rintro ⟨piece, rfl⟩ log h
  rw [after_ok]
  -- what was read is kept before the pointer is published
  refine wp_modify (wp_behind hplace h hend hp.count hp.wraps ?_ (hnext ⟨piece, rfl⟩))
  exact fun _ => congrArg (· ++ piece) (hp.received rfl)

/-- A round without room or data: the loop backs off, and gives up after so many of them. -/
theorem wp_stall {stalls : Nat} {next : StreamM A Unit} (h : Goes e.ring flow data bytes log)
    (hp : Counted e.ring flow bytes p)
    (hnext : stalls < e.config.maxStalls → ∀ p log, Goes e.ring flow data bytes log →
      Counted e.ring flow bytes p →
      (recorder A).wp (Midway e.ring flow data) (next.run.run p) (Ends e.ring flow data) log) :
    (recorder A).wp (Midway e.ring flow data)
      ((do
        e.backOff
        if _ : stalls < e.config.maxStalls then
          count fun s => { s with stalls := s.stalls + 1 }
          next
        else
          note .noProgress
          throw .streamTimeout : StreamM A Unit).run.run p) (Ends e.ring flow data) log := by
  refine wp_seq (wp_pause h ?_ ?_)
  · intro log h
    rw [after_ok]
    split
    · next ht =>
      exact wp_modify (hnext ht _ log h ⟨hp.count, hp.wraps, hp.received⟩)
    · have hnote : Op.Silent (A := A) (.note .noProgress) := trivial
      refine wp_op ⟨bytes, h.toContained⟩ fun told => ?_
      -- giving up needs no excuse: nothing was promised in time
      have hg : Gone e.ring flow data bytes (log ++ [⟨.note .noProgress, told⟩]) :=
        ⟨h.toContained.silent hnote told, blamed fun _ => trivial⟩
      exact hg.ends hp _
  · intro err log hg
    exact hg.ends hp err

/-! ## The loops -/

/-- THE LOOP OF A WRITE STAYS IN THE RING. -/
theorem wp_feed {wpPlace rpPlace : A.Addr} (hwp : wpPlace.toNat = e.ring.own .write)
    (hrp : rpPlace.toNat = e.ring.partner .write) (own : Nat) (rest : List UInt8) (stalls : Nat) :
    ∀ (bytes : List UInt8) (p : Progress) (log : Transcript A),
      Goes e.ring .write data bytes log → Counted e.ring .write bytes p →
      own = e.ring.place bytes.length → data = bytes ++ rest →
      (recorder A).wp (Midway e.ring .write data)
        ((e.feed wpPlace rpPlace own rest stalls).run.run p) (Ends e.ring .write data) log := by
  induction own, rest, stalls using Engine.feed.induct e with
  | case1 own stalls =>
      intro bytes p log h hp _ hdata
      rw [feed, dif_pos rfl]
      rw [List.append_nil] at hdata
      exact ⟨bytes, h.toContained, hp, fun _ => congrArg List.length hdata.symm, nofun⟩
  | case2 own rest stalls hne ihStall ihPiece =>
      rintro bytes p log h hp rfl hdata
      rw [feed, dif_neg hne]
      refine wp_seq (wp_look hrp h ?_ fun err log hg => hg.ends hp err)
      intro rp log h hbad
      have hlt := e.ring.place_lt bytes.length
      have hsight : Allowed e.ring .write data log
          (.note (.progress p.stats.bytes rest.length (e.ring.place bytes.length) rp)) := by
        have hn : p.stats.bytes = (log.moved e.ring .write).length := hp.count.trans h.length.symm
        exact ⟨hn, by rw [hp.count], Ring.writeSpace?_eq hlt⟩
      refine wp_get (wp_op ⟨bytes, h.toContained⟩ fun told => ?_)
      replace h : Goes e.ring .write data bytes (log ++ [⟨.note _, told⟩]) :=
        ⟨h.toContained.idle told hsight rfl, h.smooth.append id⟩
      refine wp_seq (wp_check h hp rfl (fun hz hv => (hbad hz hv).append _) ?_
        fun err log hends => hends)
      intro log hv h
      rw [after_ok]
      split
      · -- no room
        exact wp_stall h hp fun ht p log h hp => ihStall rp ht bytes p log h hp rfl hdata
      · next hs =>
        -- a piece, and the pointer behind it
        obtain ⟨len, hlen⟩ : ∃ len, len =
            trimChunk rp (min (e.ring.writeSpace (e.ring.place bytes.length) rp) rest.length) :=
          ⟨_, rfl⟩
        have hk := ihPiece rp hs
        simp only [← hlen] at hk ⊢
        obtain ⟨hpos, hle, hend⟩ := Ring.piece_bounds .write hv hs
          (mt List.length_eq_zero_iff.mp hne) hlen
        obtain ⟨piece, hpiece⟩ : ∃ piece, piece = rest.take len := ⟨_, rfl⟩
        have hlength : piece.length = len := by
          rw [hpiece, List.length_take_of_le hle]
        have hsplit : data = (bytes ++ piece) ++ rest.drop len := by
          rw [hdata, hpiece, List.append_assoc, List.take_append_drop]
        rw [← hpiece]
        subst hlength
        refine wp_handPiece hwp h hp hpos (by omega) ⟨_, hsplit.symm⟩ fun p log h hp => ?_
        refine hk (bytes ++ piece) p log h hp ?_ hsplit
        rw [Ring.advance_place (by omega), List.length_append]

/-- THE LOOP OF A READ STAYS IN THE RING. -/
theorem wp_drain {wpPlace rpPlace : A.Addr} (hwp : wpPlace.toNat = e.ring.partner .read)
    (hrp : rpPlace.toNat = e.ring.own .read) (own rest stalls : Nat) :
    ∀ (bytes : List UInt8) (p : Progress) (log : Transcript A),
      Goes e.ring .read data bytes log → Counted e.ring .read bytes p →
      own = e.ring.place bytes.length → data.length = bytes.length + rest →
      (recorder A).wp (Midway e.ring .read data)
        ((e.drain wpPlace rpPlace own rest stalls).run.run p) (Ends e.ring .read data) log := by
  induction own, rest, stalls using Engine.drain.induct e with
  | case1 own stalls =>
      intro bytes p log h hp _ hdata
      rw [drain, dif_pos rfl]
      exact ⟨bytes, h.toContained, hp, fun _ => hdata.symm, nofun⟩
  | case2 own rest stalls hne ihStall ihPiece =>
      rintro bytes p log h hp rfl hdata
      rw [drain, dif_neg hne]
      refine wp_seq (wp_look hwp h ?_ fun err log hg => hg.ends hp err)
      intro wp log h hbad
      have hlt := e.ring.place_lt bytes.length
      have hsight : Allowed e.ring .read data log
          (.note (.progress p.stats.bytes rest wp (e.ring.place bytes.length))) := by
        have hn : p.stats.bytes = (log.moved e.ring .read).length := hp.count.trans h.length.symm
        exact ⟨hn, by rw [hp.count], Ring.readSpace?_eq hlt⟩
      refine wp_get (wp_op ⟨bytes, h.toContained⟩ fun told => ?_)
      replace h : Goes e.ring .read data bytes (log ++ [⟨.note _, told⟩]) :=
        ⟨h.toContained.idle told hsight rfl, h.smooth.append id⟩
      refine wp_seq (wp_check h hp rfl (fun hz hv => (hbad hz hv).append _) ?_
        fun err log hends => hends)
      intro log hv h
      rw [after_ok]
      split
      · -- no data
        exact wp_stall h hp fun ht p log h hp => ihStall wp ht bytes p log h hp rfl hdata
      · next hs =>
        -- a piece, and the pointer behind it
        obtain ⟨len, hlen⟩ : ∃ len, len =
            trimChunk (e.ring.place bytes.length)
              (min (e.ring.readSpace wp (e.ring.place bytes.length)) rest) := ⟨_, rfl⟩
        obtain ⟨hpos, hle, hend⟩ := Ring.piece_bounds .read hv hs hne hlen
        subst hlen
        refine wp_takePiece hrp h hp hpos hend (by omega) fun piece p log h hp => ?_
        refine ihPiece wp hs (bytes ++ piece.val) p log h hp ?_ ?_
        · rw [Ring.advance_place hend, List.length_append, piece.property]
        · rw [List.length_append, piece.property]
          omega

/-- At the beginning nothing was moved. -/
theorem goes_nil : Goes r flow data [] ([] : Transcript A) where
  allowed := fun before event after h =>
    absurd h.symm (List.append_ne_nil_of_right_ne_nil before (List.cons_ne_nil event after))
  moved := rfl
  le := Nat.zero_le _
  part := fun _ => List.nil_prefix
  smooth := fun _ hm => absurd hm List.not_mem_nil

/-- Nothing was moved, and nothing counted. -/
theorem counted_nil : Counted r flow [] {} where
  count := rfl
  wraps := Ring.rounds_zero.symm
  received := fun _ => rfl

/-- Both loops, from the beginning. -/
theorem wp_carry (e : Engine) (flow : Flow) (data : List UInt8) :
    (recorder A).wp (Midway e.ring flow data) ((e.carry flow data).run.run {})
      (Ends e.ring flow data) [] := by
  have hpointer : ∀ {n}, e.ring.start ≤ n → n < e.ring.fifoStart →
      e.ring.start ≤ n ∧ n < e.ring.fifoEnd :=
    fun hlow hhigh => ⟨hlow, Nat.lt_trans hhigh e.ring.fifoStart_lt⟩
  have hwp := hpointer (Nat.le_refl _) (e.ring.own_lt .write)
  have hrp := hpointer (Nat.le_add_right _ 4) (e.ring.own_lt .read)
  have hgone : ¬ e.ring.Representable A → Gone e.ring flow data [] ([] : Transcript A) :=
    goes_nil.outOfReach
  cases flow with
  | write =>
      refine wp_seq (wp_lift (wp_place hwp.1 hwp.2 ?_ fun err hr => (hgone hr).ends counted_nil _))
      intro wpPlace hwp
      refine wp_seq (wp_lift (wp_place hrp.1 hrp.2 ?_ fun err hr => (hgone hr).ends counted_nil _))
      intro rpPlace hrp
      exact wp_feed (A.toNat_of_addr? hwp) (A.toNat_of_addr? hrp) _ data 0 [] {} [] goes_nil
        counted_nil e.ring.place_zero.symm rfl
  | read =>
      refine wp_seq (wp_lift (wp_place hwp.1 hwp.2 ?_ fun err hr => (hgone hr).ends counted_nil _))
      intro wpPlace hwp
      refine wp_seq (wp_lift (wp_place hrp.1 hrp.2 ?_ fun err hr => (hgone hr).ends counted_nil _))
      intro rpPlace hrp
      have hlength : data.length = ([] : List UInt8).length + data.length := (Nat.zero_add _).symm
      exact wp_drain (A.toNat_of_addr? hwp) (A.toNat_of_addr? hrp) e.ring.fifoStart data.length 0
        [] {} [] goes_nil counted_nil e.ring.place_zero.symm hlength

/-- What holds at the end held before it. -/
theorem Ends.midway {res : Except Error Unit × Progress} (h : Ends r flow data res log) :
    Midway r flow data log := by
  obtain ⟨bytes, hc, _⟩ := h
  exact ⟨bytes, hc⟩

end Contained

/-! ## Every moment of every run -/

/-- THE HOST STAYS WHERE IT BELONGS.  Whatever the target answers, and whichever calls it
    refuses: at every moment, everything that was done was allowed; the bytes that went through
    the fifo are a stream, each at its place, once and in order; and no address was computed
    that a word does not hold.  The counter of wrap-arounds shows their number modulo `2 ^ 32`,
    and their number itself where that is below `2 ^ 32`.  What a write moved is a prefix of the
    data; a read leaves the buffer behind what it moved as it was. -/
theorem carry_contained (e : Engine) (flow : Flow) (data : List UInt8)
    {d : Dialogue A (Except Error Unit × Progress)} {log : Transcript A}
    (run : (recorder A).Reaches ((e.carry flow data).run.run {}) [] d log) :
    (∀ before event after, log = before ++ event :: after →
      Allowed e.ring flow data before event.op) ∧
    e.ring.fifoStart? = some e.ring.fifoStart ∧ e.ring.fifoEnd? = some e.ring.fifoEnd ∧
    ∃ bytes, log.moved e.ring flow = e.ring.laid bytes ∧ bytes.length ≤ data.length ∧
      (flow = .write → bytes <+: data) ∧
      ∀ res p, d = .done (res, p) →
        p.stats.bytes = bytes.length ∧
        (p.stats.wraps : Nat) = bytes.length / e.ring.capacity % 0x100000000 ∧
        (bytes.length / e.ring.capacity < 0x100000000 →
          (p.stats.wraps : Nat) = bytes.length / e.ring.capacity) ∧
        (res = .ok () → bytes.length = data.length) ∧
        (flow = .read → (fill data p.received).take p.stats.bytes = bytes ∧
          (fill data p.received).drop p.stats.bytes = data.drop p.stats.bytes) := by
  have hwp := Contained.wp_carry (A := A) e flow data
  have hlasts : ∀ res, (recorder A).Lasts (Contained.Midway e.ring flow data)
      (Contained.Ends e.ring flow data res) := fun _ => lasts fun _ h => h.midway
  have hends : ∀ bytes, log.moved e.ring flow = e.ring.laid bytes → ∀ res p, d = .done (res, p) →
      Counted e.ring flow bytes p ∧ (res = .ok () → bytes.length = data.length) := by
    rintro bytes hmoved res p rfl
    obtain ⟨bytes', hc, hp, hall, _⟩ := wp_done_at hlasts hwp run
    -- bytes are determined by where they were laid
    obtain rfl : bytes' = bytes := Ring.laid_injective (hc.moved.symm.trans hmoved)
    exact ⟨hp, hall⟩
  obtain ⟨bytes, hc⟩ := wp_at hlasts hwp run
  refine ⟨hc.allowed, e.ring.fifoStart?_eq, e.ring.fifoEnd?_eq, bytes, hc.moved, hc.le, hc.part, ?_⟩
  intro res p hd
  obtain ⟨hp, hall⟩ := hends bytes hc.moved res p hd
  have hshown : (p.stats.wraps : Nat) = (e.ring.rounds bytes.length).toNat := by rw [hp.wraps]
  refine ⟨hp.count, hshown.trans Ring.toNat_rounds,
    fun hshort => hshown.trans (Ring.toNat_rounds_of_lt hshort), hall, fun hflow => ?_⟩
  rw [fill, hp.received hflow, hp.count]
  exact ⟨List.take_left, List.drop_left⟩

/-- Two rounds, and around the end of the fifo. -/
theorem carry_contained_around :
    ∃ (log : Transcript (plainCore 32)) (p : Progress),
      (recorder (plainCore 32)).Reaches
        (((⟨.twoWords, {}⟩ : Engine).carry .write [1, 2, 3, 4, 5, 6, 7, 8]).run.run {}) []
        (.done (.ok (), p)) log ∧
      log.moved .twoWords .write =
        [(0x1008, 1), (0x1009, 2), (0x100a, 3), (0x100b, 4), (0x100c, 5), (0x100d, 6),
          (0x100e, 7), (0x100f, 8)] ∧
      (p.stats.wraps : Nat) = 1 := by
  have hrun : ∃ log, (((⟨.twoWords, {}⟩ : Engine).feed (A := plainCore 32) 0x1000#32 0x1004#32
      0x1008 [1, 2, 3, 4, 5, 6, 7, 8] 0).run.run {}).Path log
      (.ok (), { stats := { bytes := 8, chunks := 2, wraps := 1 } }) := by
    rw [feed]
    -- the read pointer, the piece, the write pointer
    refine path_answer (.ok ⟨[0x08, 0x10, 0, 0], rfl⟩) (path_answer Endian.little ?_)
    refine path_answer () (path_answer () (path_answer () (path_answer (.ok ()) ?_)))
    refine path_answer Endian.little (path_answer () (path_answer (.ok ()) ?_))
    refine path_answer () (path_answer false ?_)
    show ∃ log, (((⟨.twoWords, {}⟩ : Engine).feed (A := plainCore 32) 0x1000#32 0x1004#32
      0x100c [5, 6, 7, 8] 0).run.run _).Path log _
    rw [feed]
    refine path_answer (.ok ⟨[0x0c, 0x10, 0, 0], rfl⟩) (path_answer Endian.little ?_)
    refine path_answer () (path_answer () (path_answer () (path_answer (.ok ()) ?_)))
    refine path_answer Endian.little (path_answer () (path_answer (.ok ()) ?_))
    refine path_answer () (path_answer false ?_)
    show ∃ log, (((⟨.twoWords, {}⟩ : Engine).feed (A := plainCore 32) 0x1000#32 0x1004#32
      0x1008 [] 0).run.run _).Path log _
    rw [feed]
    exact ⟨[], .done _⟩
  obtain ⟨log, hpath⟩ := hrun
  have hrun : (recorder (plainCore 32)).Reaches
      (((⟨.twoWords, {}⟩ : Engine).carry .write [1, 2, 3, 4, 5, 6, 7, 8]).run.run {}) []
      (.done (.ok (), { stats := { bytes := 8, chunks := 2, wraps := 1 } })) log :=
    hpath.reaches []
  obtain ⟨_, _, _, bytes, hmoved, _, hpart, hdone⟩ :=
    carry_contained (⟨.twoWords, {}⟩ : Engine) .write [1, 2, 3, 4, 5, 6, 7, 8] hrun
  obtain ⟨_, _, hwraps, hall, _⟩ := hdone _ _ rfl
  obtain rfl := (hpart rfl).eq_of_length (hall rfl)
  exact ⟨log, _, hrun, hmoved, hwraps (by decide)⟩

end Engine

end DebugLink
