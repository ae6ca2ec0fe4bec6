import DebugLink.Proofs.Area.Reachable
import DebugLink.Proofs.Runner.Apart
import DebugLink.Proofs.Transfer.Containment

/-!
# Pieces stay on words

A target may only serve whole words, or serve them much faster.  Pieces are trimmed for that, but
what is trimmed is where a piece ENDS, counted from the read pointer, and only if it is long enough.
That it begins on a word follows from everything before it.

* The invariant of both loops is that WHOLE WORDS HAVE BEEN MOVED, or all of the data.
* A valid pointer is on a word because blocks are made of words (`Ring.InWords.pointer`), so room is
  a number of words (`Ring.InWords.space`).
* `Ring.InWords.piece` is one round: a piece is a number of words, or all that is left.

`Op.OnWords` says what that means for an operation, and `carry_onWords` that the loops do nothing
else.
-/

namespace DebugLink

open Environment Dialogue Transcript

variable {A : Arch}

namespace Ring

variable {r : Ring}

/-- The buffer is made of words, and so is a block. -/
structure InWords (r : Ring) : Prop where
  size : r.size % 4 = 0
  block : 4 ≤ r.block

namespace InWords

/-- A power of two that is not less than four is a multiple of it. -/
theorem block_mod (h : r.InWords) : r.block % 4 = 0 := by
  have hb := h.block
  rw [r.block_pow, Nat.one_shiftLeft] at hb ⊢
  have hlog : 2 ≤ r.block.log2 := by
    rcases Nat.lt_or_ge r.block.log2 2 with hlt | hge
    · have hle : 2 ^ r.block.log2 ≤ 2 ^ 1 := Nat.pow_le_pow_right (by decide) (by omega)
      omega
    · exact hge
  exact Nat.mod_eq_zero_of_dvd (Nat.pow_dvd_pow 2 hlog)

/-- The fifo begins on a word, ... -/
theorem fifoStart (_ : r.InWords) : r.fifoStart % 4 = 0 := by
  have ha := r.aligned
  rw [Ring.fifoStart]
  omega

/-- ... and ends on one. -/
theorem fifoEnd (h : r.InWords) : r.fifoEnd % 4 = 0 := by
  have ha := r.aligned
  have hs := h.size
  rw [Ring.fifoEnd]
  omega

/-- Bytes that begin a word do so in the fifo, too. -/
theorem place (h : r.InWords) {n : Nat} (hn : n % 4 = 0) : r.place n % 4 = 0 := by
  have hs := h.size
  have hstart := h.fifoStart
  have hcapacity : 4 ∣ r.capacity := by
    rw [capacity]
    omega
  have hmod : n % r.capacity % 4 = 0 := by
    rw [Nat.mod_mod_of_dvd n hcapacity, hn]
  rw [Ring.place]
  omega

/-- What the partner can have published is on a word. -/
theorem pointer (h : r.InWords) {ptr : Nat} (hv : r.isValidPtr ptr = true) : ptr % 4 = 0 := by
  obtain ⟨hlow, -, hblock⟩ := isValidPtr_iff.mp hv
  have hstart := h.fifoStart
  have hmod : (ptr - r.fifoStart) % 4 = 0 := by
    have hdvd : 4 ∣ r.block := Nat.dvd_of_mod_eq_zero h.block_mod
    rw [← Nat.mod_mod_of_dvd _ hdvd, hblock]
  omega

/-- Between two words there is a number of words. -/
theorem space (h : r.InWords) (flow : Flow) {own ptr : Nat} (hown : own % 4 = 0)
    (hptr : ptr % 4 = 0) : r.space flow own ptr % 4 = 0 := by
  have hend := h.fifoEnd
  have hblock := h.block_mod
  cases flow with
  | write =>
      show r.writeSpace own ptr % 4 = 0
      rw [writeSpace]
      split
      · omega
      · split <;> omega
  | read =>
      show r.readSpace ptr own % 4 = 0
      rw [readSpace]
      split <;> omega

/-- A piece is a number of words, or all that is left. -/
theorem piece (_ : r.InWords) {at' room rest : Nat} (hat : at' % 4 = 0) (hroom : room % 4 = 0) :
    trimChunk at' (min room rest) % 4 = 0 ∨ trimChunk at' (min room rest) = rest := by
  rw [trimChunk]
  split <;> omega

end InWords

end Ring

/-- Areas are made of words. -/
theorem Areas.Reachable.words {s : Areas A.width} {live : List (Area A.width)} {mmu : Bool}
    (h : Reachable A s live mmu) {area : Area A.width} (harea : area ∈ live) :
    area.size % 4 = 0 := by
  rcases h.settled with hclosed | ⟨base, -, hopen, -⟩
  · rw [hclosed.live] at harea
    exact absurd harea List.not_mem_nil
  · obtain ⟨i, hi, -, rfl⟩ := mem_handles.mp (hopen.handles.mem_iff.mp harea)
    exact hopen.words i hi

/-- What a loop may do after `n` of `total` bytes: every piece begins on a word and is a number of
    them, but for the one that ends the data of a write, and so is every pointer that the host
    publishes. -/
def Op.OnWords (r : Ring) (flow : Flow) (n total : Nat) : Op A → Prop
  | .call (.read a len) =>
      a.toNat = r.partner flow ∧ len = 4 ∨
      flow = .read ∧ r.fifoStart ≤ a.toNat ∧ a.toNat % 4 = 0 ∧ len % 4 = 0
  | .call (.write a bs) =>
      a.toNat = r.own flow ∧ (∃ order : Endian, bs = order.encode 4 (r.place n)) ∧
        (r.place n % 4 = 0 ∨ flow = .write ∧ n = total) ∨
      flow = .write ∧ r.fifoStart ≤ a.toNat ∧ a.toNat % 4 = 0 ∧
        (bs.length % 4 = 0 ∨ n + bs.length = total)
  | .call _ => False
  | _ => True

/-- The fifo is left alone. -/
def Op.Below (r : Ring) : Op A → Prop
  | .call (.read a _) | .call (.write a _) => a.toNat < r.fifoStart
  | _ => True

/-- What is below the fifo moves nothing. -/
theorem Op.Below.moved {r : Ring} {op : Op A} (h : op.Below r) (flow : Flow) (a : op.Answer) :
    Event.moved r flow ⟨op, a⟩ = [] := by
  cases op with
  | call c =>
      cases c with
      | read b n =>
          have hlow : ¬ r.fifoStart ≤ b.toNat := Nat.not_le_of_lt h
          cases flow <;> cases a <;> simp [Event.moved, hlow]
      | write b bs =>
          have hlow : ¬ r.fifoStart ≤ b.toNat := Nat.not_le_of_lt h
          cases flow <;> cases a <;> simp [Event.moved, hlow]
      | _ => cases flow <;> rfl
  | _ => cases flow <;> rfl

/-- The bytes of a piece are as many as it has. -/
theorem length_spread (a : Nat) (bs : List UInt8) : (spread a bs).length = bs.length := by
  rw [spread, List.length_mapIdx]

namespace Engine

/-- All that was done was on words. -/
def OnWords (r : Ring) (flow : Flow) (total : Nat) (log : Transcript A) : Prop :=
  ∀ (before : Transcript A) event after, log = before ++ event :: after →
    event.op.OnWords r flow (before.moved r flow).length total

/-- All that was done was on words, and `n` bytes were moved. -/
structure Along (r : Ring) (flow : Flow) (total n : Nat) (log : Transcript A) : Prop where
  onWords : OnWords r flow total log
  count : (log.moved r flow).length = n

/-- On words, and not in the fifo. -/
structure Aside (r : Ring) (flow : Flow) (total n : Nat) (op : Op A) : Prop where
  onWords : op.OnWords r flow n total
  below : op.Below r

variable {r : Ring} {flow : Flow} {total n m : Nat} {log : Transcript A}

/-- Nothing was moved yet. -/
theorem along_nil : Along r flow total 0 ([] : Transcript A) where
  onWords := fun before event after h =>
    absurd h.symm (List.append_ne_nil_of_right_ne_nil before (List.cons_ne_nil event after))
  count := rfl

/-- One more access on words, and so many bytes more. -/
theorem Along.step {op : Op A} (h : Along r flow total n log) (a : op.Answer)
    (hop : op.OnWords r flow n total) (hm : n + (Event.moved r flow ⟨op, a⟩).length = m) :
    Along r flow total m (log ++ [⟨op, a⟩]) where
  onWords := by
    intro before event after heq
    rcases split_last heq with ⟨rfl, rfl, -⟩ | ⟨after', hlog, -⟩
    · rw [h.count]
      exact hop
    · exact h.onWords before event after' hlog
  count := by rw [moved_append, List.length_append, h.count, hm]

/-- What moves nothing changes nothing. -/
theorem kept_aside :
    Kept (Aside r flow total n) (OnWords (A := A) r flow total) (Along r flow total n) where
  event := fun a hop h =>
    h.step a hop.onWords (by rw [hop.below.moved, List.length_nil, Nat.add_zero])
  holds := fun h => h.onWords

/-- The host and its notes move nothing. -/
theorem offline_aside (op : Op A) (h : op.Offline) : Aside r flow total n op := by
  cases op with
  | call c => exact h.elim
  | _ => exact ⟨trivial, trivial⟩

/-! ## The parts of a round -/

/-- With `n` bytes moved, it stays on words to its end. -/
def WordsFrom (r : Ring) (flow : Flow) (total n : Nat) (x : StreamM A Unit) : Prop :=
  ∀ p log, Along r flow total n log →
    (recorder A).wp (OnWords r flow total) (x.run.run p) (fun _ => OnWords r flow total) log

namespace WordsFrom

variable {e : Engine} {α : Type} {next : StreamM A Unit}

theorem pure : WordsFrom (A := A) r flow total n (Pure.pure ()) :=
  fun _ _ h => h.onWords

/-- Nothing is done in the fifo, and then it goes on. -/
theorem aside {x : StreamM A α} {f : α → StreamM A Unit}
    (hx : Confined (Aside r flow total n) Unseen x) (hf : ∀ a, WordsFrom r flow total n (f a)) :
    WordsFrom r flow total n (x >>= f) := by
  intro p log h
  refine wp_seq (wp_mono (wp_confined kept_aside hx h p) ?_)
  rintro ⟨err | a, p⟩ log ⟨h, -⟩
  · exact h.onWords
  · exact hf a p log h

/-- An address of the ring, or the core has none for it. -/
theorem address {k : Nat} {f : A.Addr → StreamM A Unit}
    (hf : ∀ a, A.addr? k = some a → WordsFrom r flow total n (f a)) :
    WordsFrom r flow total n (do
      let a ← Engine.address (A := A) k
      f a : StreamM A Unit) := by
  intro p log h
  rw [Engine.address]
  cases ha : A.addr? k with
  | none => exact h.onWords
  | some a => exact hf a ha p log h

/-- A step after which the count is another one. -/
theorem moving {x : Link A α} {f : α → StreamM A Unit}
    (hx : ∀ log, Along r flow total n log → (recorder A).wp (OnWords r flow total) x.run
      (fun res log => match res with
        | .ok _ => Along r flow total m log
        | .error _ => OnWords r flow total log) log)
    (hf : ∀ a, WordsFrom r flow total m (f a)) : WordsFrom r flow total n (liftM x >>= f) := by
  intro p log h
  refine wp_seq (wp_lift (wp_mono (hx log h) ?_))
  rintro (err | a) log h
  · exact h
  · exact hf a p log h

/-- A pointer that does not pass is the end; one that does is valid. -/
theorem check {ptr : Nat} (he : e.ring = r)
    (hnext : r.isValidPtr ptr = true → WordsFrom r flow total n next) :
    WordsFrom r flow total n (do e.checkPointer flow ptr; next) := by
  intro p log h
  rw [checkPointer, he]
  by_cases hz : ptr = 0
  · simp only [hz, ↓reduceIte]
    exact wp_kept kept_aside ⟨trivial, trivial⟩ h fun _ h => h.onWords
  · cases hv : r.isValidPtr ptr with
    | true =>
        simp only [hz, Bool.not_true, ↓reduceIte]
        exact hnext hv p log h
    | false =>
        simp only [hz, Bool.not_false, ↓reduceIte]
        exact wp_kept kept_aside ⟨trivial, trivial⟩ h fun _ h => h.onWords

/-- The first half of a round: the look, a report, and the check. -/
theorem sight (he : e.ring = r) {place : A.Addr} (hplace : place.toNat = r.partner flow)
    (report : Nat → Nat → Note) {next : Nat → StreamM A Unit}
    (hnext : ∀ ptr, r.isValidPtr ptr = true → WordsFrom r flow total n (next ptr)) :
    WordsFrom r flow total n (do
      let ptr ← partnerPointer flow place
      note (report (← get).stats.bytes ptr)
      e.checkPointer flow ptr
      next ptr : StreamM A Unit) := by
  have hlow : place.toNat < r.fifoStart := hplace ▸ Ring.partner_lt flow
  have hlook : Aside r flow total n (.call (.read place 4)) := ⟨Or.inl ⟨hplace, rfl⟩, hlow⟩
  have hpointer := partnerPointer_within (fun op h => offline_aside op h.kind) hlook flow
  refine .aside hpointer fun ptr => .aside .get fun _ => ?_
  exact .aside (.note ⟨trivial, trivial⟩) fun _ => .check he (hnext ptr)

/-- A round without room or data. -/
theorem stall {stalls : Nat}
    (hnext : stalls < e.config.maxStalls → WordsFrom r flow total n next) :
    WordsFrom r flow total n (do
      e.backOff
      if _ : stalls < e.config.maxStalls then
        count fun s => { s with stalls := s.stalls + 1 }
        next
      else
        note .noProgress
        throw .streamTimeout : StreamM A Unit) := by
  refine .aside (backOff_offline.weaken offline_aside) fun _ => ?_
  split
  · next ht => exact .aside (.modify fun _ => rfl) fun _ => hnext ht
  · exact .aside (.note ⟨trivial, trivial⟩) fun _ _ _ h => h.onWords

/-- What comes behind a piece. -/
theorem behind {place : A.Addr} (hplace : place.toNat = r.own flow) {len : Nat}
    {step : Nat × Bool} (hstep : step.1 = r.place n)
    (hwords : r.place n % 4 = 0 ∨ flow = .write ∧ n = total)
    (hnext : WordsFrom r flow total n next) :
    WordsFrom r flow total n (do
      countChunk len step.2
      writeWord .full place step.1
      giveWay
      next : StreamM A Unit) := by
  have hlow : place.toNat < r.fifoStart := hplace ▸ Ring.own_lt flow
  have hpublish : (writeWord .full place step.1).run.Only (Aside r flow total n) := by
    rw [hstep]
    exact writeWord_within (fun op h => offline_aside op h.kind) fun order =>
      ⟨Or.inl ⟨hplace, ⟨order, rfl⟩, hwords⟩, hlow⟩
  refine .aside (.modify fun _ => rfl) fun _ => .aside (.lift hpublish) fun _ => ?_
  exact .aside (giveWay_offline.weaken offline_aside) fun _ => hnext

/-- A round that hands a piece over. -/
theorem hand {place : A.Addr} (hplace : place.toNat = r.own .write) {own : Nat}
    {piece : List UInt8} {step : Nat × Bool} (hlow : r.fifoStart ≤ own) (hown : own % 4 = 0)
    (hlen : piece.length % 4 = 0 ∨ n + piece.length = total)
    (hstep : step.1 = r.place (n + piece.length))
    (hwords : r.place (n + piece.length) % 4 = 0 ∨ n + piece.length = total)
    (hnext : WordsFrom r .write total (n + piece.length) next) :
    WordsFrom r .write total n (do
      writeBuffer (← Engine.address (A := A) own) piece
      countChunk piece.length step.2
      writeWord .full place step.1
      giveWay
      next : StreamM A Unit) := by
  refine .address fun a ha => .moving (m := n + piece.length) (fun log h => ?_) fun _ =>
    .behind hplace hstep (hwords.imp_right (⟨rfl, ·⟩)) hnext
  have hat : a.toNat = own := A.toNat_of_addr? ha
  have hop : (Op.call (.write a piece)).OnWords r .write n total :=
    Or.inr ⟨rfl, hat ▸ hlow, hat ▸ hown, hlen⟩
  rw [writeBuffer]
  refine wp_andThen (wp_kept kept_aside ⟨trivial, trivial⟩ h fun _ h => ?_)
  show (recorder A).wp _ (ExceptT.run (if piece = [] then Pure.pure () else _)) _ _
  split
  · -- nothing is asked for an empty piece
    next hnil =>
    subst hnil
    exact h
  · refine wp_andThen ?_
    rw [checkFits]
    split
    · refine wp_op h.onWords ?_
      rintro (err | _)
      · exact (h.step (Except.error err) hop rfl).onWords
      · refine h.step (Except.ok ()) hop ?_
        rw [Event.moved, if_pos (hat ▸ hlow), length_spread]
    · exact wp_kept kept_aside ⟨trivial, trivial⟩ h fun _ h => h.onWords

/-- A round that takes a piece over. -/
theorem take {place : A.Addr} (hplace : place.toNat = r.own .read) {own len : Nat}
    {step : Nat × Bool} (hlow : r.fifoStart ≤ own) (hown : own % 4 = 0) (hlen : len % 4 = 0)
    (hstep : step.1 = r.place (n + len)) (hwords : r.place (n + len) % 4 = 0)
    (hnext : WordsFrom r .read total (n + len) next) :
    WordsFrom r .read total n (do
      let chunk ← readBuffer (← Engine.address (A := A) own) len
      receive chunk.val
      countChunk len step.2
      writeWord .full place step.1
      giveWay
      next : StreamM A Unit) := by
  refine .address fun a ha => .moving (m := n + len) (fun log h => ?_) fun _ =>
    .aside (.modify fun _ => rfl) fun _ => .behind hplace hstep (Or.inl hwords) hnext
  have hat : a.toNat = own := A.toNat_of_addr? ha
  have hop : (Op.call (.read a len)).OnWords r .read n total :=
    Or.inr ⟨rfl, hat ▸ hlow, hat ▸ hown, hlen⟩
  rw [readBuffer]
  refine wp_andThen (wp_kept kept_aside ⟨trivial, trivial⟩ h fun _ h => ?_)
  show (recorder A).wp _
    (ExceptT.run (if h : len = 0 then Pure.pure ⟨[], h.symm⟩ else _ : Link A (Bytes len))) _ _
  split
  · next hzero =>
    subst hzero
    exact h
  · refine wp_andThen ?_
    rw [checkFits]
    split
    · refine wp_op h.onWords ?_
      -- refused or not, the access is on words; only one that succeeds moves bytes
      rintro (err | bytes)
      · exact (h.step (Except.error err) hop rfl).onWords
      · refine h.step (Except.ok bytes) hop ?_
        rw [Event.moved, if_pos (hat ▸ hlow), length_spread, bytes.property]
    · exact wp_kept kept_aside ⟨trivial, trivial⟩ h fun _ h => h.onWords

end WordsFrom

/-! ## The loops -/

variable {e : Engine}

/-- A write moves whole words, but for the last piece of the data. -/
theorem feed_words (hr : e.ring.InWords) {wpPlace rpPlace : A.Addr}
    (hwp : wpPlace.toNat = e.ring.own .write) (hrp : rpPlace.toNat = e.ring.partner .write)
    (own : Nat) (rest : List UInt8) (stalls : Nat) :
    ∀ n, own = e.ring.place n → n + rest.length = total → (rest ≠ [] → n % 4 = 0) →
      WordsFrom e.ring .write total n (e.feed wpPlace rpPlace own rest stalls) := by
  -- by the recursion of the loop: words so far, as long as anything is left
  induction own, rest, stalls using Engine.feed.induct e with
  | case1 own stalls =>
      intro n _ _ _
      rw [feed, dif_pos rfl]
      exact .pure
  | case2 own rest stalls hne ihStall ihPiece =>
      rintro n rfl htotal hn
      have hown := hr.place (hn hne)
      rw [feed, dif_neg hne]
      refine .sight rfl hrp (fun bytes rp => .progress bytes rest.length (e.ring.place n) rp) ?_
      intro rp hv
      split
      · exact .stall fun ht => ihStall rp ht n rfl htotal hn
      · next hs =>
        obtain ⟨len, hlen⟩ : ∃ len, len =
            trimChunk rp (min (e.ring.writeSpace (e.ring.place n) rp) rest.length) := ⟨_, rfl⟩
        have hk := ihPiece rp hs
        simp only [← hlen] at hk ⊢
        obtain ⟨hpos, hle, hend⟩ := Ring.piece_bounds .write hv hs
          (mt List.length_eq_zero_iff.mp hne) hlen
        obtain ⟨piece, hpiece⟩ : ∃ piece, piece = rest.take len := ⟨_, rfl⟩
        have hlength : piece.length = len := by
          rw [hpiece, List.length_take_of_le hle]
        -- whole words, or all that is left
        have hwords : len % 4 = 0 ∨ len = rest.length :=
          hlen ▸ hr.piece (hr.pointer hv) (hr.space .write hown (hr.pointer hv))
        have hstep := Ring.advance_place hend
        rw [← hpiece]
        subst hlength
        -- only the piece that ends the data may have an odd length
        refine .hand hwp (e.ring.fifoStart_le_place n) hown (by omega) hstep ?_ ?_
        · refine hwords.imp (fun h => hr.place ?_) fun h => ?_
          · have := hn hne
            omega
          · omega
        · refine hk (n + piece.length) hstep ?_ fun hmore => ?_
          · rw [List.length_drop]
            omega
          · have := List.length_pos_iff.mpr hmore
            rw [List.length_drop] at this
            have := hn hne
            omega

/-- A read does so all along. -/
theorem drain_words (hr : e.ring.InWords) {wpPlace rpPlace : A.Addr}
    (hwp : wpPlace.toNat = e.ring.partner .read) (hrp : rpPlace.toNat = e.ring.own .read)
    (own rest stalls : Nat) :
    ∀ n, own = e.ring.place n → n % 4 = 0 → rest % 4 = 0 →
      WordsFrom e.ring .read total n (e.drain wpPlace rpPlace own rest stalls) := by
  -- by the recursion of the loop, with both the bytes moved and the bytes left in whole words
  induction own, rest, stalls using Engine.drain.induct e with
  | case1 own stalls =>
      intro n _ _ _
      rw [drain, dif_pos rfl]
      exact .pure
  | case2 own rest stalls hne ihStall ihPiece =>
      rintro n rfl hn hrest
      have hown := hr.place hn
      rw [drain, dif_neg hne]
      refine .sight rfl hwp (fun bytes wp => .progress bytes rest wp (e.ring.place n)) ?_
      intro wp hv
      split
      · -- nothing to read: the same place, one stall more
        exact .stall fun ht => ihStall wp ht n rfl hn hrest
      · next hs =>
        obtain ⟨len, hlen⟩ : ∃ len, len = trimChunk (e.ring.place n)
            (min (e.ring.readSpace wp (e.ring.place n)) rest) := ⟨_, rfl⟩
        obtain ⟨hpos, hle, hend⟩ := Ring.piece_bounds .read hv hs hne hlen
        -- what is left is a number of words as well
        have hwords : len % 4 = 0 := by
          have : len % 4 = 0 ∨ len = rest :=
            hlen ▸ hr.piece hown (hr.space .read hown (hr.pointer hv))
          omega
        have hstep := Ring.advance_place hend
        subst hlen
        -- the piece begins on a word, ends on one, and so does the next round
        refine .take hrp (e.ring.fifoStart_le_place n) hown hwords hstep (hr.place ?_) ?_
        · omega
        · exact ihPiece wp hs _ hstep (by omega) (by omega)

/-- Both loops, from the beginning. -/
theorem carry_words (hr : e.ring.InWords) (data : List UInt8)
    (hdata : flow = .read → data.length % e.ring.block = 0) :
    WordsFrom (A := A) e.ring flow data.length 0 (e.carry flow data) := by
  cases flow with
  | write =>
      refine .address fun wpPlace hwp => .address fun rpPlace hrp => ?_
      exact feed_words hr (A.toNat_of_addr? hwp) (A.toNat_of_addr? hrp) _ _ _ 0
        e.ring.place_zero.symm (Nat.zero_add _) fun _ => rfl
  | read =>
      refine .address fun wpPlace hwp => .address fun rpPlace hrp => ?_
      refine drain_words hr (A.toNat_of_addr? hwp) (A.toNat_of_addr? hrp) _ _ _ 0
        e.ring.place_zero.symm rfl ?_
      rw [← Nat.mod_mod_of_dvd _ (Nat.dvd_of_mod_eq_zero hr.block_mod), hdata rfl]

/-- PIECES STAY ON WORDS.  A ring that fills a working area is made of words.  In such a ring, with
    blocks of a word at least, whatever pointers the partner publishes: both of the host's pointers
    begin on a word; every piece begins on one, and is a number of them unless it ends the data of a
    write; and so is every pointer that is published behind one. -/
theorem carry_onWords :
    (∀ {s : Areas A.width} {live : List (Area A.width)} {mmu : Bool} {area : Area A.width}
        {block : Nat} {r : Ring},
      Areas.Reachable A s live mmu → area ∈ live → Ring.ofArea? area block = .ok r →
        r.size % 4 = 0) ∧
    ∀ (e : Engine) (flow : Flow) (data : List UInt8), e.ring.size % 4 = 0 → 4 ≤ e.ring.block →
      (flow = .read → data.length % e.ring.block = 0) →
      e.ring.fifoStart % 4 = 0 ∧
      ∀ {d : Dialogue A (Except Error Unit × Progress)} {log : Transcript A},
        (recorder A).Reaches ((e.carry flow data).run.run {}) [] d log →
        ∀ (before : Transcript A) event after, log = before ++ event :: after →
          event.op.OnWords e.ring flow (before.moved e.ring flow).length data.length := by
  constructor
  · intro s live mmu area block r hs harea hr
    rw [(Ring.eq_of_ofArea? hr).2.1]
    exact hs.words harea
  · intro e flow data hsize hblock hdata
    have hr : e.ring.InWords := ⟨hsize, hblock⟩
    refine ⟨hr.fifoStart, fun {d log} run => ?_⟩
    have hwp := carry_words (A := A) hr data hdata {} [] along_nil
    exact wp_at (I := OnWords e.ring flow data.length) (fun _ => lasts fun _ h => h) hwp run

/-- A larger area out of the same window. -/
def wideArea : Area (plainCore 32).width :=
  { Areas.sampleArea with size := 40 }

/-- The areas after its handle was issued. -/
def wideAreas : Areas (plainCore 32).width :=
  ((Areas.sample.openAt 0x1000).split 0 40).handOut 0

/-- The area is what an arena hands out. -/
theorem wideAreas_reaches : Areas.Reachable (plainCore 32) wideAreas [wideArea] false := by
  refine @Areas.Reachable.request (plainCore 32) Areas.sample wideAreas [] true false
    (some wideArea) (.alloc 40) (.new 1 Areas.sample.config true) ?_
  refine .answer false rfl (.answer () rfl ?_)
  refine .answer () rfl (.answer () rfl (.answer () rfl ?_))
  exact .refl _ _

/-- The ring that fills it: eight blocks of one word each. -/
def eightWords : Ring :=
  { Ring.twoWords with
    size := 40
    pointers_fit := by decide
    two_blocks := by decide
    in_reach := by decide }

/-- The numbers from zero. -/
def counting (n : Nat) : List UInt8 :=
  (List.range n).map UInt8.ofNat

/-- Fifty bytes in four pieces, told by the place and the number of their first byte: as many as
    there is room for; the last word before the end of the fifo; sixteen of the eighteen bytes that
    are left, since they would not end on a word; and the end of the data. -/
theorem carry_onWords_around :
    Ring.ofArea? wideArea 4 = .ok eightWords ∧ eightWords.size % 4 = 0 ∧
    ∃ (log : Transcript (plainCore 32)),
      (recorder (plainCore 32)).Reaches
        (((⟨eightWords, {}⟩ : Engine).carry .write (counting 50)).run.run {}) []
        (.done (.ok (), { stats := { bytes := 50, chunks := 4, wraps := 1 } })) log ∧
      log.filterMap (fun event => (event.moved eightWords .write).head?) =
        [(0x1008, 0), (0x1024, 28), (0x1008, 32), (0x1018, 48)] ∧
      ∀ (before : Transcript (plainCore 32)) event after, log = before ++ event :: after →
        event.op.OnWords eightWords .write (before.moved eightWords .write).length 50 := by
  have hrun : ∃ log, (((⟨eightWords, {}⟩ : Engine).feed (A := plainCore 32) 0x1000#32 0x1004#32
      0x1008 (counting 50) 0).run.run {}).Path log
        (.ok (), { stats := { bytes := 50, chunks := 4, wraps := 1 } }) ∧
      log.filterMap (fun event => (event.moved eightWords .write).head?) =
        [(0x1008, 0), (0x1024, 28), (0x1008, 32), (0x1018, 48)] := by
    rw [feed]
    -- the read pointer, the piece, the write pointer
    refine path_answer_such (.ok ⟨[0x08, 0x10, 0, 0], rfl⟩) (path_answer_such Endian.little ?_)
    refine path_answer_such () (path_answer_such () (path_answer_such () ?_))
    refine path_answer_such (.ok ()) (path_answer_such Endian.little (path_answer_such () ?_))
    refine path_answer_such (.ok ()) (path_answer_such () (path_answer_such false ?_))
    show ∃ log, (((⟨eightWords, {}⟩ : Engine).feed (A := plainCore 32) 0x1000#32 0x1004#32
      0x1024 ((counting 50).drop 28) 0).run.run _).Path log _ ∧ _
    rw [feed]
    refine path_answer_such (.ok ⟨[0x24, 0x10, 0, 0], rfl⟩) (path_answer_such Endian.little ?_)
    refine path_answer_such () (path_answer_such () (path_answer_such () ?_))
    refine path_answer_such (.ok ()) (path_answer_such Endian.little (path_answer_such () ?_))
    refine path_answer_such (.ok ()) (path_answer_such () (path_answer_such false ?_))
    show ∃ log, (((⟨eightWords, {}⟩ : Engine).feed (A := plainCore 32) 0x1000#32 0x1004#32
      0x1008 ((counting 50).drop 32) 0).run.run _).Path log _ ∧ _
    rw [feed]
    refine path_answer_such (.ok ⟨[0x24, 0x10, 0, 0], rfl⟩) (path_answer_such Endian.little ?_)
    refine path_answer_such () (path_answer_such () (path_answer_such () ?_))
    refine path_answer_such (.ok ()) (path_answer_such Endian.little (path_answer_such () ?_))
    refine path_answer_such (.ok ()) (path_answer_such () (path_answer_such false ?_))
    show ∃ log, (((⟨eightWords, {}⟩ : Engine).feed (A := plainCore 32) 0x1000#32 0x1004#32
      0x1018 ((counting 50).drop 48) 0).run.run _).Path log _ ∧ _
    rw [feed]
    refine path_answer_such (.ok ⟨[0x24, 0x10, 0, 0], rfl⟩) (path_answer_such Endian.little ?_)
    refine path_answer_such () (path_answer_such () (path_answer_such () ?_))
    refine path_answer_such (.ok ()) (path_answer_such Endian.little (path_answer_such () ?_))
    refine path_answer_such (.ok ()) (path_answer_such () (path_answer_such false ?_))
    show ∃ log, (((⟨eightWords, {}⟩ : Engine).feed (A := plainCore 32) 0x1000#32 0x1004#32
      0x101a [] 0).run.run _).Path log _ ∧ _
    rw [feed]
    exact ⟨[], .done _, rfl⟩
  obtain ⟨log, hpath, hpieces⟩ := hrun
  have harea : Ring.ofArea? wideArea 4 = .ok eightWords := rfl
  obtain ⟨hareas, hwords⟩ := carry_onWords (A := plainCore 32)
  have hsize := hareas wideAreas_reaches (List.mem_singleton_self _) harea
  obtain ⟨-, hall⟩ := hwords ⟨eightWords, {}⟩ .write (counting 50) hsize (Nat.le_refl 4)
    fun hread => by cases hread
  exact ⟨harea, hsize, log, hpath.reaches [], hpieces, hall (hpath.reaches [])⟩

end Engine

end DebugLink
