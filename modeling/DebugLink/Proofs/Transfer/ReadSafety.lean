import DebugLink.Arch.Plain
import DebugLink.Proofs.Transfer.Producer
import DebugLink.Proofs.Transfer.Rules
import DebugLink.Transfer.Read

/-!
# Reading is safe under any interleaving

The host looks at a write pointer, reads a piece in one access and stores its own pointer in
another; the producer acts in between as it likes, and its last pointer may be rounded up.  What
the host can rely on is `Upto`: the agreement of `Supply.Sound`, its own counter, and a LOWER
bound on what the producer has published.

`wp_drain` is the loop; `drainAll_interleaved` says what it means for the runs.
-/

namespace DebugLink.Engine

open Environment Supply

variable {A : Arch} {e : Engine} {order : Endian} {source : List UInt8} {total : Nat}

/-- What the host knows between two accesses. -/
structure Upto (r : Ring) (order : Endian) (source : List UInt8) (seen published : Nat)
    (w : Supply) : Prop where
  sound : Sound r order source w
  seen : w.seen.length = seen
  published : published ≤ w.published

/-- The producer leaves the host's counter alone, and its own only grows. -/
theorem Upto.lasts (r : Ring) (order : Endian) (source : List UInt8) (seen published : Nat) :
    ((bench r order source).env A).Lasts (Sound r order source)
      (Upto r order source seen published) where
  holds := fun h => h.sound
  moves := by
    intro w w' hm h
    refine ⟨h.sound.move hm, ?_, ?_⟩
    · cases hm <;> exact h.seen
    · have hp := h.published
      simp only [Supply.published] at hp ⊢
      cases hm with
      | put k hk hs =>
          show published ≤ w.produced + k - (w.pending + k)
          omega
      | publish next hn =>
          show published ≤ w.produced - 0
          omega
      | elsewhere m o hm ho => exact hp

/-- How a read ends: what the host counts is what it has read, which is what it has received,
    which is a prefix of the source; all of it, if nothing failed. -/
structure Got (r : Ring) (order : Endian) (source : List UInt8) (total : Nat)
    (res : Except Error Unit × Progress) (w : Supply) : Prop where
  upto : Upto r order source res.2.stats.bytes 0 w
  bytes_le : res.2.stats.bytes ≤ total
  received : res.2.received = source.take res.2.stats.bytes
  whole : res.1 = .ok () → res.2.stats.bytes = total

/-- What the host has got, nobody takes from it. -/
theorem Got.lasts (r : Ring) (order : Endian) (source : List UInt8) (total : Nat)
    (res : Except Error Unit × Progress) :
    ((bench r order source).env A).Lasts (Sound r order source)
      (Got r order source total res) where
  holds := fun h => h.upto.sound
  moves := fun hm h => { h with upto := (Upto.lasts r order source _ _).moves hm h.upto }

/-- A failure at a moment when the host has counted what it has read. -/
theorem Upto.failed {err : Error} {p : Progress} {published : Nat} {w : Supply}
    (h : Upto e.ring order source p.stats.bytes published w) (hle : p.stats.bytes ≤ total)
    (hp : p.received = source.take p.stats.bytes) :
    Got e.ring order source total (.error err, p) w :=
  ⟨{ h with published := Nat.zero_le _ }, hle, hp, nofun⟩

/-! ## One piece -/

/-- The piece that the host chooses has been published, and does not go around. -/
theorem Upto.piece_reached {r : Ring} {n rest len : Nat} {w : Supply}
    (h : Upto r order source n 0 w) (hrest : n + rest ≤ source.length)
    (hlen : len = trimChunk (r.place n) (min (r.readSpace w.wp (r.place n)) rest)) :
    n + len ≤ w.published ∧ r.place n + len ≤ r.fifoEnd ∧ len ≤ rest := by
  obtain rfl := h.seen
  have hle : len ≤ min (r.readSpace w.wp (r.place w.seen.length)) rest :=
    hlen ▸ trimChunk_le _ _
  have hseen := h.sound.seen_le
  have hahead := h.sound.ahead
  have hacked := h.sound.acked_le
  rcases h.sound.wp with hwp | hdone
  · have hspace := Ring.readSpace_le hseen (show w.published < w.seen.length + r.capacity by omega)
    rw [hwp] at hle
    omega
  · -- the pointer may have been rounded up, but the host does not ask for more than there is
    have hlt := h.sound.wp_lt
    have hpl := r.place_lt w.seen.length
    have hend : r.place w.seen.length + r.readSpace w.wp (r.place w.seen.length) ≤ r.fifoEnd := by
      rw [Ring.readSpace]
      split <;> omega
    omega

/-- A piece is read: these are the next bytes of the source. -/
theorem Upto.piece {r : Ring} {n len : Nat} {w : Supply}
    (h : Upto r order source n (n + len) w) (hend : r.place n + len ≤ r.fifoEnd) :
    w.memory.slice (r.place n) len = (source.drop n).take len ∧
      Upto r order source (n + len) (n + len) (w.looked r (r.place n) len) := by
  obtain rfl := h.seen
  have hpub := h.published
  refine ⟨(h.sound.piece_eq hpub hend).1, h.sound.piece hpub hend, ?_, ?_⟩
  · rw [looked_piece]
    show (w.seen ++ _).length = _
    rw [List.length_append, List.length_map, List.length_range]
  · rw [looked_piece]
    exact hpub

/-- The pointer is stored. -/
theorem Upto.pointer {r : Ring} {n k : Nat} {w : Supply} (h : Upto r order source n k w) :
    Upto r order source n k (w.written r.rpAddr (order.encode 4 (r.place n))) := by
  obtain rfl := h.seen
  exact ⟨h.sound.pointer, rfl, h.published⟩

/-- A piece and the pointer behind it, with whatever comes next. -/
theorem wp_takeOver {rpPlace : A.Addr} (hrpPlace : rpPlace.toNat = e.ring.rpAddr) {len : Nat}
    {p : Progress} {w : Supply} {next : StreamM A Unit}
    (h : Upto e.ring order source p.stats.bytes (p.stats.bytes + len) w)
    (hend : e.ring.place p.stats.bytes + len ≤ e.ring.fifoEnd) (hpos : 0 < len)
    (hle : p.stats.bytes + len ≤ total) (hp : p.received = source.take p.stats.bytes)
    (hnext : ∀ (p' : Progress) (w : Supply), p'.stats.bytes = p.stats.bytes + len →
      p'.received = source.take p'.stats.bytes →
      Upto e.ring order source p'.stats.bytes 0 w →
      ((bench e.ring order source).env A).wp (Sound e.ring order source)
        (next.run.run p') (Got e.ring order source total) w) :
    ((bench e.ring order source).env A).wp (Sound e.ring order source)
      ((do
        let chunk ← readBuffer (← address (A := A) (e.ring.place p.stats.bytes)) len
        receive chunk.val
        countChunk len (e.ring.advance (e.ring.place p.stats.bytes) len).2
        writeWord .full rpPlace (e.ring.advance (e.ring.place p.stats.bytes) len).1
        giveWay
        next : StreamM A Unit).run.run p) (Got e.ring order source total) w := by
  have hP := Upto.lasts (A := A) e.ring order source
  have hle' : p.stats.bytes ≤ total := by omega
  rw [Ring.advance_place hend]
  refine wp_seq (wp_lift (wp_address ?_ ?_))
  · intro a ha
    have hplace := A.toNat_of_addr? ha
    rw [after_ok]
    refine wp_seq (wp_lift (Bench.wp_readBuffer (hP _ _) h ?_ ?_ ?_ ?_))
    · intro bytes w h hbytes _
      -- the piece was received, and is counted; the pointer comes next
      rw [hplace] at hbytes ⊢
      obtain ⟨hslice, h⟩ := h.piece hend
      have hgot : p.received ++ bytes.val = source.take (p.stats.bytes + len) := by
        rw [List.take_add, ← hp, ← hslice]
        exact congrArg _ hbytes
      rw [after_ok]
      refine wp_seq (wp_receive ?_)
      rw [after_ok]
      refine wp_seq (wp_countChunk ?_)
      rw [after_ok]
      refine wp_seq (wp_lift (Bench.wp_writeWord (hP _ _) h ?_ ?_))
      · intro w h
        rw [after_ok, hrpPlace]
        refine wp_seq (wp_giveWay (hP _ 0) { h.pointer with published := Nat.zero_le _ } ?_ ?_)
        · intro w h
          exact hnext _ w rfl hgot h
        · intro w h
          exact h.failed hle hgot
      · intro err w w' h hr
        rw [hrpPlace] at hr
        rcases hr with rfl | rfl
        · exact h.failed hle hgot
        · exact h.pointer.failed hle hgot
    · intro bytes w h hz
      exact absurd hz (Nat.ne_of_gt hpos)
    · intro w h _
      exact h.failed hle' hp
    · intro err w h
      exact h.failed hle' hp
  · intro _
    exact h.failed hle' hp

/-! ## The loop -/

/-- The loop.  `own` is where the host stands, `rest` how much is still to be read. -/
theorem wp_drain {wpPlace rpPlace : A.Addr} (hwpPlace : wpPlace.toNat = e.ring.wpAddr)
    (hrpPlace : rpPlace.toNat = e.ring.rpAddr) (htotal : total ≤ source.length)
    (own rest stalls : Nat) :
    ∀ (p : Progress) (w : Supply), Upto e.ring order source p.stats.bytes 0 w →
      own = e.ring.place p.stats.bytes → p.stats.bytes + rest = total →
      p.received = source.take p.stats.bytes →
      ((bench e.ring order source).env A).wp (Sound e.ring order source)
        ((e.drain wpPlace rpPlace own rest stalls).run.run p)
        (Got e.ring order source total) w := by
  have hQ := Got.lasts (A := A) e.ring order source total
  have hP := Upto.lasts (A := A) e.ring order source
  induction own, rest, stalls using Engine.drain.induct e with
  | case1 own stalls =>
      intro p w h _ hsum hp
      rw [drain, dif_pos rfl]
      exact ⟨h, Nat.le_of_eq hsum, hp, fun _ => hsum⟩
  | case2 own rest stalls hne ihStall ihPiece =>
      intro p w h hat hsum hp
      have hle : p.stats.bytes ≤ total := by omega
      rw [drain, dif_neg hne]
      refine wp_seq (wp_partnerPointer (fun r => Lasts.after hQ r) (hP _ _) h ?_ ?_)
      · intro wp w h hwp
        rw [hwpPlace] at hwp ⊢
        replace hwp : wp = w.wp := hwp.trans h.sound.wp_word
        subst hat
        -- what can be read now can still be read later
        obtain ⟨len, hlen⟩ : ∃ len, len = trimChunk (e.ring.place p.stats.bytes)
            (min (e.ring.readSpace wp (e.ring.place p.stats.bytes)) rest) := ⟨_, rfl⟩
        obtain ⟨hreach, hend, hrest⟩ := h.piece_reached (by omega) (hwp ▸ hlen)
        replace h : Upto e.ring order source p.stats.bytes (p.stats.bytes + len) w :=
          { h with published := hreach }
        show ((bench e.ring order source).env A).after _ _ _ _ (w.looked e.ring e.ring.wpAddr 4)
        rw [looked_pointer, after_ok]
        refine wp_get (wp_seq (Bench.wp_note (hP _ _) h ?_))
        intro w h
        refine wp_seq (wp_checkPointer (hP _ _) h ?_ ?_ ?_)
        · intro _ w h
          rw [after_ok]
          split
          · -- no data
            refine wp_seq (wp_backOff (hP _ _) h ?_ ?_)
            · intro w h
              rw [after_ok]
              split
              · next ht =>
                exact ihStall wp ht
                  { p with stats := { p.stats with stalls := p.stats.stalls + 1 } } w
                  { h with published := Nat.zero_le _ } rfl hsum hp
              · refine wp_seq (Bench.wp_note (hP _ _) h ?_)
                intro w h
                exact h.failed hle hp
            · intro w h
              exact h.failed hle hp
          · next hs =>
            -- a piece, and the pointer behind it
            have hpos : 0 < len := by
              rw [hlen]
              exact trimChunk_pos (by omega)
            subst hlen
            refine wp_takeOver hrpPlace h hend hpos (by omega) hp ?_
            intro p' w hp' hgot h
            refine ihPiece wp hs p' w h ?_ (by omega) hgot
            rw [hp', Ring.advance_place hend]
        · intro _ w h
          exact h.failed hle hp
        · intro _ _ w h
          exact h.failed hle hp
      · intro err w h
        exact h.failed hle hp

/-- All of it, from a ring that was just emptied. -/
theorem wp_drainAll {w : Supply} (fresh : Fresh e.ring order w) (htotal : total ≤ source.length) :
    ((bench e.ring order source).env A).wp (Sound e.ring order source)
      ((e.drainAll total).run.run {}) (Got e.ring order source total) w := by
  have h : Upto e.ring order source 0 0 w := ⟨.fresh fresh, by rw [fresh.seen]; rfl, Nat.zero_le _⟩
  rw [drainAll]
  refine wp_seq (wp_lift (wp_address ?_ ?_))
  · intro wpPlace hwp
    refine wp_seq (wp_lift (wp_address ?_ ?_))
    · intro rpPlace hrp
      exact wp_drain (A.toNat_of_addr? hwp) (A.toNat_of_addr? hrp) htotal _ total 0 {} w h
        e.ring.place_zero.symm (Nat.zero_add _) rfl
    · intro _
      exact h.failed (Nat.zero_le _) rfl
  · intro _
    exact h.failed (Nat.zero_le _) rfl

/-! ## Every moment of every run -/

/-- What a transfer has done so far: what it comes to if the link goes down now. -/
def soFar (order : Endian) (d : Dialogue A (Except Error Unit × Progress)) : Progress :=
  (d.cutOff order).2

/-- THE READ PROTOCOL IS SAFE.  Whatever the producer does between two accesses, and whichever
    accesses fail: at every moment the bytes that the host counts are the first ones of the
    source; every byte that it has read was the one that belonged there, was published, and had
    not been overwritten.  A read that ends well has filled the buffer from the source. -/
theorem drainAll_interleaved (e : Engine) (order : Endian) (source buffer : List UInt8)
    {w₀ w : Supply} {d : Dialogue A (Except Error Unit × Progress)}
    (enough : buffer.length ≤ source.length) (fresh : Fresh e.ring order w₀)
    (run : ((bench e.ring order source).env A).Reaches
      ((e.drainAll buffer.length).run.run {}) w₀ d w) :
    (fill buffer (soFar order d).received).take (soFar order d).stats.bytes =
      source.take (soFar order d).stats.bytes ∧
    (soFar order d).stats.bytes = w.seen.length ∧ w.seen.length ≤ buffer.length ∧
    w.seen = (List.range w.seen.length).map some ∧ w.seen.length ≤ w.published ∧
    (∀ p, d = .done (.ok (), p) → fill buffer p.received = source.take buffer.length) := by
  have hwp := wp_drainAll (A := A) fresh enough
  have hlasts := Got.lasts (A := A) e.ring order source buffer.length
  -- every moment may be the last one
  have hnow : Got e.ring order source buffer.length (d.cutOff order) w :=
    wp_done_at hlasts hwp
      (run.trans (Bench.reaches_cutOff (b := bench e.ring order source)
        (fun _ _ _ => Or.inl rfl) d w))
  have hseen := hnow.upto.seen
  have hfill : ∀ {n : Nat}, n ≤ buffer.length →
      (fill buffer (source.take n)).take n = source.take n := by
    intro n hn
    have hl : (source.take n).length = n := by
      rw [List.length_take]
      omega
    rw [fill, List.take_append_of_le_length (Nat.le_of_eq hl.symm), List.take_of_length_le
      (Nat.le_of_eq hl)]
  refine ⟨?_, hseen.symm, ?_, hnow.upto.sound.seen, hnow.upto.sound.seen_le, ?_⟩
  · rw [soFar, hnow.received]
    exact hfill hnow.bytes_le
  · rw [hseen]
    exact hnow.bytes_le
  · rintro p rfl
    have hbytes : p.stats.bytes = buffer.length := hnow.whole rfl
    have hreceived : p.received = source.take p.stats.bytes := hnow.received
    rw [hreceived, hbytes, fill, List.drop_of_length_le, List.append_nil]
    rw [List.length_take]
    omega

/-- A small ring that was just emptied. -/
def idle : Supply where
  memory := fun x => if x % 4 = 0 then 0x08 else if x % 4 = 1 then 0x10 else 0
  wp := 0x1008

theorem idle_fresh : Fresh .twoWords .little idle :=
  ⟨by decide, by decide, rfl, rfl, rfl, rfl, rfl⟩

/-- The producer has put four bytes there. -/
def filled : Supply :=
  { idle with
    memory := idle.memory.store (idle.wp + idle.pending)
      ((List.drop idle.produced [1, 2, 3, 4, 5]).take 4)
    origin := idle.origin.mark (idle.wp + idle.pending) 4 (some idle.produced)
    produced := idle.produced + 4
    pending := idle.pending + 4 }

/-- It has published them. -/
def offered : Supply :=
  { filled with
    memory := filled.memory.store 0x1000 (Endian.little.encode 4 0x100c)
    origin := filled.origin.mark 0x1000 4 none
    wp := 0x100c
    pending := 0 }

/-- The host has read them, and stored its pointer. -/
def fetched : Supply :=
  (offered.looked .twoWords 0x1008 4).written 0x1004 (Endian.little.encode 4 0x100c)

theorem idle_reaches_fetched :
    ((bench .twoWords .little [1, 2, 3, 4, 5]).env (plainCore 32)).Reaches
      (((⟨.twoWords, {}⟩ : Engine).drainAll 4).run.run {}) idle
      (.done (.ok (), { stats := { bytes := 4, chunks := 1 }, received := [1, 2, 3, 4] }))
      fetched := by
  refine .move (.put idle 4 (by decide) (by decide)) ?_
  refine .move (.publish filled 0x100c (Or.inl ⟨by decide, by decide⟩)) ?_
  show ((bench .twoWords .little [1, 2, 3, 4, 5]).env (plainCore 32)).Reaches
    (((⟨.twoWords, {}⟩ : Engine).drain (A := plainCore 32) 0x1000#32 0x1004#32 0x1008
      4 0).run.run {}) offered _ _
  rw [drain]
  -- the write pointer
  refine .answer (.ok ⟨[0x0c, 0x10, 0, 0], rfl⟩) ⟨by decide, rfl⟩ ?_
  refine .answer Endian.little ⟨rfl, rfl⟩ ?_
  refine .answer () rfl (.answer () rfl ?_)
  -- the piece
  refine .answer () rfl (.answer (.ok ⟨[1, 2, 3, 4], rfl⟩) ⟨by decide, rfl⟩ ?_)
  -- the read pointer
  refine .answer Endian.little ⟨rfl, rfl⟩ ?_
  refine .answer () rfl (.answer (.ok ()) rfl ?_)
  refine .answer () rfl (.answer false rfl ?_)
  show ((bench .twoWords .little [1, 2, 3, 4, 5]).env (plainCore 32)).Reaches
    (((⟨.twoWords, {}⟩ : Engine).drain (A := plainCore 32) 0x1000#32 0x1004#32 0x100c
      0 0).run.run _) _ _ _
  rw [drain]
  exact .refl _ _

theorem drainAll_interleaved_fetched :
    Fresh .twoWords .little idle ∧
    fill [0, 0, 0, 0] [1, 2, 3, 4] = List.take 4 [1, 2, 3, 4, 5] ∧
    fetched.seen = [some 0, some 1, some 2, some 3] := by
  obtain ⟨_, hbytes, _, hseen, _, hok⟩ := drainAll_interleaved (⟨.twoWords, {}⟩ : Engine) .little
    [1, 2, 3, 4, 5] [0, 0, 0, 0] (by decide) idle_fresh idle_reaches_fetched
  rw [← hbytes] at hseen
  exact ⟨idle_fresh, hok _ rfl, hseen⟩

end DebugLink.Engine
