import DebugLink.Arch.Plain
import DebugLink.Proofs.Transfer.Consumer
import DebugLink.Proofs.Transfer.Rules
import DebugLink.Transfer.Write

/-!
# Writing is safe under any interleaving

The host looks at a read pointer that may be out of date when it acts on it, and writes a piece
and its pointer in two accesses; the consumer acts in between as it likes.  What the host can
rely on is `At`: the agreement of `Intake.Sound`, its own two counters, and a LOWER bound on the
consumer's.

`wp_feed` is the loop: from `At` on, the agreement holds at every moment.
`feedAll_interleaved` says it of the runs.
-/

namespace DebugLink.Engine

open Environment Intake

variable {A : Arch} {e : Engine} {order : Endian} {data : List UInt8}

/-- What the host knows between two accesses. -/
structure At (r : Ring) (order : Endian) (data : List UInt8) (handed published acked : Nat)
    (w : Intake) : Prop where
  sound : Sound r order data w
  handed : w.handed.length = handed
  published : w.published = published
  acked : acked ≤ w.acked

/-- The consumer leaves the host's counters alone, and its own only grows. -/
theorem At.lasts (r : Ring) (order : Endian) (data : List UInt8) (handed published acked : Nat) :
    ((bench r order data.length).env A).Lasts (Sound r order data)
      (At r order data handed published acked) where
  holds := fun h => h.sound
  moves := by
    intro w w' hm h
    refine ⟨h.sound.move hm, ?_, ?_, ?_⟩
    · cases hm <;> exact h.handed
    · cases hm <;> exact h.published
    · have hp := h.sound.pending_le
      have ha := h.acked
      rw [Intake.acked] at ha ⊢
      cases hm with
      | take k hk =>
          simp only [List.length_append, Contents.length_slice]
          omega
      | publish next hn hb =>
          show acked ≤ w.consumed.length - 0
          omega
      | elsewhere m hm => exact ha

/-- How a write ends: what the host counts is what it has handed over, and if nothing failed
    that is everything, and everything has been published. -/
def Handed (r : Ring) (order : Endian) (data : List UInt8) (res : Except Error Unit × Progress)
    (w : Intake) : Prop :=
  ∃ published, At r order data res.2.stats.bytes published 0 w ∧
    (res.1 = .ok () → res.2.stats.bytes = data.length ∧ published = data.length)

theorem Handed.lasts (r : Ring) (order : Endian) (data : List UInt8)
    (res : Except Error Unit × Progress) :
    ((bench r order data.length).env A).Lasts (Sound r order data)
      (Handed r order data res) where
  holds := fun ⟨_, h, _⟩ => h.sound
  moves := fun hm ⟨p, h, ho⟩ => ⟨p, (At.lasts r order data _ _ _).moves hm h, ho⟩

/-- A failure at a moment when the host has counted what it has handed over. -/
theorem At.failed {err : Error} {p : Progress} {published acked : Nat} {w : Intake}
    (h : At e.ring order data p.stats.bytes published acked w) :
    Handed e.ring order data (.error err, p) w :=
  ⟨published, { h with acked := Nat.zero_le _ }, nofun⟩

/-! ## A consumer that has published what it took -/

/-- How far it is behind the host. -/
theorem At.window {r : Ring} {n c : Nat} {w : Intake} (h : At r order data n n c w)
    (hw : w.pending = 0) :
    w.consumed.length ≤ n ∧ n + r.block ≤ w.consumed.length + r.capacity ∧ n ≤ data.length := by
  have hacked : w.acked = w.consumed.length := by rw [Intake.acked, hw, Nat.sub_zero]
  have hle := h.sound.acked_le
  have hroom := h.sound.room
  have hwhole := h.sound.handed_le
  rw [hacked, h.published] at hle
  rw [hacked, h.handed] at hroom
  rw [h.handed] at hwhole
  exact ⟨hle, hroom, hwhole⟩

theorem At.rp_eq {r : Ring} {n c : Nat} {w : Intake} (h : At r order data n n c w)
    (hw : w.pending = 0) : w.rp = r.place w.consumed.length := by
  rw [h.sound.rp, Intake.acked, hw, Nat.sub_zero]

/-- Both pointer words say where the streams are. -/
theorem At.words {r : Ring} {n c : Nat} {w : Intake} (h : At r order data n n c w)
    (hw : w.pending = 0) : w.memory.word order r.wpAddr = r.place n ∧
      w.memory.word order r.rpAddr = r.place w.consumed.length :=
  ⟨by rw [h.sound.wp, h.published], by rw [h.sound.rp_word, h.rp_eq hw]⟩

/-! ## One piece -/

/-- The piece that the host chooses fits: it leaves one block unused, does not go around, and is
    part of the data. -/
theorem piece_fits {r : Ring} {c n len : Nat} {rest : List UInt8} (hc : c ≤ n)
    (hroom : n + r.block ≤ c + r.capacity) (hv : r.isValidPtr (r.place c) = true)
    (hlen : len = trimChunk (r.place c) (min (r.writeSpace (r.place n) (r.place c)) rest.length)) :
    n + len + r.block ≤ c + r.capacity ∧ r.place n + len ≤ r.fifoEnd ∧ len ≤ rest.length := by
  have hle : len ≤ min (r.writeSpace (r.place n) (r.place c)) rest.length :=
    hlen ▸ trimChunk_le _ _
  have hblock := Ring.writeSpace_block_le hc hroom hv
  have hb := r.block_pos
  have hend := (Ring.writeSpace_lt hc (show n < c + r.capacity by omega)).2
  exact ⟨by omega, by omega, by omega⟩

/-- A piece is written: the host has handed over more than it has published. -/
theorem At.piece {r : Ring} {n c len : Nat} {w : Intake} (h : At r order data n n c w)
    (hroom : n + len + r.block ≤ c + r.capacity) (hend : r.place n + len ≤ r.fifoEnd)
    (hdata : n + len ≤ data.length) :
    At r order data (n + len) n c (w.written r (r.place n) ((data.drop n).take len)) := by
  obtain rfl := h.handed
  have hacked := h.acked
  refine ⟨h.sound.piece (by omega) hend hdata, ?_, ?_, ?_⟩
  · rw [written_piece]
    show (w.handed ++ _).length = _
    rw [List.length_append, List.length_take, List.length_drop]
    omega
  · rw [written_piece]
    exact h.published
  · rw [written_piece]
    exact hacked

/-- The pointer is stored: what was handed over is published. -/
theorem At.pointer {r : Ring} {n m c : Nat} {w : Intake} (h : At r order data n m c w) :
    At r order data n n c (w.written r r.wpAddr (order.encode 4 (r.place n))) := by
  obtain rfl := h.handed
  refine ⟨h.sound.pointer, ?_, ?_, ?_⟩
  · rw [written_pointer]
  · rw [written_pointer]
  · rw [written_pointer]
    exact h.acked

/-- A piece that was refused may leave anything in the free room, and is not counted. -/
theorem At.refused_piece {r : Ring} {n c len : Nat} {bs : List UInt8} {w w' : Intake}
    (h : At r order data n n c w) (hroom : n + len + r.block ≤ c + r.capacity)
    (hend : r.place n + len ≤ r.fifoEnd) (hbs : bs.length ≤ len)
    (hr : Refused r w (r.place n) bs w') : At r order data n n c w' := by
  obtain rfl := h.handed
  have hacked := h.acked
  have hpl := r.fifoStart_le_place w.handed.length
  have hst := r.fifoStart_eq
  rcases hr with rfl | ⟨ha, _⟩ | ⟨_, m, hm, rfl⟩
  · exact h
  · exact absurd ha (by omega)
  · exact ⟨h.sound.scratch (by omega) hend fun x hx => hm x (by omega), rfl, h.published, hacked⟩

/-- A pointer that was refused is either stored or not. -/
theorem At.refused_pointer {r : Ring} {n m c : Nat} {w w' : Intake}
    (h : At r order data n m c w)
    (hr : Refused r w r.wpAddr (order.encode 4 (r.place n)) w') :
    ∃ m, At r order data n m c w' := by
  rcases hr with rfl | ⟨_, rfl⟩ | ⟨ha, _⟩
  · exact ⟨m, h⟩
  · exact ⟨n, h.pointer⟩
  · exact absurd rfl ha

/-- A piece and the pointer behind it, with whatever comes next. -/
theorem wp_handOver {wpPlace : A.Addr} (hwpPlace : wpPlace.toNat = e.ring.wpAddr) {c len : Nat}
    {p : Progress} {w : Intake} {rest : List UInt8} {next : StreamM A Unit}
    (h : At e.ring order data p.stats.bytes p.stats.bytes c w)
    (hroom : p.stats.bytes + len + e.ring.block ≤ c + e.ring.capacity)
    (hend : e.ring.place p.stats.bytes + len ≤ e.ring.fifoEnd) (hpos : 0 < len)
    (hle : len ≤ rest.length) (hrest : rest = data.drop p.stats.bytes)
    (hnext : ∀ (p' : Progress) (w : Intake), p'.stats.bytes = p.stats.bytes + len →
      At e.ring order data p'.stats.bytes p'.stats.bytes 0 w →
      ((bench e.ring order data.length).env A).wp (Sound e.ring order data)
        (next.run.run p') (Handed e.ring order data) w) :
    ((bench e.ring order data.length).env A).wp (Sound e.ring order data)
      ((do
        writeBuffer (← address (A := A) (e.ring.place p.stats.bytes)) (rest.take len)
        countChunk len (e.ring.advance (e.ring.place p.stats.bytes) len).2
        writeWord .full wpPlace (e.ring.advance (e.ring.place p.stats.bytes) len).1
        giveWay
        next : StreamM A Unit).run.run p) (Handed e.ring order data) w := by
  have hQ := Handed.lasts (A := A) e.ring order data
  have hP := At.lasts (A := A) e.ring order data
  have hdata : p.stats.bytes + len ≤ data.length := by
    rw [hrest, List.length_drop] at hle
    have := h.sound.handed_le
    rw [h.handed] at this
    omega
  rw [Ring.advance_place hend]
  refine wp_seq (wp_lift (wp_address ?_ ?_))
  · intro a ha
    have hplace := A.toNat_of_addr? ha
    rw [after_ok]
    refine wp_seq (wp_lift (Bench.wp_writeBuffer (hP _ _ _) h ?_ ?_ ?_ ?_))
    · intro w h
      -- the piece is in the fifo, and counted; the pointer comes next
      rw [after_ok, hplace, hrest]
      replace h := h.piece hroom hend hdata
      refine wp_seq (wp_countChunk ?_)
      rw [after_ok]
      refine wp_seq (wp_lift (Bench.wp_writeWord (hP _ _ _) h ?_ ?_))
      · intro w h
        rw [after_ok, hwpPlace]
        refine wp_seq (wp_giveWay (hP _ _ 0) { h.pointer with acked := Nat.zero_le _ } ?_ ?_)
        · intro w h
          exact hnext _ w rfl h
        · intro w h
          exact h.failed
      · intro err w w' h hr
        rw [hwpPlace] at hr
        obtain ⟨m, h⟩ := h.refused_pointer hr
        exact h.failed
    · intro w h hnil
      rw [List.take_eq_nil_iff] at hnil
      rcases hnil with rfl | rfl
      · exact absurd hpos (Nat.lt_irrefl 0)
      · exact absurd hle (Nat.not_le_of_lt hpos)
    · intro w h _
      exact h.failed
    · intro err w w' h hr
      rw [hplace] at hr
      exact (h.refused_piece hroom hend (List.length_take_le _ _) hr).failed
  · intro _
    exact h.failed

/-! ## The loop -/

/-- The loop.  `own` is where the host stands, `rest` what is still to be handed over. -/
theorem wp_feed {wpPlace rpPlace : A.Addr} (hwpPlace : wpPlace.toNat = e.ring.wpAddr)
    (hrpPlace : rpPlace.toNat = e.ring.rpAddr) (own : Nat) (rest : List UInt8) (stalls : Nat) :
    ∀ (p : Progress) (w : Intake), At e.ring order data p.stats.bytes p.stats.bytes 0 w →
      own = e.ring.place p.stats.bytes → rest = data.drop p.stats.bytes →
      ((bench e.ring order data.length).env A).wp (Sound e.ring order data)
        ((e.feed wpPlace rpPlace own rest stalls).run.run p) (Handed e.ring order data) w := by
  have hQ := Handed.lasts (A := A) e.ring order data
  have hP := At.lasts (A := A) e.ring order data
  induction own, rest, stalls using Engine.feed.induct e with
  | case1 own stalls =>
      intro p w h _ hrest
      rw [feed, dif_pos rfl]
      have hlen : p.stats.bytes = data.length := by
        have := h.sound.handed_le
        have := List.drop_eq_nil_iff.mp hrest.symm
        rw [h.handed] at *
        omega
      exact ⟨p.stats.bytes, h, fun _ => ⟨hlen, hlen⟩⟩
  | case2 own rest stalls hne ihStall ihPiece =>
      intro p w h hat hrest
      rw [feed, dif_neg hne]
      refine wp_seq (wp_partnerPointer (fun r => Lasts.after hQ r) (hP _ _ _) h ?_ ?_)
      · intro rp w h hrp
        -- from here on the host's copy of the read pointer may be out of date
        obtain ⟨c, hc⟩ : ∃ c, c = w.acked := ⟨_, rfl⟩
        obtain rfl : rp = e.ring.place c := by
          rw [hrp, hrpPlace, hc, ← h.sound.rp]
          exact h.sound.rp_word
        have hcn : c ≤ p.stats.bytes := by
          have := h.sound.acked_le
          have := h.published
          omega
        have hroom : p.stats.bytes + e.ring.block ≤ c + e.ring.capacity := by
          have := h.sound.room
          have := h.handed
          omega
        replace h : At e.ring order data p.stats.bytes p.stats.bytes c w :=
          { h with acked := Nat.le_of_eq hc }
        refine wp_get (wp_seq (Bench.wp_note (hP _ _ _) h ?_))
        intro w h
        refine wp_seq (wp_checkPointer (hP _ _ _) h ?_ ?_ ?_)
        · intro hv w h
          rw [after_ok]
          split
          · -- no room
            refine wp_seq (wp_backOff (hP _ _ _) h ?_ ?_)
            · intro w h
              rw [after_ok]
              split
              · next ht =>
                exact ihStall (e.ring.place c) ht
                  { p with stats := { p.stats with stalls := p.stats.stalls + 1 } } w
                  { h with acked := Nat.zero_le _ } hat hrest
              · refine wp_seq (Bench.wp_note (hP _ _ _) h ?_)
                intro w h
                exact h.failed
            · intro w h
              exact h.failed
          · next hs =>
            -- a piece, and the pointer behind it
            obtain ⟨len, hlen⟩ : ∃ len, len = trimChunk (e.ring.place c)
                (min (e.ring.writeSpace own (e.ring.place c)) rest.length) := ⟨_, rfl⟩
            have hk := ihPiece (e.ring.place c) hs
            simp only [← hlen] at hk ⊢
            have hpos : 0 < len := by
              have := List.length_pos_iff.mpr hne
              rw [hlen]
              exact trimChunk_pos (by omega)
            subst hat
            obtain ⟨hfit, hend, hle⟩ := piece_fits hcn hroom hv hlen
            refine wp_handOver hwpPlace h hfit hend hpos hle hrest ?_
            intro p' w hp' h
            refine hk p' w h ?_ ?_
            · rw [hp', Ring.advance_place hend]
            · rw [hp', hrest, List.drop_drop]
        · intro _ w h
          exact h.failed
        · intro _ _ w h
          exact h.failed
      · intro err w h
        exact h.failed

/-- All of it, from a ring that was just emptied. -/
theorem wp_feedAll (data : List UInt8) {w : Intake} (fresh : Fresh e.ring order w) :
    ((bench e.ring order data.length).env A).wp (Sound e.ring order data)
      ((e.feedAll data).run.run {}) (Handed e.ring order data) w := by
  have h : At e.ring order data 0 0 0 w :=
    ⟨.fresh fresh, by rw [fresh.handed]; rfl, fresh.published, Nat.zero_le _⟩
  rw [feedAll]
  refine wp_seq (wp_lift (wp_address ?_ ?_))
  · intro wpPlace hwp
    refine wp_seq (wp_lift (wp_address ?_ ?_))
    · intro rpPlace hrp
      exact wp_feed (A.toNat_of_addr? hwp) (A.toNat_of_addr? hrp) _ data 0 {} w h
        e.ring.place_zero.symm rfl
    · intro _
      exact h.failed
  · intro _
    exact h.failed

/-! ## Every moment of every run -/

/-- THE WRITE PROTOCOL IS SAFE.  Whatever the consumer does between two accesses, and whichever
    accesses fail: at every moment it has taken a prefix of the data, and no more than was
    published; equal pointers mean that it has taken all of that; and one block of the fifo
    stays unused.  A write that ends well has published all of the data. -/
theorem feedAll_interleaved (e : Engine) (order : Endian) (data : List UInt8) {w₀ w : Intake}
    {d : Dialogue A (Except Error Unit × Progress)} (fresh : Fresh e.ring order w₀)
    (run : ((bench e.ring order data.length).env A).Reaches ((e.feedAll data).run.run {}) w₀
      d w) :
    w.consumed <+: data ∧ w.handed <+: data ∧
    w.consumed.length ≤ w.published ∧ w.published ≤ w.handed.length ∧
    (w.memory.word order e.ring.wpAddr = w.memory.word order e.ring.rpAddr →
      w.consumed.length = w.published) ∧
    w.handed.length - w.consumed.length ≤ e.ring.capacity - e.ring.block ∧
    (∀ p, d = .done (.ok (), p) → w.handed = data ∧ w.published = data.length) := by
  have hwp := wp_feedAll (A := A) data fresh
  have hlasts := Handed.lasts (A := A) e.ring order data
  have h : Sound e.ring order data w := wp_at hlasts hwp run
  refine ⟨?_, ?_, h.consumed_le, h.published_le, h.all_taken, ?_, ?_⟩
  · rw [h.consumed]
    exact List.take_prefix _ _
  · rw [h.handed]
    exact List.take_prefix _ _
  · have hroom := h.room
    have hp := h.pending_le
    have := e.ring.two_blocks_le
    rw [Intake.acked] at hroom
    omega
  · rintro p rfl
    obtain ⟨published, hat, hok⟩ := wp_done_at hlasts hwp run
    obtain ⟨hbytes, hpub⟩ := hok rfl
    refine ⟨?_, hat.published.trans hpub⟩
    rw [hat.sound.handed, hat.handed, hbytes, List.take_length]

/-- A small ring that was just emptied. -/
def emptied : Intake where
  memory := fun x => if x % 4 = 0 then 0x08 else if x % 4 = 1 then 0x10 else 0
  rp := 0x1008

theorem emptied_fresh : Fresh .twoWords .little emptied :=
  ⟨by decide, by decide, rfl, rfl, rfl, rfl, rfl⟩

/-- The host has written four bytes, and its pointer. -/
def fed : Intake :=
  (emptied.written .twoWords 0x1008 [1, 2, 3, 4]).written .twoWords 0x1000 [0x0c, 0x10, 0, 0]

/-- The consumer has taken them. -/
def taken : Intake :=
  { fed with
    consumed := fed.consumed ++ fed.memory.slice (fed.rp + fed.pending) 4
    pending := fed.pending + 4 }

theorem emptied_reaches_taken :
    ((bench .twoWords .little 4).env (plainCore 32)).Reaches
      (((⟨.twoWords, {}⟩ : Engine).feedAll [1, 2, 3, 4]).run.run {}) emptied
      (.done (.ok (), { stats := { bytes := 4, chunks := 1 } })) taken := by
  show ((bench .twoWords .little 4).env (plainCore 32)).Reaches
    (((⟨.twoWords, {}⟩ : Engine).feed (A := plainCore 32) 0x1000#32 0x1004#32 0x1008
      [1, 2, 3, 4] 0).run.run {}) _ _ _
  rw [feed]
  -- the read pointer
  refine .answer (.ok ⟨[0x08, 0x10, 0, 0], rfl⟩) ⟨by decide, rfl⟩ ?_
  refine .answer Endian.little ⟨rfl, rfl⟩ ?_
  refine .answer () rfl (.answer () rfl ?_)
  -- the piece
  refine .answer () rfl (.answer (.ok ()) rfl ?_)
  -- the write pointer
  refine .answer Endian.little ⟨rfl, rfl⟩ ?_
  refine .answer () rfl (.answer (.ok ()) rfl ?_)
  refine .answer () rfl (.answer false rfl ?_)
  refine .move (.take fed 4 (by decide)) ?_
  show ((bench .twoWords .little 4).env (plainCore 32)).Reaches
    (((⟨.twoWords, {}⟩ : Engine).feed (A := plainCore 32) 0x1000#32 0x1004#32 0x100c
      [] 0).run.run _) _ _ _
  rw [feed]
  exact .refl _ _

theorem feedAll_interleaved_taken :
    Fresh .twoWords .little emptied ∧
    taken.consumed = [1, 2, 3, 4] ∧ taken.consumed <+: [1, 2, 3, 4] ∧
    taken.handed = [1, 2, 3, 4] ∧ taken.published = 4 := by
  obtain ⟨hc, _, _, _, _, _, hok⟩ := feedAll_interleaved (⟨.twoWords, {}⟩ : Engine) .little
    [1, 2, 3, 4] emptied_fresh emptied_reaches_taken
  obtain ⟨hh, hp⟩ := hok _ rfl
  exact ⟨emptied_fresh, by decide, hc, hh, hp⟩

end DebugLink.Engine
