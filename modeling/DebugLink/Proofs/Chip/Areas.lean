import DebugLink.Demo
import DebugLink.Proofs.Area.Reachable
import DebugLink.Proofs.Chip.Step
import DebugLink.Proofs.Runner.Steady

/-!
# Working areas on the chip

The areas of the chip are those of any target, with a memory management unit that is always off
(`yields_of_any`), so that what is settled of the one is settled of the other.  Of the chip itself
two things are shown:

* handing out LOOKS at an idle chip, and leaves it as it is (`grants`);
* giving back stores in RAM, and leaves FLASH as it is (`releases`).
-/

namespace DebugLink

open Environment Dialogue Areas

/-- Memory is looked at, and the core is left alone. -/
def Op.Reads {A : Arch} : Op A → Prop
  | .call (.read _ _) | .call .mmuEnabled => True
  | .call _ => False
  | _ => True

namespace Areas

variable {A : Arch} {s : Areas A.width} {live : List (Area A.width)} {a b : Area A.width}

/-! ## What handing out asks for -/

theorem readBuffer_reads (a : A.Addr) (n : Nat) : (readBuffer a n).run.Only Op.Reads := by
  rw [readBuffer]
  refine .andThen ⟨trivial, fun _ => trivial⟩ fun _ => ?_
  split
  · trivial
  · refine .andThen ?_ fun _ => .call trivial
    rw [checkFits]
    split
    · trivial
    · exact ⟨trivial, fun _ => trivial⟩

/-- Opening the window reads at most a register. -/
theorem openWindow_confined (n : Nat) :
    Confined Op.Reads Areas.config (openWindow (A := A) n) := by
  have hmmu : (mmuOn (A := A)).run.Only Op.Reads := by
    refine ⟨trivial, fun supported => ?_⟩
    cases supported with
    | false => trivial
    | true => exact Only.call trivial
  refine .bind (.lift hmmu) fun on => .bind .get fun s => ?_
  dsimp only
  split
  · exact .bind (.note trivial) fun _ => .throw _
  · refine .bind (.note trivial) fun _ => ?_
    split
    · exact .modify fun s => insert_config s _
    · exact .bind (.note trivial) fun _ => .throw _

/-- A backup only reads. -/
theorem saveBackup_confined (i : Nat) : Confined Op.Reads Areas.config (saveBackup (A := A) i) := by
  refine .bind .get fun s => .bind (.modify fun _ => rfl) fun _ => ?_
  refine .bind (.outcome (.lift (readBuffer_reads _ _))) fun r => ?_
  cases r with
  | ok bytes => exact .modify fun _ => rfl
  | error e => exact .bind (.modify merge_config) fun _ => .throw _

/-- Putting back only writes. -/
theorem restore_data (s : Areas A.width) (i : Nat) : (s.restore i).run.Only Op.Data := by
  rw [restore]
  split
  · split
    · trivial
    · refine Within.bind (Within.bind ((writeBuffer_data _ _).kind.mono ?_))
      rintro (e | _) -
      · exact ⟨trivial, fun _ => trivial⟩
      · trivial
  · trivial

/-- An area has the size that was asked for. -/
theorem serve_gives (n : Nat) : Gives (·.size = n) (serve (A := A) n) := by
  rw [serve]
  refine .last fun s => ?_
  split
  · exact .last fun _ => .throw _
  · refine .last fun _ => .last fun _ => ?_
    split
    · refine .last fun _ => .last fun _ => .last fun _ => .last fun _ => .last fun _ => ?_
      intro s area h
      obtain rfl := Except.ok.inj h
      rfl
    · refine .last fun _ => .last fun _ => .last fun _ => .last fun _ => ?_
      intro s area h
      obtain rfl := Except.ok.inj h
      rfl

/-- An area that is handed out has the size that was asked for, in whole words. -/
theorem alloc_gives {size n : Nat} (hn : roundUp? size = some n) :
    Gives (·.size = n) (alloc (A := A) size) := by
  have htry : Gives (·.size = n) (allocTry (A := A) size) := by
    rw [allocTry_eq, hn]
    refine .last fun s => ?_
    split
    · exact .last fun _ => serve_gives n
    · exact serve_gives n
  intro s
  rw [alloc]
  refine .seq (.outcome ((htry s).mono ?_))
  -- a failure is reported again, and gives nothing either
  rintro ⟨e | area, s'⟩ harea
  · cases e with
    | resourceNotAvailable requested available => exact Gives.last (fun _ => .throw _) s'
    | _ => exact Gives.throw _ s'
  · exact harea

end Areas

namespace Chip

variable {α η : Type} {h : Host η} {x : Chip} {w : Chip × η} {s : Areas 32}
  {live : List (Area 32)} {a b : Area 32} {c : AreaConfig 32}

/-! ## Any target, and the chip -/

/-- What holds of any target holds of the chip, whose memory management unit is always off. -/
theorem yields_of_any {d : Dialogue cortexM α} {Q : α → Bool → Prop}
    (hd : (anyTarget cortexM).wp Anything d Q false) : Yields h d (fun a _ => Q a false) w := by
  refine wp_of_view (fun _ => false) False.elim ?_ hd
  rintro w op answer w' ha
  obtain ⟨rfl, -⟩ := Prod.mk.inj ha
  cases op with
  | call c => cases c <;> rfl
  | feature f => cases f <;> rfl
  | host r => rfl
  | note n => rfl

/-- Reading memory does not move a core that is not running. -/
theorem play_read_idle {address : Word} {len : Nat} {y : η} (hidle : x.control.state ≠ .running) :
    (play Chip.target h (.call (.read address len)) (x, y)).2.1 = x := by
  simp only [play, target, perform]
  rw [if_neg hidle]
  dsimp only
  split <;> rfl

/-- Reading changes nothing on a chip that does not run, ... -/
theorem play_reads {op : Op cortexM} (hop : op.Reads) (hidle : x.control.state ≠ .running)
    (hw : w.1 = x) : (play Chip.target h op w).2.1 = x := by
  obtain ⟨x', y⟩ := w
  obtain rfl : x' = x := hw
  cases op with
  | call c =>
      cases c with
      | read address len => exact play_read_idle hidle
      | mmuEnabled => rfl
      | _ => exact hop.elim
  | _ => rfl

/-- What giving back may not change. -/
structure Spared (flash : Region) (x : Chip) : Prop where
  laid : x.store.Laid
  idle : x.control.state ≠ .running
  flash : x.store.flash = flash

/-- ... and writing does not reach the flash. -/
theorem play_data {op : Op cortexM} {flash : Region} (hop : op.Data) (hw : Spared flash w.1) :
    Spared flash (play Chip.target h op w).2.1 := by
  obtain ⟨x, y⟩ := w
  cases op with
  | call c =>
      cases c with
      | read address len =>
          rw [play_read_idle hw.idle]
          exact hw
      -- a write that is carried out goes to the memory, one that is not goes nowhere
      | write address data =>
          simp only [play, target, perform]
          split
          · exact ⟨hw.laid.write _ _, hw.idle, (Store.write_flash _ _ _).trans hw.flash⟩
          · exact hw
      | readReg reg => exact hw
      | writeReg reg value => exact ⟨hw.laid, hw.idle, hw.flash⟩
      | _ => exact hop.elim
  | _ => exact hw

/-! ## Handing out -/

/-- The chip is as it was, and the areas lie where `c` says. -/
def Untouched (c : AreaConfig 32) (x : Chip) : Known cortexM (Chip × η) :=
  fun s live w => w.1 = x ∧ s.config = c ∧ Settled (A := cortexM) s live false

/-- What only looks at an idle chip. -/
theorem yields_confined {β : Type} {z : AreaM cortexM β} (hz : Confined Op.Reads Areas.config z)
    (hidle : x.control.state ≠ .running) (hw : w.1 = x) (hs : s.config = c) :
    Yields h (z.run.run s) (fun r w => r.2.config = c ∧ w.1 = x) w :=
  wp_mono (plays_within (hz s) (P := fun w => w.1 = x)
    (fun _ _ hop hw => play_reads hop hidle hw) hw) fun _ _ hr => ⟨hr.1.trans hs, hr.2⟩

/-- Notes change nothing on the chip. -/
theorem tame : Tame (played Chip.target h (A := cortexM)) where
  still := False.elim
  note ha := (Prod.mk.inj ha).2.symm

/-- Handing out looks at an idle chip, and leaves it as it is. -/
theorem grants (hidle : x.control.state ≠ .running) :
    Grants (played Chip.target h) (fun _ => True) (Untouched (η := η) c x) where
  toTame := tame
  holds := fun _ => trivial
  opens := by
    rintro s live w n ⟨hw, hs, hset⟩ ho
    refine wp_mono (wp_and (yields_of_any (settled_grants.opens hset ho))
      (yields_confined (openWindow_confined n) hidle hw hs)) ?_
    rintro r w' ⟨hset', hs', hw'⟩
    exact ⟨hw', hs', hset'⟩
  cuts := by
    rintro s live w n i ⟨hw, hs, hset⟩ hpos hwords hi hb
    obtain ⟨hready, hsize⟩ := settled_grants.cuts hset hpos hwords hi hb
    exact ⟨⟨hw, (split_config s i n).trans hs, hready⟩, hsize⟩
  saves := by
    rintro s live w n i ⟨hw, hs, hset⟩ hpos hwords hi hb
    refine wp_mono (wp_and (yields_of_any (settled_grants.saves hset hpos hwords hi hb))
      (yields_confined (saveBackup_confined i) hidle hw ((split_config s i n).trans hs))) ?_
    rintro ⟨_ | _, s'⟩ w' ⟨hset', hs', hw'⟩
    · exact ⟨hw', hs', hset'⟩
    · exact ⟨⟨hw', hs', hset'.1⟩, hset'.2⟩

/-! ## Giving back -/

/-- Giving back leaves flash as it is. -/
theorem releases (flash : Region) :
    Releases (played Chip.target h) (fun _ => True)
      (fun s live w => Loose (A := cortexM) s live false ∧ Spared flash w.1)
      (fun s live w => Settled (A := cortexM) s live false ∧ Spared flash w.1) true where
  toTame := tame
  holds := fun _ => trivial
  loose := fun h => ⟨(settled_releases true).loose h.1, h.2⟩
  slotted := fun h => h.1.standing.slotted
  handles := fun h => h.1.standing.handles
  restores := by
    rintro s live w i ⟨hset, hw⟩ hi hf hp
    refine wp_mono (wp_and (yields_of_any ((settled_releases true).restores hset hi hf hp))
      (plays_within (restore_data s i) (P := fun w => Spared flash w.1)
        (fun _ _ hop hw => play_data hop hw) hw)) ?_
    rintro _ w' ⟨hset', -, hw'⟩
    exact ⟨hset', hw'⟩
  drops := by
    rintro s live w i ⟨hset, hw⟩ hi hf hp
    exact ⟨(settled_releases true).drops hset hi hf hp, hw⟩
  merges := by
    rintro s live w ⟨hset, hw⟩
    exact ⟨(settled_releases true).merges hset, hw⟩

/-! ## What goes through -/

/-- There are `n` bytes of RAM at `a`, and not none. -/
structure InRam (a : Word) (n : Nat) : Prop where
  pos : 0 < n
  low : ramBase ≤ a.toNat
  high : a.toNat + n ≤ ramBase + ramSize

/-- What lies in the memory does not go around the address space. -/
theorem InRam.fits {a : Word} {n : Nat} (h : InRam a n) : Arch.Fits a n := by
  have hram : ramBase + ramSize < 2 ^ 32 := by decide
  have hhigh := h.high
  refine .inr ?_
  rw [BitVec.toNat_allOnes]
  omega

/-- The areas when slot `i` was cut to `n` bytes, and handed out with `bytes` saved. -/
def served (s : Areas 32) (i n : Nat) (bytes : List UInt8) : Areas 32 :=
  (((s.split i n).modifyBlock i ({ · with backup := none })).modifyBlock i
    ({ · with backup := some bytes })).handOut i

/-- A block of RAM is handed out. -/
theorem yields_serve {y : η} {i n : Nat} {b : Block 32}
    {Q : Except Error (Area 32) × Areas 32 → Chip × η → Prop} (laid : x.store.Laid)
    (idle : x.control.state ≠ .running) (hfit : s.firstFit? n = some i)
    (hbackup : s.config.backup = true) (hcut : (s.split i n).block i = b)
    (hb : InRam b.address b.size)
    (hn : ∀ bytes, bytes.length = b.size →
      Q (.ok { (served s i n bytes).handle i with size := n }, served s i n bytes) (x, y)) :
    Yields h ((serve (A := cortexM) n).run.run s) Q (x, y) := by
  subst hcut
  have hconfig : (s.split i n).config.backup = true := by rw [split_config, hbackup]
  -- the backup is what the memory holds there
  obtain ⟨bytes, hload, -⟩ :=
    Store.load?_ram (s := x.store) (laid.covers_ram.mpr ⟨hb.low, hb.high⟩)
  have hread := play_read (h := h) (y := y) (by rw [looked_idle idle]; exact hload)
  rw [looked_idle idle] at hread
  rw [serve]
  refine wp_get ?_
  rw [hfit]
  refine wp_modify (wp_get ?_)
  rw [hconfig, if_pos rfl, saveBackup]
  refine wp_seq (wp_get (wp_modify (wp_seq (wp_outcome (wp_lift
    (plays_readBuffer hb.pos hb.fits hread ?_))))))
  refine wp_modify (wp_get (wp_seq (plays_note ?_)))
  refine wp_seq (wp_liftState (tame.wp_noteLayout trivial ?_))
  exact hn bytes.val bytes.property

/-- A block of RAM is given back, and holds again what was saved. -/
theorem yields_free {y : η} {i : Nat} {area : Area 32} {bytes : List UInt8} {b : Block 32}
    {Q : Except Error Unit × Areas 32 → Chip × η → Prop} (laid : x.store.Laid)
    (hlookup : s.lookup (A := cortexM) area.id = .done (some i)) (hbackup : s.config.backup = true)
    (hblock : s.block i = b) (hb : InRam b.address b.size)
    (hsaved : b.backup = some bytes) (hlen : bytes.length = b.size)
    (hn : Q (.ok (), (s.release i).merge) (x.wrote b.address bytes, y)) :
    Yields h ((free (A := cortexM) area).run.run s) Q (x, y) := by
  subst hblock
  have hne : bytes ≠ [] := List.length_pos_iff.mp (hlen ▸ hb.pos)
  -- the area lies in the memory, so what was saved can be put back
  have hc : x.store.ram.Covers (s.block i).address.toNat bytes.length :=
    laid.covers_ram.mpr ⟨hb.low, hlen ▸ hb.high⟩
  rw [free, freeRestore]
  refine wp_get (wp_seq (wp_liftDialogue ?_))
  rw [hlookup]
  refine wp_get (wp_seq (wp_outcome (wp_lift ?_)))
  rw [restore, if_pos hbackup, hsaved]
  refine wp_andThen (wp_outcomeOnly (plays_writeBuffer hne (hlen ▸ hb.fits) (play_write hc) ?_))
  refine wp_modify (wp_seq (plays_note (wp_modify ?_)))
  exact wp_seq (wp_liftState (tame.wp_noteLayout trivial hn))

/-! ## Where areas lie -/

/-- The window is where the memory begins. -/
theorem config_window (hc : s.config = Demo.config) :
    s.config.window? false = some (BitVec.ofNat 32 ramBase) := by
  rw [hc]
  rfl

/-- What is handed out lies in RAM, and in whole words. -/
theorem area_inRam (hs : Settled (A := cortexM) s live false) (hc : s.config = Demo.config)
    (ha : a ∈ live) : ramBase ≤ a.address.toNat ∧
      a.address.toNat + a.size ≤ ramBase + ramSize ∧ a.size % 4 = 0 := by
  rcases hs with hclosed | ⟨base, hw, hopen, hcoal⟩
  · rw [hclosed.live] at ha
    exact absurd ha List.not_mem_nil
  · have hlaid := hopen.layout_laid hcoal hw
    obtain ⟨hlow, hhigh, -⟩ := hlaid.inside _ (config_window hc) a ha
    obtain ⟨i, hi, -, rfl⟩ := mem_handles.mp (hlaid.corresponds.mem_iff.mp ha)
    rw [hc] at hhigh
    exact ⟨hlow, hhigh, hlaid.words _ (List.mem_map_of_mem hi)⟩

/-- Two areas do not overlap. -/
theorem area_apart (hs : Settled (A := cortexM) s [a, b] false) :
    a.address.toNat + a.size ≤ b.address.toNat ∨ b.address.toNat + b.size ≤ a.address.toNat := by
  rcases hs with hclosed | ⟨base, hw, hopen, hcoal⟩
  · exact absurd hclosed.live (List.cons_ne_nil _ _)
  · have hlaid := hopen.layout_laid hcoal hw
    exact List.rel_of_pairwise_cons hlaid.apart (List.mem_singleton_self b)

end Chip

end DebugLink
