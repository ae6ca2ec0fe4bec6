import DebugLink.Proofs.Area.Reachable
import DebugLink.Proofs.Area.Row

/-!
# What is saved for a block fits it

An area can be put back exactly because what was saved for it is just AS LONG AS IT IS.  This file
shows that it stays so: a block whose size changes loses what was saved for it.

* `Block.Backed` says it of one block, and that something is saved for those that are handed out
  just if contents are to be put back.
* `Areas.Backed` says it of all blocks.  Each change of the tiling keeps it, by what the change
  makes of the row (`Sits`, `layout_merge`).
* `Reachable.backed` follows, for every history.
-/

namespace DebugLink

open Environment

variable {w : Nat}

/-- What is saved for a block fits it; and something is saved for one that is handed out just if
    contents are to be put back. -/
structure Block.Backed (saves : Bool) (b : Block w) : Prop where
  fits : ∀ bytes, b.backup = some bytes → bytes.length = b.size
  saved : b.free = false → b.backup.isSome = saves
  bare : saves = false → b.backup = none

namespace Block.Backed

variable {saves : Bool} {b c : Block w} {n : Nat}

/-- A free block for which nothing is saved. -/
theorem of_bare (hf : b.free = true) (hb : b.backup = none) : b.Backed saves where
  fits := by
    rw [hb]
    exact nofun
  saved := by
    rw [hf]
    exact nofun
  bare := fun _ => hb

/-- A free block for which as much as it holds is saved. -/
theorem of_saved (hf : b.free = true) (hs : saves = true) {bytes : List UInt8}
    (hbytes : bytes.length = b.size) : Block.Backed saves { b with backup := some bytes } where
  fits := by
    rintro _ heq
    rw [← Option.some.inj heq]
    exact hbytes
  saved := fun hlive => absurd (hf.symm.trans hlive) (by simp)
  bare := fun hnot => absurd (hs.symm.trans hnot) (by simp)

/-- A block that is given back keeps what it has. -/
theorem release (h : b.Backed saves) : Block.Backed saves { b with free := true } :=
  ⟨h.fits, nofun, h.bare⟩

/-- A free block is cut. -/
theorem cut (h : b.Backed saves) (hf : b.free = true) (hn : n ≤ b.size) :
    Block.Backed saves { b with size := n, backup := if b.size ≤ n then b.backup else none } := by
  split
  · next hle =>
    obtain rfl := Nat.le_antisymm hn hle
    exact h
  · exact of_bare hf rfl

/-- What is left over is free, and nothing is saved for it. -/
theorem of_leftOver (hc : c ∈ Areas.leftOver n b) : c.Backed saves := by
  rw [(Areas.mem_leftOver hc).2]
  exact of_bare rfl rfl

end Block.Backed

namespace Areas

variable {s s' : Areas w} {before after extra : List (Block w)} {b : Block w} {i n : Nat}

/-- It holds of every block. -/
def Backed (s : Areas w) : Prop :=
  ∀ b ∈ s.layout, b.Backed s.config.backup

/-- The layout is a block, and those around it. -/
theorem Sits.mem_layout {c : Block w} (h : Sits s i before b after) :
    c ∈ s.layout ↔ c = b ∨ c ∈ before ++ after := by
  rw [h.layout]
  exact List.perm_middle.mem_iff.trans List.mem_cons

namespace Backed

/-- A closed window has no block without a backup. -/
theorem of_closed (ho : s.order = []) : Backed s := by
  intro b hb
  rw [layout, ho] at hb
  exact absurd hb List.not_mem_nil

/-- A window that was just opened is one free block. -/
theorem openAt (hs : Slotted s s.order) (ho : s.order = []) (base : BitVec w) :
    Backed (s.openAt base) := by
  intro b hb
  rw [layout_openAt hs ho] at hb
  rw [List.mem_singleton.mp hb]
  exact .of_bare rfl rfl

/-- A change to a block that is backed, before and after. -/
theorem modifyBlock (h : Backed s) (hs : Sits s i before b after) {f : Block w → Block w}
    (hf : (f b).Backed s.config.backup) : Backed (s.modifyBlock i f) := by
  intro c hc
  rcases (hs.modifyBlock f).mem_layout.mp hc with rfl | hc
  · exact hf
  · exact h c (hs.mem_layout.mpr (Or.inr hc))

/-- A free block that is cut needs no backup on either side. -/
theorem split (h : Backed s) (hs : Sits s i before b after) (hf : b.free = true)
    (hn : n ≤ b.size) : Backed (s.split i n) := by
  intro c hc
  rw [split_config]
  rcases (hs.split hn).mem_layout.mp hc with rfl | hc
  · exact (h b (hs.mem_layout.mpr (Or.inl rfl))).cut hf hn
  · rcases List.mem_append.mp hc with hc | hc
    · exact h c (hs.mem_layout.mpr (Or.inr (List.mem_append_left after hc)))
    · rcases List.mem_append.mp hc with hc | hc
      · exact .of_leftOver hc
      · exact h c (hs.mem_layout.mpr (Or.inr (List.mem_append_right before hc)))

/-- A block is handed out, with what was saved for it. -/
theorem handOut (h : Backed s) (hs : Sits s i before b after)
    (hb : b.backup.isSome = s.config.backup) : Backed (s.handOut i) := by
  have hblock := h b (hs.mem_layout.mpr (Or.inl rfl))
  exact h.modifyBlock hs ⟨hblock.fits, fun _ => hb, hblock.bare⟩

/-- A block that is given back needs none any longer. -/
theorem release (h : Backed s) (hs : Slotted s s.order) (hi : i ∈ s.order) :
    Backed (s.release i) := by
  obtain ⟨before, after, hsits⟩ := Sits.of_mem hs hi
  intro c hc
  rcases hsits.release.mem_layout.mp hc with rfl | hc
  · exact (h _ (hsits.mem_layout.mpr (Or.inl rfl))).release
  · exact h c (hsits.mem_layout.mpr (Or.inr hc))

/-- Free blocks that are joined need none. -/
theorem merge (h : Backed s) (hs : Slotted s s.order) : Backed s.merge := by
  intro c hc
  rw [merge_config]
  rw [layout_merge hs] at hc
  rcases mem_of_joined hc with hc | ⟨hf, hb⟩
  · exact h c hc
  · exact .of_bare hf hb

end Backed

/-! ## Whatever is reached is backed -/

section Reached

variable {A : Arch} {s : Areas A.width} {live : List (Area A.width)} {mmu : Bool} {i n : Nat}

/-- An area is handed out after its memory was saved, or not at all. -/
theorem backed_grants :
    Grants (anyTarget A) Anything (fun s live mmu => Settled s live mmu ∧ Backed s) where
  toTame := anyTarget_tame
  holds := fun _ => trivial
  opens := by
    rintro s live mmu n ⟨h, hb⟩ ho
    have hclosed := h.closed ho
    refine wp_and (settled_grants.opens h ho) ?_
    refine anyTarget_tame.wp_openWindow (R := fun s _ => Backed s) (fun _ => trivial) n
      (wp_mmuOn ?_ ?_)
    · intro on
      exact ⟨hb, fun _ base _ _ _ => .openAt h.standing.slotted hclosed.order base⟩
    · intro e
      exact ⟨hb, fun _ _ => nofun⟩
  cuts := by
    rintro s live mmu n i ⟨h, hb⟩ hpos hwords hi hsaves
    obtain ⟨hmem, hf, hn⟩ := firstFit_spec hi
    obtain ⟨before, after, hsits⟩ := Sits.of_mem h.standing.slotted hmem
    obtain ⟨hsettled, hsize⟩ := settled_grants.cuts h hpos hwords hi hsaves
    have hcut := hsits.split hn
    have hbacked := hb.split hsits hf hn
    refine ⟨⟨hsettled, hbacked.handOut hcut ?_⟩, hsize⟩
    rw [split_config, hsaves, (hbacked _ (hcut.mem_layout.mpr (Or.inl rfl))).bare]
    · rfl
    · rw [split_config, hsaves]
  saves := by
    rintro s live mmu n i ⟨h, hb⟩ hpos hwords hi hsaves
    obtain ⟨hmem, hf, hn⟩ := firstFit_spec hi
    obtain ⟨before, after, hsits⟩ := Sits.of_mem h.standing.slotted hmem
    have hcut := (hsits.split hn).modifyBlock ({ · with backup := none })
    have hbare : Backed ((s.split i n).modifyBlock i ({ · with backup := none })) :=
      (hb.split hsits hf hn).modifyBlock (hsits.split hn) (.of_bare hf rfl)
    have hsaved : (anyTarget A).wp Anything ((saveBackup i).run.run (s.split i n)) (fun r _ =>
        Backed (if r.1.isOk then r.2.handOut i else r.2)) mmu := by
      rw [saveBackup]
      refine wp_get (wp_modify (wp_seq (wp_outcome (wp_lift (wp_readBuffer ?_)))))
      rintro (e | bytes)
      · exact hbare.merge hcut.slotted
      · have hconfig : (s.split i n).config.backup = true := by rw [split_config, hsaves]
        refine (hbare.modifyBlock hcut (f := ({ · with backup := some bytes.val })) ?_).handOut
          (hcut.modifyBlock _) hconfig.symm
        refine .of_saved (b := { s.block i with size := n, backup := none }) hf hconfig ?_
        rw [bytes.property, (hsits.split hn).block]
    refine wp_mono (wp_and (settled_grants.saves h hpos hwords hi hsaves) hsaved) ?_
    rintro ⟨_ | _, s'⟩ mmu' ⟨hready, hbacked⟩
    · exact ⟨hready, hbacked⟩
    · exact ⟨⟨hready.1, hbacked⟩, hready.2⟩

/-- Giving back asks for no backups. -/
theorem backed_releases (putBack : Bool) :
    Releases (anyTarget A) Anything (fun s live mmu => Loose s live mmu ∧ Backed s)
      (fun s live mmu => Settled s live mmu ∧ Backed s) putBack :=
  settled_releases_with (fun hs hi _ h => h.release hs hi) (fun hs h => h.merge hs) putBack

/-- Every request keeps what is in use backed. -/
theorem wp_perform_backed (h : Settled s live mmu ∧ Backed s) (request : AreaRequest A.width) :
    (anyTarget A).wp Anything (request.perform.run s)
      (fun r mmu => Settled r.2 (request.live live r.1) mmu ∧ Backed r.2) mmu :=
  wp_perform_of backed_grants backed_releases
    (fun h => ⟨Or.inl (closed_discard h.1.standing.slotted), .of_closed rfl⟩)
    (fun config h => ⟨Or.inl (closed_setConfig h.1.standing.slotted config), .of_closed rfl⟩) h
    request

/-- WHAT IS SAVED FITS, whatever was asked and whatever the target answered. -/
theorem Reachable.backed (h : Reachable A s live mmu) : Backed s := by
  induction h with
  | new id config mmu => exact .of_closed rfl
  | @request s s' live mmu mmu' issued request hreached run ih =>
      have hwp := wp_perform_backed ⟨hreached.settled, ih⟩ request
      exact (anyTarget_tame.reached (fun _ _ _ => trivial) hwp run).2

end Reached

end Areas

end DebugLink
