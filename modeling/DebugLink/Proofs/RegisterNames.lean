import DebugLink.Arch.CortexM
import DebugLink.Arch.RiscV
import DebugLink.Proofs.Decimal
import Mathlib.Tactic.SplitIfs

/-!
# Register names, exactly

A register has the names that `Spelling` lists, and NO OTHER STRING NAMES A REGISTER.

* Numbers are written as `toString` writes them: there is no sign in front of them, no zero, and
  nothing around them.
* `eq_letter_number` is what the two architectures have in common.  What is read after a letter as a
  canonical number is that number, as it is written.
* The names of the RISC-V calling convention are listed as the convention has them, group by group;
  `Spelling.ofNumber` finds the entries of the table there.
-/

namespace DebugLink

open Text

/-- A letter and a number, as they are read and as they are written. -/
theorem eq_letter_number (letter : String) {s : String} {c : Char} {digits : List Char} {n : Nat}
    (hletter : letter.toList = [c]) (hs : s.toList = c :: digits)
    (hdigits : canonicalDecimal? digits = some n) : s = letter ++ toString n := by
  apply String.toList_injective
  rw [hs, canonicalDecimal?_eq_some_iff.mp hdigits, String.toList_append, hletter,
    Nat.toString_eq_repr, Nat.toList_repr]
  rfl

namespace CortexM.Reg

/-- The names of the registers. -/
inductive Spelling : String → Reg → Prop
  | general (n : Fin 13) : Spelling ("r" ++ toString n.val) (.gpr n)
  | r13 : Spelling "r13" .sp
  | r14 : Spelling "r14" .lr
  | r15 : Spelling "r15" .pc
  | sp : Spelling "sp" .sp
  | lr : Spelling "lr" .lr
  | pc : Spelling "pc" .pc
  | xpsr : Spelling "xpsr" .xpsr
  | msp : Spelling "msp" .msp
  | psp : Spelling "psp" .psp
  | control : Spelling "control" .control

variable {s : String} {r : Reg} {n : Nat}

/-- A register goes by its number. -/
theorem Spelling.ofNumber (h : ofNumber? n = some r) : Spelling ("r" ++ toString n) r := by
  rw [ofNumber?] at h
  split_ifs at h with hn h13 h14 h15
  · obtain rfl := Option.some.inj h
    exact .general ⟨n, hn⟩
  · obtain rfl := Option.some.inj h
    subst h13
    exact .r13
  · obtain rfl := Option.some.inj h
    subst h14
    exact .r14
  · obtain rfl := Option.some.inj h
    subst h15
    exact .r15

/-- Whatever is read is a name of it. -/
theorem spelling_of_ofName? (h : ofName? s = some r) : Spelling s r := by
  rw [ofName?] at h
  split_ifs at h
  case neg =>
    split at h
    · next digits hs =>
      obtain ⟨n, hdigits, hnumber⟩ := Option.bind_eq_some_iff.mp h
      rw [eq_letter_number "r" rfl hs hdigits]
      exact .ofNumber hnumber
    · exact absurd h (by simp)
  -- the special names
  all_goals
    subst s
    obtain rfl := Option.some.inj h
    constructor

/-- Every name is read. -/
theorem Spelling.read (h : Spelling s r) : ofName? s = some r := by
  cases h with
  | general n => revert n; decide
  | _ => decide

end CortexM.Reg

namespace RiscV.Reg

/-- The names of the registers. -/
inductive Spelling : String → Reg → Prop
  | number (n : Fin 32) : Spelling ("x" ++ toString n.val) (.gpr n)
  | zero : Spelling "zero" (.gpr 0)
  | ra : Spelling "ra" (.gpr 1)
  | sp : Spelling "sp" (.gpr 2)
  | gp : Spelling "gp" (.gpr 3)
  | tp : Spelling "tp" (.gpr 4)
  /-- Temporaries: three of them before the saved registers, the others at the end. -/
  | temporary (k : Fin 7) : Spelling ("t" ++ toString k.val)
      (.gpr (Fin.ofNat 32 (if k < 3 then 5 + k else 25 + k)))
  /-- Saved registers: two of them before the arguments, the others behind. -/
  | saved (k : Fin 12) : Spelling ("s" ++ toString k.val)
      (.gpr (Fin.ofNat 32 (if k < 2 then 8 + k else 16 + k)))
  | argument (k : Fin 8) : Spelling ("a" ++ toString k.val) (.gpr (Fin.ofNat 32 (10 + k)))
  /-- The frame pointer is the first of the saved registers. -/
  | fp : Spelling "fp" (.gpr 8)
  | pc : Spelling "pc" .pc

variable {s : String} {r : Reg} {n : Nat}

/-- The table has each register's name in the convention. -/
theorem Spelling.ofTable : ∀ n : Fin 32, Spelling (abiNames.get n) (.gpr n)
  | 0 => .zero | 1 => .ra | 2 => .sp | 3 => .gp | 4 => .tp
  | 5 => .temporary 0 | 6 => .temporary 1 | 7 => .temporary 2
  | 8 => .saved 0 | 9 => .saved 1
  | 10 => .argument 0 | 11 => .argument 1 | 12 => .argument 2 | 13 => .argument 3
  | 14 => .argument 4 | 15 => .argument 5 | 16 => .argument 6 | 17 => .argument 7
  | 18 => .saved 2 | 19 => .saved 3 | 20 => .saved 4 | 21 => .saved 5 | 22 => .saved 6
  | 23 => .saved 7 | 24 => .saved 8 | 25 => .saved 9 | 26 => .saved 10 | 27 => .saved 11
  | 28 => .temporary 3 | 29 => .temporary 4 | 30 => .temporary 5 | 31 => .temporary 6
  | ⟨_ + 32, hn⟩ => absurd hn (by omega)

theorem ofNumber?_some (h : ofNumber? n = some r) : ∃ hn : n < 32, r = .gpr ⟨n, hn⟩ := by
  rw [ofNumber?] at h
  split_ifs at h with hn
  exact ⟨hn, (Option.some.inj h).symm⟩

/-- Whatever is read is a name of it. -/
theorem spelling_of_ofName? (h : ofName? s = some r) : Spelling s r := by
  rw [ofName?] at h
  split_ifs at h with hpc hfp
  · obtain rfl := Option.some.inj h
    exact hpc ▸ .pc
  · obtain rfl := Option.some.inj h
    exact hfp ▸ .fp
  · split at h
    · next n hfound =>
      obtain ⟨hn, rfl⟩ := ofNumber?_some h
      obtain ⟨hlt, hname, -⟩ := List.findIdx?_eq_some_iff_getElem.mp hfound
      rw [← of_decide_eq_true hname]
      exact .ofTable ⟨n, hn⟩
    · split at h
      · next digits hs =>
        obtain ⟨n, hdigits, hnumber⟩ := Option.bind_eq_some_iff.mp h
        obtain ⟨hn, rfl⟩ := ofNumber?_some hnumber
        rw [eq_letter_number "x" rfl hs hdigits]
        exact .number ⟨n, hn⟩
      · exact absurd h (by simp)

/-- Every name is read. -/
theorem Spelling.read (h : Spelling s r) : ofName? s = some r := by
  cases h with
  | number n => revert n; decide +kernel
  | temporary k => revert k; decide +kernel
  | saved k => revert k; decide +kernel
  | argument k => revert k; decide +kernel
  | _ => decide +kernel

end RiscV.Reg

/-- What is read just if it is a name is refused just if it is none. -/
theorem refused_iff {α : Type} {x : Option α} {P : α → Prop} (h : ∀ a, x = some a ↔ P a) :
    x = none ↔ ¬∃ a, P a := by
  rw [Option.eq_none_iff_forall_ne_some]
  simp [h]

/-- A STRING NAMES A REGISTER just if it is one of the register's names, and is refused if it is no
    name of any, on either architecture and for all strings. -/
theorem registers_named_exactly (s : String) :
    ((∀ r, cortexM.reg? s = some r ↔ CortexM.Reg.Spelling s r) ∧
      (cortexM.reg? s = none ↔ ¬∃ r, CortexM.Reg.Spelling s r)) ∧
    (∀ r, riscV32.reg? s = some r ↔ RiscV.Reg.Spelling s r) ∧
      (riscV32.reg? s = none ↔ ¬∃ r, RiscV.Reg.Spelling s r) := by
  have hcortex : ∀ r, cortexM.reg? s = some r ↔ CortexM.Reg.Spelling s r :=
    fun r => ⟨CortexM.Reg.spelling_of_ofName?, fun h => h.read⟩
  have hriscv : ∀ r, riscV32.reg? s = some r ↔ RiscV.Reg.Spelling s r :=
    fun r => ⟨RiscV.Reg.spelling_of_ofName?, fun h => h.read⟩
  exact ⟨⟨hcortex, refused_iff hcortex⟩, hriscv, refused_iff hriscv⟩

/-- No sign, no leading zero, nothing around a number, no other digits. -/
example :
    ["r+1", "r01", " r1", "r1 ", "r", "R1", "r１", "r16", "r256"].filterMap cortexM.reg? = [] := by
  decide

end DebugLink
