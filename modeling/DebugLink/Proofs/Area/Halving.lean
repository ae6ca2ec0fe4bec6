import DebugLink.Proofs.Area.FirstFit
import Mathlib.Data.Nat.Log

/-!
# A search by halving

`allocShrinking` asks for one size after the other, each half of the one before, and stops AT THE
FIRST ANSWER THAT IS NOT A LACK OF ROOM.

* `Refusals` are attempts in a row, each of which finds what the one before it left.
* `Search` says how the search goes: `k` attempts are refused, and one more is made, which is either
  answered otherwise or the last one that the bound allows.  The bound is looked at before a size is
  halved, so that NO ATTEMPT LIES BELOW IT.
* `path_allocHalving` says that these are the paths of the search, all of them and no others.  The
  induction is on the size, along the recursion; a search of half the size is the rest of a search
  (`Search.next`).
* In an open window without backups a refusal changes nothing (`attempt_bare`), so that every
  attempt is made of the same blocks and the first size that fits is the largest one.
-/

namespace DebugLink.Areas

open Dialogue

/-- The sizes above the one that was halved `k` times. -/
def halvings (size k : Nat) : List Nat :=
  (List.range k).map fun j => size / 2 ^ j

section Sizes

variable {size least k : Nat}

theorem half_again (size k : Nat) : size / 2 / 2 ^ k = size / 2 ^ (k + 1) := by
  rw [Nat.div_div_eq_div_mul, Nat.pow_succ']

theorem halvings_succ (size k : Nat) : halvings size (k + 1) = size :: halvings (size / 2) k := by
  rw [halvings, List.range_succ_eq_map, List.map_cons, List.map_map]
  refine congrArg₂ List.cons (by rw [Nat.pow_zero, Nat.div_one]) (List.map_congr_left ?_)
  intro j _
  exact (half_again size j).symm

/-- The sizes that were tried are halves of the first one. -/
theorem mem_halvings {n : Nat} : n ∈ halvings size k ↔ ∃ j < k, size / 2 ^ j = n := by
  simp [halvings]

/-- They become smaller and smaller. -/
theorem half_mono (size : Nat) {j k : Nat} (h : j ≤ k) : size / 2 ^ k ≤ size / 2 ^ j :=
  Nat.div_le_div_left (Nat.pow_le_pow_right (by decide) h) (Nat.two_pow_pos j)

/-- How often a size can be halved before it is too small. -/
theorem le_half_iff (hl : 0 < least) (hle : least ≤ size) :
    least ≤ size / 2 ^ k ↔ k ≤ Nat.log 2 (size / least) := by
  have hratio : size / least ≠ 0 := Nat.div_ne_zero_iff.mpr ⟨Nat.ne_of_gt hl, hle⟩
  rw [Nat.le_div_iff_mul_le (Nat.two_pow_pos k), Nat.le_log_iff_pow_le (by decide) hratio,
    Nat.le_div_iff_mul_le hl, Nat.mul_comm]

end Sizes

/-- It says that there is no room. -/
def LacksRoom {α : Type} (r : Except Error α) : Prop :=
  ∃ requested available, r = .error (.resourceNotAvailable requested available)

variable {A : Arch} {s s' t : Areas A.width} {live : List (Area A.width)} {mmu : Bool}
  {least size preferred k : Nat} {sizes : List Nat} {log l₁ l₂ : Transcript A}
  {r : Except Error (Area A.width) × Areas A.width}

/-- One attempt for each of the sizes, in this order.  All of them are refused for lack of room, and
    each finds what the one before it left. -/
inductive Refusals : Areas A.width → List Nat → Transcript A → Areas A.width → Prop
  | nil (s : Areas A.width) : Refusals s [] [] s
  | cons {s t s' : Areas A.width} {size requested available : Nat} {sizes : List Nat}
      {l₁ l₂ : Transcript A} :
      ((allocTry size).run.run s).Path l₁ (.error (.resourceNotAvailable requested available), t) →
      Refusals t sizes l₂ s' → Refusals s (size :: sizes) (l₁ ++ l₂) s'

/-- A search that begins with `size` bytes and does not go below `least`, with `k` attempts that are
    followed by another one. -/
inductive Search (least size : Nat) (s : Areas A.width) (k : Nat) :
    Transcript A → Except Error (Area A.width) × Areas A.width → Prop
  /-- The last attempt is answered otherwise, and its result is that of the search. -/
  | answered {t : Areas A.width} {l₁ l₂ : Transcript A}
      {r : Except Error (Area A.width) × Areas A.width} :
      least ≤ size / 2 ^ k → Refusals s (halvings size k) l₁ t →
      ((allocTry (size / 2 ^ k)).run.run t).Path l₂ r → ¬LacksRoom r.1 →
      Search least size s k (l₁ ++ l₂) r
  /-- The last attempt is refused like the others, and half of its size would be too little. -/
  | exhausted {t : Areas A.width} {l₁ l₂ : Transcript A}
      {r : Except Error (Area A.width) × Areas A.width} :
      least ≤ size / 2 ^ k → size / 2 ^ (k + 1) < least → Refusals s (halvings size k) l₁ t →
      ((allocTry (size / 2 ^ k)).run.run t).Path l₂ r → LacksRoom r.1 →
      Search least size s k (l₁ ++ l₂ ++ [⟨.note (.noneLargeEnough least), ()⟩]) r

/-! ## The paths of a search -/

/-- After a refusal, the rest of a search is a search of half the size. -/
theorem Search.next {requested available : Nat}
    (hrefused : ((allocTry size).run.run s).Path l₁
      (.error (.resourceNotAvailable requested available), t))
    (h : Search least (size / 2) t k l₂ r) : Search least size s (k + 1) (l₁ ++ l₂) r := by
  cases h with
  | answered hle hbefore hlast hother =>
      rw [half_again] at hle hlast
      rw [← List.append_assoc]
      refine .answered hle ?_ hlast hother
      rw [halvings_succ]
      exact .cons hrefused hbefore
  | exhausted hle hlt hbefore hlast hlacks =>
      rw [half_again] at hle hlt hlast
      rw [← List.append_assoc, ← List.append_assoc]
      refine .exhausted hle hlt ?_ hlast hlacks
      rw [halvings_succ]
      exact .cons hrefused hbefore

/-- Every path is a search. -/
theorem search_of_path (hl : 0 < least) (size : Nat) :
    ∀ {s : Areas A.width} {log : Transcript A}, least ≤ size →
      ((allocHalving least size hl).run.run s).Path log r → ∃ k, Search least size s k log r := by
  induction size using Nat.strongRecOn with
  | ind size ih =>
      intro s log hle hpath
      rw [allocHalving] at hpath
      obtain ⟨l₁, l₂, x, t, rfl, h₁, h₂⟩ := path_outcome hpath
      have hsize : size / 2 ^ 0 = size := by rw [Nat.pow_zero, Nat.div_one]
      -- unless it is a lack of room, the first answer is the result
      have hanswered : ¬LacksRoom x → Search least size s 0 (l₁ ++ []) (x, t) := by
        intro hother
        rw [List.append_nil, ← List.nil_append l₁]
        exact .answered (hsize.symm ▸ hle) (.nil s) (hsize.symm ▸ h₁) hother
      cases x with
      | ok area =>
          obtain ⟨rfl, rfl⟩ := path_done.mp h₂
          refine ⟨0, hanswered ?_⟩
          rintro ⟨_, _, ⟨⟩⟩
      | error e =>
          cases e with
          | resourceNotAvailable requested available =>
              by_cases hhalf : least ≤ size / 2
              · simp only [dif_pos hhalf] at h₂
                obtain ⟨k, hsearch⟩ := ih (size / 2) (by omega) hhalf h₂
                exact ⟨k + 1, hsearch.next h₁⟩
              · simp only [dif_neg hhalf] at h₂
                obtain ⟨_, rest, rfl, hrest⟩ := path_ask.mp h₂
                obtain ⟨rfl, rfl⟩ := path_done.mp hrest
                have hlt : size / 2 ^ (0 + 1) < least := by
                  rw [Nat.zero_add, Nat.pow_one]
                  exact Nat.lt_of_not_le hhalf
                rw [← List.nil_append l₁]
                exact ⟨0, .exhausted (hsize.symm ▸ hle) hlt (.nil s) (hsize.symm ▸ h₁) ⟨_, _, rfl⟩⟩
          | _ =>
              obtain ⟨rfl, rfl⟩ := path_done.mp h₂
              refine ⟨0, hanswered ?_⟩
              rintro ⟨_, _, ⟨⟩⟩

/-- After refusals, the search goes on with the size that it has come to. -/
theorem path_after_refusals (hl : 0 < least) (h : Refusals s (halvings size k) l₁ t)
    (hle : least ≤ size / 2 ^ k)
    (hpath : ((allocHalving least (size / 2 ^ k) hl).run.run t).Path l₂ r) :
    ((allocHalving least size hl).run.run s).Path (l₁ ++ l₂) r := by
  induction k generalizing size s l₁ with
  | zero =>
      cases h
      rwa [Nat.pow_zero, Nat.div_one] at hpath
  | succ k ih =>
      rw [halvings_succ] at h
      cases h with
      | @cons _ t' _ _ _ _ _ first rest hfirst hrest =>
          rw [← half_again] at hle hpath
          have hhalf : least ≤ size / 2 := Nat.le_trans hle (Nat.div_le_self _ _)
          rw [allocHalving, List.append_assoc]
          refine path_outcomeThen hfirst ?_
          simp only [dif_pos hhalf]
          exact ih hrest hle hpath

/-- Every search is a path. -/
theorem Search.path (hl : 0 < least) (h : Search least size s k log r) :
    ((allocHalving least size hl).run.run s).Path log r := by
  -- some size was answered, or the last one had no room either
  cases h with
  | @answered t l₁ l₂ _ hle hbefore hlast hother =>
      refine path_after_refusals hl hbefore hle ?_
      obtain ⟨x, s'⟩ := r
      rw [allocHalving, ← List.append_nil l₂]
      refine path_outcomeThen hlast ?_
      cases x with
      | ok area => exact .done _
      | error e =>
          cases e with
          | resourceNotAvailable requested available => exact absurd ⟨_, _, rfl⟩ hother
          | _ => exact .done _
  | @exhausted t l₁ l₂ _ hle hlt hbefore hlast hlacks =>
      rw [List.append_assoc]
      refine path_after_refusals hl hbefore hle ?_
      obtain ⟨x, s'⟩ := r
      obtain ⟨requested, available, rfl⟩ := hlacks
      rw [allocHalving]
      refine path_outcomeThen hlast ?_
      -- half of the last size would be too small
      have hhalf : ¬least ≤ size / 2 ^ k / 2 := by
        rw [Nat.div_div_eq_div_mul, ← Nat.pow_succ]
        exact Nat.not_le_of_lt hlt
      simp only [dif_neg hhalf]
      exact path_ask.mpr ⟨(), [], rfl, .done _⟩

/-- THE PATHS OF A SEARCH, all of them and no others. -/
theorem path_allocHalving (hl : 0 < least) (hle : least ≤ size) :
    ((allocHalving least size hl).run.run s).Path log r ↔ ∃ k, Search least size s k log r :=
  ⟨search_of_path hl size hle, fun ⟨_, h⟩ => h.path hl⟩

/-- No attempt is made below the bound, so that the number of attempts is bounded as well. -/
theorem Search.above (h : Search least size s k log r) : least ≤ size / 2 ^ k := by
  cases h with
  | answered hle => exact hle
  | exhausted hle => exact hle

/-! ## Running out of sizes -/

/-- A row of refusals is continued by another, ... -/
theorem Refusals.append {sizes' : List Nat} (h : Refusals s sizes l₁ t)
    (h' : Refusals t sizes' l₂ s') : Refusals s (sizes ++ sizes') (l₁ ++ l₂) s' := by
  induction h with
  | nil s => exact h'
  | cons hfirst _ ih =>
      rw [List.append_assoc]
      exact .cons hfirst (ih h')

/-- ... and can be cut where the sizes are. -/
theorem Refusals.split {sizes' : List Nat} (h : Refusals s (sizes ++ sizes') log s') :
    ∃ l₁ l₂ t, log = l₁ ++ l₂ ∧ Refusals s sizes l₁ t ∧ Refusals t sizes' l₂ s' := by
  induction sizes generalizing s log with
  | nil => exact ⟨[], log, s, rfl, .nil s, h⟩
  | cons size sizes ih =>
      cases h with
      | cons hfirst hrest =>
          obtain ⟨l₁, l₂, t, rfl, h₁, h₂⟩ := ih hrest
          exact ⟨_, l₂, t, (List.append_assoc _ _ _).symm, .cons hfirst h₁, h₂⟩

theorem halvings_snoc (size k : Nat) :
    halvings size (k + 1) = halvings size k ++ [size / 2 ^ k] := by
  rw [halvings, List.range_succ, List.map_append]
  rfl

/-- Every size from `size` down to `least` was asked for, and refused. -/
def AllRefused (least size : Nat) (s : Areas A.width) (log : Transcript A) (s' : Areas A.width) :
    Prop :=
  ∃ tried, (∀ j, j < tried ↔ least ≤ size / 2 ^ j) ∧ Refusals s (halvings size tried) log s'

/-- A SEARCH FAILS FOR LACK OF ROOM just if every size was refused. -/
theorem lacksRoom_iff (hl : 0 < least) (hle : least ≤ size)
    (hpath : ((allocHalving least size hl).run.run s).Path log r) :
    LacksRoom r.1 ↔ ∃ l, log = l ++ [⟨.note (.noneLargeEnough least), ()⟩] ∧
      AllRefused least size s l r.2 := by
  constructor
  · intro hlacks
    obtain ⟨k, hsearch⟩ := (path_allocHalving hl hle).mp hpath
    cases hsearch with
    | answered _ _ _ hother => exact absurd hlacks hother
    | @exhausted t l₁ l₂ _ habove hlt hbefore hlast _ =>
        refine ⟨_, rfl, k + 1, fun j => ⟨fun hj => ?_, fun hj => ?_⟩, ?_⟩
        · exact Nat.le_trans habove (half_mono size (Nat.le_of_lt_succ hj))
        · by_contra hge
          have hsmall := half_mono size (Nat.le_of_not_lt hge)
          omega
        · obtain ⟨x, s'⟩ := r
          obtain ⟨requested, available, rfl⟩ := hlacks
          rw [halvings_snoc]
          refine hbefore.append ?_
          rw [← List.append_nil l₂]
          exact .cons hlast (.nil _)
  · rintro ⟨l, rfl, tried, htried, hrefused⟩
    obtain ⟨k, rfl⟩ : ∃ k, tried = k + 1 := by
      refine Nat.exists_eq_add_one.mpr ((htried 0).mpr ?_)
      rwa [Nat.pow_zero, Nat.div_one]
    rw [halvings_snoc] at hrefused
    obtain ⟨l₁, l₂, t, rfl, hbefore, hlast⟩ := hrefused.split
    cases hlast with
    | @cons _ _ _ _ requested available _ last _ hlast hnil =>
        cases hnil
        have hlt : size / 2 ^ (k + 1) < least := by
          by_contra hge
          exact Nat.lt_irrefl _ ((htried (k + 1)).mpr (Nat.le_of_not_lt hge))
        rw [List.append_nil] at hpath
        have hsearch := Search.exhausted ((htried k).mp (Nat.lt_succ_self k)) hlt hbefore hlast
          ⟨_, _, rfl⟩
        -- answered like that, the search has one end only
        have hend := (hsearch.path hl).same_end hpath
        exact ⟨_, _, (congrArg Prod.fst hend).symm⟩

/-! ## In an open window without backups -/

/-- An attempt succeeds just if the size in whole words is available, and else leaves everything as
    it was. -/
theorem attempt_bare (h : Settled s live mmu) (hfirm : Firm s s.order) (ho : s.opened = true)
    (hb : s.config.backup = false) (hsize : s.config.size < 2 ^ 32)
    (hpath : ((allocTry size).run.run s).Path log r) :
    (wholeWords size ≤ s.available ∧ ∃ area, r.1 = .ok area ∧ area.size = wholeWords size) ∨
      (s.available < wholeWords size ∧ LacksRoom r.1 ∧ r.2 = s) := by
  obtain ⟨base, -, hopen, -⟩ := h.opened ho
  cases path_allocTry hpath with
  | overflow hnone =>
      -- too large to be rounded up, hence larger than any window
      have hover := roundUp?_none hnone
      have hwindow := hopen.available_le
      have husable : s.config.usable ≤ s.config.size := Nat.div_mul_le_self _ _
      exact Or.inr ⟨by omega, ⟨_, _, rfl⟩, rfl⟩
  | opened hn _ hserve =>
      obtain ⟨rfl, -⟩ := roundUp?_some hn
      have hpos := (Grants.roundUp_spec hn).1
      have hread : s.config.backup = true → ∀ x ∈ log.exchanges, x.granted = true := by
        intro hon
        rw [hb] at hon
        exact absurd hon Bool.false_ne_true
      rcases (path_serve hopen hpos hserve).cutting hopen hfirm hread with
        ⟨area, hok, hfound, _, _, _, _, _, -, harea, -⟩ | ⟨herr, hnone, hsame, -⟩
      · obtain ⟨b, hmem, hf, hfits⟩ := firstFit_isSome.mp hfound
        have hle := (available_largest ho).le b hmem hf
        exact Or.inl ⟨Nat.le_trans hfits hle, area, hok, harea⟩
      · exact Or.inr ⟨available_lt ho hpos hnone, ⟨_, _, herr⟩, hsame⟩
  | unlearned _ hclosed _ => exact absurd (ho.symm.trans hclosed) (by simp)
  | unusable _ hclosed _ _ _ => exact absurd (ho.symm.trans hclosed) (by simp)
  | opens _ hclosed _ _ _ => exact absurd (ho.symm.trans hclosed) (by simp)

/-- Attempts that are refused leave everything as it was. -/
theorem Refusals.bare (hrefused : Refusals s sizes log t) (h : Settled s live mmu)
    (hfirm : Firm s s.order) (ho : s.opened = true) (hb : s.config.backup = false)
    (hsize : s.config.size < 2 ^ 32) : t = s ∧ ∀ n ∈ sizes, s.available < wholeWords n := by
  induction hrefused with
  | nil s => exact ⟨rfl, nofun⟩
  | cons hfirst _ ih =>
      rcases attempt_bare h hfirm ho hb hsize hfirst with ⟨-, area, hok, -⟩ | ⟨hlt, -, hsame⟩
      · cases hok
      · obtain rfl := hsame
        obtain ⟨rfl, hrest⟩ := ih h hfirm ho hb hsize
        exact ⟨rfl, List.forall_mem_cons.mpr ⟨hlt, hrest⟩⟩

/-- The size that a search is after: the largest of its sizes that is available in whole words. -/
structure Fits (least size available n : Nat) : Prop where
  halved : ∃ k, n = size / 2 ^ k
  above : least ≤ n
  fits : wholeWords n ≤ available
  largest : ∀ j, wholeWords (size / 2 ^ j) ≤ available → size / 2 ^ j ≤ n

/-- IT FINDS THAT SIZE, and fails only if there is none. -/
theorem Search.bare (hsearch : Search least size s k log r) (h : Settled s live mmu)
    (hfirm : Firm s s.order) (ho : s.opened = true) (hb : s.config.backup = false)
    (hsize : s.config.size < 2 ^ 32) :
    (∃ area n, r.1 = .ok area ∧ Fits least size s.available n ∧ area.size = wholeWords n) ∨
      (LacksRoom r.1 ∧ ∀ j, least ≤ size / 2 ^ j → s.available < wholeWords (size / 2 ^ j)) := by
  cases hsearch with
  | answered hle hbefore hlast hother =>
      obtain ⟨rfl, hsmall⟩ := hbefore.bare h hfirm ho hb hsize
      rcases attempt_bare h hfirm ho hb hsize hlast with ⟨hfits, area, hok, harea⟩ | ⟨-, hlacks, -⟩
      · refine Or.inl ⟨area, _, hok, ⟨⟨k, rfl⟩, hle, hfits, fun j hj => half_mono size ?_⟩, harea⟩
        -- a larger size that fits was asked for before, and refused
        by_contra hlt
        have htoo := hsmall _ (mem_halvings.mpr ⟨j, Nat.lt_of_not_le hlt, rfl⟩)
        omega
      · exact absurd hlacks hother
  | exhausted hle hlt hbefore hlast hlacks =>
      obtain ⟨rfl, hsmall⟩ := hbefore.bare h hfirm ho hb hsize
      rcases attempt_bare h hfirm ho hb hsize hlast with ⟨-, area, hok, -⟩ | ⟨hfull, -, -⟩
      · obtain ⟨_, _, herr⟩ := hlacks
        rw [hok] at herr
        cases herr
      · refine Or.inr ⟨hlacks, fun j hj => ?_⟩
        rcases Nat.lt_trichotomy j k with hjk | rfl | hjk
        · exact hsmall _ (mem_halvings.mpr ⟨j, hjk, rfl⟩)
        · exact hfull
        · -- after the last attempt, half of the size is below the bound already
          have hmono : size / 2 ^ j ≤ size / 2 ^ (k + 1) := half_mono size hjk
          omega

/-! ## Every search -/

/-- A SEARCH BY HALVING, of areas in any state and for any two sizes.  Whatever the target and the
    host answer, it comes to an end.  What it does is a `Search`, with no more attempts than the
    bound allows; and it finds no room just if every size down to the bound was refused.  In an open
    window without backups it finds the largest size that is available. -/
theorem Reachable.halving_search (h : Reachable A s live mmu) (preferred least : Nat) :
    (∀ responder : Responder A, ∃ log r,
      ((allocShrinking preferred least).run.run s).Path log r ∧ responder.Gives log) ∧
    (∀ log r, ((allocShrinking preferred least).run.run s).Path log r ↔
      ∃ k ≤ Nat.log 2 (max preferred (max least 1) / max least 1),
        Search (max least 1) (max preferred (max least 1)) s k log r) ∧
    ∀ log r, ((allocShrinking preferred least).run.run s).Path log r →
      (LacksRoom r.1 ↔ ∃ l, log = l ++ [⟨.note (.noneLargeEnough (max least 1)), ()⟩] ∧
        AllRefused (max least 1) (max preferred (max least 1)) s l r.2) ∧
      (s.opened = true → s.config.backup = false → s.config.size < 2 ^ 32 →
        (r.1.isOk = true ↔ ∃ k, max least 1 ≤ max preferred (max least 1) / 2 ^ k ∧
          wholeWords (max preferred (max least 1) / 2 ^ k) ≤ s.available) ∧
        ∀ area, r.1 = .ok area → least ≤ area.size ∧ ∃ n,
          Fits (max least 1) (max preferred (max least 1)) s.available n ∧
            area.size = wholeWords n) := by
  have hl : 0 < max least 1 := by omega
  have hle : max least 1 ≤ max preferred (max least 1) := Nat.le_max_right _ _
  refine ⟨fun responder => path_of_responder responder _ [], fun log r => ?_, fun log r hpath => ?_⟩
  · refine (path_allocHalving hl hle).trans (exists_congr fun k => ?_)
    exact ⟨fun hsearch => ⟨(le_half_iff hl hle).mp hsearch.above, hsearch⟩, And.right⟩
  refine ⟨lacksRoom_iff hl hle hpath, fun ho hb hsize => ?_⟩
  obtain ⟨k, hsearch⟩ := (path_allocHalving hl hle).mp hpath
  obtain ⟨x, s'⟩ := r
  -- without backups a size is refused only if no free block holds it
  rcases hsearch.bare h.settled h.twins.left ho hb hsize with
    ⟨area, n, rfl, hfits, harea⟩ | ⟨⟨requested, available, rfl⟩, hsmall⟩
  · refine ⟨⟨fun _ => ?_, fun _ => rfl⟩, ?_⟩
    · obtain ⟨j, rfl⟩ := hfits.halved
      exact ⟨j, hfits.above, hfits.fits⟩
    · rintro _ ⟨⟩
      refine ⟨?_, n, hfits, harea⟩
      have habove := hfits.above
      rw [harea, wholeWords]
      omega
  · refine ⟨⟨nofun, ?_⟩, nofun⟩
    rintro ⟨j, hj, hfits⟩
    exact absurd hfits (Nat.not_le_of_lt (hsmall j hj))

/-- A search for two hundred bytes, or at least ten. -/
abbrev sampleSearch : Dialogue (plainCore 32)
    (Except Error (Area (plainCore 32).width) × Areas (plainCore 32).width) :=
  (allocShrinking (A := plainCore 32) 200 10).run.run sampleAfter

/-- Forty-eight bytes are available.  Two hundred, one hundred and fifty are too many, since fifty
    are fifty-two in whole words; twenty-five are what any target makes of it. -/
theorem Reachable.halving_search_sample :
    sampleAfter.available = 48 ∧ Fits 10 200 48 25 ∧
    ∀ log r, sampleSearch.Path log r → r.1.isOk = true ∧
      ∀ area, r.1 = .ok area → ∃ n, Fits 10 200 48 n ∧ area.size = wholeWords n := by
  have havailable : sampleAfter.available = 48 := by decide +kernel
  obtain ⟨-, -, hevery⟩ := Reachable.halving_search sample_reaches 200 10
  refine ⟨havailable, ⟨⟨3, rfl⟩, by decide, by decide, fun j hj => ?_⟩, fun log r hpath => ?_⟩
  · match j with
    | 0 | 1 | 2 => exact absurd hj (by decide)
    | j + 3 => exact half_mono 200 (Nat.le_add_left 3 j)
  · obtain ⟨-, hbare⟩ := hevery log r hpath
    obtain ⟨hok, hfound⟩ := hbare (by decide) (by decide) (by decide)
    rw [havailable] at hok hfound
    exact ⟨hok.mpr ⟨3, by decide, by decide⟩, fun area harea => (hfound area harea).2⟩

end DebugLink.Areas
