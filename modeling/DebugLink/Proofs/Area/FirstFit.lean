import DebugLink.Proofs.Area.Attempt

/-!
# First fit, exactly

In an open window, `allocTry` hands out the beginning of THE LOWEST FREE BLOCK THAT IS LARGE ENOUGH,
and nothing else changes.

* `Cutting` is what a row of blocks looks like before and after that: the block, what is handed out
  of it, what is left over right behind, and the same blocks around it.
* `Largest` is what the failure reports if there is no such block.
* `Reachable.first_fit` says that there is no third way, for any layout and any size.
-/

namespace DebugLink.Areas

variable {w : Nat}

/-- The first `n` bytes of the block `b` are handed out.  It is the lowest of those that are free
    and large enough. -/
structure Cutting (n : Nat) (saved : Option (List UInt8)) (row row' before : List (Block w))
    (b : Block w) (after : List (Block w)) : Prop where
  whole : row = before ++ b :: after
  free : b.free = true
  fits : n ≤ b.size
  first : ∀ c ∈ before, c.free = true → c.size < n
  lowest : ∀ c ∈ row, c.free = true → n ≤ c.size → b.address.toNat ≤ c.address.toNat
  /-- What is left over, if anything, is one free block right behind. -/
  cut : row' =
    before ++ { b with size := n, free := false, backup := saved } :: (leftOver n b ++ after)
  behind : ∀ c ∈ leftOver n b, c.address.toNat = b.address.toNat + n

/-- The free blocks have at most `k` bytes, and one of them has so many.  If none is free, `k` is
    zero. -/
structure Largest (row : List (Block w)) (k : Nat) : Prop where
  le : ∀ b ∈ row, b.free = true → b.size ≤ k
  attained : (∃ b ∈ row, b.free = true ∧ b.size = k) ∨ k = 0 ∧ ∀ b ∈ row, b.free = false

section Rows

variable {s s' : Areas w} {live : List (Area w)} {base : BitVec w} {i n : Nat}

theorem foldl_max_spec (l : List Nat) (a : Nat) :
    a ≤ l.foldl max a ∧ (∀ x ∈ l, x ≤ l.foldl max a) ∧ (l.foldl max a = a ∨ l.foldl max a ∈ l) := by
  induction l generalizing a with
  | nil => exact ⟨Nat.le_refl a, nofun, Or.inl rfl⟩
  | cons b l ih =>
      obtain ⟨hle, hall, hmem⟩ := ih (max a b)
      refine ⟨Nat.le_trans (Nat.le_max_left a b) hle, ?_, ?_⟩
      · intro x hx
        rcases List.mem_cons.mp hx with rfl | hx
        · exact Nat.le_trans (Nat.le_max_right a x) hle
        · exact hall x hx
      · rcases hmem with heq | hmem
        · rw [List.foldl_cons, heq]
          rcases Nat.le_total a b with hab | hab
          · rw [Nat.max_eq_right hab]
            exact Or.inr List.mem_cons_self
          · exact Or.inl (Nat.max_eq_left hab)
        · exact Or.inr (List.mem_cons_of_mem b hmem)

/-- What is available in an open window. -/
theorem available_largest (ho : s.opened = true) : Largest s.layout s.available := by
  obtain ⟨-, hall, hmem⟩ := foldl_max_spec ((s.layout.filter (·.free)).map (·.size)) 0
  have havailable : s.available = ((s.layout.filter (·.free)).map (·.size)).foldl max 0 :=
    if_pos ho
  rw [← havailable] at hall hmem
  have hle : ∀ b ∈ s.layout, b.free = true → b.size ≤ s.available := by
    intro b hb hf
    exact hall b.size (List.mem_map_of_mem (List.mem_filter.mpr ⟨hb, hf⟩))
  refine ⟨hle, ?_⟩
  rcases hmem with hzero | hmem
  · by_cases hfree : ∃ b ∈ s.layout, b.free = true
    · obtain ⟨b, hb, hf⟩ := hfree
      have hsize := hle b hb hf
      exact Or.inl ⟨b, hb, hf, by omega⟩
    · refine Or.inr ⟨hzero, fun b hb => ?_⟩
      cases hf : b.free with
      | false => rfl
      | true => exact absurd ⟨b, hb, hf⟩ hfree
  · obtain ⟨b, hb, hsize⟩ := List.mem_map.mp hmem
    obtain ⟨hb, hf⟩ := List.mem_filter.mp hb
    exact Or.inl ⟨b, hb, hf, hsize⟩

/-- All of a window that is one free block is available. -/
theorem available_single {b : Block w} (hl : s.layout = [b]) (hf : b.free = true) :
    s.available = b.size := by
  have ho : s.opened = true := by
    simpa [opened, layout] using List.ne_nil_of_mem (hl ▸ List.mem_cons_self : b ∈ s.layout)
  rcases (available_largest ho).attained with ⟨c, hc, -, hsize⟩ | ⟨-, hnone⟩
  · rw [hl, List.mem_singleton] at hc
    rw [← hsize, hc]
  · have hlive := hnone b (hl ▸ List.mem_cons_self)
    rw [hf] at hlive
    exact absurd hlive (by simp)

/-- No block is larger than the window. -/
theorem Opened.available_le (h : Opened s live base) : s.available ≤ s.config.usable := by
  rcases (available_largest h.opened_eq).attained with ⟨b, hb, -, hsize⟩ | ⟨hzero, -⟩
  · obtain ⟨i, hi, rfl⟩ := List.mem_map.mp hb
    have hin := h.tiles.inside hi
    omega
  · rw [hzero]
    exact Nat.zero_le _

/-- A block that is large enough is found if there is one. -/
theorem firstFit_isSome : (s.firstFit? n).isSome = true ↔
    ∃ b ∈ s.layout, b.free = true ∧ n ≤ b.size := by
  rw [firstFit?, List.find?_isSome]
  constructor
  · rintro ⟨i, hi, hfit⟩
    obtain ⟨hf, hn⟩ := Bool.and_eq_true_iff.mp hfit
    exact ⟨s.block i, List.mem_map_of_mem hi, hf, of_decide_eq_true hn⟩
  · rintro ⟨b, hb, hf, hn⟩
    obtain ⟨i, hi, rfl⟩ := List.mem_map.mp hb
    exact ⟨i, hi, Bool.and_eq_true_iff.mpr ⟨hf, decide_eq_true hn⟩⟩

/-- If none is found, what is available is too little. -/
theorem available_lt (ho : s.opened = true) (hpos : 0 < n) (hnone : s.firstFit? n = none) :
    s.available < n := by
  rcases (available_largest ho).attained with ⟨b, hb, hf, hsize⟩ | ⟨hzero, -⟩
  · by_contra hle
    have hsome := firstFit_isSome.mpr ⟨b, hb, hf, hsize ▸ Nat.le_of_not_lt hle⟩
    rw [hnone] at hsome
    exact absurd hsome (by simp)
  · omega

/-- The block that is found lies behind blocks that will not do. -/
theorem firstFit_sits (hs : Slotted s s.order) (hi : s.firstFit? n = some i) :
    ∃ before after, Sits s i before (s.block i) after ∧
      ∀ c ∈ before, c.free = true → c.size < n := by
  obtain ⟨-, p, q, ho, hp⟩ := List.find?_eq_some_iff_append.mp hi
  refine ⟨_, _, .of_order hs ho, fun c hc hf => ?_⟩
  obtain ⟨j, hj, rfl⟩ := List.mem_map.mp hc
  have hnot := hp j hj
  simpa [hf] using hnot

/-- Blocks lie by ascending address. -/
theorem Opened.ascending (h : Opened s live base) : s.layout.Pairwise fun a b =>
    a.address.toNat + a.size ≤ b.address.toNat :=
  List.pairwise_map.mpr h.tiles.pairwise

/-- What a search has found, cut and handed out. -/
theorem Opened.cutting (h : Opened s live base) (hi : s.firstFit? n = some i)
    {saved : Option (List UInt8)} (hcut : ∀ {before after}, Sits s i before (s.block i) after →
      Sits s' i before { s.block i with size := n, free := false, backup := saved }
        (leftOver n (s.block i) ++ after)) :
    (∃ before after, Cutting n saved s.layout s'.layout before (s.block i) after) ∧
      (s'.handle i).address = (s.block i).address ∧ (s'.handle i).size = n := by
  obtain ⟨before, after, hsits, hfirst⟩ := firstFit_sits h.toSlotted hi
  obtain ⟨hmem, hfree, hsize⟩ := firstFit_spec hi
  have hblock := (hcut hsits).block
  refine ⟨⟨before, after, hsits.layout, hfree, hsize, hfirst, ?_, (hcut hsits).layout, ?_⟩,
    by rw [handle, hblock], by rw [handle, hblock]⟩
  · have hascending := h.ascending
    rw [hsits.layout] at hascending ⊢
    obtain ⟨-, hbehind, -⟩ := List.pairwise_append.mp hascending
    intro c hc hf hn
    rcases List.mem_append.mp hc with hc | hc
    · have hsmall := hfirst c hc hf
      omega
    · rcases List.mem_cons.mp hc with rfl | hc
      · exact Nat.le_refl _
      · have hbelow := (List.pairwise_cons.mp hbehind).1 c hc
        omega
  · intro c hc
    have hin := h.tiles.inside hmem
    have hend := h.fits
    obtain ⟨hlt, rfl⟩ := mem_leftOver hc
    exact offset_toNat (by omega)

end Rows

/-! ## Every attempt in an open window -/

section Attempts

variable {A : Arch} {s s' : Areas A.width} {live : List (Area A.width)} {mmu : Bool}
  {base : BitVec A.width} {n size : Nat} {log : Transcript A}
  {r : Except Error (Area A.width) × Areas A.width}

/-- An area of `n` bytes was handed out, for one read of just that area if its contents are to be
    put back some day, and for none otherwise. -/
def HandedOut (s : Areas A.width) (n : Nat) (calls : List (Exchange A)) (area : Area A.width)
    (s' : Areas A.width) : Prop :=
  ∃ before b after saved, Cutting n saved s.layout s'.layout before b after ∧
    area.address = b.address ∧ area.size = n ∧
    if s.config.backup then
      ∃ bytes : Bytes n, saved = some bytes.val ∧ calls = [⟨.read area.address n, .ok bytes⟩]
    else saved = none ∧ calls = []

/-- There was no room, and nothing happened. -/
def NoRoom (s : Areas A.width) (n : Nat) (calls : List (Exchange A)) (e : Error)
    (s' : Areas A.width) : Prop :=
  ∃ requested available, e = .resourceNotAvailable requested available ∧
    Largest s.layout available ∧ available < n ∧ s' = s ∧ calls = []

/-- What the cases of `Served` say of the layout. -/
theorem Served.cutting (h : Opened s live base) (hfirm : Firm s s.order)
    {calls : List (Exchange A)} (hserved : Served s n calls r)
    (hread : s.config.backup = true → ∀ x ∈ calls, x.granted = true) :
    (∃ area, r.1 = .ok area ∧ (s.firstFit? n).isSome = true ∧ HandedOut s n calls area r.2) ∨
      r.1 = .error (.resourceNotAvailable n s.available) ∧ s.firstFit? n = none ∧ r.2 = s ∧
        calls = [] := by
  cases hserved with
  | full hnone => exact Or.inr ⟨rfl, hnone, rfl, rfl⟩
  | @bare i hi hb =>
      obtain ⟨hmem, -, hsize⟩ := firstFit_spec hi
      have hbare : (s.block i).backup = none := (hfirm.blocks i hmem).bare hb
      have hcut : ∀ {before after}, Sits s i before (s.block i) after →
          Sits ((s.split i n).handOut i) i before
            { s.block i with size := n, free := false, backup := none }
            (leftOver n (s.block i) ++ after) := by
        intro before after hsits
        have hlast := (hsits.split hsize).handOut
        rw [hbare, ite_self] at hlast
        exact hlast
      obtain ⟨⟨before, after, hcutting⟩, haddress, hn⟩ := h.cutting hi hcut
      refine Or.inl ⟨_, rfl, by rw [hi]; rfl, before, _, after, none, hcutting, haddress, hn, ?_⟩
      rw [hb]
      exact ⟨rfl, rfl⟩
  | @saved i bytes hi hb =>
      obtain ⟨hmem, -, hsize⟩ := firstFit_spec hi
      have hcut : ∀ {before after}, Sits s i before (s.block i) after →
          Sits (s.issued i n bytes.val) i before
            { s.block i with size := n, free := false, backup := some bytes.val }
            (leftOver n (s.block i) ++ after) := by
        intro before after hsits
        exact (((hsits.split hsize).modifyBlock _).modifyBlock _).handOut
      obtain ⟨⟨before, after, hcutting⟩, haddress, hn⟩ := h.cutting hi hcut
      refine Or.inl ⟨_, rfl, by rw [hi]; rfl, before, _, after, _, hcutting, haddress, hn, ?_⟩
      rw [hb, haddress]
      exact ⟨bytes, rfl, rfl⟩
  | unread e hi hb => exact absurd (hread hb _ List.mem_cons_self) Bool.false_ne_true

/-- FIRST FIT, EXACTLY.  A window is open, however it came to be laid out, and its size is a 32-bit
    number.  An attempt to get an area, unless the read that it makes is refused, succeeds just if
    the size in whole words is a 32-bit number and some free block has room for it; and it hands out
    the beginning of the lowest such block.  Otherwise it reports the largest free block, which is
    too small, and leaves everything as it was. -/
theorem Reachable.first_fit (h : Reachable A s live mmu) (ho : s.opened = true)
    (hsize : s.config.size < 2 ^ 32) (hpath : ((allocTry size).run.run s).Path log r)
    (hread : s.config.backup = true → ∀ x ∈ log.exchanges, x.granted = true) :
    (r.1.isOk = true ↔ wholeWords size < 2 ^ 32 ∧
      ∃ b ∈ s.layout, b.free = true ∧ wholeWords size ≤ b.size) ∧
    match r.1 with
    | .ok area => HandedOut s (wholeWords size) log.exchanges area r.2
    | .error e => NoRoom s (wholeWords size) log.exchanges e r.2 := by
  obtain ⟨base, -, hopen, -⟩ := h.settled.opened ho
  have hlargest := available_largest ho
  cases path_allocTry hpath with
  | overflow hnone =>
      have hover := roundUp?_none hnone
      have hwindow := hopen.available_le
      have husable : s.config.usable ≤ s.config.size := Nat.div_mul_le_self _ _
      have hlt : s.available < wholeWords size := by omega
      refine ⟨⟨nofun, fun ⟨hlt, _⟩ => absurd hlt (Nat.not_lt_of_le hover)⟩, ?_⟩
      exact ⟨_, _, rfl, hlargest, hlt, rfl, rfl⟩
  | opened hn _ hserve =>
      obtain ⟨rfl, hlt⟩ := roundUp?_some hn
      have hpos := (Grants.roundUp_spec hn).1
      rcases (path_serve hopen hpos hserve).cutting hopen h.twins.left hread with
        ⟨area, hok, hfound, hout⟩ | ⟨herr, hnone, hsame, hcalls⟩
      · rw [hok]
        exact ⟨⟨fun _ => ⟨hlt, firstFit_isSome.mp hfound⟩, fun _ => rfl⟩, hout⟩
      · rw [herr]
        refine ⟨⟨nofun, fun ⟨_, hroom⟩ => ?_⟩, _, _, rfl, hlargest,
          available_lt ho hpos hnone, hsame, hcalls⟩
        have hfound := firstFit_isSome.mpr hroom
        rw [hnone] at hfound
        exact absurd hfound (by simp)
  | unlearned _ hclosed _ => exact absurd (ho.symm.trans hclosed) (by simp)
  | unusable _ hclosed _ _ _ => exact absurd (ho.symm.trans hclosed) (by simp)
  | opens _ hclosed _ _ _ => exact absurd (ho.symm.trans hclosed) (by simp)

/-- A handle on the slot of the second area, which was given back once. -/
def gapReissued : Area (plainCore 32).width where
  id := { owner := 1, index := 1, generation := 1 }
  address := 0x1010
  size := 20

/-- An attempt to get eighteen bytes of the gap between two areas. -/
abbrev gapAttempt : Dialogue (plainCore 32)
    (Except Error (Area (plainCore 32).width) × Areas (plainCore 32).width) :=
  (allocTry (A := plainCore 32) 18).run.run gapOfTwo.1

/-- Twenty bytes are cut from the gap, whose size is thirty-two. -/
theorem Reachable.first_fit_gap :
    (answeredEnd plainAnswer gapAttempt).1.isOk = true ∧
      HandedOut gapOfTwo.1 20 (answeredLog plainAnswer gapAttempt).exchanges gapReissued
        (answeredEnd plainAnswer gapAttempt).2 := by
  have hreachable : Reachable (plainCore 32) gapOfTwo.1 gapOfTwo.2 false :=
    plainPast_reachable _ (.new 1 gapStart.config false)
  obtain ⟨hiff, hout⟩ := Reachable.first_fit hreachable (by decide +kernel) (by decide +kernel)
    (answered_path plainAnswer gapAttempt) (by decide +kernel)
  have hok : (answeredEnd plainAnswer gapAttempt).1 = .ok gapReissued := by decide +kernel
  rw [hok] at hout
  exact ⟨by decide +kernel, hout⟩

end Attempts

end DebugLink.Areas
