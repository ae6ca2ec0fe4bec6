import DebugLink.Proofs.Area.Canonical
import Mathlib.Data.List.InsertIdx

/-!
# The past of an arena does not show

A `Client` holds handles and makes `AreaMove`s; it sees a `Reply`, how much is available, and what
the arena shows.  Two clients are `Partners` if their arenas are twins and they hold handles on the
same areas; then they see THE SAME for ever (`Partners.play`), one move at a time
(`Partners.perform`).

* What is left of an arena after areas were `Released` is determined by those that were not
  (`Remains`), so the order of the releases plays no part.
* Arenas that were reached in any two ways make partners if they have the same configuration, begin
  at the same address, and have the same live blocks (`Reachable.history_irrelevant`).

Only handles that hold are given back here.  Those that do not are refused by any arena, whatever
its past.
-/

namespace DebugLink

/-- What a client of the areas does next.  It names its handles by their place among those that it
    holds. -/
inductive AreaMove where
  | alloc (size : Nat)
  | allocTry (size : Nat)
  | allocShrinking (preferred least : Nat)
  | free (place : Nat)
  | freeRestore (place : Nat) (putBack : Bool)
  | freeAll
  | freeAllRestore (putBack : Bool)

/-- Areas, and the handles that their client holds. -/
structure Client (w : Nat) where
  areas : Areas w
  held : List (Area w)

/-- What a client is answered: a failure, or where the area lies that was handed out, if one was. -/
abbrev Client.Reply (w : Nat) :=
  Except Error (Option (BitVec w × Nat))

/-- What a client sees of a move. -/
structure Client.Sight (w : Nat) where
  reply : Reply w
  available : Nat
  layout : List (Block w)

namespace Client

variable {A : Arch}

/-- The client keeps the handle that it gets. -/
def keep (x : AreaM A (Area A.width)) : StateT (Client A.width) (Dialogue A) (Reply A.width) :=
  fun c => do
    match ← x.run.run c.areas with
    | (.ok area, s) => return (.ok (some (area.address, area.size)), ⟨s, c.held ++ [area]⟩)
    | (.error e, s) => return (.error e, ⟨s, c.held⟩)

/-- The client gives one of its handles away. -/
def giveBack (place : Nat) (putBack : Bool) :
    StateT (Client A.width) (Dialogue A) (Reply A.width) :=
  fun c => do
    match c.held[place]? with
    | none => return (.ok none, c)
    | some area =>
      let (r, s) ← (Areas.freeRestore area putBack).run.run c.areas
      return (r.map fun _ => none, ⟨s, c.held.eraseIdx place⟩)

/-- The client's handles are given up, all at once. -/
def giveUp (x : StateT (Areas A.width) (Dialogue A) Unit) :
    StateT (Client A.width) (Dialogue A) (Reply A.width) :=
  fun c => do
    let (_, s) ← x.run c.areas
    return (.ok none, ⟨s, []⟩)

/-- Where the areas lie that the client holds. -/
def places {w : Nat} (c : Client w) : List (BitVec w × Nat) :=
  c.held.map fun a => (a.address, a.size)

end Client

namespace AreaMove

variable {A : Arch}

/-- Makes a move. -/
def perform : AreaMove → StateT (Client A.width) (Dialogue A) (Client.Reply A.width)
  | .alloc size => Client.keep (Areas.alloc size)
  | .allocTry size => Client.keep (Areas.allocTry size)
  | .allocShrinking preferred least => Client.keep (Areas.allocShrinking preferred least)
  | .free place => Client.giveBack place true
  | .freeRestore place putBack => Client.giveBack place putBack
  | .freeAll => Client.giveUp Areas.freeAll
  | .freeAllRestore putBack => Client.giveUp (Areas.freeAllRestore putBack)

/-- Makes one move after the other; answers what the client sees of them. -/
def play : List AreaMove → StateT (Client A.width) (Dialogue A) (List (Client.Sight A.width))
  | [] => return []
  | m :: rest => do
    let reply ← m.perform
    let s := (← get).areas
    return { reply, available := s.available, layout := s.shown } :: (← play rest)

end AreaMove

namespace Areas

open Dialogue Environment

/-! ## Partners -/

section Partners

variable {A : Arch} {s t : Areas A.width} {held live live' : List (Area A.width)}
  {c c' : Client A.width}

/-- Clients of twins that hold handles on the same areas, and no others hold. -/
structure Partners (c c' : Client A.width) : Prop where
  twins : Twins c.areas c'.areas
  places : c.places = c'.places
  left : ∃ mmu, Settled c.areas c.held mmu
  right : ∃ mmu, Settled c'.areas c'.held mmu

/-- Any target has an answer to everything. -/
theorem anyTarget_answers (mmu : Bool) (op : Op A) (a : op.Answer) :
    ∃ mmu', (anyTarget A).answers mmu op a mmu' := by
  simp only [anyTarget]
  split <;> exact ⟨_, rfl⟩

/-- What does the same to both arenas leaves them partners, with one area more or with none. -/
theorem Partners.keep (h : Partners c c') {x : AreaM A (Area A.width)}
    (hx : Agree (Both Issued Twins) (x.run.run c.areas) (x.run.run c'.areas))
    (hsettled : ∀ {s : Areas A.width} {live : List (Area A.width)} {mmu : Bool},
      Settled s live mmu → (anyTarget A).wp Anything (x.run.run s)
        (fun r mmu => Settled r.2 (granted live r.1) mmu) mmu) :
    Agree (fun r r' => r.1 = r'.1 ∧ Partners r.2 r'.2) ((Client.keep x).run c)
      ((Client.keep x).run c') := by
  obtain ⟨htwins, hplaces, ⟨mmu, hleft⟩, ⟨mmu', hright⟩⟩ := h
  refine (hx.and_wp anyTarget_answers (hsettled hleft) (hsettled hright)).bind ?_
  rintro _ _ ⟨(@⟨a, b, s, t, haddress, hsize, htwins⟩ | @⟨s, t, e, htwins⟩), hleft, hright⟩
  · have hplace : (a.address, a.size) = (b.address, b.size) := Prod.ext haddress hsize
    refine .done ⟨by rw [hplace], htwins, ?_, hleft, hright⟩
    simp only [Client.places, List.map_append, List.map_singleton, hplace]
    exact congrArg (· ++ [(b.address, b.size)]) hplaces
  · exact .done ⟨rfl, htwins, hplaces, hleft, hright⟩

/-- Giving one handle back leaves the others, each in its place. -/
theorem without_eq_eraseIdx {a : Area A.width} : ∀ {held : List (Area A.width)} {k : Nat},
    (held.map (·.id)).Nodup → held[k]? = some a → without held a.id = held.eraseIdx k := by
  intro held
  induction held with
  | nil =>
      intro k _ ha
      exact absurd ha (by simp)
  | cons b rest ih =>
      intro k hdistinct ha
      obtain ⟨hb, hrest⟩ := List.nodup_cons.mp hdistinct
      have hother : ∀ x ∈ rest, x.id ≠ b.id := by
        intro x hx hid
        exact hb (List.mem_map.mpr ⟨x, hx, hid⟩)
      -- the head goes, or it has another id and stays
      cases k with
      | zero =>
          obtain rfl : b = a := Option.some.inj ha
          refine (List.filter_cons_of_neg (by simp)).trans (List.filter_eq_self.mpr ?_)
          exact fun x hx => decide_eq_true (hother x hx)
      | succ k =>
          have ha : rest[k]? = some a := ha
          have hne := (hother a (List.mem_of_getElem? ha)).symm
          rw [without, List.filter_cons_of_pos (by simpa using hne)]
          exact congrArg (b :: ·) (ih hrest ha)

/-- Handles that hold, in twins, are on slots that face each other if they are on the same
    address. -/
theorem Twins.matching {mmu mmu' : Bool} (h : Twins s t) (hs : Settled s live mmu)
    (ht : Settled t live' mmu') {a b : Area A.width} (ha : a ∈ live) (hb : b ∈ live')
    (haddress : a.address = b.address) : Matching s t a b := by
  obtain ⟨i, hi, hf, rfl⟩ := mem_handles.mp (hs.standing.handles.mem_iff.mp ha)
  obtain ⟨k, hk, hfk, rfl⟩ := mem_handles.mp (ht.standing.handles.mem_iff.mp hb)
  have hopen : t.opened = true := by
    simpa [Areas.opened] using List.ne_nil_of_mem hk
  obtain ⟨base, -, hopened, -⟩ := ht.opened hopen
  obtain ⟨j, hfacing⟩ := Facing.of_mem h.shown hi
  obtain rfl : j = k := hopened.eq_of_address h.right hfacing.right hk (hfacing.free ▸ hf) hfk
    (hfacing.address.symm.trans haddress)
  exact .of_facing h hfacing hf

/-- Handles in the same place are on the same area. -/
theorem Partners.matching (h : Partners c c') {place : Nat} {a b : Area A.width}
    (ha : c.held[place]? = some a) (hb : c'.held[place]? = some b) :
    Matching c.areas c'.areas a b := by
  obtain ⟨htwins, hplaces, ⟨mmu, hleft⟩, ⟨mmu', hright⟩⟩ := h
  have hsame : c.places[place]? = c'.places[place]? := by rw [hplaces]
  rw [Client.places, Client.places, List.getElem?_map, List.getElem?_map, ha, hb] at hsame
  exact htwins.matching hleft hright (List.mem_of_getElem? ha) (List.mem_of_getElem? hb)
    (congrArg Prod.fst (Option.some.inj hsame))

/-- Both have given away what they held in one place. -/
theorem Partners.eraseIdx (h : Partners c c') {place : Nat} (htwins : Twins s t)
    (hleft : ∃ mmu, Settled s (c.held.eraseIdx place) mmu)
    (hright : ∃ mmu, Settled t (c'.held.eraseIdx place) mmu) :
    Partners ⟨s, c.held.eraseIdx place⟩ ⟨t, c'.held.eraseIdx place⟩ where
  twins := htwins
  places := by
    rw [Client.places, Client.places, ← List.eraseIdx_map, ← List.eraseIdx_map]
    exact congrArg (·.eraseIdx place) h.places
  left := hleft
  right := hright

/-- To give back the areas in one place does the same to both. -/
theorem Partners.giveBack (h : Partners c c') (place : Nat) (putBack : Bool) :
    Agree (fun r r' => r.1 = r'.1 ∧ Partners r.2 r'.2) ((Client.giveBack place putBack).run c)
      ((Client.giveBack place putBack).run c') := by
  have hlength : c.held.length = c'.held.length := by
    simpa [Client.places] using congrArg List.length h.places
  simp only [Client.giveBack, StateT.run]
  cases ha : c.held[place]? with
  | none =>
      have hb : c'.held[place]? = none :=
        List.getElem?_eq_none (hlength ▸ List.getElem?_eq_none_iff.mp ha)
      rw [hb]
      exact .done ⟨rfl, h⟩
  | some a =>
      obtain ⟨hlt, _⟩ := List.getElem?_eq_some_iff.mp ha
      have hb := List.getElem?_eq_getElem (hlength ▸ hlt)
      rw [hb]
      obtain ⟨mmu, hleft⟩ := h.left
      obtain ⟨mmu', hright⟩ := h.right
      have hwp := (settled_releases putBack).wp_freeRestore hleft a
      have hwp' := (settled_releases putBack).wp_freeRestore hright c'.held[place]
      -- ids are distinct, so one place is given up on either side
      rw [without_eq_eraseIdx hleft.distinct ha] at hwp
      rw [without_eq_eraseIdx hright.distinct hb] at hwp'
      refine ((agree_freeRestore h.twins (h.matching ha hb) putBack).and_wp anyTarget_answers hwp
        hwp').bind ?_
      rintro _ _ ⟨(⟨htwins⟩ | ⟨e, htwins⟩), hs, ht⟩
      · exact .done ⟨rfl, h.eraseIdx htwins hs ht⟩
      · exact .done ⟨rfl, h.eraseIdx htwins hs ht⟩

/-- So does giving up all areas. -/
theorem Partners.giveUp (h : Partners c c') {x : StateT (Areas A.width) (Dialogue A) Unit}
    (hx : Agree (fun r r' => Twins r.2 r'.2) (x.run c.areas) (x.run c'.areas))
    (hsettled : ∀ {s : Areas A.width} {live : List (Area A.width)} {mmu : Bool},
      Settled s live mmu → (anyTarget A).wp Anything (x.run s)
        (fun r mmu => Settled r.2 [] mmu) mmu) :
    Agree (fun r r' => r.1 = r'.1 ∧ Partners r.2 r'.2) ((Client.giveUp x).run c)
      ((Client.giveUp x).run c') := by
  obtain ⟨_, _, ⟨mmu, hleft⟩, ⟨mmu', hright⟩⟩ := h
  refine (hx.and_wp anyTarget_answers (hsettled hleft) (hsettled hright)).bind ?_
  rintro _ _ ⟨htwins, hs, ht⟩
  exact .done ⟨rfl, htwins, rfl, hs, ht⟩

/-- ONE MOVE shows no difference, and leaves partners. -/
theorem Partners.perform (h : Partners c c') (m : AreaMove) :
    Agree (fun r r' => r.1 = r'.1 ∧ Partners r.2 r'.2) (m.perform.run c) (m.perform.run c') := by
  have hg := settled_grants (A := A)
  cases m with
  | alloc size => exact h.keep (agree_alloc h.twins size) fun hs => hg.wp_alloc hs size
  | allocTry size => exact h.keep (agree_allocTry h.twins size) fun hs => hg.wp_allocTry hs size
  | allocShrinking preferred least =>
      exact h.keep (agree_allocShrinking h.twins preferred least) fun hs =>
        hg.wp_allocShrinking hs preferred least
  | free place => exact h.giveBack place true
  | freeRestore place putBack => exact h.giveBack place putBack
  | freeAll => exact h.giveUp (agree_freeAll h.twins) settled_freeAll
  | freeAllRestore putBack =>
      exact h.giveUp (agree_freeAllRestore h.twins putBack) fun hs =>
        (settled_releases putBack).wp_freeAllRestore hs

/-- Nor do any number of moves. -/
theorem Partners.play (moves : List AreaMove) : ∀ {c c' : Client A.width}, Partners c c' →
    Agree (fun r r' => r.1 = r'.1) ((AreaMove.play moves).run c)
      ((AreaMove.play moves).run c') := by
  induction moves with
  | nil => exact fun _ => .done rfl
  | cons m rest ih =>
      intro c c' h
      refine (h.perform m).bind ?_
      rintro ⟨reply, c⟩ ⟨_, c'⟩ ⟨rfl, h'⟩
      refine (ih h').bind ?_
      rintro ⟨sights, _⟩ ⟨_, _⟩ rfl
      refine .done ?_
      show _ :: _ = _ :: _
      rw [h'.twins.available, h'.twins.shown]

end Partners

/-! ## What releasing leaves -/

section Remains

variable {A : Arch} {s₀ s s' : Areas A.width} {live given rest : List (Area A.width)}
  {mmu mmu' : Bool} {i : Nat}

/-- What an arena shows after some of its areas were released: it begins where it began, and what
    is not free is as it was. -/
structure Remains (s₀ s : Areas A.width) : Prop where
  config : s.config = s₀.config
  base : s.shown.head?.map (·.address) = s₀.shown.head?.map (·.address)
  live : ∀ b ∈ s.shown, b.free = false → b ∈ s₀.shown

namespace Remains

theorem refl (s : Areas A.width) : Remains s s :=
  ⟨rfl, rfl, fun _ hb _ => hb⟩

/-- Releasing a block leaves the window and its base. -/
theorem release (h : Remains s₀ s) (hs : Slotted s s.order) (hi : i ∈ s.order) :
    Remains s₀ (s.release i) := by
  have hlt := hs.lt_size hi
  have hself : (s.release i).block i = { s.block i with free := true } := by
    rw [block_eq, slot_release_self hlt]
  refine ⟨h.config, ?_, ?_⟩
  · rw [← h.base, shown_eq, shown_eq, List.head?_map, List.head?_map, Option.map_map,
      Option.map_map]
    refine congrArg (Option.map · s.order.head?) (funext fun j => ?_)
    show ((s.release i).face j).address = (s.face j).address
    rw [face, face, Block.shown_address, Block.shown_address]
    by_cases hj : j = i
    · rw [hj, hself]
    · rw [block_eq, slot_release_other hlt hj, block_eq]
  · intro b hb hlive
    rw [shown_eq] at hb
    obtain ⟨j, hj, rfl⟩ := List.mem_map.mp hb
    have hne : j ≠ i := by
      rintro rfl
      rw [face, Block.free_shown, hself] at hlive
      exact absurd hlive (by simp)
    rw [face_congr (slot_release_other hlt hne)] at hlive ⊢
    refine h.live _ ?_ hlive
    rw [shown_eq]
    exact List.mem_map_of_mem hj

/-- So does joining free neighbours. -/
theorem merge (h : Remains s₀ s) (hs : Slotted s s.order) : Remains s₀ s.merge where
  config := (merge_config s).trans h.config
  base := by rw [shown_merge hs, head_joined, h.base]
  live := by
    intro b hb hlive
    rw [shown_merge hs, mem_joined hlive] at hb
    exact h.live b hb hlive

end Remains

/-- Whatever is given back, the window remains. -/
theorem remains_releases (s₀ : Areas A.width) (putBack : Bool) :
    Releases (anyTarget A) Anything (fun s live mmu => Loose s live mmu ∧ Remains s₀ s)
      (fun s live mmu => Settled s live mmu ∧ Remains s₀ s) putBack :=
  settled_releases_with (fun hs hi _ h => h.release hs hi) (fun hs h => h.merge hs) putBack

/-- Areas are released one after the other, whatever the target answers. -/
inductive Released (A : Arch) :
    Areas A.width → Bool → List (Area A.width) → Areas A.width → Bool → Prop where
  | nil (s : Areas A.width) (mmu : Bool) : Released A s mmu [] s mmu
  | cons {s s' s'' : Areas A.width} {mmu mmu' mmu'' : Bool} {area : Area A.width}
      {rest : List (Area A.width)} {issued : Option (Area A.width)} (putBack : Bool) :
      (anyTarget A).Reaches ((AreaRequest.freeRestore area putBack).perform.run s) mmu
        (.done (issued, s')) mmu' →
      Released A s' mmu' rest s'' mmu'' → Released A s mmu (area :: rest) s'' mmu''

/-- What was not released still holds, and is as it was. -/
theorem Released.reachable (hr : Released A s mmu given s' mmu') :
    ∀ {live : List (Area A.width)}, Reachable A s live mmu → Remains s₀ s →
      (given ++ rest).Perm live →
      ∃ live', Reachable A s' live' mmu' ∧ rest.Perm live' ∧ Remains s₀ s' := by
  induction hr with
  | nil s mmu => exact fun h hremains hperm => ⟨_, h, hperm, hremains⟩
  | @cons s s' s'' mmu mmu' mmu'' area given issued putBack run _ ih =>
      intro live h hremains hperm
      have hsettled := h.settled
      have hwp : (anyTarget A).wp Anything
          ((AreaRequest.freeRestore area putBack).perform.run s) (fun r _ => Remains s₀ r.2) mmu :=
        wp_then (wp_mono ((remains_releases s₀ putBack).wp_freeRestore ⟨hsettled, hremains⟩ area)
          fun _ _ h => h.2)
      have hremains' := anyTarget_tame.reached (fun _ _ _ => trivial) hwp run
      refine ih (h.request (.freeRestore area putBack) run) hremains' ?_
      -- the area that was given back is the first of those that hold
      have hdistinct : ((area :: (given ++ rest)).map (·.id)).Nodup :=
        (hperm.map _).nodup_iff.mpr hsettled.distinct
      have hwithout : without (area :: (given ++ rest)) area.id = given ++ rest :=
        without_eq_eraseIdx (k := 0) hdistinct rfl
      show (given ++ rest).Perm (without live area.id)
      rw [← hwithout]
      exact hperm.filter _

end Remains

/-! ## Arenas with the same live blocks -/

section Same

variable {A : Arch} {s t : Areas A.width} {live live' : List (Area A.width)} {mmu mmu' : Bool}

/-- Nobody who goes on with either of two clients sees a difference. -/
def Indistinct (c c' : Client A.width) : Prop :=
  c.areas.available = c'.areas.available ∧ c.areas.shown = c'.areas.shown ∧
    ∀ moves : List AreaMove, Agree (fun r r' => r.1 = r'.1) ((AreaMove.play moves).run c)
      ((AreaMove.play moves).run c')

/-- PARTNERS CANNOT BE TOLD APART, however they are used. -/
theorem Partners.indistinct {c c' : Client A.width} (h : Partners c c') : Indistinct c c' :=
  ⟨h.twins.available, h.twins.shown, fun moves => h.play moves⟩

/-- Blocks that were handed out by one arena, and lie at the same addresses, are the same. -/
theorem live_of_address {s₁ t₁ : Areas A.width} {base : BitVec A.width} (h : Opened s live base)
    (hfirm : Firm s s.order) (hs : ∀ b ∈ s₁.shown, b.free = false → b ∈ s.shown)
    (ht : ∀ b ∈ t₁.shown, b.free = false → b ∈ s.shown)
    (haddress : ∀ b ∈ s₁.layout, b.free = false →
      ∃ c ∈ t₁.layout, c.free = false ∧ c.address = b.address) {b : Block A.width}
    (hlive : b.free = false) (hb : b ∈ s₁.layout) : b ∈ t₁.layout := by
  obtain ⟨c, hc, hclive, hcb⟩ := haddress b hb hlive
  have hbs := (mem_shown hlive).mp (hs b ((mem_shown hlive).mpr hb) hlive)
  have hcs := (mem_shown hclive).mp (ht c ((mem_shown hclive).mpr hc) hclive)
  obtain ⟨i, hi, rfl⟩ := List.mem_map.mp hbs
  obtain ⟨j, hj, rfl⟩ := List.mem_map.mp hcs
  obtain rfl : j = i := h.eq_of_address hfirm hj hi hclive hlive hcb
  exact hc

/-- Handles on the same addresses are on blocks at the same addresses. -/
theorem address_of_handles {rest rest' : List (Area A.width)} (h : Reachable A s live mmu)
    (h' : Reachable A t live' mmu') (hrest : rest.Perm live) (hrest' : rest'.Perm live')
    (hsame : rest.map (fun a => (a.address, a.size)) = rest'.map fun a => (a.address, a.size)) :
    ∀ b ∈ s.layout, b.free = false → ∃ c ∈ t.layout, c.free = false ∧ c.address = b.address := by
  intro b hb hlive
  obtain ⟨i, hi, rfl⟩ := List.mem_map.mp hb
  have hmem : s.handle i ∈ rest := (hrest.trans h.settled.standing.handles).mem_iff.mpr
    (mem_handles.mpr ⟨i, hi, hlive, rfl⟩)
  have hplace := List.mem_map_of_mem (f := fun a : Area A.width => (a.address, a.size)) hmem
  rw [hsame] at hplace
  obtain ⟨a, ha, hai⟩ := List.mem_map.mp hplace
  obtain ⟨j, hj, hf, rfl⟩ := mem_handles.mp
    ((hrest'.trans h'.settled.standing.handles).mem_iff.mp ha)
  exact ⟨t.block j, List.mem_map_of_mem hj, hf, congrArg Prod.fst hai⟩

/-- An arena that shows an address is open there. -/
theorem Settled.opened_at (h : Settled s live mmu) {base : BitVec A.width}
    (hbase : s.shown.head?.map (·.address) = some base) :
    Opened s live base ∧ s.Coalesced s.order := by
  rcases h with hc | ⟨base', hw, hopen, hcoal⟩
  · rw [shown_eq, hc.order] at hbase
    exact absurd hbase (by simp)
  · have hlaid := hopen.layout_laid hcoal hw
    have hhead := hlaid.base
    rw [← head_shown, hbase, hw] at hhead
    obtain rfl := Option.some.inj hhead
    exact ⟨hopen, hcoal⟩

/-- THE PAST OF AN ARENA DOES NOT SHOW.  Two arenas were reached in any two ways; they have the same
    configuration, are open at the same address, and have the same live blocks.  From either, areas
    are then released in any order, such that what still holds is the same.  Whatever is done with
    what is left, neither a client nor the target can tell which of them it was.

    With nothing released this is about the two arenas as they are; with one arena on both sides, it
    is about the order of the releases. -/
theorem Reachable.history_irrelevant (hs : Reachable A s live mmu) (ht : Reachable A t live' mmu')
    (hopened : s.opened = true) (hconfig : s.config = t.config)
    (hbase : s.layout.head?.map (·.address) = t.layout.head?.map (·.address))
    (hlive : ∀ b : Block A.width, b.free = false → (b ∈ s.layout ↔ b ∈ t.layout))
    {given rest given' rest' : List (Area A.width)} (hrest : (given ++ rest).Perm live)
    (hrest' : (given' ++ rest').Perm live')
    (hsame : rest.map (fun a => (a.address, a.size)) = rest'.map fun a => (a.address, a.size))
    {s₁ t₁ : Areas A.width} {mmu₁ mmu₁' : Bool} (hreleased : Released A s mmu given s₁ mmu₁)
    (hreleased' : Released A t mmu' given' t₁ mmu₁') : Indistinct ⟨s₁, rest⟩ ⟨t₁, rest'⟩ := by
  obtain ⟨live₁, hs₁, hperm, hremains⟩ := hreleased.reachable hs (.refl s) hrest
  obtain ⟨live₁', ht₁, hperm', hremains'⟩ := hreleased'.reachable ht (.refl t) hrest'
  obtain ⟨base, hw, hopen, hcoal⟩ := hs.settled.opened hopened
  have hhead : s.shown.head?.map (·.address) = some base := by
    rw [head_shown, (hopen.layout_laid hcoal hw).base, hw]
  have hhead' : t.shown.head?.map (·.address) = some base := by
    rw [head_shown, ← hbase, ← head_shown, hhead]
  obtain ⟨hopen₁, hcoal₁⟩ := hs₁.settled.opened_at (hremains.base.trans hhead)
  obtain ⟨hopen₁', hcoal₁'⟩ := ht₁.settled.opened_at (hremains'.base.trans hhead')
  -- what is live in either of them was live in the first arena
  have hold : ∀ b ∈ t₁.shown, b.free = false → b ∈ s.shown := by
    intro b hb hf
    have hbt := (mem_shown hf).mp (hremains'.live b hb hf)
    exact (mem_shown hf).mpr ((hlive b hf).mpr hbt)
  have hfirm := hs.twins.left
  have htwins : Twins s₁ t₁ := by
    refine twins_of_same hopen₁ hopen₁' hcoal₁ hcoal₁' hs₁.twins.left ht₁.twins.left
      (hremains.config.trans (hconfig.trans hremains'.config.symm)) fun b hb => ⟨?_, ?_⟩
    · exact live_of_address hopen hfirm hremains.live hold
        (address_of_handles hs₁ ht₁ hperm hperm' hsame) hb
    · exact live_of_address hopen hfirm hold hremains.live
        (address_of_handles ht₁ hs₁ hperm' hperm hsame.symm) hb
  exact Partners.indistinct ⟨htwins, hsame, ⟨mmu₁, hs₁.settled.perm hperm⟩,
    ⟨mmu₁', ht₁.settled.perm hperm'⟩⟩

end Same

/-! ## Two pasts -/

section Sample

/-- A target that reads zeros, and has neither a memory management unit nor anything to refuse. -/
def plainAnswer {A : Arch} : (op : Op A) → op.Answer
  | .call (.read _ n) => .ok ⟨List.replicate n 0, List.length_replicate⟩
  | .call (.write _ _) => .ok ()
  | .call _ => .error .nonFatal
  | .feature .endian => .little
  | .feature .breakpoints => false
  | .feature .mmu => false
  | .host .now => 0
  | .host (.sleep _) => ()
  | .host .keepAlive => ()
  | .host .shutdownPending => false
  | .note _ => ()

/-- How a dialogue ends with it. -/
def plainEnd {A : Arch} {α : Type} : Dialogue A α → α
  | .done a => a
  | .ask op next => plainEnd (next (plainAnswer op))

/-- The plain target plays any dialogue to its end. -/
theorem plainEnd_reaches {A : Arch} {α : Type} (d : Dialogue A α) :
    (anyTarget A).Reaches d false (.done (plainEnd d)) false := by
  induction d with
  | done a => exact .refl _ _
  | ask op next ih =>
      refine .answer (plainAnswer op) ?_ (ih (plainAnswer op))
      rcases op with (_ | _) | (_ | _ | _) | _ | _ <;> rfl

variable {A : Arch} {s : Areas A.width} {live : List (Area A.width)}

/-- What requests lead to, one after the other. -/
def plainPast (s : Areas A.width) (live : List (Area A.width)) :
    List (AreaRequest A.width) → Areas A.width × List (Area A.width)
  | [] => (s, live)
  | request :: rest =>
    plainPast (plainEnd (request.perform.run s)).2
      (request.live live (plainEnd (request.perform.run s)).1) rest

/-- What comes of requests to it is reachable. -/
theorem plainPast_reachable (requests : List (AreaRequest A.width)) :
    ∀ {s : Areas A.width} {live : List (Area A.width)}, Reachable A s live false →
      Reachable A (plainPast s live requests).1 (plainPast s live requests).2 false := by
  induction requests with
  | nil => exact fun h => h
  | cons request rest ih => exact fun h => ih (h.request request (plainEnd_reaches _))

/-- What is left when areas are released, one after the other. -/
def plainRelease (s : Areas A.width) : List (Area A.width) → Areas A.width
  | [] => s
  | area :: rest =>
    plainRelease (plainEnd ((AreaRequest.freeRestore area true).perform.run s)).2 rest

/-- Releases that it serves are releases. -/
theorem plainRelease_released (given : List (Area A.width)) :
    ∀ s : Areas A.width, Released A s false given (plainRelease s given) false := by
  induction given with
  | nil => exact fun s => .nil s false
  | cons area rest ih => exact fun s => .cons true (plainEnd_reaches _) (ih _)

/-- Areas of a plain core, with a window of 80 bytes. -/
def gapStart : Areas (plainCore 32).width where
  id := 1
  config := { size := 80, phys := some 0x1000, backup := true }

/-- Handles on its slots. -/
def gapHandle (index : Nat) (address : BitVec (plainCore 32).width) (size : Nat) :
    Area (plainCore 32).width where
  id := { owner := 1, index, generation := 0 }
  address
  size

/-- Five areas of 16 bytes are handed out; then the second and the third are given back. -/
def gapOfTwo : Areas (plainCore 32).width × List (Area (plainCore 32).width) :=
  plainPast gapStart []
    [.alloc 16, .alloc 16, .alloc 16, .alloc 16, .alloc 16, .free (gapHandle 1 0x1010 16),
      .free (gapHandle 2 0x1020 16)]

/-- One of the areas is of 32 bytes; it is given back, and what was saved for it is left over. -/
def gapOfOne : Areas (plainCore 32).width × List (Area (plainCore 32).width) :=
  plainPast gapStart []
    [.alloc 16, .alloc 32, .alloc 16, .alloc 16, .free (gapHandle 1 0x1010 32)]

/-- Two areas with a gap between them came about in two ways.  From the one the left area is
    released first, from the other the right one; a third area still holds. -/
theorem Reachable.history_irrelevant_gap :
    gapOfTwo.1.layout ≠ gapOfOne.1.layout ∧
    Indistinct
      ⟨plainRelease gapOfTwo.1 [gapHandle 0 0x1000 16, gapHandle 4 0x1040 16],
        [gapHandle 3 0x1030 16]⟩
      ⟨plainRelease gapOfOne.1 [gapHandle 3 0x1040 16, gapHandle 0 0x1000 16],
        [gapHandle 2 0x1030 16]⟩ := by
  have hnew := Reachable.new (A := plainCore 32) 1 gapStart.config false
  have htwo : Reachable (plainCore 32) gapOfTwo.1 gapOfTwo.2 false := plainPast_reachable _ hnew
  have hone : Reachable (plainCore 32) gapOfOne.1 gapOfOne.2 false := plainPast_reachable _ hnew
  have hlive : gapOfTwo.1.layout.filter (!·.free) = gapOfOne.1.layout.filter (!·.free) := by
    decide +kernel
  refine ⟨by decide +kernel, Reachable.history_irrelevant htwo hone (by decide +kernel)
    (by decide +kernel) (by decide +kernel) ?_ (by decide +kernel) (by decide +kernel)
    (by decide +kernel) (plainRelease_released _ _) (plainRelease_released _ _)⟩
  intro b hb
  have hfilter := congrArg (b ∈ ·) hlive
  simpa [hb] using hfilter

end Sample

end Areas

end DebugLink
