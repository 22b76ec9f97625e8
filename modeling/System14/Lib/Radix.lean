import Mathlib.Algebra.Group.Nat.Defs
import Mathlib.Tactic.Common

/-!
# Radix trees of tables

A table maps indices to slots; a slot is empty, leads to a table one level
down, or ends the walk at a page. Tables are named by addresses and read
through a `view`, which a program may change one slot at a time.

A walk is given by the index it uses at each level. When no table is reached
by two different walks, changing one slot changes only the walks that go
through it: `lookup_link` for a fresh empty table, `lookup_page` for a page.
-/

namespace Radix

inductive Slot (α β : Type) where
  | empty
  | table (t : α)
  | page (b : β)

variable {α β ι : Type}

/-- What slot `i` of table `t` holds when it is read as a table of the given level. -/
abbrev View (α β ι : Type) := Nat → α → ι → Slot α β

/-- The page at the end of a walk from table `t`, with the level it is found at. -/
def lookup (view : View α β ι) : Nat → α → (Nat → ι) → Option (Nat × β)
  | 0, t, path =>
    match view 0 t (path 0) with
    | .page b => some (0, b)
    | _ => none
  | l + 1, t, path =>
    match view (l + 1) t (path (l + 1)) with
    | .empty => none
    | .page b => some (l + 1, b)
    | .table t' => lookup view l t' path

inductive Reaches (view : View α β ι) (top : Nat) (root : α) (path : Nat → ι) : Nat → α → Prop where
  | root : Reaches view top root path top root
  | down {l : Nat} {t t' : α} : Reaches view top root path (l + 1) t →
      view (l + 1) t (path (l + 1)) = .table t' → Reaches view top root path l t'

/-- Each table is reached at one level and by one choice of indices above it. -/
def Unshared (view : View α β ι) (top : Nat) (root : α) : Prop :=
  ∀ {path path' l l' t}, Reaches view top root path l t → Reaches view top root path' l' t →
    l = l' ∧ ∀ j, l < j → j ≤ top → path j = path' j

variable {view view' : View α β ι} {top : Nat} {root t t' T F : α} {path path' p₀ : Nat → ι} {l l' L : Nat} {b : β}

theorem Reaches.le (reached : Reaches view top root path l t) : l ≤ top := by
  induction reached with
  | root => exact Nat.le_refl _
  | down _ _ ih => omega

theorem Reaches.unique (reached : Reaches view top root path l t) (other : Reaches view top root path l t') : t = t' := by
  induction reached generalizing t' with
  | root =>
    cases other with
    | root => rfl
    | down above _ =>
      have := above.le
      omega
  | down above entry ih =>
    cases other with
    | root =>
      have := above.le
      omega
    | down above' entry' =>
      rw [ih above', entry'] at entry
      cases entry
      rfl

theorem Reaches.agree (reached : Reaches view top root path l t) (same : ∀ j, l < j → j ≤ top → path j = path' j) :
    Reaches view top root path' l t := by
  induction reached with
  | root => exact .root
  | @down l t t' above entry ih =>
    refine .down (ih fun j low high => same j (by omega) high) ?_
    rw [← same (l + 1) (by omega) above.le]
    exact entry

theorem Reaches.up (reached : Reaches view top root path l t) (below : l < top) :
    ∃ t', Reaches view top root path (l + 1) t' ∧ view (l + 1) t' (path (l + 1)) = .table t := by
  cases reached with
  | root => omega
  | down above entry => exact ⟨_, above, entry⟩

theorem lookup_of_reaches (reached : Reaches view top root path l t) :
    lookup view top root path = lookup view l t path := by
  induction reached with
  | root => rfl
  | down _ entry ih => rw [ih, lookup, entry]

theorem Reaches.through (entry : view (l + 1) t (path (l + 1)) = .table t')
    {t'' : α} (reached : Reaches view l t' path l' t'') : Reaches view (l + 1) t path l' t'' := by
  induction reached with
  | root => exact .down .root entry
  | down _ entry' ih => exact .down ih entry'

theorem reaches_of_lookup (found : lookup view top root path = some (l, b)) :
    ∃ t, Reaches view top root path l t ∧ view l t (path l) = .page b := by
  induction top generalizing root with
  | zero =>
    rw [lookup] at found
    split at found
    · rename_i entry
      cases found
      exact ⟨root, .root, entry⟩
    · exact nomatch found
  | succ top ih =>
    rw [lookup] at found
    split at found
    · exact nomatch found
    · rename_i entry
      cases found
      exact ⟨root, .root, entry⟩
    · rename_i entry
      obtain ⟨t, walk, page⟩ := ih found
      exact ⟨t, walk.through entry, page⟩

/-! ### Views that agree along a walk -/

theorem Reaches.congr (reached : Reaches view top root path l t)
    (same : ∀ l' t', Reaches view top root path l' t' → l < l' → view' l' t' (path l') = view l' t' (path l')) :
    Reaches view' top root path l t := by
  induction reached with
  | root => exact .root
  | @down l t t' above entry ih =>
    refine .down (ih fun l' t' reached high => same l' t' reached (by omega)) ?_
    rw [same (l + 1) t above (by omega)]
    exact entry

theorem lookup_congr (same : ∀ l' t', Reaches view l t path l' t' → view' l' t' (path l') = view l' t' (path l')) :
    lookup view' l t path = lookup view l t path := by
  induction l generalizing t with
  | zero => rw [lookup, lookup, same 0 t .root]
  | succ l ih =>
    rw [lookup, lookup, same (l + 1) t .root]
    cases entry : view (l + 1) t (path (l + 1)) with
    | empty => rfl
    | page b => rfl
    | table t' => exact ih fun l' t'' reached => same l' t'' (reached.through entry)

theorem Reaches.of_frame (same : ∀ path l t i, Reaches view top root path l t → view' l t i = view l t i)
    (reached : Reaches view' top root path l t) : Reaches view top root path l t := by
  induction reached with
  | root => exact .root
  | down _ entry ih =>
    rw [same path _ _ _ ih] at entry
    exact ih.down entry

theorem Unshared.frame (unshared : Unshared view top root)
    (same : ∀ path l t i, Reaches view top root path l t → view' l t i = view l t i) : Unshared view' top root :=
  fun one two => unshared (one.of_frame same) (two.of_frame same)

/-! ### Changing one slot -/

/-- `view'` differs from `view` at slot `p₀ L` of `T` at most, as far as the walks of `view` can tell. -/
structure OneSlot (view view' : View α β ι) (top : Nat) (root : α) (p₀ : Nat → ι) (L : Nat) (T : α) : Prop where
  unshared : Unshared view top root
  reached : Reaches view top root p₀ L T
  same : ∀ path l t i, Reaches view top root path l t → (t = T → i ≠ p₀ L) → view' l t i = view l t i

namespace OneSlot

theorem keep (change : OneSlot view view' top root p₀ L T) (walk : Reaches view top root path l t) (above : L ≤ l) :
    Reaches view' top root path l t := by
  apply walk.congr
  intro l' t' walk' high
  apply change.same path l' t' _ walk'
  intro here
  subst here
  have := (change.unshared walk' change.reached).1
  omega

theorem walk_on (change : OneSlot view view' top root p₀ L T) (on : ∀ j, L ≤ j → j ≤ top → path j = p₀ j) :
    Reaches view' top root path L T ∧ Reaches view top root path L T ∧ path L = p₀ L := by
  have walk : Reaches view top root path L T := change.reached.agree fun j low high => (on j (by omega) high).symm
  exact ⟨change.keep walk (Nat.le_refl _), walk, on L (Nat.le_refl _) change.reached.le⟩

theorem lookup_off (change : OneSlot view view' top root p₀ L T) (off : ¬ ∀ j, L ≤ j → j ≤ top → path j = p₀ j) :
    lookup view' top root path = lookup view top root path := by
  apply lookup_congr
  intro l t walk
  apply change.same path l t _ walk
  intro here index
  subst here
  obtain ⟨level, agree⟩ := change.unshared walk change.reached
  subst level
  apply off
  intro j low high
  rcases Nat.eq_or_lt_of_le low with rfl | low
  · exact index
  · exact agree j low high

/-! A page in the slot cuts off what was below it. -/

theorem reaches_page (change : OneSlot view view' top root p₀ L T) (paged : view' L T (p₀ L) = .page b)
    (walk : Reaches view' top root path l t) : Reaches view top root path l t := by
  induction walk with
  | root => exact .root
  | @down l t t' _ entry ih =>
    by_cases here : t = T ∧ path (l + 1) = p₀ L
    · obtain ⟨rfl, index⟩ := here
      obtain ⟨level, _⟩ := change.unshared ih change.reached
      rw [index, level, paged] at entry
      exact nomatch entry
    · rw [change.same path _ _ _ ih fun table index => here ⟨table, index⟩] at entry
      exact ih.down entry

theorem unshared_page (change : OneSlot view view' top root p₀ L T) (paged : view' L T (p₀ L) = .page b) :
    Unshared view' top root :=
  fun one two => change.unshared (change.reaches_page paged one) (change.reaches_page paged two)

theorem lookup_page (change : OneSlot view view' top root p₀ L T) (paged : view' L T (p₀ L) = .page b)
    (on : ∀ j, L ≤ j → j ≤ top → path j = p₀ j) : lookup view' top root path = some (L, b) := by
  obtain ⟨walk, _, index⟩ := change.walk_on on
  rw [lookup_of_reaches walk]
  cases L with
  | zero => rw [lookup, index, paged]
  | succ L => rw [lookup, index, paged]

/-! A fresh empty table in the slot adds one walk and no page. -/

theorem reaches_link (change : OneSlot view view' top root p₀ (L + 1) T)
    (linked : view' (L + 1) T (p₀ (L + 1)) = .table F) : Reaches view' top root p₀ L F :=
  .down (change.keep change.reached (Nat.le_refl _)) linked

theorem reaches_of_link (change : OneSlot view view' top root p₀ (L + 1) T)
    (linked : view' (L + 1) T (p₀ (L + 1)) = .table F) (clear : ∀ l i, view' l F i = .empty)
    (walk : Reaches view' top root path l t) :
    Reaches view top root path l t ∨
      l = L ∧ t = F ∧ Reaches view top root path (L + 1) T ∧ path (L + 1) = p₀ (L + 1) := by
  induction walk with
  | root => exact Or.inl .root
  | @down l t t' _ entry ih =>
    rcases ih with old | ⟨_, rfl, _, _⟩
    · by_cases here : t = T ∧ path (l + 1) = p₀ (L + 1)
      · obtain ⟨rfl, index⟩ := here
        obtain ⟨level, _⟩ := change.unshared old change.reached
        have level : l = L := by omega
        subst level
        rw [index, linked] at entry
        cases entry
        exact Or.inr ⟨rfl, rfl, old, index⟩
      · rw [change.same path _ _ _ old fun table index => here ⟨table, index⟩] at entry
        exact Or.inl (old.down entry)
    · rw [clear] at entry
      exact nomatch entry

theorem unshared_link (change : OneSlot view view' top root p₀ (L + 1) T)
    (linked : view' (L + 1) T (p₀ (L + 1)) = .table F) (clear : ∀ l i, view' l F i = .empty)
    (fresh : ∀ path l, ¬ Reaches view top root path l F) : Unshared view' top root := by
  intro path path' l l' t one two
  rcases change.reaches_of_link linked clear one with old | ⟨rfl, rfl, above, index⟩
  · rcases change.reaches_of_link linked clear two with old' | ⟨_, rfl, _, _⟩
    · exact change.unshared old old'
    · exact absurd old (fresh path l)
  · rcases change.reaches_of_link linked clear two with old' | ⟨rfl, _, above', index'⟩
    · exact absurd old' (fresh path' l')
    · refine ⟨rfl, fun j low high => ?_⟩
      rcases Nat.eq_or_lt_of_le low with rfl | low
      · rw [index, index']
      · exact (change.unshared above above').2 j low high

theorem lookup_link (change : OneSlot view view' top root p₀ (L + 1) T)
    (vacant : view (L + 1) T (p₀ (L + 1)) = .empty) (linked : view' (L + 1) T (p₀ (L + 1)) = .table F)
    (clear : ∀ l i, view' l F i = .empty) : lookup view' top root path = lookup view top root path := by
  by_cases on : ∀ j, L + 1 ≤ j → j ≤ top → path j = p₀ j
  · obtain ⟨walk, walk', index⟩ := change.walk_on on
    rw [lookup_of_reaches walk, lookup_of_reaches walk', lookup, lookup, index, linked, vacant]
    cases L with
    | zero => simp only [lookup, clear]
    | succ L => simp only [lookup, clear]
  · exact change.lookup_off on

end OneSlot

end Radix
