import Mathlib.Tactic

/-!
# Support — positions and the gaps between them

A list of items at positions is stored as the gaps between the positions, the first one from a
base.  Positions are numbers of any kind that cancel, machine words among them.

* `positions_gaps`, `gaps_positions`: the two are each other's inverse.
* `positions_insertGap`: putting an item into its gap is putting it into the sorted list.
* `positions_eraseGap`: an item that leaves its gap to the next is taken out of the list.
-/

namespace Support

variable {G α : Type*}

/-- The positions of items given by gaps. -/
def positions [Add G] (base : G) : List (G × α) → List (G × α)
  | [] => []
  | (d, a) :: ds => (base + d, a) :: positions (base + d) ds

/-- The gaps between items given by positions. -/
def gaps [Sub G] (base : G) : List (G × α) → List (G × α)
  | [] => []
  | (x, a) :: xs => (x - base, a) :: gaps x xs

/-- The last position of a list, the base for an empty one. -/
def lastPosition (base : G) : List (G × α) → G
  | [] => base
  | (x, _) :: xs => lastPosition x xs

/-- The last position of a list that ends in an item is the item's. -/
theorem lastPosition_append (base x : G) (xs : List (G × α)) (a : α) :
    lastPosition base (xs ++ [(x, a)]) = x := by
  induction xs generalizing base with
  | nil => rfl
  | cons y ys ih => exact ih y.1

section
variable [Add G]

@[simp] theorem positions_nil (base : G) : positions base ([] : List (G × α)) = [] := rfl

@[simp] theorem positions_cons (base d : G) (a : α) (ds : List (G × α)) :
    positions base ((d, a) :: ds) = (base + d, a) :: positions (base + d) ds := rfl

/-- Items keep their order. -/
@[simp] theorem map_snd_positions (base : G) (ds : List (G × α)) :
    (positions base ds).map Prod.snd = ds.map Prod.snd := by
  induction ds generalizing base with
  | nil => rfl
  | cons d ds ih => simp [positions, ih]

@[simp] theorem length_positions (base : G) (ds : List (G × α)) :
    (positions base ds).length = ds.length := by
  have h := congrArg List.length (map_snd_positions base ds)
  rwa [List.length_map, List.length_map] at h

end

section
variable [Sub G]

@[simp] theorem gaps_nil (base : G) : gaps base ([] : List (G × α)) = [] := rfl

@[simp] theorem gaps_cons (base x : G) (a : α) (xs : List (G × α)) :
    gaps base ((x, a) :: xs) = (x - base, a) :: gaps x xs := rfl

theorem gaps_append (base : G) (xs ys : List (G × α)) :
    gaps base (xs ++ ys) = gaps base xs ++ gaps (lastPosition base xs) ys := by
  induction xs generalizing base with
  | nil => rfl
  | cons x xs ih => rw [List.cons_append, gaps_cons, ih]; rfl

end

section
variable [Add G] [Sub G]

/-- Gaps lead back to the positions they were taken between. -/
theorem positions_gaps (h : ∀ a b : G, a + (b - a) = b) (base : G) (xs : List (G × α)) :
    positions base (gaps base xs) = xs := by
  induction xs generalizing base with
  | nil => rfl
  | cons x xs ih => simp [gaps, h, ih]

/-- The gaps between positions are those the positions were made of. -/
theorem gaps_positions (h : ∀ a b : G, a + b - a = b) (base : G) (ds : List (G × α)) :
    gaps base (positions base ds) = ds := by
  induction ds generalizing base with
  | nil => rfl
  | cons d ds ih => simp [positions, h, ih]

end

/-! ### Schedules

A list of items that are due one after the other, each after the one before it. -/

/-- Put an item in behind those that are due with it or before it. -/
def insertGap [Sub G] [LT G] [DecidableLT G] (d : G) (a : α) : List (G × α) → List (G × α)
  | [] => [(d, a)]
  | (e, b) :: ds => if d < e then (d, a) :: (e - d, b) :: ds else (e, b) :: insertGap (d - e) a ds

/-- Leave a gap to the next item. -/
def widen [Add G] (d : G) : List (G × α) → List (G × α)
  | [] => []
  | (e, b) :: ds => (e + d, b) :: ds

/-- Take out the first item with a property; its gap is left to the next. -/
def eraseGap [Add G] (p : α → Bool) : List (G × α) → List (G × α)
  | [] => []
  | (d, a) :: ds => if p a then widen d ds else (d, a) :: eraseGap p ds

section
variable [AddCommMonoid G] [LinearOrder G] [IsOrderedCancelAddMonoid G] [CanonicallyOrderedAdd G]
  [Sub G] [OrderedSub G]

theorem positions_insertGap (base d : G) (a : α) (ds : List (G × α)) :
    positions base (insertGap d a ds) =
      (positions base ds).orderedInsert (fun x y => x.1 < y.1) (base + d, a) := by
  induction ds generalizing base d with
  | nil => rfl
  | cons e ds ih =>
    obtain ⟨e, b⟩ := e
    rw [insertGap, positions_cons, List.orderedInsert_cons]
    simp only [add_lt_add_iff_left]
    split_ifs with h
    · simp only [positions_cons, add_assoc, add_tsub_cancel_of_le h.le]
    · rw [positions_cons, ih, add_assoc, add_tsub_cancel_of_le (not_lt.mp h)]

end

/-- Items given by gaps are sorted. -/
theorem positions_pairwise [AddCommMonoid G] [LinearOrder G] [CanonicallyOrderedAdd G] (base : G)
    (ds : List (G × α)) :
    (∀ x ∈ positions base ds, base ≤ x.1) ∧
      (positions base ds).Pairwise fun x y => x.1 ≤ y.1 := by
  induction ds generalizing base with
  | nil => simp
  | cons d ds ih =>
    obtain ⟨hge, hsorted⟩ := ih (base + d.1)
    have hle : base ≤ base + d.1 := le_self_add
    simp only [positions, List.mem_cons, forall_eq_or_imp, List.pairwise_cons]
    exact ⟨⟨hle, fun x hx => hle.trans (hge x hx)⟩, hge, hsorted⟩

/-- Whatever the order, the other items keep their positions. -/
theorem positions_insertGap_perm [AddCommGroup G] [LT G] [DecidableLT G] (base d : G) (a : α)
    (ds : List (G × α)) :
    (positions base (insertGap d a ds)).Perm ((base + d, a) :: positions base ds) := by
  induction ds generalizing base d with
  | nil => rfl
  | cons e ds ih =>
    rw [insertGap]
    split_ifs
    · simp only [positions_cons, add_assoc, add_sub_cancel]
      rfl
    · have h := ih (base + e.1) (d - e.1)
      simp only [add_assoc, add_sub_cancel] at h
      simp only [positions_cons]
      exact (h.cons _).trans (.swap ..)

/-- From a later base everything is later. -/
theorem mem_positions_shift [AddCommSemigroup G] {base x : G} {a : α} {ds : List (G × α)}
    (d : G) (h : (x, a) ∈ positions base ds) : (x + d, a) ∈ positions (base + d) ds := by
  induction ds generalizing base with
  | nil => cases h
  | cons e ds ih =>
    rw [positions, add_right_comm]
    rcases List.mem_cons.mp h with h | h
    · cases h
      exact List.mem_cons_self
    · exact List.mem_cons_of_mem _ (ih h)

section
variable [AddCommMonoid G]

theorem positions_widen (base d : G) (ds : List (G × α)) :
    positions base (widen d ds) = positions (base + d) ds := by
  cases ds with
  | nil => rfl
  | cons e ds => simp [widen, positions, add_assoc, add_comm e.1 d]

theorem positions_eraseGap (p : α → Bool) (base : G) (ds : List (G × α)) :
    positions base (eraseGap p ds) = (positions base ds).eraseP fun x => p x.2 := by
  induction ds generalizing base with
  | nil => rfl
  | cons d ds ih =>
    rw [eraseGap, positions, List.eraseP_cons]
    split_ifs with h
    · simp only [h, cond_true, positions_widen]
    · simp only [h, cond_false, positions_cons, ih]

end

end Support
