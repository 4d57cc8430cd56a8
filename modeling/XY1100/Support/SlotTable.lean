import Mathlib.Tactic

/-!
# Support — sets kept in slots

A table of `n` slots holds a set of at most `n` items: a slot is used or free, and the items of
the used ones are the set.  An item is looked for slot by slot, put into any free slot, and taken
out by marking its slot free.

* `find_isSome_iff`: the search finds the members.
* `contents_put`, `contents_drop`: what the two changes do to the set.
* `exists_free_iff`: there is a free slot as long as the set is not full.
* `Distinct.op_refines`: an operation on the table is the operation on the set.
-/

namespace Support

/-- Slots that are used or free, and what they hold. -/
structure Slots (α : Type*) where
  used : Nat → Bool
  item : Nat → α

namespace Slots

variable {α : Type*} [DecidableEq α]

/-- The items of the used slots among the first `n`. -/
def contents (s : Slots α) (n : Nat) : Finset α :=
  ((Finset.range n).filter fun i => s.used i = true).image s.item

/-- No item is in two slots. -/
def Distinct (s : Slots α) (n : Nat) : Prop :=
  ∀ i < n, ∀ j < n, s.used i = true → s.used j = true → s.item i = s.item j → i = j

/-- The first used slot that holds an item. -/
def find (s : Slots α) (n : Nat) (a : α) : Option Nat :=
  (List.range n).find? fun i => s.used i && decide (s.item i = a)

/-- Put an item into a slot. -/
def put (s : Slots α) (k : Nat) (a : α) : Slots α :=
  ⟨Function.update s.used k true, Function.update s.item k a⟩

/-- Free a slot. -/
def drop (s : Slots α) (k : Nat) : Slots α := { s with used := Function.update s.used k false }

theorem mem_contents {s : Slots α} {n : Nat} {a : α} :
    a ∈ s.contents n ↔ ∃ i < n, s.used i = true ∧ s.item i = a := by
  simp [contents, and_assoc]

theorem find_eq_some {s : Slots α} {n k : Nat} {a : α} (h : s.find n a = some k) :
    k < n ∧ s.used k = true ∧ s.item k = a := by
  have hp := List.find?_some h
  simp only [Bool.and_eq_true, decide_eq_true_eq] at hp
  exact ⟨List.mem_range.mp (List.mem_of_find?_eq_some h), hp⟩

theorem find_isSome_iff {s : Slots α} {n : Nat} {a : α} :
    (s.find n a).isSome ↔ a ∈ s.contents n := by
  simp [find, mem_contents, List.find?_isSome]

theorem find_eq_none_iff {s : Slots α} {n : Nat} {a : α} :
    s.find n a = none ↔ a ∉ s.contents n := by
  rw [← find_isSome_iff, Option.not_isSome_iff_eq_none]

/-- As many items are held as slots are used. -/
theorem Distinct.card_contents {s : Slots α} {n : Nat} (h : s.Distinct n) :
    (s.contents n).card = ((Finset.range n).filter fun i => s.used i = true).card := by
  refine Finset.card_image_of_injOn fun i hi j hj he => ?_
  simp only [Finset.coe_filter, Finset.mem_range, Set.mem_ofPred_eq] at hi hj
  exact h i hi.1 j hj.1 hi.2 hj.2 he

/-- There is a free slot as long as fewer items are held than there are slots. -/
theorem Distinct.exists_free_iff {s : Slots α} {n : Nat} (h : s.Distinct n) :
    (∃ i < n, s.used i = false) ↔ (s.contents n).card < n := by
  rw [h.card_contents]
  constructor
  · rintro ⟨i, hi, hfree⟩
    calc ((Finset.range n).filter fun i => s.used i = true).card
        < (Finset.range n).card := by
          refine Finset.card_lt_card (Finset.filter_ssubset.mpr ⟨i, Finset.mem_range.mpr hi, ?_⟩)
          simp [hfree]
      _ = n := Finset.card_range n
  · intro hlt
    by_contra hnone
    push Not at hnone
    refine absurd hlt (not_lt.mpr ?_)
    rw [Finset.filter_true_of_mem, Finset.card_range]
    intro i hi
    exact eq_true_of_ne_false (hnone i (Finset.mem_range.mp hi))

/-- An item put into a free slot joins the others. -/
theorem contents_put {s : Slots α} {n k : Nat} (a : α) (hk : k < n) (hfree : s.used k = false) :
    (s.put k a).contents n = insert a (s.contents n) := by
  ext b
  simp only [mem_contents, Finset.mem_insert, put]
  constructor
  · rintro ⟨i, hi, hu, he⟩
    by_cases hik : i = k
    · subst hik
      exact .inl (by simpa using he.symm)
    · rw [Function.update_of_ne hik] at hu he
      exact .inr ⟨i, hi, hu, he⟩
  · rintro (rfl | ⟨i, hi, hu, he⟩)
    · exact ⟨k, hk, by simp⟩
    · have hik : i ≠ k := fun h => by simp [← h, hu] at hfree
      exact ⟨i, hi, by rw [Function.update_of_ne hik]; exact hu,
        by rw [Function.update_of_ne hik]; exact he⟩

theorem Distinct.put {s : Slots α} {n k : Nat} {a : α} (h : s.Distinct n)
    (ha : a ∉ s.contents n) : (s.put k a).Distinct n := by
  intro i hi j hj hui huj he
  simp only [Slots.put] at hui huj he
  by_cases hik : i = k <;> by_cases hjk : j = k
  · rw [hik, hjk]
  · rw [hik, Function.update_self, Function.update_of_ne hjk] at he
    rw [Function.update_of_ne hjk] at huj
    exact absurd (mem_contents.mpr ⟨j, hj, huj, he.symm⟩) ha
  · rw [hjk, Function.update_self, Function.update_of_ne hik] at he
    rw [Function.update_of_ne hik] at hui
    exact absurd (mem_contents.mpr ⟨i, hi, hui, he⟩) ha
  · rw [Function.update_of_ne hik] at hui he
    rw [Function.update_of_ne hjk] at huj he
    exact h i hi j hj hui huj he

/-- A slot that is freed loses its item, and only it. -/
theorem contents_drop {s : Slots α} {n k : Nat} (h : s.Distinct n) (hk : k < n)
    (hused : s.used k = true) : (s.drop k).contents n = (s.contents n).erase (s.item k) := by
  ext b
  simp only [mem_contents, Finset.mem_erase, drop]
  constructor
  · rintro ⟨i, hi, hu, rfl⟩
    have hik : i ≠ k := fun e => by simp [e] at hu
    rw [Function.update_of_ne hik] at hu
    exact ⟨fun e => hik (h i hi k hk hu hused e), i, hi, hu, rfl⟩
  · rintro ⟨hne, i, hi, hu, rfl⟩
    have hik : i ≠ k := fun e => hne (by rw [e])
    exact ⟨i, hi, by rwa [Function.update_of_ne hik], rfl⟩

omit [DecidableEq α] in
theorem Distinct.drop {s : Slots α} {n : Nat} (h : s.Distinct n) (k : Nat) :
    (s.drop k).Distinct n := by
  intro i hi j hj hui huj he
  have used {i : Nat} (hu : (s.drop k).used i = true) : s.used i = true := by
    by_cases hik : i = k
    · simp [Slots.drop, hik] at hu
    · simpa [Slots.drop, hik] using hu
  exact h i hi j hj (used hui) (used huj) he

/-! ### Operations -/

/-- Put an item in, take it out, or look for it. -/
inductive SlotOp
  | set | clear | get

/-- An operation on the first `n` slots; a new item is put into the slot `free`. -/
def op (s : Slots α) (n : Nat) (free : Option Nat) (a : α) : SlotOp → Slots α × Bool
  | .get => (s, (s.find n a).isSome)
  | .clear =>
    match s.find n a with
    | some k => (s.drop k, true)
    | none => (s, false)
  | .set =>
    match s.find n a, free with
    | some _, _ => (s, true)
    | none, some k => (s.put k a, true)
    | none, none => (s, false)

/-- The operation on a set of at most `n` items. -/
def setOp (s : Finset α) (n : Nat) (a : α) : SlotOp → Finset α × Bool
  | .get => (s, decide (a ∈ s))
  | .clear => (s.erase a, decide (a ∈ s))
  | .set =>
    if a ∈ s then (s, true)
    else if s.card = n then (s, false)
    else (insert a s, true)

/-- The slot for a new item is a free one, if there is one. -/
structure Allocates (s : Slots α) (n : Nat) (free : Option Nat) : Prop where
  unused : ∀ k, free = some k → k < n ∧ s.used k = false
  full : free = none → ∀ i < n, s.used i = true

/-- An operation on the table is the operation on the set it holds. -/
theorem Distinct.op_refines {s : Slots α} {n : Nat} {free : Option Nat} (h : s.Distinct n)
    (hfree : s.Allocates n free) (a : α) (o : SlotOp) :
    (s.op n free a o).1.Distinct n ∧
      (s.op n free a o).1.contents n = (setOp (s.contents n) n a o).1 ∧
      (s.op n free a o).2 = (setOp (s.contents n) n a o).2 := by
  cases hfound : s.find n a with
  | some k =>
    obtain ⟨hk, hused, hitem⟩ := find_eq_some hfound
    have hin : a ∈ s.contents n := mem_contents.mpr ⟨k, hk, hused, hitem⟩
    cases o with
    | get => simpa [op, setOp, hfound, hin] using h
    | set => simpa [op, setOp, hfound, hin] using h
    | clear =>
      simp only [op, setOp, hfound, hin, decide_true, and_true]
      exact ⟨h.drop k, by rw [contents_drop h hk hused, hitem]⟩
  | none =>
    have hout := find_eq_none_iff.mp hfound
    cases o with
    | get => simpa [op, setOp, hfound, hout] using h
    | clear => simpa [op, setOp, hfound, hout, Finset.erase_eq_of_notMem hout] using h
    | set =>
      have hroom := h.exists_free_iff
      cases free with
      | some k =>
        obtain ⟨hk, hunused⟩ := hfree.unused k rfl
        have hlt := hroom.mp ⟨k, hk, hunused⟩
        simp only [op, setOp, hfound, if_neg hout, if_neg (Nat.ne_of_lt hlt), and_true]
        exact ⟨h.put hout, contents_put a hk hunused⟩
      | none =>
        have hle : (s.contents n).card ≤ n := by
          rw [h.card_contents]
          exact (Finset.card_filter_le _ _).trans (Finset.card_range _).le
        have hnone : ¬∃ i < n, s.used i = false := by
          rintro ⟨i, hi, hunused⟩
          exact absurd (hfree.full rfl i hi) (by simp [hunused])
        have hfull : (s.contents n).card = n := by
          have := mt hroom.mpr hnone
          omega
        simp only [op, setOp, hfound, if_neg hout, if_pos hfull, and_true]
        exact h

end Slots

end Support
