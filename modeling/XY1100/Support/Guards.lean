import Mathlib.Data.List.Basic

/-!
# Support — tests in order

A condition of a program is often a row of tests, each of which reads a few places of a memory and
is made only when those before it hold.  A `Guard` is such a test.  `touched` is the list of the
places that a row of them reads.

* `passes_congr`: what a row of tests finds depends on no place it does not read.
-/

namespace Support

variable {α β : Type*}

/-- A test of a memory, with the places it reads. -/
structure Guard (α β : Type*) where
  reads : List α
  test : (α → β) → Bool
  congr : ∀ {m m' : α → β}, (∀ a ∈ reads, m a = m' a) → test m = test m'

/-- Every test of the row holds. -/
def Passes (gs : List (Guard α β)) (m : α → β) : Prop := ∀ g ∈ gs, g.test m = true

instance (gs : List (Guard α β)) (m : α → β) : Decidable (Passes gs m) :=
  inferInstanceAs (Decidable (∀ g ∈ gs, g.test m = true))

/-- The places read, up to the first test that fails. -/
def touched (m : α → β) : List (Guard α β) → List α
  | [] => []
  | g :: gs => g.reads ++ if g.test m then touched m gs else []

variable {gs gs' : List (Guard α β)} {g : Guard α β} {m m' : α → β} {P : α → Prop}

@[simp] theorem passes_nil : Passes [] m := fun _ h => absurd h List.not_mem_nil

@[simp] theorem passes_cons : Passes (g :: gs) m ↔ g.test m = true ∧ Passes gs m :=
  List.forall_mem_cons

@[simp] theorem passes_append : Passes (gs ++ gs') m ↔ Passes gs m ∧ Passes gs' m :=
  List.forall_mem_append

theorem touched_cons :
    touched m (g :: gs) = g.reads ++ if g.test m then touched m gs else [] := rfl

@[simp] theorem forall_touched_nil : (∀ a ∈ touched m [], P a) ↔ True :=
  iff_true_intro fun _ h => absurd h List.not_mem_nil

@[simp] theorem forall_touched_cons :
    (∀ a ∈ touched m (g :: gs), P a) ↔
      (∀ a ∈ g.reads, P a) ∧ (g.test m = true → ∀ a ∈ touched m gs, P a) := by
  rw [touched_cons, List.forall_mem_append]
  by_cases h : g.test m = true
  · rw [if_pos h]
    exact and_congr_right fun _ => ⟨fun hall _ => hall, fun hall => hall h⟩
  · rw [if_neg h]
    exact and_congr_right fun _ =>
      iff_of_true (fun _ hno => absurd hno List.not_mem_nil) fun hyes => absurd hyes h

theorem forall_touched_append :
    (∀ a ∈ touched m (gs ++ gs'), P a) ↔
      (∀ a ∈ touched m gs, P a) ∧ (Passes gs m → ∀ a ∈ touched m gs', P a) := by
  induction gs with
  | nil => simp
  | cons g gs ih =>
      rw [List.cons_append, forall_touched_cons, forall_touched_cons, ih, passes_cons]
      tauto

/-- Where every test holds, all of them are made. -/
theorem touched_of_passes (h : Passes gs m) : touched m gs = gs.flatMap Guard.reads := by
  induction gs with
  | nil => rfl
  | cons g gs ih =>
      obtain ⟨hg, hgs⟩ := passes_cons.mp h
      rw [touched_cons, if_pos hg, ih hgs, List.flatMap_cons]

/-- **Only what is touched counts.** -/
theorem passes_congr (h : ∀ a ∈ touched m gs, m a = m' a) : Passes gs m ↔ Passes gs m' := by
  induction gs with
  | nil => exact iff_of_true passes_nil passes_nil
  | cons g gs ih =>
      rw [forall_touched_cons] at h
      rw [passes_cons, passes_cons, ← g.congr h.1]
      exact and_congr_right fun hg => ih (h.2 hg)

end Support
