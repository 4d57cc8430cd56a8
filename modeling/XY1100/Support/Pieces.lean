import Mathlib.Tactic

/-!
# Support — data in pieces

`pieces n l` cuts a list into pieces of `n` and a remainder.  `feed take s as` offers the elements of
a list to a taker, one after the other, until one is refused.

* `cutInto_pieces`: the pieces together are the list.
* `feed_eq_iff`: all are offered exactly when none but the last is refused.
-/

namespace Support

variable {α σ : Type*} {n : Nat}

/-! ### Pieces -/

/-- Pieces of `n` and a remainder, which together are the data. -/
structure CutInto (n : Nat) (ps : List (List α)) (l : List α) : Prop where
  flatten : ps.flatten = l
  length_eq : ∀ p ∈ ps.dropLast, p.length = n
  length_le : ∀ p ∈ ps, p ≠ [] ∧ p.length ≤ n

/-- The pieces of a list. -/
def pieces (n : Nat) (l : List α) : List (List α) :=
  if _h : n = 0 ∨ l = [] then [] else l.take n :: pieces n (l.drop n)
termination_by l.length
decreasing_by
  obtain ⟨hn, hl⟩ := not_or.mp ‹¬ (n = 0 ∨ l = [])›
  have hpos := List.length_pos_iff.mpr hl
  rw [List.length_drop]
  omega

@[simp] theorem pieces_nil (n : Nat) : pieces n ([] : List α) = [] := by
  rw [pieces, dif_pos (.inr rfl)]

theorem pieces_cons (hn : 0 < n) {l : List α} (hl : l ≠ []) :
    pieces n l = l.take n :: pieces n (l.drop n) := by
  rw [pieces, dif_neg (not_or.mpr ⟨hn.ne', hl⟩)]

/-- What is not longer than a piece is one. -/
theorem pieces_of_le (hn : 0 < n) {l : List α} (hl : l ≠ []) (hle : l.length ≤ n) :
    pieces n l = [l] := by
  rw [pieces_cons hn hl, List.take_of_length_le hle, List.drop_of_length_le hle, pieces_nil]

theorem cutInto_pieces (hn : 0 < n) (l : List α) : CutInto n (pieces n l) l := by
  induction h : l.length using Nat.strong_induction_on generalizing l with
  | _ k ih =>
      by_cases hl : l = []
      · rw [hl, pieces_nil]
        exact ⟨rfl, fun _ hp => absurd hp List.not_mem_nil, fun _ hp => absurd hp List.not_mem_nil⟩
      · have hpos := List.length_pos_iff.mpr hl
        have hlt : (l.drop n).length < k := by rw [List.length_drop]; omega
        have hrest := ih _ hlt (l.drop n) rfl
        have htake : l.take n ≠ [] := by
          rw [← List.length_pos_iff, List.length_take]
          omega
        rw [pieces_cons hn hl]
        refine ⟨?_, fun p hp => ?_, fun p hp => ?_⟩
        · rw [List.flatten_cons, hrest.flatten, List.take_append_drop]
        · by_cases hnil : l.drop n = []
          · rw [hnil, pieces_nil] at hp
            exact absurd hp List.not_mem_nil
          · have hne : pieces n (l.drop n) ≠ [] := by
              rw [pieces_cons hn hnil]
              exact List.cons_ne_nil _ _
            rw [List.dropLast_cons_of_ne_nil hne] at hp
            rcases List.mem_cons.mp hp with rfl | hp
            · rw [List.length_take]
              have hdrop := List.length_pos_iff.mpr hnil
              rw [List.length_drop] at hdrop
              omega
            · exact hrest.length_eq p hp
        · rcases List.mem_cons.mp hp with rfl | hp
          · exact ⟨htake, List.length_take_le n l⟩
          · exact hrest.length_le p hp

/-! ### Offering -/

/-- The elements offered, up to the first that is refused, and whether none was. -/
def feed (take : σ → α → Bool × σ) : σ → List α → List α × Bool
  | _, [] => ([], true)
  | s, a :: as =>
      if (take s a).1 then
        let r := feed take (take s a).2 as
        (a :: r.1, r.2)
      else ([a], false)

/-- None but the last is refused. -/
def TakesButLast (take : σ → α → Bool × σ) : σ → List α → Prop
  | _, [] => True
  | _, [_] => True
  | s, a :: b :: as => (take s a).1 = true ∧ TakesButLast take (take s a).2 (b :: as)

variable {take : σ → α → Bool × σ}

theorem feed_prefix (take : σ → α → Bool × σ) (s : σ) (as : List α) :
    (feed take s as).1 <+: as := by
  induction as generalizing s with
  | nil => exact List.prefix_rfl
  | cons a as ih =>
      rw [feed]
      by_cases h : (take s a).1 = true
      · rw [if_pos h]
        exact List.cons_prefix_cons.mpr ⟨rfl, ih _⟩
      · rw [if_neg h]
        exact List.cons_prefix_cons.mpr ⟨rfl, List.nil_prefix⟩

theorem feed_eq_iff (s : σ) (as : List α) :
    (feed take s as).1 = as ↔ TakesButLast take s as := by
  induction as generalizing s with
  | nil => exact iff_of_true rfl trivial
  | cons a as ih =>
      rw [feed]
      cases as with
      | nil =>
          refine iff_of_true ?_ trivial
          by_cases h : (take s a).1 = true
          · rw [if_pos h]
            rfl
          · rw [if_neg h]
      | cons b as =>
          rw [TakesButLast, ← ih]
          by_cases h : (take s a).1 = true
          · rw [if_pos h]
            simp only [List.cons.injEq, true_and, h]
          · rw [if_neg h]
            exact iff_of_false (fun heq => by cases heq) fun hno => h hno.1

/-- A part of pieces that together are the same data is all of them. -/
theorem prefix_eq_of_flatten {ps qs : List (List α)} (hp : ps <+: qs) (hne : ∀ q ∈ qs, q ≠ [])
    (h : ps.flatten = qs.flatten) : ps = qs := by
  obtain ⟨rest, rfl⟩ := hp
  rw [List.flatten_append, List.self_eq_append_right, List.flatten_eq_nil_iff] at h
  cases rest with
  | nil => rw [List.append_nil]
  | cons q rest =>
      exact absurd (h q List.mem_cons_self) (hne q (List.mem_append_right _ List.mem_cons_self))

end Support
