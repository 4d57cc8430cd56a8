import Mathlib.Logic.Function.Basic
import Mathlib.Logic.Function.Iterate

/-!
# Support — folds that lose nothing

A fold by a step that can be undone in the state and in the element, as a checksum by a shift
register is: the result tells two lists apart that differ at one element.
-/

namespace Support
variable {σ α : Type*}

/-- A step that loses neither the state nor the element. -/
structure Cancels (f : σ → α → σ) : Prop where
  state : ∀ a, Function.Injective fun s => f s a
  elem : ∀ s, Function.Injective (f s)

namespace Cancels
variable {f : σ → α → σ} (h : Cancels f)
include h

theorem foldl_injective (l : List α) : Function.Injective fun s => l.foldl f s := by
  induction l with
  | nil => exact Function.injective_id
  | cons a l ih => exact ih.comp (h.state a)

/-- **A changed element shows in the result.** -/
theorem foldl_append_cons_inj (s : σ) (l l' : List α) {a b : α} :
    (l ++ a :: l').foldl f s = (l ++ b :: l').foldl f s ↔ a = b := by
  rw [List.foldl_append, List.foldl_append]
  exact ⟨fun heq => h.elem _ (h.foldl_injective l' heq), fun hab => by rw [hab]⟩

end Cancels

/-- A step that takes the element in and then stirs the state. -/
theorem Cancels.of_injective {g : σ → σ} {f : σ → α → σ} (hf : Cancels f)
    (hg : Function.Injective g) (n : Nat) : Cancels fun s a => g^[n] (f s a) where
  state a := (hg.iterate n).comp (hf.state a)
  elem s := (hg.iterate n).comp (hf.elem s)

end Support
