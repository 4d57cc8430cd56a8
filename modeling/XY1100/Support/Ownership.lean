import Mathlib.Data.List.Perm.Basic
import Mathlib.Data.List.Nodup
import Mathlib.Data.List.Range

/-!
# Support — what is allocated and freed

Allocations are numbered.  `Accounted held freed n` says that each of the first `n` is held by
someone, in one place, or was freed, once; so nothing is lost, and nothing freed twice.

`GivenOnce gives log` says of what was done with one allocation, in order, that the last thing, and no
other, gave it away.
-/

namespace Support

/-- Each of the `n` allocations is held or was freed, once. -/
def Accounted (held freed : List Nat) (n : Nat) : Prop := (held ++ freed).Perm (List.range n)

variable {held held' freed : List Nat} {n : Nat}

theorem accounted_nil : Accounted [] [] 0 := .refl _

namespace Accounted

/-- What is held changes hands. -/
theorem pass (h : Accounted held freed n) (hp : held'.Perm held) : Accounted held' freed n :=
  (hp.append_right freed).trans h

theorem alloc (h : Accounted held freed n) (hp : held'.Perm (n :: held)) :
    Accounted held' freed (n + 1) := by
  unfold Accounted
  rw [List.range_succ]
  refine (hp.append_right freed).trans ?_
  rw [List.cons_append]
  exact (h.cons n).trans (List.perm_append_singleton n _).symm

theorem free {i : Nat} (h : Accounted held freed n) (hp : held.Perm (i :: held')) :
    Accounted held' (i :: freed) n :=
  List.perm_middle.trans ((hp.symm.append_right freed).trans h)

/-- What is held no more, and was not freed, is lost. -/
theorem not_of_lost (h : Accounted held freed n) (hlt : held'.length < held.length) :
    ¬ Accounted held' freed n := by
  intro h'
  have hlen := h.length_eq.trans h'.length_eq.symm
  rw [List.length_append, List.length_append] at hlen
  omega

/-- **Exactly once**: when nothing is held, all that was allocated has been freed once. -/
theorem count_freed (h : Accounted [] freed n) {i : Nat} (hi : i < n) : freed.count i = 1 := by
  have hc := h.count_eq i
  rw [List.nil_append] at hc
  rw [hc]
  exact List.count_eq_one_of_mem List.nodup_range (List.mem_range.mpr hi)

end Accounted

/-! ### One allocation -/

/-- The last act of the log, and no other, gives the allocation away. -/
def GivenOnce {α : Type*} (gives : α → Prop) : List α → Prop
  | [] => False
  | a :: log => (gives a ∧ log = []) ∨ (¬ gives a ∧ GivenOnce gives log)

namespace GivenOnce
variable {α : Type*} {gives : α → Prop} {log log' : List α} {a : α}

theorem single (h : gives a) : GivenOnce gives [a] := .inl ⟨h, rfl⟩

/-- Uses first change nothing. -/
theorem append_iff (h : ∀ a ∈ log, ¬ gives a) :
    GivenOnce gives (log ++ log') ↔ GivenOnce gives log' := by
  induction log with
  | nil => exact Iff.rfl
  | cons a log ih =>
      have ha : ¬ gives a := h a List.mem_cons_self
      rw [← ih fun b hb => h b (List.mem_cons_of_mem _ hb)]
      exact ⟨fun hall => (hall.resolve_left fun hgive => ha hgive.1).2, fun hrest => .inr ⟨ha, hrest⟩⟩

/-- Uses only give nothing away. -/
theorem not_of_uses (h : ∀ a ∈ log, ¬ gives a) : ¬ GivenOnce gives log := by
  rw [← List.append_nil log, append_iff h]
  exact id

/-- What was given away is not used any more. -/
theorem not_append (h : GivenOnce gives log) (hne : log' ≠ []) :
    ¬ GivenOnce gives (log ++ log') := by
  induction log with
  | nil => exact h.elim
  | cons a log ih =>
      rcases h with ⟨ha, rfl⟩ | ⟨ha, hrest⟩
      · exact fun hall => hall.elim (fun hgive => hne hgive.2) (fun huse => huse.1 ha)
      · exact fun hall => hall.elim (fun hgive => ha hgive.1) (fun huse => ih hrest huse.2)

end GivenOnce
end Support
