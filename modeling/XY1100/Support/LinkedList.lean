import Mathlib.Data.List.Nodup
import Mathlib.Logic.Function.Basic

/-!
# Support — singly linked lists in a memory

`Seg mem p l q`: from `p` the links lead through the nodes of `l`, each an address with its item,
to `q`.  A list is a segment to the null pointer (`Chain`), and its addresses are distinct where it
is to be changed: a node is put behind its last one, or taken out.
-/

namespace Support
variable {ι α : Type*}

/-- A node: its item and the node after it. -/
structure Node (ι α : Type*) where
  item : α
  next : Option ι
  deriving DecidableEq, Repr

/-- A segment of a list. -/
def Seg (mem : ι → Option (Node ι α)) (p : Option ι) : List (ι × α) → Option ι → Prop
  | [], q => p = q
  | (a, x) :: l, q => p = some a ∧ ∃ next, mem a = some ⟨x, next⟩ ∧ Seg mem next l q

/-- A list from `p` on. -/
def Chain (mem : ι → Option (Node ι α)) (p : Option ι) (l : List (ι × α)) : Prop := Seg mem p l none

variable {mem mem' : ι → Option (Node ι α)} {p q : Option ι} {l l' : List (ι × α)} {a b : ι}
  {x y : α}

theorem seg_append : Seg mem p (l ++ l') q ↔ ∃ r, Seg mem p l r ∧ Seg mem r l' q := by
  induction l generalizing p with
  | nil => exact ⟨fun h => ⟨p, rfl, h⟩, fun ⟨_, hr, h⟩ => hr ▸ h⟩
  | cons node l ih =>
    constructor
    · rintro ⟨hp, next, hmem, h⟩
      obtain ⟨r, hr, h⟩ := ih.mp h
      exact ⟨r, ⟨hp, next, hmem, hr⟩, h⟩
    · rintro ⟨r, ⟨hp, next, hmem, hr⟩, h⟩
      exact ⟨hp, next, hmem, ih.mpr ⟨r, hr, h⟩⟩

/-- A segment lies in the memory at its addresses. -/
theorem Seg.congr (h : Seg mem p l q) (heq : ∀ a ∈ l.map Prod.fst, mem' a = mem a) :
    Seg mem' p l q := by
  induction l generalizing p with
  | nil => exact h
  | cons node l ih =>
    obtain ⟨hp, next, hmem, h⟩ := h
    exact ⟨hp, next, (heq _ (List.mem_cons_self ..)).trans hmem,
      ih h fun a ha => heq a (List.mem_cons_of_mem _ ha)⟩

/-- The nodes of a segment are allocated. -/
theorem Seg.isSome (h : Seg mem p l q) (ha : a ∈ l.map Prod.fst) : (mem a).isSome := by
  induction l generalizing p with
  | nil => cases ha
  | cons node l ih =>
    obtain ⟨-, next, hmem, h⟩ := h
    rcases List.mem_cons.mp ha with rfl | ha
    · rw [hmem]
      rfl
    · exact ih h ha

theorem Seg.not_mem_of_none (h : Seg mem p l q) (ha : mem a = none) : a ∉ l.map Prod.fst := by
  intro hm
  have := h.isSome hm
  rw [ha] at this
  cases this

section Chain

theorem chain_none_iff : Chain mem none l ↔ l = [] := by
  cases l with
  | nil => exact ⟨fun _ => rfl, fun _ => rfl⟩
  | cons node l => exact ⟨fun h => absurd h.1 (fun h => by cases h), fun h => by cases h⟩

/-- The first node of a list that is not empty. -/
theorem Chain.some (h : Chain mem (some a) l) :
    ∃ x next rest, l = (a, x) :: rest ∧ mem a = Option.some ⟨x, next⟩ ∧ Chain mem next rest := by
  cases l with
  | nil => cases h
  | cons node l =>
    obtain ⟨hp, next, hmem, h⟩ := h
    obtain rfl := Option.some.inj hp
    exact ⟨_, next, l, rfl, hmem, h⟩

/-- The node at `a` and what comes after it. -/
theorem Chain.of_append (h : Chain mem p (l ++ (a, x) :: l')) :
    ∃ next, mem a = Option.some ⟨x, next⟩ ∧ Chain mem next l' := by
  obtain ⟨r, -, -, next, hmem, h⟩ := seg_append.mp h
  exact ⟨next, hmem, h⟩

variable [DecidableEq ι]

/-- **A node behind the last one.** -/
theorem Chain.push (h : Chain mem p (l ++ [(a, x)])) (hd : ((l ++ [(a, x)]).map Prod.fst).Nodup)
    (hb : mem b = Option.some ⟨y, none⟩) (hbl : b ∉ (l ++ [(a, x)]).map Prod.fst) :
    Chain (Function.update mem a (Option.some ⟨x, Option.some b⟩)) p
      (l ++ [(a, x)] ++ [(b, y)]) := by
  obtain ⟨r, hl, hr, next, hmem, -⟩ := seg_append.mp h
  rw [List.map_append, List.map_cons, List.map_nil] at hd hbl
  have hal : a ∉ l.map Prod.fst := fun ha =>
    (List.nodup_append.mp hd).2.2 a ha a (List.mem_singleton_self a) rfl
  have hba : b ≠ a := fun he => hbl (List.mem_append_right _ (he ▸ List.mem_singleton_self _))
  rw [List.append_assoc]
  refine seg_append.mpr ⟨r, hl.congr fun c hc => ?_, hr, Option.some b, Function.update_self ..,
    rfl, none, ?_, rfl⟩
  · exact Function.update_of_ne (fun he => hal (by rw [← he]; exact hc)) _ _
  · rw [Function.update_of_ne hba, hb]

/-- **The first node taken out** and freed. -/
theorem Chain.pop (h : Chain mem p ((a, x) :: l)) (hd : (((a, x) :: l).map Prod.fst).Nodup) :
    ∃ next, mem a = Option.some ⟨x, next⟩ ∧ Chain (Function.update mem a none) next l := by
  obtain ⟨-, next, hmem, h⟩ := h
  refine ⟨next, hmem, h.congr fun c hc => Function.update_of_ne (fun he => ?_) _ _⟩
  exact (List.nodup_cons.mp hd).1 (by rw [← he]; exact hc)

/-- **A later node taken out** and freed. -/
theorem Chain.unlink (h : Chain mem p (l ++ (a, x) :: (b, y) :: l'))
    (hd : ((l ++ (a, x) :: (b, y) :: l').map Prod.fst).Nodup) :
    ∃ next, mem b = Option.some ⟨y, next⟩ ∧
      Chain (Function.update (Function.update mem a (Option.some ⟨x, next⟩)) b none) p
        (l ++ (a, x) :: l') := by
  obtain ⟨r, hl, hr, next, hmem, hnext, next', hmem', h⟩ := seg_append.mp h
  rw [List.map_append, List.map_cons, List.map_cons] at hd
  obtain ⟨-, htail, hdisj⟩ := List.nodup_append.mp hd
  obtain ⟨ha, htail⟩ := List.nodup_cons.mp htail
  have hb := (List.nodup_cons.mp htail).1
  have hab : a ≠ b := fun he => ha (he ▸ List.mem_cons_self ..)
  have hout : ∀ c, c ≠ a → c ≠ b →
      Function.update (Function.update mem a (Option.some ⟨x, next'⟩)) b none c = mem c :=
    fun c hca hcb => by rw [Function.update_of_ne hcb, Function.update_of_ne hca]
  refine ⟨next', hmem', seg_append.mpr ⟨r, hl.congr fun c hc => hout c ?_ ?_, hr, next', ?_,
    h.congr fun c hc => hout c ?_ ?_⟩⟩
  · exact fun he => hdisj c hc a (List.mem_cons_self ..) he
  · exact fun he => hdisj c hc b (List.mem_cons_of_mem _ (List.mem_cons_self ..)) he
  · rw [Function.update_of_ne hab, Function.update_self]
  · exact fun he => ha (he ▸ List.mem_cons_of_mem _ hc)
  · exact fun he => hb (he ▸ hc)

end Chain

end Support
