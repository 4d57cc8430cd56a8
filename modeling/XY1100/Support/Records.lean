import Mathlib.Tactic

/-!
# Support — streams of records

A record is written by `enc` and read back off the front of a stream by `read`, and the two are
each other's inverse on the items that satisfy `Ok` (`Delimited`).  `readWhile` reads records
until one cannot be read, as a parser's main loop does.

* `readWhile_spec`, `readWhile_iff`: the loop returns the only way to cut a stream into records
  and a rest no record starts.
-/

namespace Support

variable {α β : Type*}

/-- `read` reads the records `enc` writes, and nothing else. -/
structure Delimited (Ok : α → Prop) (enc : α → List β) (read : List β → Option (α × List β)) :
    Prop where
  read_iff : ∀ s a t, read s = some (a, t) ↔ Ok a ∧ s = enc a ++ t
  ne_nil : ∀ a, Ok a → enc a ≠ []

/-- Read records, at most `n`, until one cannot be read: the items and what is left. -/
def readWhile (read : List β → Option (α × List β)) : Nat → List β → List α × List β
  | 0, s => ([], s)
  | n + 1, s =>
    match read s with
    | none => ([], s)
    | some (a, t) => (a :: (readWhile read n t).1, (readWhile read n t).2)

section
variable {Ok : α → Prop} {enc : α → List β} {read : List β → Option (α × List β)}

theorem Delimited.read_append (h : Delimited Ok enc read) {a : α} (ha : Ok a) (t : List β) :
    read (enc a ++ t) = some (a, t) := (h.read_iff _ a t).mpr ⟨ha, rfl⟩

theorem Delimited.length_lt (h : Delimited Ok enc read) {s t : List β} {a : α}
    (hr : read s = some (a, t)) : t.length < s.length := by
  obtain ⟨ha, rfl⟩ := (h.read_iff _ _ _).mp hr
  have hpos := List.length_pos_iff.mpr (h.ne_nil a ha)
  rw [List.length_append]
  omega

/-- Nothing is read off the empty stream. -/
theorem Delimited.read_nil (h : Delimited Ok enc read) : read [] = none := by
  cases hr : read [] with
  | none => rfl
  | some p => exact absurd (h.length_lt (a := p.1) (t := p.2) hr) (by simp)

/-- What the loop returns is a way to cut the stream into records and a rest, and with as many
turns as the stream is long the rest starts no record. -/
theorem readWhile_spec (h : Delimited Ok enc read) {n : Nat} {s : List β} (hn : s.length ≤ n) :
    (∀ a ∈ (readWhile read n s).1, Ok a) ∧
      s = (readWhile read n s).1.flatMap enc ++ (readWhile read n s).2 ∧
      read (readWhile read n s).2 = none := by
  induction n generalizing s with
  | zero =>
    obtain rfl := List.length_eq_zero_iff.mp (Nat.le_zero.mp hn)
    simp [readWhile, h.read_nil]
  | succ n ih =>
    cases hr : read s with
    | none => simp [readWhile, hr]
    | some p =>
      obtain ⟨a, t⟩ := p
      obtain ⟨ha, hs⟩ := (h.read_iff _ _ _).mp hr
      obtain ⟨hok, hcut, hend⟩ := ih (s := t) (by have := h.length_lt hr; omega)
      simp only [readWhile, hr]
      refine ⟨?_, ?_, hend⟩
      · simpa using ⟨ha, fun b hb => hok b hb⟩
      · rw [hs, List.flatMap_cons, List.append_assoc, ← hcut]

/-- Records in front of a rest that starts no record are read as they are. -/
theorem readWhile_append (h : Delimited Ok enc read) {n : Nat} {as : List α} {t : List β}
    (hok : ∀ a ∈ as, Ok a) (ht : read t = none) (hn : as.length ≤ n) :
    readWhile read n (as.flatMap enc ++ t) = (as, t) := by
  induction as generalizing n with
  | nil =>
    cases n with
    | zero => rfl
    | succ n => simp [readWhile, ht]
  | cons a as ih =>
    obtain ⟨k, rfl⟩ : ∃ k, n = k + 1 := ⟨n - 1, by simp only [List.length_cons] at hn; omega⟩
    have ha := hok a List.mem_cons_self
    rw [List.flatMap_cons, List.append_assoc, readWhile, h.read_append ha]
    simp only
    rw [ih (fun b hb => hok b (List.mem_cons_of_mem _ hb)) (Nat.le_of_succ_le_succ hn)]

/-- A record takes at least one symbol. -/
theorem Delimited.length_le_flatMap (h : Delimited Ok enc read) {as : List α}
    (hok : ∀ a ∈ as, Ok a) : as.length ≤ (as.flatMap enc).length := by
  induction as with
  | nil => simp
  | cons a as ih =>
    have hpos := List.length_pos_iff.mpr (h.ne_nil a (hok a List.mem_cons_self))
    have := ih fun b hb => hok b (List.mem_cons_of_mem _ hb)
    rw [List.flatMap_cons, List.length_append, List.length_cons]
    omega

/-- The loop's result is the only way to cut the stream into records and a rest that starts no
record. -/
theorem readWhile_iff (h : Delimited Ok enc read) {s t : List β} {as : List α} :
    readWhile read s.length s = (as, t) ↔
      (∀ a ∈ as, Ok a) ∧ s = as.flatMap enc ++ t ∧ read t = none := by
  constructor
  · intro hr
    have hspec := readWhile_spec h (Nat.le_refl s.length)
    rwa [hr] at hspec
  · rintro ⟨hok, rfl, ht⟩
    refine readWhile_append h hok ht ?_
    have := h.length_le_flatMap hok
    rw [List.length_append]
    omega

end

end Support
