import Mathlib.Tactic

/-!
# Support — byte-addressed memory

A memory is a function from addresses to bytes (`Buf`).  `read` is the list of the bytes of a
range, `write` stores a list, `fill` stores one byte over a range, and `program` stores the
bitwise AND of a list with what is there, as a NOR flash does.  Words are little-endian.

The lemmas are the frame conditions of the stores, what a range holds after one, and how a
store over a concatenation splits.
-/

namespace Support

/-- What holds of the numbers below 256 holds of the bytes. -/
theorem forall_byte {P : UInt8 → Prop} (h : ∀ n < 256, P (UInt8.ofNat n)) (b : UInt8) : P b := by
  have hb := h b.toNat b.toNat_lt
  rwa [UInt8.ofNat_toNat] at hb

/-- The bytes of a half word change places. -/
theorem toNat_swapBytes (v : UInt16) :
    ((v &&& 0xff) <<< 8 ||| (v &&& 0xff00) >>> 8).toNat =
      v.toNat / 256 + 256 * (v.toNat % 256) := by
  have hv := v.toNat_lt
  have hlo : ((v &&& 0xff) <<< 8).toNat = (v.toNat % 256) <<< 8 := by
    rw [UInt16.toNat_shiftLeft, UInt16.toNat_and, show (0xff : UInt16).toNat = 2 ^ 8 - 1 from rfl,
      Nat.and_two_pow_sub_one_eq_mod, show (8 : UInt16).toNat % 16 = 8 from rfl, Nat.shiftLeft_eq]
    omega
  have hhi : ((v &&& 0xff00) >>> 8).toNat = v.toNat / 256 := by
    rw [UInt16.toNat_shiftRight, UInt16.toNat_and, show (8 : UInt16).toNat % 16 = 8 from rfl,
      Nat.shiftRight_and_distrib, show (0xff00 : UInt16).toNat >>> 8 = 2 ^ 8 - 1 from rfl,
      Nat.and_two_pow_sub_one_eq_mod, Nat.shiftRight_eq_div_pow]
    omega
  -- the two bytes do not overlap, so the disjunction is a sum
  rw [UInt16.toNat_or, hlo, hhi, ← Nat.shiftLeft_add_eq_or_of_lt (by omega), Nat.shiftLeft_eq]
  omega

/-- A byte-addressed memory. -/
abbrev Buf := Nat → UInt8

namespace Buf

/-- The `n` bytes from `a`. -/
def read (m : Buf) (a n : Nat) : List UInt8 := (List.range n).map fun i => m (a + i)

/-- `m` with `bs` stored from `a`. -/
def write (m : Buf) (a : Nat) (bs : List UInt8) : Buf := fun i =>
  if a ≤ i then (bs[i - a]?).getD (m i) else m i

/-- `m` with `n` bytes `v` from `a`. -/
def fill (m : Buf) (a n : Nat) (v : UInt8) : Buf := fun i => if a ≤ i ∧ i < a + n then v else m i

/-- `m` with `bs` programmed from `a`: a bit is cleared, never set. -/
def program (m : Buf) (a : Nat) (bs : List UInt8) : Buf := fun i =>
  if a ≤ i then ((bs[i - a]?).map (m i &&& ·)).getD (m i) else m i

/-- The little-endian word at `a`. -/
def word (m : Buf) (a : Nat) : UInt32 :=
  UInt32.ofNat ((m a).toNat + 256 * (m (a + 1)).toNat + 65536 * (m (a + 2)).toNat
    + 16777216 * (m (a + 3)).toNat)

/-- The four little-endian bytes of a word. -/
def ofWord (v : UInt32) : List UInt8 :=
  [UInt8.ofNat v.toNat, UInt8.ofNat (v.toNat / 256), UInt8.ofNat (v.toNat / 65536),
    UInt8.ofNat (v.toNat / 16777216)]

/-- `m` with the word `v` stored at `a`. -/
def putWord (m : Buf) (a : Nat) (v : UInt32) : Buf := m.write a (ofWord v)

/-- The little-endian half word at `a`. -/
def half (m : Buf) (a : Nat) : UInt16 := UInt16.ofNat ((m a).toNat + 256 * (m (a + 1)).toNat)

/-- `m` with the half word `v` stored at `a`. -/
def putHalf (m : Buf) (a : Nat) (v : UInt16) : Buf :=
  m.write a [UInt8.ofNat v.toNat, UInt8.ofNat (v.toNat / 256)]

/-- Two memories agree on `[a, a + n)`. -/
def Agree (m m' : Buf) (a n : Nat) : Prop := ∀ i, a ≤ i → i < a + n → m i = m' i

/-! ### Reading -/

@[simp] theorem length_read (m : Buf) (a n : Nat) : (m.read a n).length = n := by simp [read]

@[simp] theorem read_zero (m : Buf) (a : Nat) : m.read a 0 = [] := rfl

theorem getElem?_read {m : Buf} {a n i : Nat} (h : i < n) :
    (m.read a n)[i]? = some (m (a + i)) := by
  simp [read, h]

theorem read_congr {m m' : Buf} {a a' n : Nat} (h : ∀ i, i < n → m (a + i) = m' (a' + i)) :
    m.read a n = m'.read a' n := by
  refine List.map_congr_left fun i hi => h i (List.mem_range.mp hi)

theorem Agree.read {m m' : Buf} {a n b k : Nat} (h : Agree m m' a n) (h₁ : a ≤ b)
    (h₂ : b + k ≤ a + n) : m.read b k = m'.read b k :=
  read_congr fun i hi => h (b + i) (by omega) (by omega)

theorem read_add (m : Buf) (a n k : Nat) : m.read a (n + k) = m.read a n ++ m.read (a + n) k := by
  simp [read, List.range_add, Nat.add_assoc]

theorem take_read {m : Buf} {a n k : Nat} (h : k ≤ n) : (m.read a n).take k = m.read a k := by
  obtain ⟨j, rfl⟩ := Nat.exists_eq_add_of_le h
  rw [read_add, List.take_left' (length_read ..)]

theorem drop_read {m : Buf} {a n k : Nat} (h : k ≤ n) :
    (m.read a n).drop k = m.read (a + k) (n - k) := by
  obtain ⟨j, rfl⟩ := Nat.exists_eq_add_of_le h
  rw [read_add, List.drop_left' (length_read ..), Nat.add_sub_cancel_left]

/-- What is left of a range behind a prefix. -/
theorem read_of_append {m : Buf} {a n : Nat} {x t : List UInt8} (h : m.read a n = x ++ t) :
    m.read (a + (n - t.length)) t.length = t := by
  have hn : n = x.length + t.length := by rw [← length_read m a n, h, List.length_append]
  subst hn
  rw [read_add] at h
  rw [Nat.add_sub_cancel]
  exact (List.append_inj h (length_read ..)).2

/-- Equal ranges of bytes are equal byte by byte. -/
theorem read_eq_iff {m : Buf} {a : Nat} {bs : List UInt8} :
    m.read a bs.length = bs ↔ ∀ i (h : i < bs.length), m (a + i) = bs[i] := by
  constructor
  · intro h i hi
    have h' := getElem?_read (m := m) (a := a) hi
    rw [h, List.getElem?_eq_getElem hi] at h'
    exact (Option.some.inj h').symm
  · intro h
    refine List.ext_getElem (by simp) fun i h₁ h₂ => ?_
    simpa [read] using h i h₂

/-! ### Writing -/

/-- A store leaves what is outside its range. -/
theorem write_outside {m : Buf} {a i : Nat} {bs : List UInt8} (h : i < a ∨ a + bs.length ≤ i) :
    m.write a bs i = m i := by
  unfold write
  split
  · rw [List.getElem?_eq_none (by omega)]; rfl
  · rfl

theorem write_inside {m : Buf} {a i : Nat} {bs : List UInt8} (h : i < bs.length) :
    m.write a bs (a + i) = bs[i] := by
  simp [write, h]

@[simp] theorem write_nil (m : Buf) (a : Nat) : m.write a [] = m :=
  funext fun _ => write_outside (by simp; omega)

theorem read_write (m : Buf) (a : Nat) (bs : List UInt8) : (m.write a bs).read a bs.length = bs :=
  read_eq_iff.mpr fun _ h => write_inside h

/-- A store behind a range extends it. -/
theorem read_write_append (m : Buf) (a n : Nat) (bs : List UInt8) :
    (m.write (a + n) bs).read a (n + bs.length) = m.read a n ++ bs := by
  rw [read_add, read_write]
  congr 1
  exact read_congr fun i hi => write_outside (.inl (by omega))

/-- A copy of a range of another memory, byte by byte. -/
theorem write_read_inside {m f : Buf} {a c n i : Nat} (h : i < n) :
    m.write a (f.read c n) (a + i) = f (c + i) := by
  rw [write_inside (by simpa using h)]
  simp [read]

/-- Storing a concatenation is storing its halves one after the other. -/
theorem write_append (m : Buf) (a : Nat) (bs cs : List UInt8) :
    m.write a (bs ++ cs) = (m.write a bs).write (a + bs.length) cs := by
  funext i
  by_cases h₁ : i < a
  · rw [write_outside (.inl h₁), write_outside (.inl (by omega)), write_outside (.inl h₁)]
  by_cases h₂ : i < a + bs.length
  · obtain ⟨j, rfl⟩ := Nat.exists_eq_add_of_le (Nat.not_lt.mp h₁)
    have hj : j < bs.length := by omega
    rw [write_outside (.inl h₂), write_inside hj, write_inside (by simp; omega),
      List.getElem_append_left hj]
  · simp only [write, if_pos (Nat.not_lt.mp h₁), if_pos (Nat.not_lt.mp h₂)]
    rw [List.getElem?_append_right (by omega), List.getElem?_eq_none (l := bs) (by omega)]
    congr 2
    omega

/-- A store seen from an offset. -/
theorem write_shift (m : Buf) (c a k : Nat) (bs : List UInt8) :
    m.write (c + a) bs (c + k) = Buf.write (fun i => m (c + i)) a bs k := by
  simp only [write, Nat.add_le_add_iff_left, Nat.add_sub_add_left]

/-- Storing what is there changes nothing. -/
theorem write_read_self {m : Buf} {a : Nat} {bs : List UInt8} (h : m.read a bs.length = bs) :
    m.write a bs = m := by
  funext i
  by_cases hi : i < a ∨ a + bs.length ≤ i
  · exact write_outside hi
  · obtain ⟨j, rfl⟩ := Nat.exists_eq_add_of_le (show a ≤ i by omega)
    rw [write_inside (show j < bs.length by omega)]
    exact (read_eq_iff.mp h j (by omega)).symm

/-- Stores into memories that agree at a byte agree there. -/
theorem write_congr {m m' : Buf} {i : Nat} (h : m i = m' i) (a : Nat) (bs : List UInt8) :
    m.write a bs i = m'.write a bs i := by
  simp only [write, h]

/-- What a range holds inside a store that covers it. -/
theorem read_write_within {m : Buf} {a k n : Nat} {bs : List UInt8} (h : k + n ≤ bs.length) :
    (m.write a bs).read (a + k) n = (bs.drop k).take n := by
  refine List.ext_getElem (by simp; omega) fun i h₁ h₂ => ?_
  have hi : k + i < bs.length := by simp at h₁; omega
  simp only [read, List.getElem_map, List.getElem_range, List.getElem_take, List.getElem_drop]
  rw [Nat.add_assoc, write_inside hi]

/-! ### Filling and programming -/

theorem fill_outside {m : Buf} {a n i : Nat} {v : UInt8} (h : i < a ∨ a + n ≤ i) :
    m.fill a n v i = m i := if_neg (by omega)

theorem fill_inside {m : Buf} {a n i : Nat} {v : UInt8} (h₁ : a ≤ i) (h₂ : i < a + n) :
    m.fill a n v i = v := if_pos ⟨h₁, h₂⟩

theorem program_outside {m : Buf} {a i : Nat} {bs : List UInt8} (h : i < a ∨ a + bs.length ≤ i) :
    m.program a bs i = m i := by
  unfold program
  split
  · rw [List.getElem?_eq_none (by omega)]; rfl
  · rfl

theorem program_inside {m : Buf} {a i : Nat} {bs : List UInt8} (h : i < bs.length) :
    m.program a bs (a + i) = m (a + i) &&& bs[i] := by
  simp [program, h]

@[simp] theorem program_nil (m : Buf) (a : Nat) : m.program a [] = m :=
  funext fun _ => program_outside (by simp; omega)

theorem program_append (m : Buf) (a : Nat) (bs cs : List UInt8) :
    m.program a (bs ++ cs) = (m.program a bs).program (a + bs.length) cs := by
  funext i
  by_cases h₁ : i < a
  · rw [program_outside (.inl h₁), program_outside (.inl (by omega)), program_outside (.inl h₁)]
  by_cases h₂ : i < a + bs.length
  · obtain ⟨j, rfl⟩ := Nat.exists_eq_add_of_le (Nat.not_lt.mp h₁)
    have hj : j < bs.length := by omega
    rw [program_outside (.inl h₂), program_inside hj, program_inside (by simp; omega),
      List.getElem_append_left hj]
  · have hb : m.program a bs i = m i := program_outside (.inr (Nat.not_lt.mp h₂))
    simp only [program, if_pos (Nat.not_lt.mp h₁), if_pos (Nat.not_lt.mp h₂)] at hb ⊢
    rw [hb, List.getElem?_append_right (by omega), Nat.sub_sub]

/-- On erased bytes, programming is storing. -/
theorem program_eq_write {m : Buf} {a : Nat} {bs : List UInt8}
    (h : ∀ i, a ≤ i → i < a + bs.length → m i = 0xFF) : m.program a bs = m.write a bs := by
  funext i
  by_cases hi : i < a ∨ a + bs.length ≤ i
  · rw [program_outside hi, write_outside hi]
  · obtain ⟨j, rfl⟩ := Nat.exists_eq_add_of_le (show a ≤ i by omega)
    have hj : j < bs.length := by omega
    rw [program_inside hj, write_inside hj, h _ (by omega) (by omega)]
    exact UInt8.neg_one_and

/-! ### Words -/

theorem word_congr {m m' : Buf} {a a' : Nat} (h : ∀ i, i < 4 → m (a + i) = m' (a' + i)) :
    m.word a = m'.word a' := by
  have h₀ := h 0 (by omega)
  simp only [Nat.add_zero] at h₀
  simp only [word, h₀, h 1 (by omega), h 2 (by omega), h 3 (by omega)]

@[simp] theorem length_ofWord (v : UInt32) : (ofWord v).length = 4 := rfl

/-- A stored word is read back. -/
@[simp] theorem word_putWord (m : Buf) (a : Nat) (v : UInt32) : (m.putWord a v).word a = v := by
  have h : ∀ i (hi : i < 4), m.putWord a v (a + i) = (ofWord v)[i] := fun i hi => write_inside hi
  have h₀ := h 0 (by omega)
  simp only [Nat.add_zero] at h₀
  have hv := v.toNat_lt
  apply UInt32.toNat_inj.mp
  simp only [word, h₀, h 1 (by omega), h 2 (by omega), h 3 (by omega), ofWord,
    List.getElem_cons_zero, List.getElem_cons_succ, UInt32.toNat_ofNat', UInt8.toNat_ofNat']
  omega

theorem putWord_outside {m : Buf} {a i : Nat} {v : UInt32} (h : i < a ∨ a + 4 ≤ i) :
    m.putWord a v i = m i := write_outside h

/-- A word stored elsewhere leaves the word at `a`. -/
theorem word_putWord_ne {m : Buf} {a b : Nat} {v : UInt32} (h : a + 4 ≤ b ∨ b + 4 ≤ a) :
    (m.putWord b v).word a = m.word a :=
  word_congr fun i hi => putWord_outside (by omega)

/-! ### Half words -/

theorem toNat_half (m : Buf) (a : Nat) :
    (m.half a).toNat = (m a).toNat + 256 * (m (a + 1)).toNat := by
  have h₀ := (m a).toNat_lt
  have h₁ := (m (a + 1)).toNat_lt
  rw [half, UInt16.toNat_ofNat']
  omega

theorem half_congr {m m' : Buf} {a a' : Nat} (h₀ : m a = m' a') (h₁ : m (a + 1) = m' (a' + 1)) :
    m.half a = m'.half a' := by
  rw [half, half, h₀, h₁]

theorem half_putHalf (m : Buf) (a : Nat) (v : UInt16) : (m.putHalf a v).half a = v := by
  have hv := v.toNat_lt
  apply UInt16.toNat_inj.mp
  have h₀ : (m.putHalf a v) (a + 0) = UInt8.ofNat v.toNat := write_inside (by simp)
  have h₁ : (m.putHalf a v) (a + 1) = UInt8.ofNat (v.toNat / 256) := write_inside (by simp)
  rw [Nat.add_zero] at h₀
  rw [toNat_half, h₀, h₁, UInt8.toNat_ofNat', UInt8.toNat_ofNat']
  omega

theorem putHalf_outside {m : Buf} {a i : Nat} {v : UInt16} (h : i < a ∨ a + 2 ≤ i) :
    m.putHalf a v i = m i := write_outside h

theorem half_putHalf_ne {m : Buf} {a b : Nat} {v : UInt16} (h : b + 2 ≤ a ∨ a + 2 ≤ b) :
    (m.putHalf a v).half b = m.half b :=
  half_congr (putHalf_outside (by omega)) (putHalf_outside (by omega))

theorem half_write_outside {m : Buf} {a b : Nat} {bs : List UInt8}
    (h : b + 2 ≤ a ∨ a + bs.length ≤ b) : (m.write a bs).half b = m.half b :=
  half_congr (write_outside (by omega)) (write_outside (by omega))

theorem read_putHalf_ne {m : Buf} {a b n : Nat} {v : UInt16} (h : b + n ≤ a ∨ a + 2 ≤ b) :
    (m.putHalf a v).read b n = m.read b n :=
  read_congr fun i _ => putHalf_outside (by omega)

end Buf

end Support
