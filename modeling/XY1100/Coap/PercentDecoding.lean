import XY1100.Support.Int32
import XY1100.Utils.HexCodec

/-!
# Coap — a whole segment percent-decoded

`check_segment` and `decode_segment` on a segment with nothing readable behind it, against the
percent-decoding of its bytes.

* `segment_right_iff`: both are right exactly when the segment does not end in a `%` and one
  digit, where the check reads the second digit behind the segment, and is not too long for an
  `int` when decoded.
-/

namespace XY1100.Coap
open Support Utils

/-! ### Percent-decoding -/

/-- The value of a hexadecimal digit. -/
def hexValue (c : UInt8) : Option Nat :=
  if 48 ≤ c ∧ c ≤ 57 then some (c.toNat - 48)
  else if 65 ≤ c ∧ c ≤ 70 then some (c.toNat - 55)
  else if 97 ≤ c ∧ c ≤ 102 then some (c.toNat - 87)
  else none

/-- The decoded bytes, `none` where a `%` is not followed by two digits. -/
def percentDecode : List UInt8 → Option (List UInt8)
  | [] => some []
  | c :: s =>
    if c = percent then
      match s with
      | h :: l :: s => do
        let hi ← hexValue h
        let lo ← hexValue l
        return UInt8.ofNat (16 * hi + lo) :: (← percentDecode s)
      | _ => none
    else (percentDecode s).map (c :: ·)

/-- The decoding comes to a `%` and one digit at the end of the segment. -/
inductive EndsShort : List UInt8 → Prop
  | here {h : UInt8} (hh : IsHex h) : EndsShort [percent, h]
  | plain {c : UInt8} {s : List UInt8} (hc : c ≠ percent) (hs : EndsShort s) : EndsShort (c :: s)
  | escape {h l : UInt8} {s : List UInt8} (hh : IsHex h) (hl : IsHex l) (hs : EndsShort s) :
      EndsShort (percent :: h :: l :: s)

/-- A segment with a length for a `size_t`. -/
abbrev Segment := {s : List UInt8 // s.length < 2 ^ 32}

/-- What `check_segment` returns, the length as an `int`. -/
def checkSegmentInt (s : List UInt8) (length : UInt32) : Except CoapFault Int :=
  (checkSegment s length).map fun
    | none => -1
    | some n => (UInt32.ofNat n).toInt32.toInt

/-- The check returns the length of the decoded segment or -1, and if it is a segment to decode it
is decoded; nothing is read behind it. -/
def SegmentRight (s : Segment) : Prop :=
  (∃ r, checkSegmentInt s.1 (UInt32.ofNat s.1.length) = .ok r ∧
    match percentDecode s.1 with
    | none => r = -1
    | some bytes => r = bytes.length) ∧
  ∀ bytes, percentDecode s.1 = some bytes →
    decodeSegment s.1 (UInt32.ofNat s.1.length) = .ok bytes

/-! ### Digits -/

theorem isxdigit_iff (c : UInt8) : isxdigit c = true ↔ IsHex c := decide_eq_true_iff

theorem hexValue_eq_none_iff (c : UInt8) : hexValue c = none ↔ ¬ IsHex c := by
  unfold hexValue IsHex
  split_ifs <;> simp_all

set_option maxRecDepth 4000 in
theorem hexcharToDec_spec (c : UInt8) :
    ∀ v, hexValue c = some v → v < 16 ∧ hexcharToDec c = UInt8.ofNat v := by
  have hall : ∀ n < 256, ∀ v ∈ hexValue (UInt8.ofNat n),
      v < 16 ∧ hexcharToDec (UInt8.ofNat n) = UInt8.ofNat v := by decide
  exact forall_byte (P := fun c => ∀ v ∈ hexValue c, v < 16 ∧ hexcharToDec c = UInt8.ofNat v)
    hall c

/-- The byte of two digits. -/
theorem hexcharToDec_pair {h l : UInt8} {hi lo : Nat} (hh : hexValue h = some hi)
    (hl : hexValue l = some lo) :
    (hexcharToDec h <<< 4) + hexcharToDec l = UInt8.ofNat (16 * hi + lo) := by
  obtain ⟨hhi, hdech⟩ := hexcharToDec_spec h hi hh
  obtain ⟨hlo, hdecl⟩ := hexcharToDec_spec l lo hl
  have hall : ∀ m < 16, ∀ n < 16,
      (UInt8.ofNat m <<< 4) + UInt8.ofNat n = UInt8.ofNat (16 * m + n) := by decide
  rw [hdech, hdecl]
  exact hall hi hhi lo hlo

theorem exists_hexValue {c : UInt8} (h : IsHex c) : ∃ v, hexValue c = some v := by
  by_contra hno
  refine (hexValue_eq_none_iff c).mp ?_ h
  exact Option.eq_none_iff_forall_not_mem.mpr fun v hv => hno ⟨v, hv⟩

/-! ### One character, or one escape -/

theorem percentDecode_plain {c : UInt8} (hc : c ≠ percent) (s : List UInt8) :
    percentDecode (c :: s) = (percentDecode s).map (c :: ·) := by
  rw [percentDecode.eq_def]
  simp only [if_neg hc]

theorem percentDecode_escape (h l : UInt8) (s : List UInt8) :
    percentDecode (percent :: h :: l :: s) = (do
      let hi ← hexValue h
      let lo ← hexValue l
      return UInt8.ofNat (16 * hi + lo) :: (← percentDecode s)) := by
  rw [percentDecode.eq_def]
  simp only [if_true]

theorem percentDecode_short {s : List UInt8} (hs : s.length < 2) :
    percentDecode (percent :: s) = none := by
  match s with
  | [] | [_] =>
    rw [percentDecode.eq_def]
    simp only [if_true]
  | _ :: _ :: s => simp at hs

theorem endsShort_plain_iff {c : UInt8} (hc : c ≠ percent) (s : List UInt8) :
    EndsShort (c :: s) ↔ EndsShort s := by
  refine ⟨fun h => ?_, .plain hc⟩
  cases h with
  | here => exact absurd rfl hc
  | plain _ hs => exact hs
  | escape => exact absurd rfl hc

theorem endsShort_single_iff (h : UInt8) : EndsShort [percent, h] ↔ IsHex h := by
  refine ⟨fun hend => ?_, .here⟩
  cases hend with
  | here hh => exact hh
  | plain hc => exact absurd rfl hc

theorem endsShort_escape_iff (h l : UInt8) (s : List UInt8) :
    EndsShort (percent :: h :: l :: s) ↔ IsHex h ∧ IsHex l ∧ EndsShort s := by
  refine ⟨fun hend => ?_, fun ⟨hh, hl, hs⟩ => .escape hh hl hs⟩
  cases hend with
  | plain hc => exact absurd rfl hc
  | escape hh hl hs => exact ⟨hh, hl, hs⟩

theorem not_endsShort_percent : ¬ EndsShort [percent] := by
  intro h
  cases h with
  | plain hc => exact hc rfl

theorem ofNat_length_ne_zero {c : UInt8} {s : List UInt8} (hlt : (c :: s).length < 2 ^ 32) :
    UInt32.ofNat (c :: s).length ≠ 0 := by
  intro h
  have hnat := congrArg UInt32.toNat h
  rw [UInt32.toNat_ofNat', Nat.mod_eq_of_lt hlt] at hnat
  exact absurd hnat (Nat.succ_ne_zero _)

/-- A round takes the characters it has read off the length. -/
theorem ofNat_length_sub (n k : Nat) : UInt32.ofNat (n + k) - UInt32.ofNat k = UInt32.ofNat n := by
  rw [UInt32.ofNat_add]
  exact UInt32.add_sub_cancel _ _

theorem checkSegment_plain {c : UInt8} {s : List UInt8} (hc : c ≠ percent)
    (hlt : (c :: s).length < 2 ^ 32) :
    checkSegment (c :: s) (UInt32.ofNat (c :: s).length) =
      (checkSegment s (UInt32.ofNat s.length)).map (·.map (· + 1)) := by
  have hsub : UInt32.ofNat (c :: s).length - 1 = UInt32.ofNat s.length := ofNat_length_sub _ 1
  rw [checkSegment.eq_def]
  simp only [if_neg (ofNat_length_ne_zero hlt), if_neg hc, hsub]

theorem decodeSegment_plain {c : UInt8} {s : List UInt8} (hc : c ≠ percent)
    (hlt : (c :: s).length < 2 ^ 32) :
    decodeSegment (c :: s) (UInt32.ofNat (c :: s).length) =
      (decodeSegment s (UInt32.ofNat s.length)).map (c :: ·) := by
  have hsub : UInt32.ofNat (c :: s).length - 1 = UInt32.ofNat s.length := ofNat_length_sub _ 1
  rw [decodeSegment.eq_def]
  simp only [if_neg (ofNat_length_ne_zero hlt), if_neg hc, hsub]

/-- The check lets a length of two through. -/
theorem not_ofNat_length_lt_two {c h : UInt8} {s : List UInt8}
    (hlt : (c :: h :: s).length < 2 ^ 32) : ¬ UInt32.ofNat (c :: h :: s).length < 2 := by
  -- a length of two passes, though the escape needs three characters
  rw [UInt32.lt_iff_toNat_lt, UInt32.toNat_ofNat', Nat.mod_eq_of_lt hlt]
  simp

theorem checkSegment_escape {h l : UInt8} {s : List UInt8} (hh : IsHex h) (hl : IsHex l)
    (hlt : (percent :: h :: l :: s).length < 2 ^ 32) :
    checkSegment (percent :: h :: l :: s) (UInt32.ofNat (percent :: h :: l :: s).length) =
      (checkSegment s (UInt32.ofNat s.length)).map (·.map (· + 1)) := by
  have hsub : UInt32.ofNat (percent :: h :: l :: s).length - 2 - 1 = UInt32.ofNat s.length := by
    have htwo : UInt32.ofNat (percent :: h :: l :: s).length - 2 = UInt32.ofNat (l :: s).length :=
      ofNat_length_sub _ 2
    rw [htwo]
    exact ofNat_length_sub _ 1
  rw [checkSegment.eq_def]
  simp only [if_neg (ofNat_length_ne_zero hlt), if_neg (not_ofNat_length_lt_two hlt), if_true,
    (isxdigit_iff h).2 hh, (isxdigit_iff l).2 hl, not_true, if_false, hsub]

theorem decodeSegment_escape {h l : UInt8} {s : List UInt8}
    (hlt : (percent :: h :: l :: s).length < 2 ^ 32) :
    decodeSegment (percent :: h :: l :: s) (UInt32.ofNat (percent :: h :: l :: s).length) =
      (decodeSegment s (UInt32.ofNat s.length)).map
        (((hexcharToDec h <<< 4) + hexcharToDec l) :: ·) := by
  have hsub : UInt32.ofNat (percent :: h :: l :: s).length - 1 - 2 = UInt32.ofNat s.length := by
    have hone : UInt32.ofNat (percent :: h :: l :: s).length - 1 =
        UInt32.ofNat (h :: l :: s).length := ofNat_length_sub _ 1
    rw [hone]
    exact ofNat_length_sub _ 2
  rw [decodeSegment.eq_def]
  simp only [if_neg (ofNat_length_ne_zero hlt), if_true, hsub]

/-- An escape is turned down at the first character that is no digit, before the next is read. -/
theorem checkSegment_bad_high {h : UInt8} {s : List UInt8} (hh : ¬ IsHex h)
    (hlt : (percent :: h :: s).length < 2 ^ 32) :
    checkSegment (percent :: h :: s) (UInt32.ofNat (percent :: h :: s).length) = .ok none := by
  rw [checkSegment.eq_def]
  simp only [if_neg (ofNat_length_ne_zero hlt), if_neg (not_ofNat_length_lt_two hlt), if_true,
    mt (isxdigit_iff h).1 hh, Bool.false_eq_true, not_false_eq_true]

theorem checkSegment_bad_low {h l : UInt8} {s : List UInt8} (hh : IsHex h) (hl : ¬ IsHex l)
    (hlt : (percent :: h :: l :: s).length < 2 ^ 32) :
    checkSegment (percent :: h :: l :: s) (UInt32.ofNat (percent :: h :: l :: s).length) =
      .ok none := by
  rw [checkSegment.eq_def]
  simp only [if_neg (ofNat_length_ne_zero hlt), if_neg (not_ofNat_length_lt_two hlt), if_true,
    (isxdigit_iff h).2 hh, mt (isxdigit_iff l).1 hl, Bool.false_eq_true, not_true,
    not_false_eq_true, if_false]

theorem checkSegment_single {h : UInt8} (hh : IsHex h) :
    checkSegment [percent, h] (UInt32.ofNat [percent, h].length) = .error .outOfBounds := by
  rw [checkSegment.eq_def]
  have hlt : [percent, h].length < 2 ^ 32 := by simp
  simp only [if_neg (ofNat_length_ne_zero hlt), if_neg (not_ofNat_length_lt_two hlt), if_true,
    (isxdigit_iff h).2 hh, not_true, if_false]

/-! ### The whole segment -/

theorem checkSegment_percent :
    checkSegment [percent] (UInt32.ofNat [percent].length) = .ok none := by
  decide

/-- The check runs off the end of a segment that ends short, and otherwise counts the bytes of its
decoding. -/
theorem checkSegment_cases : ∀ s : List UInt8, s.length < 2 ^ 32 →
    (EndsShort s ∧ checkSegment s (UInt32.ofNat s.length) = .error .outOfBounds) ∨
    (¬ EndsShort s ∧
      checkSegment s (UInt32.ofNat s.length) = .ok ((percentDecode s).map List.length))
  | [], _ => Or.inr ⟨nofun, rfl⟩
  | c :: s, hlt => by
    have hlt' : s.length < 2 ^ 32 := Nat.lt_of_succ_lt hlt
    by_cases hc : c = percent
    · subst hc
      match s with
      | [] =>
        rw [checkSegment_percent, percentDecode_short (by decide)]
        exact Or.inr ⟨not_endsShort_percent, rfl⟩
      | [h] =>
        rw [endsShort_single_iff, percentDecode_short (by simp)]
        by_cases hh : IsHex h
        · exact Or.inl ⟨hh, checkSegment_single hh⟩
        · exact Or.inr ⟨hh, checkSegment_bad_high hh hlt⟩
      | h :: l :: s =>
        rw [endsShort_escape_iff, percentDecode_escape]
        by_cases hh : IsHex h
        · obtain ⟨hi, hhi⟩ := exists_hexValue hh
          by_cases hl : IsHex l
          · obtain ⟨lo, hlo⟩ := exists_hexValue hl
            rw [checkSegment_escape hh hl hlt, hhi, hlo]
            rcases checkSegment_cases s (by simp at hlt; omega) with ⟨hend, hrun⟩ | ⟨hend, hrun⟩
            · rw [hrun]
              exact Or.inl ⟨⟨hh, hl, hend⟩, rfl⟩
            · rw [hrun]
              refine Or.inr ⟨fun h' => hend h'.2.2, ?_⟩
              cases percentDecode s <;> rfl
          · rw [checkSegment_bad_low hh hl hlt, (hexValue_eq_none_iff l).2 hl, hhi]
            exact Or.inr ⟨fun h' => hl h'.2.1, rfl⟩
        · rw [checkSegment_bad_high hh hlt, (hexValue_eq_none_iff h).2 hh]
          exact Or.inr ⟨fun h' => hh h'.1, rfl⟩
    · rw [endsShort_plain_iff hc, checkSegment_plain hc hlt, percentDecode_plain hc]
      rcases checkSegment_cases s hlt' with ⟨hend, hrun⟩ | ⟨hend, hrun⟩
      · rw [hrun]
        exact Or.inl ⟨hend, rfl⟩
      · rw [hrun]
        refine Or.inr ⟨hend, ?_⟩
        cases percentDecode s <;> rfl

/-- The segments that have a decoding, by what they begin with. -/
theorem percentDecode_induction {P : List UInt8 → List UInt8 → Prop} (nil : P [] [])
    (plain : ∀ c s bytes, c ≠ percent → P s bytes → P (c :: s) (c :: bytes))
    (escape : ∀ h l hi lo s bytes, hexValue h = some hi → hexValue l = some lo → P s bytes →
      P (percent :: h :: l :: s) (UInt8.ofNat (16 * hi + lo) :: bytes)) :
    ∀ s bytes, percentDecode s = some bytes → P s bytes
  | [], _, hdec => by
    cases hdec
    exact nil
  | c :: s, bytes, hdec => by
    by_cases hc : c = percent
    · subst hc
      match s with
      | [] | [_] =>
        rw [percentDecode_short (by simp)] at hdec
        nomatch hdec
      | h :: l :: s =>
        rw [percentDecode_escape] at hdec
        simp only [bind, Option.bind_eq_some_iff, pure, Option.some.injEq] at hdec
        obtain ⟨hi, hhi, lo, hlo, rest, hrest, rfl⟩ := hdec
        exact escape h l hi lo s rest hhi hlo
          (percentDecode_induction nil plain escape s rest hrest)
    · rw [percentDecode_plain hc, Option.map_eq_some_iff] at hdec
      obtain ⟨rest, hrest, rfl⟩ := hdec
      exact plain c s rest hc (percentDecode_induction nil plain escape s rest hrest)

/-- A segment to decode is decoded, inside it. -/
theorem decodeSegment_eq : ∀ (s bytes : List UInt8), percentDecode s = some bytes →
    s.length < 2 ^ 32 → decodeSegment s (UInt32.ofNat s.length) = .ok bytes := by
  refine percentDecode_induction (fun _ => rfl) ?_ ?_
  · intro c s bytes hc ih hlt
    rw [decodeSegment_plain hc hlt, ih (Nat.lt_of_succ_lt hlt)]
    rfl
  · intro h l hi lo s bytes hhi hlo ih hlt
    have hlt' : s.length < 2 ^ 32 := Nat.lt_of_succ_lt (Nat.lt_of_succ_lt (Nat.lt_of_succ_lt hlt))
    rw [decodeSegment_escape hlt, ih hlt', hexcharToDec_pair hhi hlo]
    rfl

theorem length_percentDecode_le : ∀ s bytes : List UInt8, percentDecode s = some bytes →
    bytes.length ≤ s.length := by
  refine percentDecode_induction (Nat.le_refl _) ?_ ?_
  · intro c s bytes _ ih
    exact Nat.succ_le_succ ih
  · intro h l hi lo s bytes _ _ ih
    simp only [List.length_cons]
    omega

/-- A length comes through an `int` exactly if it fits. -/
theorem toInt32_ofNat_eq_iff {n : Nat} (h : n < 2 ^ 32) :
    (UInt32.ofNat n).toInt32.toInt = n ↔ n < 2 ^ 31 := by
  have hnat : (UInt32.ofNat n).toNat = n := by rw [UInt32.toNat_ofNat', Nat.mod_eq_of_lt h]
  constructor
  · intro heq
    -- no `int` reaches `2 ^ 31`
    have hlt := (UInt32.ofNat n).toInt32.toInt_lt
    omega
  · intro hlt
    rw [toInt_toInt32 (by omega), hnat]

/-- A segment is checked and decoded right exactly if it does not end short and its decoding fits
an `int`. -/
theorem segment_right_iff (s : Segment) :
    SegmentRight s ↔
      ¬ EndsShort s.1 ∧ ∀ bytes, percentDecode s.1 = some bytes → bytes.length < 2 ^ 31 := by
  obtain ⟨s, hlt⟩ := s
  have hdecode : ∀ bytes, percentDecode s = some bytes →
      decodeSegment s (UInt32.ofNat s.length) = .ok bytes :=
    fun bytes hdec => decodeSegment_eq s bytes hdec hlt
  rw [SegmentRight, and_iff_left hdecode, checkSegmentInt]
  dsimp only
  rcases checkSegment_cases s hlt with ⟨hend, hrun⟩ | ⟨hend, hrun⟩
  · rw [hrun]
    refine iff_of_false ?_ (fun h => h.1 hend)
    rintro ⟨r, hr, -⟩
    nomatch hr
  · rw [hrun, and_iff_right hend]
    cases hdec : percentDecode s with
    | none => exact iff_of_true ⟨-1, rfl, rfl⟩ nofun
    | some bytes =>
      have hle := length_percentDecode_le s bytes hdec
      have hint := toInt32_ofNat_eq_iff (n := bytes.length) (by omega)
      constructor
      · rintro ⟨r, hr, heq⟩ bytes' ⟨⟩
        cases hr
        exact hint.1 heq
      · intro h
        exact ⟨_, rfl, hint.2 (h bytes rfl)⟩

/-- The check reads behind the segment `%4`. -/
theorem not_segment_right_short : ¬ SegmentRight ⟨[percent, 52], by decide⟩ := by
  rintro ⟨⟨r, hr, -⟩, -⟩
  have hrun : checkSegment [percent, 52] (UInt32.ofNat [percent, 52].length) =
      .error .outOfBounds := checkSegment_single (by decide)
  rw [checkSegmentInt, hrun] at hr
  nomatch hr

end XY1100.Coap
