import Mathlib.Tactic

/-!
# Coap — percent-decoding

`check_segment` and `decode_segment`, written for the segments of a URI, and the hexadecimal text
of `AT+COAPSEND` (`hexstr2bytes`).  A segment is read from a pointer: the functions see the
readable bytes from there on, which may go on behind the segment, and fault behind them.  Both
count the length down in a `size_t`, which wraps.
-/

namespace XY1100.Coap

inductive CoapFault
  | outOfBounds
  | useAfterFree
  deriving DecidableEq

def isxdigit (c : UInt8) : Bool :=
  (48 ≤ c ∧ c ≤ 57) ∨ (65 ≤ c ∧ c ≤ 70) ∨ (97 ≤ c ∧ c ≤ 102)

def hexcharToDec (c : UInt8) : UInt8 := if c &&& 0x40 ≠ 0 then (c &&& 0x0F) + 9 else c &&& 0x0F

/-- The character `%`. -/
def percent : UInt8 := 37

/-- `check_segment`: the number of decoded bytes, `none` for an error. -/
def checkSegment : (s : List UInt8) → (length : UInt32) → Except CoapFault (Option Nat)
  | [], length => if length = 0 then .ok (some 0) else .error .outOfBounds
  | c :: s, length =>
    if length = 0 then .ok (some 0)
    else if c = percent then
      if length < 2 then .ok none
      else match s with
        | [] => .error .outOfBounds
        | h :: s =>
          if ¬ isxdigit h then .ok none
          else match s with
            | [] => .error .outOfBounds
            | l :: s =>
              if ¬ isxdigit l then .ok none
              else (checkSegment s (length - 2 - 1)).map (·.map (· + 1))
    else (checkSegment s (length - 1)).map (·.map (· + 1))

/-- `decode_segment`: the bytes it stores. -/
def decodeSegment : (seg : List UInt8) → (length : UInt32) → Except CoapFault (List UInt8)
  | [], length => if length = 0 then .ok [] else .error .outOfBounds
  | c :: s, length =>
    if length = 0 then .ok []
    else if c = percent then
      match s with
      | [] => .error .outOfBounds
      | h :: s =>
        match s with
        | [] => .error .outOfBounds
        | l :: s =>
          (decodeSegment s (length - 1 - 2)).map (((hexcharToDec h <<< 4) + hexcharToDec l) :: ·)
    else (decodeSegment s (length - 1)).map (c :: ·)

/-- `xy_payload_copy`: the copy, `none` where the check fails. -/
def xyPayloadCopy (text : List UInt8) (textlen : UInt32) :
    Except CoapFault (Option (List UInt8)) := do
  match ← checkSegment text textlen with
  | none => return none
  | some len =>
    -- the length is returned in an int
    if 2 ^ 31 ≤ len then return none
    return some (← decodeSegment text textlen)

/-- One digit of `hexstr2bytes`. -/
def hexDigit (c : UInt8) : Option UInt8 :=
  if 97 ≤ c ∧ c ≤ 102 then some ((c - 97) + 10)
  else if 48 ≤ c ∧ c ≤ 57 then some (c - 48)
  else if 65 ≤ c ∧ c ≤ 70 then some ((c - 65) + 10)
  else none

/-- `hexstr2bytes` of a text of even length, `none` for an error. -/
def hexstr2bytes : List UInt8 → Option (List UInt8)
  | h :: l :: src => do
    let hi ← hexDigit h
    let lo ← hexDigit l
    return ((hi <<< 4) ||| lo) :: (← hexstr2bytes src)
  | _ => some []

theorem length_hexstr2bytes : ∀ {text bytes : List UInt8}, hexstr2bytes text = some bytes →
    bytes.length = text.length / 2
  | [], _, h => by
    cases h
    rfl
  | [c], _, h => by
    cases h
    simp
  | _ :: _ :: text, bytes, h => by
    simp only [hexstr2bytes, bind, Option.bind_eq_some_iff, pure, Option.some.injEq] at h
    obtain ⟨hi, -, lo, -, rest, hrest, rfl⟩ := h
    have := length_hexstr2bytes hrest
    simp only [List.length_cons]
    omega

end XY1100.Coap
