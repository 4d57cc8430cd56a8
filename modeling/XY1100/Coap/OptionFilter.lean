import XY1100.Coap.Pdu
import XY1100.Support.SlotTable

/-!
# Coap — option filters

`coap_opt_filter_t` of `option.c`: a bit mask, two slots for option numbers over 255 and six for
the others.  A bit of the mask says that its slot is used.

A filter is two sets, of at most two and six numbers (`FilterSpec`).  `filterOp_refines` is one
operation, `filterRun_refines` any sequence of them from a cleared filter.
-/

namespace XY1100.Coap
open Support (Slots)
open Support.Slots (SlotOp setOp Allocates)

def COAP_OPT_FILTER_SHORT : Nat := 6
def COAP_OPT_FILTER_LONG : Nat := 2

/-- The `opt_filter` of `option.c`. -/
structure OptFilter where
  mask : BitVec 16
  longOpts : Nat → UInt16
  shortOpts : Nat → UInt8

/-- `coap_option_filter_clear`. -/
def coapOptionFilterClear : OptFilter := ⟨0, fun _ => 0, fun _ => 0⟩

/-- `coap_flsll`, the number of bits of a value; `fuel` is the width of its type. -/
def coapFlsll : Nat → Nat → Nat
  | 0, _ => 0
  | fuel + 1, i => if i = 0 then 0 else coapFlsll fuel (i >>> 1) + 1

/-- `coap_fls`. -/
def coapFls (i : Nat) : Nat := coapFlsll 64 i

/-- `is_long_option`. -/
def isLongOption (type : UInt16) : Bool := 255 < type

/-- The operations of `coap_option_filter_op`. -/
inductive FilterOp
  | set | clear | get
  deriving DecidableEq

/-- Mark a slot used. -/
def OptFilter.mark (f : OptFilter) (bit : Nat) : OptFilter :=
  { f with mask := f.mask ||| 1#16 <<< bit }

/-- Mark a slot free. -/
def OptFilter.unmark (f : OptFilter) (bit : Nat) : OptFilter :=
  { f with mask := f.mask &&& ~~~(1#16 <<< bit) }

/-- `coap_option_filter_op`: the filter after it, and whether it returns `1`. -/
def coapOptionFilterOp (f : OptFilter) (type : UInt16) (op : FilterOp) : OptFilter × Bool :=
  let long := isLongOption type
  -- the first bit of the class, the number of its slots, and `LONG_MASK` or `SHORT_MASK`
  let first := if long then 0 else COAP_OPT_FILTER_LONG
  let size := if long then COAP_OPT_FILTER_LONG else COAP_OPT_FILTER_SHORT
  let mask : BitVec 16 := if long then 0b11 else 0b11111100
  let found := (List.range size).find? fun lindex =>
    f.mask.getLsbD (first + lindex) &&
      (if long then decide (f.longOpts lindex = type)
       else decide (f.shortOpts lindex = (type &&& 0xff).toUInt8))
  match found, op with
  | some lindex, .clear => (f.unmark (first + lindex), true)
  | some _, _ => (f, true)
  | none, .set =>
    let lindex := coapFls (~~~f.mask &&& mask).toNat
    if lindex = 0 then (f, false)
    else
      let f :=
        if long then { f with longOpts := Function.update f.longOpts (lindex - 1) type }
        else
          { f with
            shortOpts :=
              Function.update f.shortOpts (lindex - COAP_OPT_FILTER_LONG - 1) type.toUInt8 }
      (f.mark (lindex - 1), true)
  | none, _ => (f, false)

/-- `coap_option_filter_set`. -/
def coapOptionFilterSet (f : OptFilter) (type : UInt16) : OptFilter × Bool :=
  coapOptionFilterOp f type .set

/-- `coap_option_filter_get`. -/
def coapOptionFilterGet (f : OptFilter) (type : UInt16) : Bool :=
  (coapOptionFilterOp f type .get).2

/-! ### A filter as two sets -/

/-- The long and the short numbers of a filter. -/
structure FilterSpec where
  long : Finset UInt16
  short : Finset UInt8
  deriving DecidableEq

/-- A number is in the set of its class. -/
def FilterSpec.Has (s : FilterSpec) (type : UInt16) : Prop :=
  if isLongOption type then type ∈ s.long else type.toUInt8 ∈ s.short

instance (s : FilterSpec) (type : UInt16) : Decidable (s.Has type) :=
  inferInstanceAs (Decidable (if isLongOption type then _ else _))

/-- The class of a number is full. -/
def FilterSpec.Full (s : FilterSpec) (type : UInt16) : Prop :=
  if isLongOption type then s.long.card = COAP_OPT_FILTER_LONG
  else s.short.card = COAP_OPT_FILTER_SHORT

instance (s : FilterSpec) (type : UInt16) : Decidable (s.Full type) :=
  inferInstanceAs (Decidable (if isLongOption type then _ else _))

/-- What an operation does to the sets, and what it returns. -/
def FilterSpec.op (s : FilterSpec) (type : UInt16) : FilterOp → FilterSpec × Bool
  | .get => (s, s.Has type)
  | .clear =>
    if isLongOption type then ({ s with long := s.long.erase type }, s.Has type)
    else ({ s with short := s.short.erase type.toUInt8 }, s.Has type)
  | .set =>
    if s.Has type then (s, true)
    else if s.Full type then (s, false)
    else if isLongOption type then ({ s with long := insert type s.long }, true)
    else ({ s with short := insert type.toUInt8 s.short }, true)

/-- The slots of the long numbers. -/
def OptFilter.longSlots (f : OptFilter) : Slots UInt16 :=
  ⟨fun i => decide (i < COAP_OPT_FILTER_LONG) && f.mask.getLsbD i, f.longOpts⟩

/-- The slots of the short numbers. -/
def OptFilter.shortSlots (f : OptFilter) : Slots UInt8 :=
  ⟨fun i => f.mask.getLsbD (COAP_OPT_FILTER_LONG + i), f.shortOpts⟩

/-- What an operation is to the slots of a class. -/
def FilterOp.slotOp : FilterOp → SlotOp
  | .set => .set
  | .clear => .clear
  | .get => .get

/-- A filter holds two sets, none of whose numbers is in two slots. -/
structure FilterHolds (f : OptFilter) (s : FilterSpec) : Prop where
  long : f.longSlots.contents COAP_OPT_FILTER_LONG = s.long
  short : f.shortSlots.contents COAP_OPT_FILTER_SHORT = s.short
  longDistinct : f.longSlots.Distinct COAP_OPT_FILTER_LONG
  shortDistinct : f.shortSlots.Distinct COAP_OPT_FILTER_SHORT

theorem filterHolds_clear : FilterHolds coapOptionFilterClear ⟨∅, ∅⟩ where
  long := by decide
  short := by decide
  longDistinct i _ j _ hi := by simp [OptFilter.longSlots, coapOptionFilterClear] at hi
  shortDistinct i _ j _ hi := by simp [OptFilter.shortSlots, coapOptionFilterClear] at hi

/-! ### Bits of the mask -/

/-- `coap_fls` finds a bit of a value that is not zero. -/
theorem coapFlsll_spec {fuel i : Nat} (hi : i < 2 ^ fuel) :
    (coapFlsll fuel i = 0 ↔ i = 0) ∧
      ∀ k, coapFlsll fuel i = k + 1 → i.testBit k = true := by
  induction fuel generalizing i with
  | zero =>
    obtain rfl : i = 0 := by simpa using hi
    simp [coapFlsll]
  | succ fuel ih =>
    by_cases hzero : i = 0
    · simp [coapFlsll, hzero]
    · obtain ⟨ihz, ihk⟩ := ih (i := i >>> 1) (by
        rw [Nat.shiftRight_eq_div_pow]
        rw [Nat.pow_succ] at hi
        omega)
      rw [coapFlsll, if_neg hzero]
      refine ⟨by simp [hzero], fun k hk => ?_⟩
      have hk' : coapFlsll fuel (i >>> 1) = k := by omega
      cases k with
      | zero =>
        have hhalf := ihz.mp hk'
        rw [Nat.shiftRight_eq_div_pow] at hhalf
        rw [Nat.testBit_zero, decide_eq_true_eq]
        omega
      | succ k =>
        have hbit := ihk k hk'
        rwa [Nat.testBit_shiftRight, Nat.add_comm] at hbit

theorem coapFls_bits (x : BitVec 16) :
    (coapFls x.toNat = 0 ↔ x = 0#16) ∧ ∀ k, coapFls x.toNat = k + 1 → x.getLsbD k = true := by
  have hx : x.toNat < 2 ^ 64 := by have := x.isLt; omega
  obtain ⟨hz, hk⟩ := coapFlsll_spec hx
  refine ⟨hz.trans ⟨fun h => BitVec.eq_of_toNat_eq h, fun h => by rw [h]; rfl⟩, fun k h => ?_⟩
  rw [← BitVec.testBit_toNat]
  exact hk k h

theorem getLsbD_mark (f : OptFilter) {bit : Nat} (hbit : bit < 16) (i : Nat) :
    (f.mark bit).mask.getLsbD i = if i = bit then true else f.mask.getLsbD i := by
  by_cases h : i = bit
  · simp [OptFilter.mark, h, hbit]
  · have : ¬ (bit ≤ i ∧ i - bit = 0) := by omega
    simp [OptFilter.mark, h]
    omega

theorem getLsbD_unmark (f : OptFilter) {bit : Nat} (hbit : bit < 16) (i : Nat) :
    (f.unmark bit).mask.getLsbD i = if i = bit then false else f.mask.getLsbD i := by
  by_cases h : i = bit
  · simp [OptFilter.unmark, h, hbit]
  · by_cases hi : i < 16
    · simp [OptFilter.unmark, h, hi]
      omega
    · simp [OptFilter.unmark, h, BitVec.getLsbD_of_ge _ _ (Nat.not_lt.mp hi)]

/-- The slot a number is put into is a free one of its class, if there is one. -/
theorem coapFls_free {m c : BitVec 16} {first size : Nat} (hwidth : first + size ≤ 16)
    (hc : ∀ i < 16, c.getLsbD i = decide (first ≤ i ∧ i < first + size)) :
    (coapFls (~~~m &&& c).toNat = 0 ↔ ¬ ∃ i < size, m.getLsbD (first + i) = false) ∧
      ∀ k, coapFls (~~~m &&& c).toNat = k + 1 →
        ∃ i < size, k = first + i ∧ m.getLsbD (first + i) = false := by
  obtain ⟨hz, hk⟩ := coapFls_bits (~~~m &&& c)
  have free (i : Nat) : (~~~m &&& c).getLsbD i = true ↔
      (first ≤ i ∧ i < first + size) ∧ m.getLsbD i = false := by
    by_cases hi : i < 16
    · simp only [BitVec.getLsbD_and, BitVec.getLsbD_not, hi, hc i hi, decide_true, Bool.true_and,
        Bool.and_eq_true, Bool.not_eq_true', decide_eq_true_eq, and_comm]
    · simp [BitVec.getLsbD_of_ge _ _ (Nat.not_lt.mp hi)]
      omega
  constructor
  · rw [hz]
    constructor
    · rintro h ⟨i, hi, hfree⟩
      have hbit := (free (first + i)).mpr ⟨by omega, hfree⟩
      simp [h] at hbit
    · intro hnone
      refine BitVec.eq_of_getLsbD_eq fun i hi => ?_
      rw [BitVec.getLsbD_zero]
      refine eq_false_of_ne_true fun hbit => hnone ?_
      obtain ⟨hrange, hfree⟩ := (free i).mp hbit
      exact ⟨i - first, by omega, by rwa [Nat.add_sub_cancel' hrange.1]⟩
  · intro k h
    obtain ⟨hrange, hfree⟩ := (free k).mp (hk k h)
    exact ⟨k - first, by omega, by omega, by rwa [Nat.add_sub_cancel' hrange.1]⟩

/-- The classes have their own bits. -/
theorem longMask_bits : ∀ i < 16, (0b11 : BitVec 16).getLsbD i = decide (0 ≤ i ∧ i < 0 + 2) := by
  decide

theorem shortMask_bits :
    ∀ i < 16, (0b11111100 : BitVec 16).getLsbD i = decide (2 ≤ i ∧ i < 2 + 6) := by
  decide

/-- The slot of a class that a number is put into, counted from the first of the class. -/
def freeSlot (m c : BitVec 16) (first : Nat) : Option Nat :=
  match coapFls (~~~m &&& c).toNat with
  | 0 => none
  | k + 1 => some (k - first)

theorem freeSlot_allocates {α : Type*} {s : Slots α} {m c : BitVec 16} {first size : Nat}
    (hwidth : first + size ≤ 16)
    (hc : ∀ i < 16, c.getLsbD i = decide (first ≤ i ∧ i < first + size))
    (hused : ∀ i < size, s.used i = m.getLsbD (first + i)) :
    s.Allocates size (freeSlot m c first) := by
  obtain ⟨hz, hk⟩ := @coapFls_free m c first size hwidth hc
  rw [freeSlot]
  generalize coapFls (~~~m &&& c).toNat = n at hz hk
  cases n with
  | zero =>
    refine ⟨nofun, fun _ i hi => ?_⟩
    rw [hused i hi]
    exact eq_true_of_ne_false fun hfree => hz.mp rfl ⟨i, hi, hfree⟩
  | succ n =>
    refine ⟨fun k hslot => ?_, nofun⟩
    obtain ⟨j, hj, rfl, hfree⟩ := hk n rfl
    obtain rfl := Option.some.inj hslot
    rw [Nat.add_sub_cancel_left, hused j hj]
    exact ⟨hj, hfree⟩

/-! ### One operation -/

/-- A slot of a long number is freed, and the short ones stay. -/
theorem unmark_long (f : OptFilter) {k : Nat} (hk : k < 2) :
    (f.unmark (0 + k)).longSlots = f.longSlots.drop k ∧
      (f.unmark (0 + k)).shortSlots = f.shortSlots := by
  rw [Nat.zero_add]
  constructor
  · simp only [OptFilter.longSlots, Slots.drop, Slots.mk.injEq]
    refine ⟨funext fun i => ?_, rfl⟩
    rw [getLsbD_unmark f (by omega), Function.update_apply]
    split <;> simp
  · simp only [OptFilter.shortSlots, Slots.mk.injEq, COAP_OPT_FILTER_LONG]
    refine ⟨funext fun i => ?_, rfl⟩
    rw [getLsbD_unmark f (by omega), if_neg (by omega)]

/-- A slot of a short number is freed, and the long ones stay. -/
theorem unmark_short (f : OptFilter) {k : Nat} (hk : k < 6) :
    (f.unmark (2 + k)).shortSlots = f.shortSlots.drop k ∧
      (f.unmark (2 + k)).longSlots = f.longSlots := by
  constructor
  · simp only [OptFilter.shortSlots, Slots.drop, Slots.mk.injEq, COAP_OPT_FILTER_LONG]
    refine ⟨funext fun i => ?_, rfl⟩
    rw [getLsbD_unmark f (by omega), Function.update_apply]
    simp only [Nat.add_left_cancel_iff]
  · simp only [OptFilter.longSlots, Slots.mk.injEq, COAP_OPT_FILTER_LONG]
    refine ⟨funext fun i => ?_, rfl⟩
    rw [getLsbD_unmark f (by omega)]
    by_cases hi : i < 2
    · rw [if_neg (by omega)]
    · simp [hi]

/-- A long number is put into a slot, and the short ones stay. -/
theorem mark_long (f : OptFilter) {k : Nat} (hk : k < 2) (type : UInt16) :
    (OptFilter.mark { f with longOpts := Function.update f.longOpts k type } k).longSlots =
        f.longSlots.put k type ∧
      (OptFilter.mark { f with longOpts := Function.update f.longOpts k type } k).shortSlots =
        f.shortSlots := by
  constructor
  · simp only [OptFilter.longSlots, Slots.put, Slots.mk.injEq, COAP_OPT_FILTER_LONG]
    refine ⟨funext fun i => ?_, rfl⟩
    rw [getLsbD_mark _ (by omega), Function.update_apply]
    by_cases hi : i = k
    · simp [hi, hk]
    · simp [hi]
  · simp only [OptFilter.shortSlots, Slots.mk.injEq, COAP_OPT_FILTER_LONG]
    refine ⟨funext fun i => ?_, rfl⟩
    rw [getLsbD_mark _ (by omega), if_neg (by omega)]

/-- A short number is put into a slot, and the long ones stay. -/
theorem mark_short (f : OptFilter) {k : Nat} (hk : k < 6) (type : UInt8) :
    (OptFilter.mark { f with shortOpts := Function.update f.shortOpts k type } (2 + k)).shortSlots =
        f.shortSlots.put k type ∧
      (OptFilter.mark { f with shortOpts := Function.update f.shortOpts k type }
        (2 + k)).longSlots =
        f.longSlots := by
  constructor
  · simp only [OptFilter.shortSlots, Slots.put, Slots.mk.injEq, COAP_OPT_FILTER_LONG]
    refine ⟨funext fun i => ?_, rfl⟩
    rw [getLsbD_mark _ (by omega), Function.update_apply]
    simp only [Nat.add_left_cancel_iff]
  · simp only [OptFilter.longSlots, Slots.mk.injEq, COAP_OPT_FILTER_LONG]
    refine ⟨funext fun i => ?_, rfl⟩
    rw [getLsbD_mark _ (by omega)]
    by_cases hi : i < 2
    · rw [if_neg (by omega)]
    · simp [hi]

theorem and_ff_toUInt8 (type : UInt16) : (type &&& 0xff).toUInt8 = type.toUInt8 := by
  apply UInt8.toNat_inj.mp
  rw [UInt16.toNat_toUInt8, UInt16.toNat_toUInt8, UInt16.toNat_and,
    show (0xff : UInt16).toNat = 2 ^ 8 - 1 from rfl, Nat.and_two_pow_sub_one_eq_mod]
  omega

theorem longSlots_used (f : OptFilter) {i : Nat} (hi : i < COAP_OPT_FILTER_LONG) :
    f.longSlots.used i = f.mask.getLsbD (0 + i) := by
  rw [OptFilter.longSlots, Nat.zero_add]
  simp only [hi, decide_true, Bool.true_and]

/-- The two searches of the operation. -/
theorem found_long (f : OptFilter) (type : UInt16) :
    ((List.range COAP_OPT_FILTER_LONG).find? fun lindex =>
      f.mask.getLsbD (0 + lindex) && decide (f.longOpts lindex = type)) =
      f.longSlots.find COAP_OPT_FILTER_LONG type := by
  refine List.find?_congr fun i hi => ?_
  rw [longSlots_used f (List.mem_range.mp hi)]
  rfl

theorem found_short (f : OptFilter) (type : UInt16) :
    ((List.range COAP_OPT_FILTER_SHORT).find? fun lindex =>
      f.mask.getLsbD (COAP_OPT_FILTER_LONG + lindex) &&
        decide (f.shortOpts lindex = (type &&& 0xff).toUInt8)) =
      f.shortSlots.find COAP_OPT_FILTER_SHORT type.toUInt8 := by
  rw [and_ff_toUInt8]
  rfl

section
variable {f : OptFilter} {s : FilterSpec} {type : UInt16}

/-- An operation on a long number is the operation on the slots of the long ones. -/
theorem filterOp_long (hlong : isLongOption type = true) (op : FilterOp) :
    (coapOptionFilterOp f type op).1.longSlots =
        (f.longSlots.op COAP_OPT_FILTER_LONG (freeSlot f.mask 0b11 0) type op.slotOp).1 ∧
      (coapOptionFilterOp f type op).1.shortSlots = f.shortSlots ∧
      (coapOptionFilterOp f type op).2 =
        (f.longSlots.op COAP_OPT_FILTER_LONG (freeSlot f.mask 0b11 0) type op.slotOp).2 := by
  simp only [coapOptionFilterOp, hlong, if_true, found_long]
  cases hfound : f.longSlots.find COAP_OPT_FILTER_LONG type with
  | some k =>
    cases op with
    | clear =>
      obtain ⟨hl, hs⟩ := unmark_long f (Slots.find_eq_some hfound).1
      simp only [Slots.op, FilterOp.slotOp, hfound]
      exact ⟨hl, hs, trivial⟩
    | set => simp [Slots.op, FilterOp.slotOp, hfound]
    | get => simp [Slots.op, FilterOp.slotOp, hfound]
  | none =>
    cases op with
    | clear => simp [Slots.op, FilterOp.slotOp, hfound]
    | get => simp [Slots.op, FilterOp.slotOp, hfound]
    | set =>
      have hk := (@coapFls_free f.mask 0b11 0 2 (by omega) longMask_bits).2
      simp only [Slots.op, FilterOp.slotOp, hfound, freeSlot]
      generalize coapFls (~~~f.mask &&& 0b11).toNat = n at hk
      cases n with
      | zero => exact ⟨rfl, rfl, rfl⟩
      | succ n =>
        obtain ⟨k, hlt, rfl, -⟩ := hk n rfl
        rw [if_neg (Nat.succ_ne_zero _), Nat.add_sub_cancel, Nat.zero_add]
        obtain ⟨hl, hs⟩ := mark_long f hlt type
        exact ⟨hl, hs, rfl⟩

/-- An operation on a short number is the operation on the slots of the short ones. -/
theorem filterOp_short (hlong : isLongOption type = false) (op : FilterOp) :
    (coapOptionFilterOp f type op).1.shortSlots =
        (f.shortSlots.op COAP_OPT_FILTER_SHORT (freeSlot f.mask 0b11111100 COAP_OPT_FILTER_LONG)
          type.toUInt8 op.slotOp).1 ∧
      (coapOptionFilterOp f type op).1.longSlots = f.longSlots ∧
      (coapOptionFilterOp f type op).2 =
        (f.shortSlots.op COAP_OPT_FILTER_SHORT (freeSlot f.mask 0b11111100 COAP_OPT_FILTER_LONG)
          type.toUInt8 op.slotOp).2 := by
  simp only [coapOptionFilterOp, hlong, Bool.false_eq_true, if_false, found_short]
  cases hfound : f.shortSlots.find COAP_OPT_FILTER_SHORT type.toUInt8 with
  | some k =>
    cases op with
    | clear =>
      obtain ⟨hs, hl⟩ := unmark_short f (Slots.find_eq_some hfound).1
      simp only [Slots.op, FilterOp.slotOp, hfound]
      exact ⟨hs, hl, trivial⟩
    | set => simp [Slots.op, FilterOp.slotOp, hfound]
    | get => simp [Slots.op, FilterOp.slotOp, hfound]
  | none =>
    cases op with
    | clear => simp [Slots.op, FilterOp.slotOp, hfound]
    | get => simp [Slots.op, FilterOp.slotOp, hfound]
    | set =>
      have hk := (@coapFls_free f.mask 0b11111100 2 6 (by omega) shortMask_bits).2
      simp only [Slots.op, FilterOp.slotOp, hfound, freeSlot]
      generalize coapFls (~~~f.mask &&& 0b11111100).toNat = n at hk
      cases n with
      | zero => exact ⟨rfl, rfl, rfl⟩
      | succ n =>
        obtain ⟨k, hlt, rfl, -⟩ := hk n rfl
        rw [if_neg (Nat.succ_ne_zero _), Nat.add_sub_cancel, COAP_OPT_FILTER_LONG,
          show 2 + k + 1 - 2 - 1 = k by omega]
        simp only [Nat.add_sub_cancel_left]
        obtain ⟨hs, hl⟩ := mark_short f hlt type.toUInt8
        exact ⟨hs, hl, trivial⟩

theorem specOp_long (hlong : isLongOption type = true) (op : FilterOp) :
    s.op type op = ({ s with long := (setOp s.long COAP_OPT_FILTER_LONG type op.slotOp).1 },
      (setOp s.long COAP_OPT_FILTER_LONG type op.slotOp).2) := by
  cases op with
  | get => simp [FilterSpec.op, setOp, FilterOp.slotOp, FilterSpec.Has, hlong]
  | clear => simp [FilterSpec.op, setOp, FilterOp.slotOp, FilterSpec.Has, hlong]
  | set =>
    simp only [FilterSpec.op, setOp, FilterOp.slotOp, FilterSpec.Has, FilterSpec.Full, hlong,
      if_true]
    split_ifs <;> rfl

theorem specOp_short (hlong : isLongOption type = false) (op : FilterOp) :
    s.op type op =
      ({ s with short := (setOp s.short COAP_OPT_FILTER_SHORT type.toUInt8 op.slotOp).1 },
        (setOp s.short COAP_OPT_FILTER_SHORT type.toUInt8 op.slotOp).2) := by
  cases op with
  | get => simp [FilterSpec.op, setOp, FilterOp.slotOp, FilterSpec.Has, hlong]
  | clear => simp [FilterSpec.op, setOp, FilterOp.slotOp, FilterSpec.Has, hlong]
  | set =>
    simp only [FilterSpec.op, setOp, FilterOp.slotOp, FilterSpec.Has, FilterSpec.Full, hlong,
      Bool.false_eq_true, if_false]
    split_ifs <;> rfl

/-- An operation on a filter is the operation on its sets. -/
theorem filterOp_refines (h : FilterHolds f s) (type : UInt16) (op : FilterOp) :
    FilterHolds (coapOptionFilterOp f type op).1 (s.op type op).1 ∧
      (coapOptionFilterOp f type op).2 = (s.op type op).2 := by
  cases hlong : isLongOption type with
  | true =>
    obtain ⟨hl, hs, hresult⟩ := @filterOp_long f type hlong op
    obtain ⟨hdistinct, hcontents, hreturns⟩ := h.longDistinct.op_refines
      (freeSlot_allocates (by decide) longMask_bits fun i hi => longSlots_used f hi) type op.slotOp
    rw [specOp_long hlong, ← h.long, hresult]
    exact ⟨⟨by rw [hl, hcontents], by rw [hs, h.short], by rwa [hl],
      by rw [hs]; exact h.shortDistinct⟩, hreturns⟩
  | false =>
    obtain ⟨hs, hl, hresult⟩ := @filterOp_short f type hlong op
    obtain ⟨hdistinct, hcontents, hreturns⟩ := h.shortDistinct.op_refines
      (@freeSlot_allocates _ _ f.mask _ COAP_OPT_FILTER_LONG _ (by decide) shortMask_bits
        fun _ _ => rfl) type.toUInt8 op.slotOp
    rw [specOp_short hlong, ← h.short, hresult]
    exact ⟨⟨by rw [hl, h.long], by rw [hs, hcontents], by rw [hl]; exact h.longDistinct,
      by rwa [hs]⟩, hreturns⟩

end

/-! ### Any sequence of operations -/

/-- The results of a sequence of operations, and the filter after it. -/
def filterRun (f : OptFilter) : List (UInt16 × FilterOp) → List Bool × OptFilter
  | [] => ([], f)
  | (type, op) :: ops =>
    let (f, result) := coapOptionFilterOp f type op
    ((result :: (filterRun f ops).1), (filterRun f ops).2)

/-- The same for the sets. -/
def FilterSpec.run (s : FilterSpec) : List (UInt16 × FilterOp) → List Bool × FilterSpec
  | [] => ([], s)
  | (type, op) :: ops =>
    let (s, result) := s.op type op
    ((result :: (s.run ops).1), (s.run ops).2)

theorem filterRun_refines {f : OptFilter} {s : FilterSpec} (h : FilterHolds f s)
    (ops : List (UInt16 × FilterOp)) :
    FilterHolds (filterRun f ops).2 (s.run ops).2 ∧ (filterRun f ops).1 = (s.run ops).1 := by
  induction ops generalizing f s with
  | nil => exact ⟨h, rfl⟩
  | cons o ops ih =>
    obtain ⟨type, op⟩ := o
    obtain ⟨hop, hresult⟩ := filterOp_refines h type op
    obtain ⟨hrun, hresults⟩ := ih hop
    exact ⟨hrun, by simp only [filterRun, FilterSpec.run, hresult, hresults]⟩

/-- `coap_option_filter_get` finds the members. -/
theorem filterGet_iff {f : OptFilter} {s : FilterSpec} (h : FilterHolds f s) (type : UInt16) :
    coapOptionFilterGet f type = true ↔ s.Has type := by
  rw [coapOptionFilterGet, (filterOp_refines h type .get).2]
  simp [FilterSpec.op]

/-- **A filter is a bounded set.**  Any sequence of operations on a cleared filter answers as it
does on two sets that take two long and six short numbers. -/
theorem filter_from_clear (ops : List (UInt16 × FilterOp)) :
    (filterRun coapOptionFilterClear ops).1 = (FilterSpec.run ⟨∅, ∅⟩ ops).1 ∧
      (FilterSpec.run ⟨∅, ∅⟩ ops).2.long.card ≤ COAP_OPT_FILTER_LONG ∧
      (FilterSpec.run ⟨∅, ∅⟩ ops).2.short.card ≤ COAP_OPT_FILTER_SHORT := by
  obtain ⟨hholds, hresults⟩ := filterRun_refines filterHolds_clear ops
  refine ⟨hresults, ?_, ?_⟩
  · rw [← hholds.long, hholds.longDistinct.card_contents]
    exact (Finset.card_filter_le _ _).trans (Finset.card_range _).le
  · rw [← hholds.short, hholds.shortDistinct.card_contents]
    exact (Finset.card_filter_le _ _).trans (Finset.card_range _).le

end XY1100.Coap
