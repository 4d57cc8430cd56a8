import Mathlib.Tactic
import XY1100.Support.Int32

/-!
# Perf — the rate of a test

`at_XYPERF_req` makes a rate in kbps of the bandwidth string: of a number with a unit by one digit
loop, of a number without by another, which adds eleven times its value for each digit.
`xyperf_udp_ipv4_client` and `xyperf_udp_ipv6_client` make the milliseconds between two packets of
it.  Arithmetic on `int` wraps.

* `xyperf_right_iff`: the string is read inside and the rate is the one it denotes, exactly when it
  is not empty, a unit has digits before it and the rate fits in 32 bits, and a number without a unit
  is in one of the ranges where base eleven does no harm; and the milliseconds are right, exactly when
  the rate is not 0 and `8000` times the size of the packet fits in 32 bits.
-/

namespace XY1100.Perf
open Support

/-! ### The command -/

/-- What `at_XYPERF_req` does with a bandwidth string. -/
inductive Outcome
  /-- A byte outside the string is read. -/
  | outside
  | rejected
  /-- `start_xyperf` with a protocol and a rate. -/
  | started (protocolType : Nat) (rateInKbps : UInt32)
  deriving DecidableEq

/-- What the command finds besides the bandwidth string. -/
structure Request where
  /-- `at_parse_param` returns `AT_OK`. -/
  parsed : Bool
  /-- `g_xyperf_TskHandle` is not null. -/
  taskRuns : Bool
  psNetifIsOk : Bool
  protocolStr : List UInt8

/-- `protocol_type`, for `udp` and `tcp`. -/
def Request.protocolType (r : Request) : Option Nat :=
  if r.protocolStr = [117, 100, 112] then some 0
  else if r.protocolStr = [116, 99, 112] then some 1
  else none

/-- The character is no digit. -/
def NotDigit (c : UInt8) : Prop := c < 48 ∨ 57 < c

instance (c : UInt8) : Decidable (NotDigit c) := inferInstanceAs (Decidable (_ ∨ _))

/-- `times` of a unit. -/
def timesOf (c : UInt8) : Option Int32 :=
  if c = 107 ∨ c = 75 then some 1
  else if c = 109 ∨ c = 77 then some 1024
  else if c = 103 ∨ c = 71 then some (1024 * 1024)
  else none

/-- A character in an `int` expression. -/
def ofChar (c : UInt8) : Int32 := Int32.ofInt c.toNat

/-- The digit loop of a number with a unit. -/
def unitLoop : List UInt8 → Int32 → Option Int32
  | [], base => some base
  | c :: cs, base => if NotDigit c then none else unitLoop cs (base * 10 + ofChar c - 48)

/-- The digit loop of a number without a unit. -/
def plainLoop : List UInt8 → Int32 → Option Int32
  | [], base => some base
  | c :: cs, base => if NotDigit c then none else plainLoop cs (base + (base * 10 + ofChar c - 48))

/-- The rate of a bandwidth string. -/
def bandwidth (protocolType : Nat) (s : List UInt8) : Outcome :=
  match s.getLast? with
  | none => .outside
  | some last =>
      if NotDigit last then
        match timesOf last with
        | none => .rejected
        | some times =>
            match unitLoop s.dropLast 0 with
            | none => .rejected
            | some base => .started protocolType (base * times).toUInt32
      else
        match plainLoop s 0 with
        | none => .rejected
        | some base =>
            if base < 1024 then .rejected else .started protocolType (base / 1024 * 1).toUInt32

/-- `at_XYPERF_req`. -/
def atXyperfReq (r : Request) (s : List UInt8) : Outcome :=
  if r.parsed = false ∨ r.taskRuns = true ∨ r.psNetifIsOk = false then .rejected
  else
    match r.protocolType with
    | none => .rejected
    | some protocolType => bandwidth protocolType s

/-! ### The clients -/

/-- The size of `struct xyperf_udp_datagram`. -/
def datagramLen : UInt32 := 12

/-- How far a client comes. -/
inductive Started
  /-- The rate is over the limit. -/
  | refused
  | dividesByZero
  | packetDuration (ms : UInt32)
  deriving DecidableEq

/-- The milliseconds between two packets, with the size of the UDP and IP headers. -/
def client (headerLen packetSize rateInKbps : UInt32) : Started :=
  if rateInKbps > 1024 * 1024 then .refused
  else if rateInKbps * 1024 = 0 then .dividesByZero
  else .packetDuration (1000 * (packetSize + datagramLen + headerLen) * 8 / (rateInKbps * 1024))

/-- `xyperf_udp_ipv4_client`, up to `packet_duration`. -/
def xyperfUdpIpv4Client (packetSize rateInKbps : UInt32) : Started :=
  client (8 + 20) packetSize rateInKbps

/-- `xyperf_udp_ipv6_client`, up to `packet_duration`. -/
def xyperfUdpIpv6Client (packetSize rateInKbps : UInt32) : Started :=
  client (8 + 40) packetSize rateInKbps

/-! ### The rate a string denotes -/

/-- The digits of a string read in a base. -/
def valueIn (b : Nat) (s : List UInt8) : Nat := s.foldl (fun v c => v * b + (c.toNat - 48)) 0

/-- All characters are digits. -/
def Digits (s : List UInt8) : Prop := ∀ c ∈ s, ¬ NotDigit c

instance (s : List UInt8) : Decidable (Digits s) := inferInstanceAs (Decidable (∀ _ ∈ _, _))

/-- The string denotes a rate in kbps: a decimal number with a unit, or a decimal number of bits per
second. -/
inductive Denotes : List UInt8 → Nat → Prop
  | unit {s : List UInt8} {c : UInt8} {times : Int32} (hs : Digits s) (hne : s ≠ [])
      (hc : timesOf c = some times) : Denotes (s ++ [c]) (valueIn 10 s * times.toInt.toNat)
  | plain {s : List UInt8} (hs : Digits s) (hne : s ≠ []) : Denotes s (valueIn 10 s / 1024)

/-- The string is read inside, and rejected or taken for the rate it denotes. -/
structure Outcome.Right (s : List UInt8) (o : Outcome) : Prop where
  inside : o ≠ .outside
  denotes : ∀ protocolType rate, o = .started protocolType rate → Denotes s rate.toNat

/-- The command gets as far as the bandwidth string. -/
def Request.Reaches (r : Request) : Prop :=
  r.parsed = true ∧ r.taskRuns = false ∧ r.psNetifIsOk = true ∧ r.protocolType ≠ none

/-- The decimal digits of a number read in base eleven. -/
def inEleven (n : Nat) : Nat := Nat.ofDigits 11 (Nat.digits 10 n)

/-- The numbers of bits per second that are rejected or taken for the right rate: the first come to
less than 1024 in base eleven, the next three ranges to the same rate as in base ten, and of those an
`int` does not hold some wrap around to less than 1024. -/
def Harmless (n : Nat) : Prop :=
  n ≤ 850 ∨ 1024 ≤ n ∧ n ≤ 1599 ∨ 2048 ≤ n ∧ n ≤ 2342 ∨ 3072 ≤ n ∧ n ≤ 3093 ∨
    10 ^ 9 ≤ n ∧ (inEleven n % 2 ^ 32 < 1024 ∨ 2 ^ 31 ≤ inEleven n % 2 ^ 32)

/-- The string is not empty; a unit has digits before it, and the rate fits; and digits without a
unit are a harmless number. -/
structure WellRead (s : List UInt8) : Prop where
  nonempty : s ≠ []
  unit : ∀ ds c times, s = ds ++ [c] → Digits ds → timesOf c = some times →
    ds ≠ [] ∧ valueIn 10 ds * times.toInt.toNat < 2 ^ 32
  plain : Digits s → Harmless (valueIn 10 s)

/-- The milliseconds between two packets are right, without a division by zero or a wrap-around. -/
def DurationRight (headerLen : Nat) (packetSize rateInKbps : UInt32) (started : Started) : Prop :=
  started = .refused ∨
    ∃ ms : UInt32, started = .packetDuration ms ∧
      8000 * (packetSize.toNat + 12 + headerLen) < 2 ^ 32 ∧
      ms.toNat = 8000 * (packetSize.toNat + 12 + headerLen) / (rateInKbps.toNat * 1024)

/-! ### The digit loops -/

variable {s ds : List UInt8} {c : UInt8} {times : Int32} {n : Nat}

theorem not_digits_of_mem (hc : c ∈ s) (hnot : NotDigit c) : ¬ Digits s := fun h => h c hc hnot

theorem digits_cons : Digits (c :: s) ↔ ¬ NotDigit c ∧ Digits s := List.forall_mem_cons

theorem digit_bounds (h : ¬ NotDigit c) : 48 ≤ c.toNat ∧ c.toNat ≤ 57 := by
  unfold NotDigit at h
  rw [not_or, UInt8.lt_iff_toNat_lt, UInt8.lt_iff_toNat_lt] at h
  exact ⟨Nat.not_lt.mp h.1, Nat.not_lt.mp h.2⟩

/-- One digit of a number with a unit. -/
theorem unit_step (v : Nat) (h : ¬ NotDigit c) :
    Int32.ofInt v * 10 + ofChar c - 48 = Int32.ofInt (v * 10 + (c.toNat - 48) : Nat) := by
  have hle := (digit_bounds h).1
  have hten : (10 : Int32) = Int32.ofInt 10 := rfl
  have hzero : (48 : Int32) = Int32.ofInt 48 := rfl
  unfold ofChar
  rw [hten, hzero, ← Int32.ofInt_mul, ← Int32.ofInt_add, ← Int32.ofInt_sub]
  congr 1
  omega

/-- One digit of a number without. -/
theorem plain_step (v : Nat) (h : ¬ NotDigit c) :
    Int32.ofInt v + (Int32.ofInt v * 10 + ofChar c - 48) =
      Int32.ofInt (v * 11 + (c.toNat - 48) : Nat) := by
  -- `base += base * 10 + digit` is a step in base eleven
  rw [unit_step v h, ← Int32.ofInt_add]
  congr 1
  push_cast
  ring

theorem unitLoop_digits (hs : Digits s) (v : Nat) :
    unitLoop s (Int32.ofInt v) =
      some (Int32.ofInt (s.foldl (fun v c => v * 10 + (c.toNat - 48)) v : Nat)) := by
  induction s generalizing v with
  | nil => rfl
  | cons c s ih =>
      obtain ⟨hc, hs⟩ := digits_cons.mp hs
      unfold unitLoop
      rw [if_neg hc, unit_step v hc, ih hs]
      rfl

theorem plainLoop_digits (hs : Digits s) (v : Nat) :
    plainLoop s (Int32.ofInt v) =
      some (Int32.ofInt (s.foldl (fun v c => v * 11 + (c.toNat - 48)) v : Nat)) := by
  induction s generalizing v with
  | nil => rfl
  | cons c s ih =>
      obtain ⟨hc, hs⟩ := digits_cons.mp hs
      unfold plainLoop
      rw [if_neg hc, plain_step v hc, ih hs]
      rfl

theorem unitLoop_not_digits (hs : ¬ Digits s) (base : Int32) : unitLoop s base = none := by
  induction s generalizing base with
  | nil => exact absurd (fun _ h => absurd h List.not_mem_nil) hs
  | cons c s ih =>
      unfold unitLoop
      by_cases hc : NotDigit c
      · rw [if_pos hc]
      · rw [if_neg hc, ih fun h => hs (digits_cons.mpr ⟨hc, h⟩)]

theorem plainLoop_not_digits (hs : ¬ Digits s) (base : Int32) : plainLoop s base = none := by
  induction s generalizing base with
  | nil => exact absurd (fun _ h => absurd h List.not_mem_nil) hs
  | cons c s ih =>
      unfold plainLoop
      by_cases hc : NotDigit c
      · rw [if_pos hc]
      · rw [if_neg hc, ih fun h => hs (digits_cons.mpr ⟨hc, h⟩)]

/-! ### Base eleven -/

/-- A natural number as an `int` holds it. -/
def asInt (n : Nat) : Int := (n : Int).bmod (2 ^ 32)

theorem inEleven_append (n : Nat) {d : Nat} (hd : d < 10) :
    inEleven (n * 10 + d) = inEleven n * 11 + d := by
  unfold inEleven
  by_cases hzero : d ≠ 0 ∨ n ≠ 0
  · rw [show n * 10 + d = d + 10 * n by omega, Nat.digits_add 10 (by omega) d n hd hzero,
      Nat.ofDigits_cons]
    omega
  · obtain ⟨rfl, rfl⟩ : d = 0 ∧ n = 0 := by omega
    rfl

theorem inEleven_eq (n : Nat) : inEleven n = inEleven (n / 10) * 11 + n % 10 := by
  conv_lhs => rw [← Nat.div_add_mod' n 10]
  exact inEleven_append (n / 10) (Nat.mod_lt n (by omega))

/-- Base eleven keeps the order of two numbers, and their distance at least. -/
theorem inEleven_sub_le {m n : Nat} (h : m ≤ n) : inEleven m + (n - m) ≤ inEleven n := by
  induction n using Nat.strongRecOn generalizing m with
  | ind n ih =>
      rw [inEleven_eq n, inEleven_eq m]
      rcases Nat.eq_zero_or_pos n with rfl | hpos
      · obtain rfl := Nat.le_zero.mp h
        exact Nat.le_refl _
      · have hle := ih (n / 10) (Nat.div_lt_self hpos (by omega))
          (Nat.div_le_div_right (c := 10) h)
        omega

theorem valueIn_eleven {s : List UInt8} (hs : Digits s) : valueIn 11 s = inEleven (valueIn 10 s) := by
  induction s using List.reverseRecOn with
  | nil => rfl
  | append_singleton s c ih =>
      have hc := digit_bounds (hs c (List.mem_append_right _ List.mem_cons_self))
      have hs' : Digits s := fun d hd => hs d (List.mem_append_left _ hd)
      unfold valueIn at ih ⊢
      rw [List.foldl_concat, List.foldl_concat, ih hs', inEleven_append _ (by omega)]

theorem asInt_eq (n : Nat) :
    asInt n = (n % 2 ^ 32 : Nat) ∧ n % 2 ^ 32 < 2 ^ 31 ∨
      asInt n = (n % 2 ^ 32 : Nat) - 2 ^ 32 ∧ 2 ^ 31 ≤ n % 2 ^ 32 := by
  unfold asInt
  rw [Int.bmod_def]
  split_ifs with h
  · left
    omega
  · right
    omega

theorem inEleven_le {m n k : Nat} (h : n ≤ m) (hm : inEleven m = k) : inEleven n + (m - n) ≤ k :=
  hm ▸ inEleven_sub_le h

theorem le_inEleven {m n k : Nat} (h : m ≤ n) (hm : inEleven m = k) : k + (n - m) ≤ inEleven n :=
  hm ▸ inEleven_sub_le h

/-- A number that an `int` holds in base eleven. -/
theorem quotient_iff_of_small {n : Nat} (hsmall : n < 10 ^ 9) :
    (inEleven n < 1024 ∨ inEleven n / 1024 = n / 1024) ↔ Harmless n := by
  have hrange : n ≤ 850 ∨ 851 ≤ n ∧ n < 1024 ∨ 1024 ≤ n ∧ n ≤ 1599 ∨ 1600 ≤ n ∧ n < 2048 ∨
      2048 ≤ n ∧ n ≤ 2342 ∨ 2343 ≤ n ∧ n < 3072 ∨ 3072 ≤ n ∧ n ≤ 3093 ∨ 3094 ≤ n ∧ n < 4096 ∨
        4096 ≤ n := by
    omega
  unfold Harmless
  rcases hrange with h | ⟨h, _⟩ | ⟨h, h'⟩ | ⟨h, _⟩ | ⟨h, h'⟩ | ⟨h, _⟩ | ⟨h, h'⟩ | ⟨h, _⟩ | h
  · have := inEleven_le h (rfl : _ = 1023)
    omega
  · have := le_inEleven h (rfl : _ = 1024)
    omega
  · have := le_inEleven h (rfl : _ = 1357)
    have := inEleven_le h' (rfl : _ = 2044)
    omega
  · have := le_inEleven h (rfl : _ = 2057)
    omega
  · have := le_inEleven h (rfl : _ = 2714)
    have := inEleven_le h' (rfl : _ = 3071)
    omega
  · have := le_inEleven h (rfl : _ = 3072)
    omega
  · have := le_inEleven h (rfl : _ = 4072)
    have := inEleven_le h' (rfl : _ = 4095)
    omega
  · have := le_inEleven h (rfl : _ = 4096)
    omega
  · -- from here on the two readings are more than 1024 apart
    have := le_inEleven h (rfl : _ = 5429)
    omega

/-- A number that an `int` does not hold in base eleven gives no right rate. -/
theorem quotient_ne_of_large {n : Nat} (hlarge : 10 ^ 9 ≤ n) (hpass : ¬ asInt (inEleven n) < 1024) :
    asInt (inEleven n) / 1024 ≠ (n / 1024 : Nat) := by
  have hlow := le_inEleven hlarge (rfl : _ = 2357947691)
  intro heq
  have hlt : n < 2 ^ 31 := by
    rcases asInt_eq (inEleven n) with ⟨h, hr⟩ | ⟨h, hr⟩ <;> omega
  have hhigh := inEleven_le (Nat.le_of_lt_succ hlt) (rfl : _ = 5021369976)
  rcases asInt_eq (inEleven n) with ⟨h, hr⟩ | ⟨h, hr⟩ <;> omega

/-- The rate of a number without a unit is none or right exactly when the number is harmless. -/
theorem harmless_iff (n : Nat) :
    (asInt (inEleven n) < 1024 ∨ asInt (inEleven n) / 1024 = (n / 1024 : Nat)) ↔ Harmless n := by
  by_cases hlarge : 10 ^ 9 ≤ n
  · rw [or_iff_left_of_imp fun heq => by_contra fun hpass => quotient_ne_of_large hlarge hpass heq]
    have := asInt_eq (inEleven n)
    unfold Harmless
    omega
  · have hhigh := inEleven_le (Nat.le_of_lt_succ (Nat.lt_of_not_le hlarge)) (rfl : _ = 2122152921)
    have := asInt_eq (inEleven n)
    rw [← quotient_iff_of_small (Nat.lt_of_not_le hlarge)]
    omega
/-! ### What is denoted -/

theorem notDigit_of_timesOf (h : timesOf c = some times) : NotDigit c := by
  unfold timesOf at h
  split_ifs at h with h₁ h₂ h₃
  · rcases h₁ with rfl | rfl <;> decide
  · rcases h₂ with rfl | rfl <;> decide
  · rcases h₃ with rfl | rfl <;> decide

theorem timesOf_toInt (h : timesOf c = some times) : 0 ≤ times.toInt := by
  unfold timesOf at h
  split_ifs at h <;> cases h <;> decide

theorem denotes_unit_iff (hc : timesOf c = some times) :
    Denotes (ds ++ [c]) n ↔
      Digits ds ∧ ds ≠ [] ∧ n = valueIn 10 ds * times.toInt.toNat := by
  constructor
  · intro h
    -- the string is read apart in only one way
    generalize hs : ds ++ [c] = s at h
    cases h with
    | unit hds hne hc' =>
        obtain ⟨rfl, hcs⟩ := List.append_inj' hs rfl
        obtain rfl := (List.cons.inj hcs).1
        obtain rfl := Option.some.inj (hc.symm.trans hc')
        exact ⟨hds, hne, rfl⟩
    | plain hds hne =>
        have hmem : c ∈ s := hs ▸ List.mem_append_right _ List.mem_cons_self
        exact absurd hds (not_digits_of_mem hmem (notDigit_of_timesOf hc))
  · rintro ⟨hds, hne, rfl⟩
    exact .unit hds hne hc

theorem denotes_plain_iff (hs : Digits s) (hne : s ≠ []) :
    Denotes s n ↔ n = valueIn 10 s / 1024 := by
  constructor
  · intro h
    cases h with
    | unit hds hne' hc =>
        exact absurd hs (not_digits_of_mem (List.mem_append_right _ List.mem_cons_self)
          (notDigit_of_timesOf hc))
    | plain => rfl
  · rintro rfl
    exact .plain hs hne

/-! ### The rate -/

/-- The rate of a number with a unit. -/
theorem toNat_unit_rate (hc : timesOf c = some times) (v : Nat) :
    (Int32.ofInt v * times).toUInt32.toNat = v * times.toInt.toNat % 2 ^ 32 := by
  have htimes : times = Int32.ofInt times.toInt.toNat := by
    rw [Int.toNat_of_nonneg (timesOf_toInt hc), Int32.ofInt_toInt]
  have hprod : Int32.ofInt v * times = Int32.ofInt (v * times.toInt.toNat : Nat) := by
    conv_lhs => rw [htimes]
    rw [← Int32.ofInt_mul]
    push_cast
    rfl
  rw [hprod, toNat_toUInt32_ofInt]

theorem toInt_ofInt_eq_asInt (n : Nat) : (Int32.ofInt n).toInt = asInt n := Int32.toInt_ofInt

/-- The rate of a number without a unit. -/
theorem toNat_plain_rate (h : ¬ Int32.ofInt n < 1024) :
    ((Int32.ofInt n / 1024 * 1).toUInt32.toNat : Int) = asInt n / 1024 := by
  have hk : (1024 : Int32).toInt = 1024 := rfl
  rw [Int32.lt_iff_toInt_lt, hk, Int.not_lt] at h
  have hquot : (Int32.ofInt n / 1024).toInt = (Int32.ofInt n).toInt / 1024 :=
    toInt_div_of_nonneg (by omega) (by rw [hk]; omega)
  have hnonneg : 0 ≤ (Int32.ofInt n / 1024).toInt := by omega
  rw [Int32.mul_one, toNat_toUInt32 hnonneg, hquot, toInt_ofInt_eq_asInt]

theorem right_rejected : Outcome.Right s .rejected := ⟨nofun, nofun⟩

theorem right_started_iff {p : Nat} {rate : UInt32} :
    Outcome.Right s (.started p rate) ↔ Denotes s rate.toNat := by
  constructor
  · exact fun h => h.denotes p rate rfl
  · rintro h
    refine ⟨nofun, ?_⟩
    rintro _ _ ⟨⟩
    exact h

/-- A string that ends with a unit. -/
theorem bandwidth_unit_iff (p : Nat) (hc : NotDigit c) :
    Outcome.Right (ds ++ [c]) (bandwidth p (ds ++ [c])) ↔ WellRead (ds ++ [c]) := by
  have hplain : ¬ Digits (ds ++ [c]) :=
    not_digits_of_mem (List.mem_append_right _ List.mem_cons_self) hc
  have hwell : WellRead (ds ++ [c]) ↔ ∀ times, Digits ds → timesOf c = some times →
      ds ≠ [] ∧ valueIn 10 ds * times.toInt.toNat < 2 ^ 32 := by
    constructor
    · exact fun h times hds htimes => h.unit ds c times rfl hds htimes
    · intro h
      refine ⟨by simp, fun ds' c' times hs hds htimes => ?_, fun hno => absurd hno hplain⟩
      obtain ⟨rfl, hcs⟩ := List.append_inj' hs rfl
      obtain rfl := (List.cons.inj hcs).1
      exact h times hds htimes
  unfold bandwidth
  -- what stands before the unit is read in base ten
  rw [List.getLast?_concat, hwell]
  dsimp only
  rw [if_pos hc, List.dropLast_concat]
  cases htimes : timesOf c with
  | none => exact iff_of_true right_rejected nofun
  | some times =>
      by_cases hds : Digits ds
      · have hloop : unitLoop ds 0 = some (Int32.ofInt (valueIn 10 ds : Nat)) :=
          unitLoop_digits hds 0
        rw [hloop]
        dsimp only
        rw [right_started_iff, toNat_unit_rate htimes, denotes_unit_iff htimes]
        constructor
        · rintro ⟨-, hne, hmod⟩ _ _ ⟨⟩
          exact ⟨hne, by omega⟩
        · intro h
          obtain ⟨hne, hlt⟩ := h times hds rfl
          exact ⟨hds, hne, Nat.mod_eq_of_lt hlt⟩
      · rw [unitLoop_not_digits hds]
        exact iff_of_true right_rejected fun _ hno => absurd hno hds

/-- A string that ends with a digit. -/
theorem bandwidth_plain_iff (p : Nat) (hc : ¬ NotDigit c) :
    Outcome.Right (ds ++ [c]) (bandwidth p (ds ++ [c])) ↔ WellRead (ds ++ [c]) := by
  have hne : ds ++ [c] ≠ [] := by simp
  have hwell : WellRead (ds ++ [c]) ↔
      (Digits (ds ++ [c]) → Harmless (valueIn 10 (ds ++ [c]))) := by
    constructor
    · exact fun h => h.plain
    · intro h
      refine ⟨hne, fun ds' c' times hs _ htimes => ?_, h⟩
      obtain ⟨-, hcs⟩ := List.append_inj' hs rfl
      obtain rfl := (List.cons.inj hcs).1
      exact absurd (notDigit_of_timesOf htimes) hc
  unfold bandwidth
  rw [List.getLast?_concat, hwell]
  dsimp only
  rw [if_neg hc]
  generalize ds ++ [c] = s at hne
  by_cases hs : Digits s
  · have hloop : plainLoop s 0 = some (Int32.ofInt (valueIn 11 s : Nat)) := plainLoop_digits hs 0
    rw [hloop]
    dsimp only
    rw [← harmless_iff, ← valueIn_eleven hs]
    -- a rate below 1024 is rejected, whatever the string denotes
    have hlt : Int32.ofInt (valueIn 11 s : Nat) < 1024 ↔ asInt (valueIn 11 s) < 1024 := by
      rw [Int32.lt_iff_toInt_lt, toInt_ofInt_eq_asInt]
      exact Iff.rfl
    by_cases hsmall : Int32.ofInt (valueIn 11 s : Nat) < 1024
    · rw [if_pos hsmall]
      exact iff_of_true right_rejected fun _ => .inl (hlt.mp hsmall)
    · have hrate := toNat_plain_rate hsmall
      rw [if_neg hsmall, right_started_iff, denotes_plain_iff hs hne]
      constructor
      · intro h _
        rw [h] at hrate
        exact .inr hrate.symm
      · intro h
        rcases h hs with hno | heq
        · exact absurd (hlt.mpr hno) hsmall
        · rw [heq] at hrate
          exact_mod_cast hrate
  · rw [plainLoop_not_digits hs]
    exact iff_of_true right_rejected fun hno => absurd hno hs

theorem bandwidth_right_iff (p : Nat) (s : List UInt8) :
    Outcome.Right s (bandwidth p s) ↔ WellRead s := by
  rcases List.eq_nil_or_concat s with rfl | ⟨ds, c, rfl⟩
  · exact iff_of_false (fun h => h.1 rfl) fun h => h.nonempty rfl
  · rw [List.concat_eq_append]
    by_cases hc : NotDigit c
    · exact bandwidth_unit_iff p hc
    · exact bandwidth_plain_iff p hc

theorem atXyperfReq_right_iff (r : Request) (s : List UInt8) :
    (atXyperfReq r s).Right s ↔ (r.Reaches → WellRead s) := by
  unfold atXyperfReq
  by_cases hearly : r.parsed = false ∨ r.taskRuns = true ∨ r.psNetifIsOk = false
  · rw [if_pos hearly]
    refine iff_of_true right_rejected fun ⟨hparsed, hruns, hok, _⟩ => ?_
    rw [hparsed, hruns, hok] at hearly
    simp at hearly
  · rw [if_neg hearly]
    cases hproto : r.protocolType with
    | none => exact iff_of_true right_rejected fun hno => absurd hproto hno.2.2.2
    | some p =>
        have hreach : r.Reaches := by
          simp only [not_or, Bool.not_eq_false, Bool.not_eq_true] at hearly
          exact ⟨hearly.1, hearly.2.1, hearly.2.2, by simp [hproto]⟩
        exact (bandwidth_right_iff p s).trans ⟨fun h _ => h, fun h => h hreach⟩

/-! ### The milliseconds -/

/-- The rate is over the limit, or not 0 and the product fits. -/
def Timed (headerLen : Nat) (packetSize rateInKbps : UInt32) : Prop :=
  1024 * 1024 < rateInKbps.toNat ∨
    rateInKbps ≠ 0 ∧ 8000 * (packetSize.toNat + 12 + headerLen) < 2 ^ 32

theorem toNat_rate {rate : UInt32} (h : ¬ 1024 * 1024 < rate.toNat) :
    (rate * 1024).toNat = rate.toNat * 1024 :=
  (UInt32.toNat_mul rate 1024).trans (Nat.mod_eq_of_lt (by
    change rate.toNat * 1024 < _
    omega))

theorem client_right_iff (headerLen packetSize rateInKbps : UInt32) :
    DurationRight headerLen.toNat packetSize rateInKbps (client headerLen packetSize rateInKbps) ↔
      Timed headerLen.toNat packetSize rateInKbps := by
  have hlimit : rateInKbps > 1024 * 1024 ↔ 1024 * 1024 < rateInKbps.toNat :=
    UInt32.lt_iff_toNat_lt
  unfold DurationRight Timed client
  by_cases hover : 1024 * 1024 < rateInKbps.toNat
  · rw [if_pos (hlimit.mpr hover)]
    exact iff_of_true (.inl rfl) (.inl hover)
  · rw [if_neg fun h => hover (hlimit.mp h), or_iff_right hover]
    have hrate := toNat_rate hover
    have hzero : rateInKbps * 1024 = 0 ↔ rateInKbps = 0 := by
      rw [← UInt32.toNat_inj, ← UInt32.toNat_inj, hrate]
      change rateInKbps.toNat * 1024 = 0 ↔ rateInKbps.toNat = 0
      omega
    by_cases hnull : rateInKbps = 0
    · rw [if_pos (hzero.mpr hnull)]
      exact iff_of_false (by simp) fun hno => hno.1 hnull
    · rw [if_neg fun h => hnull (hzero.mp h), and_iff_right hnull]
      simp only [reduceCtorEq, false_or, Started.packetDuration.injEq, exists_eq_left']
      refine ⟨And.left, fun hfits => ⟨hfits, ?_⟩⟩
      have htotal : (packetSize + datagramLen + headerLen).toNat =
          packetSize.toNat + 12 + headerLen.toNat := by
        have hlen : datagramLen.toNat = 12 := rfl
        rw [UInt32.toNat_add, UInt32.toNat_add, hlen]
        omega
      have hprod : (1000 * (packetSize + datagramLen + headerLen) * 8).toNat =
          8000 * (packetSize.toNat + 12 + headerLen.toNat) := by
        have height : (8 : UInt32).toNat = 8 := rfl
        have hthousand : (1000 : UInt32).toNat = 1000 := rfl
        rw [UInt32.toNat_mul, UInt32.toNat_mul, htotal, height, hthousand]
        omega
      rw [UInt32.toNat_div, hprod, hrate]

/-- **The rate of a test.**  The command takes a string for the rate it denotes exactly when it is
well read; and a client waits the right time exactly when it is timed. -/
theorem xyperf_right_iff (r : Request) (s : List UInt8) (packetSize rateInKbps : UInt32) :
    ((atXyperfReq r s).Right s ↔ (r.Reaches → WellRead s)) ∧
      (DurationRight (8 + 20) packetSize rateInKbps (xyperfUdpIpv4Client packetSize rateInKbps) ↔
        Timed (8 + 20) packetSize rateInKbps) ∧
      (DurationRight (8 + 40) packetSize rateInKbps (xyperfUdpIpv6Client packetSize rateInKbps) ↔
        Timed (8 + 40) packetSize rateInKbps) :=
  ⟨atXyperfReq_right_iff r s, client_right_iff (8 + 20) packetSize rateInKbps,
    client_right_iff (8 + 40) packetSize rateInKbps⟩

/-- A test over UDP that nothing stands against. -/
def udpRequest : Request := ⟨true, false, true, [117, 100, 112]⟩

set_option maxRecDepth 4000 in
/-- `8192` bits per second are taken for 10 kbps. -/
theorem not_right_8192 : ¬ (atXyperfReq udpRequest [56, 49, 57, 50]).Right [56, 49, 57, 50] := by
  intro h
  have hstart : atXyperfReq udpRequest [56, 49, 57, 50] = .started 0 10 := by decide
  have hden := h.denotes 0 10 hstart
  rw [denotes_plain_iff (by decide) (by decide)] at hden
  exact absurd hden (by decide)

end XY1100.Perf
