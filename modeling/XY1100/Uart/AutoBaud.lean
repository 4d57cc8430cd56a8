import Mathlib.Tactic

/-!
# Uart — the baud rate of the line

`AutoBaudStart` takes the timer at three falling edges of the line.  In `AUTOBAUD_STATE_VERIFY` it
takes the first edge to the second as two bit times and to the third as eight, and looks the rate up
in a table.  The timer counts down from `SysTick_LOAD_RELOAD_Msk`, modulo which the differences are
taken.

* `decides_iff`: the rate is the one of the table whose window holds the rate measured, or there is
  none and the code waits for another edge, exactly when the first two edges are at different times
  modulo the reload value.  Otherwise the code divides by zero.
-/

namespace XY1100.Uart

/-! ### The code -/

inductive AutobaudState
  | init
  | waitintFirst
  | verify
  | done
  deriving Repr, DecidableEq

/-- What a computation of the code may run into. -/
inductive BaudFault
  | divideByZero
  | outOfTable
  deriving Repr, DecidableEq

/-- `g_autobaud_table`. -/
def autobaudTable : List (BitVec 32) := [2400, 4800, 9600, 19200, 38400, 57600, 115200]

/-- `AUTOBAUD_SUPPORT_NUM`. -/
def autobaudSupportNum : Int := 7

/-- `SysTick_LOAD_RELOAD_Msk`. -/
def reloadMsk : BitVec 32 := 0xFFFFFF

/-- `a / b`. -/
def divide (a b : BitVec 32) : Except BaudFault (BitVec 32) :=
  if b = 0 then .error .divideByZero else .ok (a / b)

/-- The condition of the table search. -/
def InWindow (baudrate rate : BitVec 32) : Prop :=
  baudrate > rate * 8 / 10 ∧ baudrate < rate * 12 / 10

instance (baudrate rate : BitVec 32) : Decidable (InWindow baudrate rate) :=
  inferInstanceAs (Decidable (_ ∧ _))

/-- The table search from entry `i` down: the entry found, or -1, and `baudrate`.  The build has
`char` signed. -/
def searchTable (baudrate : BitVec 32) (i : Int) : Except BaudFault (Int × BitVec 32) :=
  if 0 ≤ i then
    match autobaudTable[i.toNat]? with
    | none => .error .outOfTable
    | some rate => if InWindow baudrate rate then .ok (i, rate) else searchTable baudrate (i - 1)
  else .ok (i, baudrate)
termination_by (i + 1).toNat

/-- `bits_len1` and `bits_len2`: the time from one edge to another. -/
def bitsLen (tick tick' : BitVec 24) : BitVec 32 :=
  (tick.setWidth 32 + reloadMsk - tick'.setWidth 32) % reloadMsk

/-- Where the computation of `AUTOBAUD_STATE_VERIFY` leads. -/
inductive Verdict
  | waitFirst
  | complete (baudrate : BitVec 32)
  deriving Repr, DecidableEq

/-- The computation of `AUTOBAUD_STATE_VERIFY`. -/
def verifyTicks (hclk : BitVec 32) (tick0 tick1 tick2 : BitVec 24) : Except BaudFault Verdict := do
  let bitsLen1 := bitsLen tick0 tick1
  let bitsLen2 := bitsLen tick0 tick2
  let checkvalue ← divide (bitsLen2 * 10) bitsLen1
  if checkvalue > 36 ∧ checkvalue < 44 then
    let baudrate ← divide (hclk * 8) bitsLen2
    let (i, baudrate) ← searchTable baudrate (autobaudSupportNum - 1)
    if 0 ≤ i then return .complete baudrate else return .waitFirst
  else return .waitFirst

/-- The loop that counts the edges of the rest of the command. -/
structure EdgeCount where
  rxdpinLast : Bool
  edgeTriggleCnt : Nat := 0
  systickReloadFlag : Nat := 0

def EdgeCount.sample (e : EdgeCount) (rxdpin countflag : Bool) : EdgeCount where
  rxdpinLast := rxdpin
  edgeTriggleCnt := if e.rxdpinLast ∧ !rxdpin then e.edgeTriggleCnt + 1 else e.edgeTriggleCnt
  systickReloadFlag := if countflag then e.systickReloadFlag + 1 else e.systickReloadFlag

/-- The completion: ten more edges, then the idle line.  The pin and `COUNTFLAG` are read from a list;
`none` where it ends first. -/
def completeEdges (e : EdgeCount) : List (Bool × Bool) → Option AutobaudState
  | [] => none
  | (rxdpin, countflag) :: line =>
      let e := e.sample rxdpin countflag
      if e.edgeTriggleCnt < 10 ∧ e.systickReloadFlag < 2 then completeEdges e line
      else if e.systickReloadFlag < 2 then
        if line.any Prod.fst then some .done else none
      else some .init

/-- The next state after `AUTOBAUD_STATE_VERIFY`, and `baudrate` in it. -/
def Verdict.next (rxdpinLast : Bool) (line : List (Bool × Bool)) :
    Verdict → Option (AutobaudState × Option (BitVec 32))
  | .waitFirst => some (.waitintFirst, none)
  | .complete baudrate =>
      (completeEdges { rxdpinLast } line).map fun state => (state, some baudrate)

/-- `AUTOBAUD_STATE_VERIFY`. -/
def autobaudVerify (hclk : BitVec 32) (tick0 tick1 tick2 : BitVec 24) (rxdpinLast : Bool)
    (line : List (Bool × Bool)) : Except BaudFault (Option (AutobaudState × Option (BitVec 32))) :=
  (verifyTicks hclk tick0 tick1 tick2).map (Verdict.next rxdpinLast line)

/-! ### The table -/

theorem lt_of_mem_window {baudrate rate : BitVec 32} (hr : rate ∈ autobaudTable) :
    InWindow baudrate rate ↔
      rate.toNat * 8 / 10 < baudrate.toNat ∧ baudrate.toNat < rate.toNat * 12 / 10 := by
  unfold InWindow
  simp only [autobaudTable, List.mem_cons, List.not_mem_nil, or_false] at hr
  rcases hr with rfl | rfl | rfl | rfl | rfl | rfl | rfl <;>
    exact and_congr BitVec.lt_def BitVec.lt_def

theorem toNat_autobaudTable : autobaudTable.map BitVec.toNat =
    [2400, 4800, 9600, 19200, 38400, 57600, 115200] := rfl

/-- The windows are apart. -/
theorem window_unique {baudrate rate rate' : BitVec 32} (hr : rate ∈ autobaudTable)
    (hr' : rate' ∈ autobaudTable) (h : InWindow baudrate rate) (h' : InWindow baudrate rate') :
    rate' = rate := by
  rw [lt_of_mem_window hr] at h
  rw [lt_of_mem_window hr'] at h'
  have hsep : ∀ r ∈ autobaudTable.map BitVec.toNat, ∀ r' ∈ autobaudTable.map BitVec.toNat,
      r' ≠ r → r * 12 / 10 ≤ r' * 8 / 10 ∨ r' * 12 / 10 ≤ r * 8 / 10 := by
    rw [toNat_autobaudTable]
    decide +kernel
  by_contra hne
  have hne' : rate'.toNat ≠ rate.toNat := fun heq => hne (BitVec.toNat_inj.mp heq)
  rcases hsep _ (List.mem_map_of_mem hr) _ (List.mem_map_of_mem hr') hne' with hle | hle <;> omega

/-- What the search finds from entry `n - 1` down. -/
theorem searchTable_spec (baudrate : BitVec 32) : ∀ n ≤ 7,
    (∃ i : Nat, i < n ∧ ∃ rate, autobaudTable[i]? = some rate ∧ InWindow baudrate rate ∧
      searchTable baudrate ((n : Int) - 1) = .ok ((i : Int), rate)) ∨
    ((∀ i < n, ∀ rate, autobaudTable[i]? = some rate → ¬ InWindow baudrate rate) ∧
      searchTable baudrate ((n : Int) - 1) = .ok (-1, baudrate))
  | 0, _ => by
      refine .inr ⟨fun i hi => absurd hi (Nat.not_lt_zero i), ?_⟩
      rw [searchTable, if_neg (by decide)]
      rfl
  | n + 1, hn => by
      have hcast : ((n + 1 : Nat) : Int) - 1 = n := by omega
      have hlen : n < autobaudTable.length := hn
      rw [hcast, searchTable, if_pos (Int.natCast_nonneg n), Int.toNat_natCast,
        List.getElem?_eq_getElem hlen]
      dsimp only
      by_cases hwin : InWindow baudrate autobaudTable[n]
      · rw [if_pos hwin]
        exact .inl ⟨n, Nat.lt_succ_self n, _, List.getElem?_eq_getElem hlen, hwin, rfl⟩
      · rw [if_neg hwin]
        rcases searchTable_spec baudrate n (Nat.le_of_succ_le hn) with
          ⟨i, hi, rate, hrate, hin, heq⟩ | ⟨hnone, heq⟩
        · exact .inl ⟨i, Nat.lt_succ_of_lt hi, rate, hrate, hin, heq⟩
        · refine .inr ⟨fun i hi rate hrate => ?_, heq⟩
          rcases Nat.lt_succ_iff_lt_or_eq.mp hi with hlt | rfl
          · exact hnone i hlt rate hrate
          · rw [List.getElem?_eq_getElem hlen] at hrate
            cases hrate
            exact hwin

/-- The whole search. -/
theorem searchTable_cases (baudrate : BitVec 32) :
    (∃ (i : Int) (rate : BitVec 32), 0 ≤ i ∧ rate ∈ autobaudTable ∧ InWindow baudrate rate ∧
      searchTable baudrate (autobaudSupportNum - 1) = .ok (i, rate)) ∨
    ((∀ rate ∈ autobaudTable, ¬ InWindow baudrate rate) ∧
      searchTable baudrate (autobaudSupportNum - 1) = .ok (-1, baudrate)) := by
  rcases searchTable_spec baudrate 7 le_rfl with ⟨i, -, rate, hrate, hin, heq⟩ | ⟨hnone, heq⟩
  · exact .inl ⟨i, rate, Int.natCast_nonneg i, List.mem_of_getElem? hrate, hin, heq⟩
  · refine .inr ⟨fun rate hmem => ?_, heq⟩
    obtain ⟨i, hi, hrate⟩ := List.getElem_of_mem hmem
    exact hnone i hi rate (hrate ▸ List.getElem?_eq_getElem hi)

/-! ### The decision -/

/-- The edges are as far apart as those of `AT` are. -/
def RatioOk (tick0 tick1 tick2 : BitVec 24) : Prop :=
  (bitsLen tick0 tick2 * 10) / bitsLen tick0 tick1 > 36 ∧
    (bitsLen tick0 tick2 * 10) / bitsLen tick0 tick1 < 44

/-- The rate measured. -/
def measured (hclk : BitVec 32) (tick0 tick2 : BitVec 24) : BitVec 32 :=
  hclk * 8 / bitsLen tick0 tick2

/-- The computation comes to an end without a fault, at the one rate of the table whose window holds
the rate measured, or back at the first edge where the ratio or every window fails; and no rate out
of the table is ever completed. -/
structure Decides (hclk : BitVec 32) (tick0 tick1 tick2 : BitVec 24) : Prop where
  total : ∃ v, verifyTicks hclk tick0 tick1 tick2 = .ok v
  complete : ∀ rate, verifyTicks hclk tick0 tick1 tick2 = .ok (.complete rate) →
    RatioOk tick0 tick1 tick2 ∧ rate ∈ autobaudTable ∧
      ∀ rate' ∈ autobaudTable, InWindow (measured hclk tick0 tick2) rate' ↔ rate' = rate
  waitFirst : verifyTicks hclk tick0 tick1 tick2 = .ok .waitFirst →
    ¬ (RatioOk tick0 tick1 tick2 ∧
      ∃ rate ∈ autobaudTable, InWindow (measured hclk tick0 tick2) rate)
  done : ∀ rxdpinLast line baudrate,
    autobaudVerify hclk tick0 tick1 tick2 rxdpinLast line = .ok (some (.done, baudrate)) →
      ∃ rate ∈ autobaudTable, baudrate = some rate

theorem divide_ok {a b : BitVec 32} (h : b ≠ 0) : divide a b = .ok (a / b) := if_neg h

theorem divide_zero (a : BitVec 32) : divide a 0 = .error .divideByZero := if_pos rfl

/-- A ratio in the window is of a width that is not zero. -/
theorem RatioOk.ne_zero {tick0 tick1 tick2 : BitVec 24} (h : RatioOk tick0 tick1 tick2) :
    bitsLen tick0 tick2 ≠ 0 := by
  intro hzero
  have hgt := h.1
  rw [hzero] at hgt
  simp at hgt

variable {hclk : BitVec 32} {tick0 tick1 tick2 : BitVec 24}

theorem ok_bind_baud {α β : Type} (a : α) (f : α → Except BaudFault β) :
    (Except.ok a >>= f) = f a := rfl

variable (hclk tick2) in
/-- What the computation decides, unless the first width is zero. -/
theorem verifyTicks_cases (h : bitsLen tick0 tick1 ≠ 0) :
    (RatioOk tick0 tick1 tick2 ∧ ∃ rate ∈ autobaudTable,
      InWindow (measured hclk tick0 tick2) rate ∧
        verifyTicks hclk tick0 tick1 tick2 = .ok (.complete rate)) ∨
    (¬ (RatioOk tick0 tick1 tick2 ∧
      ∃ rate ∈ autobaudTable, InWindow (measured hclk tick0 tick2) rate) ∧
        verifyTicks hclk tick0 tick1 tick2 = .ok .waitFirst) := by
  unfold verifyTicks
  dsimp only
  rw [divide_ok h, ok_bind_baud]
  have hneg : ¬ (0 : Int) ≤ -1 := by omega
  by_cases hratio : RatioOk tick0 tick1 tick2
  · have hr := hratio
    unfold RatioOk at hr
    rw [if_pos hr, divide_ok hratio.ne_zero, ok_bind_baud]
    unfold measured
    rcases searchTable_cases (hclk * 8 / bitsLen tick0 tick2) with
      ⟨i, rate, hi, hmem, hin, heq⟩ | ⟨hnone, heq⟩
    · refine .inl ⟨hratio, rate, hmem, hin, ?_⟩
      rw [heq, ok_bind_baud]
      exact if_pos hi
    · refine .inr ⟨fun ⟨_, rate, hmem, hin⟩ => hnone rate hmem hin, ?_⟩
      rw [heq, ok_bind_baud]
      exact if_neg hneg
  · have hr := hratio
    unfold RatioOk at hr
    rw [if_neg hr]
    exact .inr ⟨fun hyes => hratio hyes.1, rfl⟩

/-- The completion ends with the rate decided on. -/
theorem Verdict.eq_complete_of_next {rxdpinLast : Bool} {line : List (Bool × Bool)}
    {baudrate : Option (BitVec 32)} {v : Verdict}
    (h : v.next rxdpinLast line = some (.done, baudrate)) :
    ∃ rate, v = .complete rate ∧ baudrate = some rate := by
  cases v with
  | waitFirst => cases h
  | complete rate =>
      obtain ⟨state, -, heq⟩ := Option.map_eq_some_iff.mp h
      cases heq
      exact ⟨rate, rfl, rfl⟩

theorem autobaudVerify_done {rxdpinLast : Bool} {line : List (Bool × Bool)}
    {baudrate : Option (BitVec 32)} {v : Verdict}
    (hv : verifyTicks hclk tick0 tick1 tick2 = .ok v)
    (h : autobaudVerify hclk tick0 tick1 tick2 rxdpinLast line = .ok (some (.done, baudrate))) :
    ∃ rate, v = .complete rate ∧ baudrate = some rate := by
  unfold autobaudVerify at h
  rw [hv] at h
  exact Verdict.eq_complete_of_next (Except.ok.inj h)

/-- The first width is zero where the ticks are equal modulo the reload value. -/
theorem bitsLen_eq_zero_iff (tick tick' : BitVec 24) :
    bitsLen tick tick' = 0 ↔ tick.toNat % 0xFFFFFF = tick'.toNat % 0xFFFFFF := by
  have ht := tick.isLt
  have ht' := tick'.isLt
  have hzero : (0 : BitVec 32).toNat = 0 := rfl
  have hreload : reloadMsk.toNat = 0xFFFFFF := rfl
  rw [← BitVec.toNat_inj]
  unfold bitsLen
  rw [BitVec.toNat_umod, BitVec.toNat_sub, BitVec.toNat_add, BitVec.toNat_setWidth,
    BitVec.toNat_setWidth, hzero, hreload]
  -- the 32-bit difference does not wrap
  have hdiff : (2 ^ 32 - tick'.toNat % 2 ^ 32 + (tick.toNat % 2 ^ 32 + 0xFFFFFF) % 2 ^ 32) % 2 ^ 32
      = tick.toNat + 0xFFFFFF - tick'.toNat := by omega
  rw [hdiff]
  omega

theorem not_decides_of_zero (h : bitsLen tick0 tick1 = 0) :
    ¬ Decides hclk tick0 tick1 tick2 := by
  rintro ⟨⟨v, hv⟩, -, -, -⟩
  unfold verifyTicks at hv
  dsimp only at hv
  rw [h, divide_zero] at hv
  cases hv

/-- **The decision.** -/
theorem decides_iff (hclk : BitVec 32) (tick0 tick1 tick2 : BitVec 24) :
    Decides hclk tick0 tick1 tick2 ↔ tick0.toNat % 0xFFFFFF ≠ tick1.toNat % 0xFFFFFF := by
  rw [Ne, ← bitsLen_eq_zero_iff]
  constructor
  · exact fun hd hzero => not_decides_of_zero hzero hd
  · intro h
    rcases verifyTicks_cases hclk tick2 h with
      ⟨hratio, rate, hmem, hin, heq⟩ | ⟨hno, heq⟩
    · refine ⟨⟨_, heq⟩, fun rate' h' => ?_, fun h' => ?_, fun last line baudrate hd => ?_⟩
      · rw [heq] at h'
        cases h'
        exact ⟨hratio, hmem, fun rate' hmem' =>
          ⟨fun hin' => window_unique hmem hmem' hin hin', fun he => he ▸ hin⟩⟩
      · rw [heq] at h'
        cases h'
      · obtain ⟨rate', hv, hb⟩ := autobaudVerify_done heq hd
        cases hv
        exact ⟨rate, hmem, hb⟩
    · refine ⟨⟨_, heq⟩, fun rate' h' => ?_, fun _ => hno, fun last line baudrate hd => ?_⟩
      · rw [heq] at h'
        cases h'
      · obtain ⟨rate', hv, -⟩ := autobaudVerify_done heq hd
        cases hv

/-- Two edges a whole period of the timer apart, whose ticks are the same. -/
theorem not_decides_same_tick : ¬ Decides 39168000 0x800000 0x800000 0x7F0000 :=
  not_decides_of_zero ((bitsLen_eq_zero_iff _ _).mpr rfl)

end XY1100.Uart
