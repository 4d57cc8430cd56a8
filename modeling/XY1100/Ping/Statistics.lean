import Mathlib.Tactic
import XY1100.Support.Int32

/-!
# Ping — the statistics of a run

Both kinds of ping keep the numbers of requests and of replies, the longest and the shortest
round-trip time, with 0 for none so far, and the average.

* `Stats.Of.reply`: the statistics of the replies counted stay right with another reply, when the
  numbers do not overflow and no reply with a round-trip time follows one without.
* `Tally.Inv.count`: a request is counted once, when the last one has no reply yet.
-/

namespace XY1100.Ping
open Support

/-! ### The code -/

/-- `ping_info_t`. -/
structure PingInfo where
  pingSendNum : Int32
  pingReplyNum : Int32
  longestRtt : Int32
  shortestRtt : Int32
  timeAverage : Int32
  deriving DecidableEq

/-- `ping_info`, and the sum of the round-trip times. -/
structure Stats where
  info : PingInfo
  totalRtt : UInt32
  deriving DecidableEq

/-- Before the first request. -/
def Stats.zero : Stats := ⟨⟨0, 0, 0, 0, 0⟩, 0⟩

/-- A request has been sent. -/
def Stats.send (s : Stats) : Stats :=
  { s with info := { s.info with pingSendNum := s.info.pingSendNum + 1 } }

/-- `longest_rtt` with another round-trip time. -/
def keepLongest (longestRtt : Int32) (rtt : UInt32) : Int32 :=
  if longestRtt = 0 then rtt.toInt32
  else if longestRtt.toUInt32 < rtt then rtt.toInt32
  else longestRtt

/-- `shortest_rtt` with another round-trip time. -/
def keepShortest (shortestRtt : Int32) (rtt : UInt32) : Int32 :=
  if shortestRtt = 0 then rtt.toInt32
  else if rtt < shortestRtt.toUInt32 then rtt.toInt32
  else shortestRtt

/-- A reply is counted. -/
def Stats.reply (s : Stats) (rtt : UInt32) : Stats where
  info :=
    { s.info with
      pingReplyNum := s.info.pingReplyNum + 1
      longestRtt := keepLongest s.info.longestRtt rtt
      shortestRtt := keepShortest s.info.shortestRtt rtt
      timeAverage := ((s.totalRtt + rtt) / (s.info.pingReplyNum + 1).toUInt32).toInt32 }
  totalRtt := s.totalRtt + rtt

/-! ### What the statistics say -/

/-- The longest of some times, 0 for none. -/
def longestOf (ts : List Nat) : Nat := ts.max?.getD 0

/-- The shortest of some times, 0 for none. -/
def shortestOf (ts : List Nat) : Nat := ts.min?.getD 0

/-- The mean of some times, rounded down, 0 for none. -/
def averageOf (ts : List Nat) : Nat := ts.sum / ts.length

variable {t : Nat} {ts : List Nat}

theorem longestOf_cons : longestOf (t :: ts) = max t (longestOf ts) := by
  unfold longestOf
  rw [List.max?_cons]
  cases ts.max? <;> simp

theorem shortestOf_cons_of_ne (h : ts ≠ []) : shortestOf (t :: ts) = min t (shortestOf ts) := by
  unfold shortestOf
  obtain ⟨m, hm⟩ := Option.isSome_iff_exists.mp (List.isSome_min?_of_ne_nil h)
  rw [List.min?_cons, hm]
  rfl

/-- The shortest time is one of them. -/
theorem shortestOf_mem (h : ts ≠ []) : shortestOf ts ∈ ts := by
  unfold shortestOf
  obtain ⟨m, hm⟩ := Option.isSome_iff_exists.mp (List.isSome_min?_of_ne_nil h)
  rw [hm]
  exact List.min?_mem hm

theorem le_longestOf {x : Nat} (h : x ∈ ts) : x ≤ longestOf ts := by
  unfold longestOf
  obtain ⟨m, hm⟩ := Option.isSome_iff_exists.mp (List.isSome_max?_of_mem h)
  rw [hm]
  exact (List.max?_le_iff hm).mp le_rfl x h

/-- A mean is below a bound of the times. -/
theorem averageOf_lt {b : Nat} (hb : 0 < b) (h : ∀ x ∈ ts, x < b) : averageOf ts < b := by
  unfold averageOf
  rcases ts with _ | ⟨t, ts⟩
  · simpa using hb
  · have hle : ∀ x ∈ t :: ts, x ≤ b - 1 := fun x hx => Nat.le_sub_one_of_lt (h x hx)
    have hsum := List.sum_le_card_nsmul (t :: ts) (b - 1) hle
    rw [smul_eq_mul] at hsum
    -- the sum of `n` times is at most `n * (b - 1)`
    refine (Nat.div_lt_iff_lt_mul (by simp)).mpr (Nat.lt_of_le_of_lt hsum ?_)
    rw [Nat.mul_comm]
    exact Nat.mul_lt_mul_of_pos_right (by omega) (by simp)

/-- The statistics are those of so many requests and of replies after these times. -/
structure Stats.Of (s : Stats) (sent : Nat) (ts : List Nat) : Prop where
  sendNum : s.info.pingSendNum.toInt = sent
  replyNum : s.info.pingReplyNum.toInt = ts.length
  total : s.totalRtt.toNat = ts.sum
  longest : s.info.longestRtt.toInt = longestOf ts
  shortest : s.info.shortestRtt.toInt = shortestOf ts
  average : s.info.timeAverage.toInt = averageOf ts

theorem Stats.Of.zero : Stats.zero.Of 0 [] := ⟨rfl, rfl, rfl, rfl, rfl, rfl⟩

/-! ### One more -/

theorem keepLongest_toInt {x : Int32} {rtt : UInt32} (hx : 0 ≤ x.toInt)
    (hrtt : rtt.toNat < 2 ^ 31) : (keepLongest x rtt).toInt = max (rtt.toNat : Int) x.toInt := by
  have hto := toNat_toUInt32 hx
  have hnew := toInt_toInt32 hrtt
  unfold keepLongest
  split_ifs with hzero hlt
  · rw [hnew, eq_zero_iff_toInt.mp hzero]
    omega
  · rw [UInt32.lt_iff_toNat_lt] at hlt
    omega
  · rw [UInt32.lt_iff_toNat_lt] at hlt
    omega

theorem keepShortest_toInt {x : Int32} {rtt : UInt32} (hx : 0 ≤ x.toInt)
    (hrtt : rtt.toNat < 2 ^ 31) :
    (keepShortest x rtt).toInt =
      if x.toInt = 0 then (rtt.toNat : Int) else min (rtt.toNat : Int) x.toInt := by
  have hto := toNat_toUInt32 hx
  have hnew := toInt_toInt32 hrtt
  unfold keepShortest
  by_cases hzero : x = 0
  · rw [if_pos hzero, if_pos (eq_zero_iff_toInt.mp hzero), hnew]
  · rw [if_neg hzero, if_neg fun hno => hzero (eq_zero_iff_toInt.mpr hno)]
    split_ifs with hlt
    · rw [UInt32.lt_iff_toNat_lt] at hlt
      omega
    · rw [UInt32.lt_iff_toNat_lt] at hlt
      omega

variable {s : Stats} {sent : Nat}

theorem Stats.Of.send (h : s.Of sent ts) (hnum : sent + 1 < 2 ^ 31) : s.send.Of (sent + 1) ts where
  sendNum := by
    have hsucc := toInt_succ (x := s.info.pingSendNum) (by rw [h.sendNum]; omega)
    rw [h.sendNum] at hsucc
    exact hsucc.trans (by push_cast; rfl)
  replyNum := h.replyNum
  total := h.total
  longest := h.longest
  shortest := h.shortest
  average := h.average

/-- Another time after those counted: it fits, and so does the sum, and it is 0 where one has been. -/
structure Fits (ts : List Nat) (t : Nat) : Prop where
  fits : t < 2 ^ 31
  sum : ts.sum + t < 2 ^ 32
  zero : 0 ∈ ts → t = 0

/-- **One more reply**. -/
theorem Stats.Of.reply (h : s.Of sent ts) {rtt : UInt32} (hfits : Fits ts rtt.toNat)
    (hnum : ts.length + 1 < 2 ^ 31) : (s.reply rtt).Of sent (rtt.toNat :: ts) := by
  obtain ⟨hrtt, hsum, hzero⟩ := hfits
  have hlongest : 0 ≤ s.info.longestRtt.toInt := by rw [h.longest]; omega
  have hshortest : 0 ≤ s.info.shortestRtt.toInt := by rw [h.shortest]; omega
  have htotal : (s.totalRtt + rtt).toNat = ts.sum + rtt.toNat := by
    rw [UInt32.toNat_add, h.total, Nat.mod_eq_of_lt hsum]
  have hreplies : (s.info.pingReplyNum + 1).toInt = ts.length + 1 := by
    rw [toInt_succ (by rw [h.replyNum]; omega), h.replyNum]
  refine ⟨h.sendNum, hreplies, ?_, ?_, ?_, ?_⟩
  · rw [List.sum_cons, Nat.add_comm]
    exact htotal
  · have hmax := keepLongest_toInt hlongest hrtt
    rw [h.longest] at hmax
    rw [longestOf_cons]
    exact hmax.trans (by push_cast; rfl)
  · have hmin := keepShortest_toInt hshortest hrtt
    rw [h.shortest] at hmin
    refine hmin.trans ?_
    by_cases hnil : ts = []
    · subst hnil
      rfl
    · rw [shortestOf_cons_of_ne hnil]
      by_cases hunset : shortestOf ts = 0
      · -- the shortest time so far is 0, and is taken for none
        have hmem := shortestOf_mem hnil
        rw [hunset] at hmem
        rw [hunset, hzero hmem]
        rfl
      · rw [if_neg (by exact_mod_cast hunset)]
        push_cast
        rfl
  · -- the longest time is in an `int`, so every time fits one, and so does the mean
    have hall : ∀ t ∈ rtt.toNat :: ts, t < 2 ^ 31 := by
      intro t ht
      rcases List.mem_cons.mp ht with rfl | ht
      · exact hrtt
      · have hle := le_longestOf ht
        have hlt := s.info.longestRtt.toInt_lt
        rw [h.longest] at hlt
        omega
    have havg := averageOf_lt (by decide) hall
    have hcount := toNat_toUInt32 (x := s.info.pingReplyNum + 1) (by rw [hreplies]; omega)
    rw [hreplies] at hcount
    have hcount : (s.info.pingReplyNum + 1).toUInt32.toNat = ts.length + 1 := by omega
    have hquot : ((s.totalRtt + rtt) / (s.info.pingReplyNum + 1).toUInt32).toNat =
        averageOf (rtt.toNat :: ts) := by
      rw [UInt32.toNat_div, htotal, hcount]
      unfold averageOf
      rw [List.sum_cons, List.length_cons, Nat.add_comm]
    have hint := toInt_toInt32 (hquot ▸ havg)
    rw [hquot] at hint
    exact hint

/-! ### The replies counted -/

/-- `osKernelGetTickCount`. -/
def tickCount (tick : Nat) : UInt32 := UInt32.ofNat tick

/-- The ticks the code reads differ as the real ones do. -/
theorem toNat_tickCount_sub {t t' : Nat} (hle : t ≤ t') (hlt : t' - t < 2 ^ 32) :
    (tickCount t' - tickCount t).toNat = t' - t := by
  unfold tickCount
  rw [UInt32.toNat_sub, UInt32.toNat_ofNat', UInt32.toNat_ofNat']
  omega

/-- A reply that was counted: the number of its request, the tick of the request, the tick at which
the reply was put, the tick read after it, and what was taken. -/
structure Counted (κ : Type) where
  request : Nat
  startTime : Nat
  arrived : Nat
  tick : Nat
  reply : κ

/-- The round-trip time. -/
def Counted.roundTrip {κ : Type} (c : Counted κ) : Nat := c.tick - c.startTime

/-- The statistics of a run, with the number of requests sent and the replies counted. -/
structure Tally (κ : Type) where
  stats : Stats
  sent : Nat
  counted : List (Counted κ)

namespace Tally

variable {κ : Type}

/-- Before the first request. -/
def zero : Tally κ := ⟨.zero, 0, []⟩

/-- A request has been sent. -/
def send (t : Tally κ) : Tally κ := { t with stats := t.stats.send, sent := t.sent + 1 }

/-- A reply to the last request is counted. -/
def count (t : Tally κ) (startTime arrived tick : Nat) (reply : κ) : Tally κ :=
  { t with
    stats := t.stats.reply (tickCount tick - tickCount startTime)
    counted := ⟨t.sent, startTime, arrived, tick, reply⟩ :: t.counted }

/-- The round-trip times of the replies counted. -/
def roundTrips (t : Tally κ) : List Nat := t.counted.map Counted.roundTrip

/-- No request is counted twice, and each only by an answer; there are no more replies than requests;
and the statistics are those of the replies counted. -/
structure Right (Answers : Counted κ → Prop) (t : Tally κ) : Prop where
  once : (t.counted.map Counted.request).Nodup
  answers : ∀ c ∈ t.counted, Answers c
  replies : t.stats.info.pingReplyNum ≤ t.stats.info.pingSendNum
  stats : t.stats.Of t.sent t.roundTrips

/-- What holds between two steps. -/
structure Inv (Answers : Counted κ → Prop) (t : Tally κ) : Prop where
  stats : t.stats.Of t.sent t.roundTrips
  answers : ∀ c ∈ t.counted, Answers c
  once : (t.counted.map Counted.request).Nodup
  below : ∀ c ∈ t.counted, c.request ≤ t.sent
  few : t.counted.length ≤ t.sent

/-- The last request has no reply. -/
structure Unanswered (t : Tally κ) : Prop where
  below : ∀ c ∈ t.counted, c.request < t.sent
  few : t.counted.length < t.sent

variable {Answers : Counted κ → Prop} {t : Tally κ}

theorem Inv.zero : (zero : Tally κ).Inv Answers where
  stats := Stats.Of.zero
  answers _ hno := absurd hno List.not_mem_nil
  once := List.nodup_nil
  below _ hno := absurd hno List.not_mem_nil
  few := le_rfl

theorem Inv.right (h : t.Inv Answers) : t.Right Answers where
  once := h.once
  answers := h.answers
  replies := by
    rw [Int32.le_iff_toInt_le, h.stats.replyNum, h.stats.sendNum]
    have hfew := h.few
    unfold roundTrips
    rw [List.length_map]
    exact_mod_cast hfew
  stats := h.stats

theorem Inv.send (h : t.Inv Answers) (hnum : t.sent + 1 < 2 ^ 31) :
    t.send.Inv Answers ∧ t.send.Unanswered := by
  have hinv : t.send.Inv Answers :=
    ⟨h.stats.send hnum, h.answers, h.once, fun c hc => (h.below c hc).trans (Nat.le_succ _),
      h.few.trans (Nat.le_succ _)⟩
  exact ⟨hinv, fun c hc => Nat.lt_succ_of_le (h.below c hc), Nat.lt_succ_of_le h.few⟩

/-- **Another reply is counted.** -/
theorem Inv.count (h : t.Inv Answers) (hopen : t.Unanswered) {startTime arrived tick : Nat}
    {reply : κ} (hanswers : Answers ⟨t.sent, startTime, arrived, tick, reply⟩)
    (hle : startTime ≤ tick) (hfits : Fits t.roundTrips (tick - startTime)) :
    (t.count startTime arrived tick reply).Inv Answers := by
  have hrtt := toNat_tickCount_sub hle (by have := hfits.fits; omega)
  have hsent : t.sent < 2 ^ 31 := by
    have hlt := t.stats.info.pingSendNum.toInt_lt
    rw [h.stats.sendNum] at hlt
    omega
  have hlen : t.roundTrips.length = t.counted.length := List.length_map _
  have hfew := hopen.few
  have hstats := h.stats.reply (hrtt.symm ▸ hfits) (by omega)
  rw [hrtt] at hstats
  refine ⟨hstats, ?_, ?_, ?_, hfew⟩
  · intro c hc
    rcases List.mem_cons.mp hc with rfl | hold
    · exact hanswers
    · exact h.answers c hold
  · -- the replies before this one are to earlier requests
    refine List.nodup_cons.mpr ⟨fun hno => ?_, h.once⟩
    obtain ⟨c, hold, heq⟩ := List.mem_map.mp hno
    exact absurd heq (hopen.below c hold).ne
  · intro c hc
    rcases List.mem_cons.mp hc with rfl | hold
    · exact le_rfl
    · exact h.below c hold

end Tally

end XY1100.Ping
