import XY1100.Uart.Recorder

/-!
# Uart — which character the sampler recognises

The handler looks for an idle and a start bit in front of every eight bits it has recorded, wherever
a frame began.  In a line of frames the ten bits from a one on that is followed by a zero may spell
a character that was not sent (`Stray`).

* `recognises_iff`: `special_id` is the code of the first character received that is in the table,
  exactly when that code fits the byte and no stray character comes first with another one.
-/

namespace XY1100.Uart
open Support

/-! ### The first character in a list of bits -/

variable {table : List (BitVec 8)}

theorem foundId_of_suffix {bits bits' : List Bool} (h : bits <:+ bits')
    (hne : foundId table bits ≠ 0) : foundId table bits' = foundId table bits := by
  obtain ⟨pre, rfl⟩ := h
  induction pre with
  | nil => rfl
  | cons b pre ih =>
    rw [List.cons_append, foundId, ih, if_pos hne]

/-- No ten bits in a row spell a character. -/
theorem foundId_eq_zero {l : List Bool}
    (h : ∀ n ≤ l.length, lastId table (l.take n).reverse = 0) : foundId table l.reverse = 0 := by
  induction l using List.reverseRecOn with
  | nil => rfl
  | append_singleton l b ih =>
    have hl : foundId table l.reverse = 0 := by
      refine ih fun n hn => ?_
      have hlt := h n (by rw [List.length_append]; omega)
      rwa [List.take_append_of_le_length hn] at hlt
    have hlast := h (l ++ [b]).length le_rfl
    rw [List.take_length] at hlast
    rw [List.reverse_append] at hlast ⊢
    exact (foundId_cons hl).trans hlast

/-- The first ten bits in a row that spell a character decide. -/
theorem foundId_eq_of_first {l : List Bool} {n : Nat} (hn : n ≤ l.length)
    (hne : lastId table (l.take n).reverse ≠ 0)
    (hfirst : ∀ k < n, lastId table (l.take k).reverse = 0) :
    foundId table l.reverse = lastId table (l.take n).reverse := by
  have htake : foundId table (l.take n).reverse = lastId table (l.take n).reverse := by
    cases n with
    | zero => exact absurd rfl hne
    | succ n =>
      have hlt : n < l.length := hn
      rw [List.take_succ_eq_append_getElem hlt, List.reverse_append]
      refine foundId_cons (foundId_eq_zero fun k hk => ?_)
      rw [List.length_take] at hk
      rw [List.take_take, Nat.min_eq_left (by omega)]
      exact hfirst k (by omega)
  rw [← htake]
  refine foundId_of_suffix ?_ (by rw [htake]; exact hne)
  have hpre : (l.take n).reverse <:+ ((l.take n) ++ (l.drop n)).reverse := by
    rw [List.reverse_append]
    exact List.suffix_append _ _
  rwa [List.take_append_drop] at hpre

/-! ### Frames on a line -/

/-- The start bit and the data bits of a character, in the order of time. -/
def frameBits (c : BitVec 8) : List Bool := false :: (List.range 8).map c.getLsbD

theorem length_frameBits (c : BitVec 8) : (frameBits c).length = 9 := by
  simp [frameBits]

/-- The levels of a line with characters, each behind some ticks of idle: start bit, data, stop
bit. -/
def frameLevels : List (Nat × BitVec 8) → List Bool
  | [] => []
  | (idle, c) :: rest =>
      List.replicate idle true ++ (frameBits c ++ [true]).flatMap (List.replicate oneBitSampleNum) ++
        frameLevels rest

/-- The level at every tick: idle once the characters are over. -/
def waveform (frames : List (Nat × BitVec 8)) (n : Nat) : Bool :=
  (frameLevels frames)[n]?.getD true

/-- The line is idle before the first character, which comes before the idle limit, and the
characters fit in the window. -/
def Fits : List (Nat × BitVec 8) → Prop
  | [] => True
  | (idle, c) :: rest => 0 < idle ∧ idle < cspDataBits * oneBitSampleNum ∧
      (frameLevels ((0, c) :: rest)).length ≤ maxSampleNum + 1

/-- The bits of the line behind the idle bit. -/
def framesBits : List (Nat × BitVec 8) → List Bool
  | [] => []
  | (idle, c) :: rest =>
      List.replicate (samples oneBitSampleNum idle) true ++ frameBits c ++ true :: framesBits rest

/-- All bits recorded: the idle bit, the characters, and the idle line to the end of the window. -/
def lineBits : List (Nat × BitVec 8) → List Bool
  | [] => [true]
  | (_, c) :: rest => true :: framesBits ((0, c) :: rest) ++
      List.replicate (samples oneBitSampleNum
        (maxSampleNum + 1 - (frameLevels ((0, c) :: rest)).length)) true

theorem length_bitTimes (bs : List Bool) (w : Nat) :
    (bs.flatMap (List.replicate w)).length = bs.length * w := by
  induction bs with
  | nil => exact (Nat.zero_mul w).symm
  | cons b bs ih =>
    rw [List.flatMap_cons, List.length_append, ih, List.length_replicate, List.length_cons,
      Nat.succ_mul, Nat.add_comm]

theorem length_frameLevels (frames : List (Nat × BitVec 8)) :
    (frameLevels frames).length = (frames.map fun f => f.1 + 80).sum := by
  induction frames with
  | nil => rfl
  | cons f frames ih =>
    obtain ⟨idle, c⟩ := f
    rw [frameLevels, List.length_append, List.length_append, ih, List.map_cons, List.sum_cons,
      length_bitTimes, List.length_append, length_frameBits, List.length_replicate]
    rfl

theorem length_framesBits (frames : List (Nat × BitVec 8)) :
    (framesBits frames).length = (frames.map fun f => samples oneBitSampleNum f.1 + 10).sum := by
  induction frames with
  | nil => rfl
  | cons f frames ih =>
    obtain ⟨idle, c⟩ := f
    rw [framesBits, List.map_cons, List.sum_cons, ← ih]
    simp only [List.length_append, List.length_replicate, length_frameBits, List.length_cons]
    omega

/-- The window holds at most three characters, and the buffer their bits. -/
theorem length_lineBits_le {frames : List (Nat × BitVec 8)} (h : Fits frames) :
    (lineBits frames).length ≤ 32 := by
  match frames, h with
  | [], _ => decide
  | (idle, c) :: rest, ⟨_, _, hfit⟩ =>
    rw [lineBits, List.length_append, List.length_cons, length_framesBits, List.length_replicate]
    rw [length_frameLevels] at hfit ⊢
    match rest, hfit with
    | [], hfit =>
      simp only [List.map_cons, List.map_nil, List.sum_cons, List.sum_nil, samples,
        oneBitSampleNum, maxSampleNum, cspDataBits] at hfit ⊢
      omega
    | [f], hfit =>
      simp only [List.map_cons, List.map_nil, List.sum_cons, List.sum_nil, samples,
        oneBitSampleNum, maxSampleNum, cspDataBits] at hfit ⊢
      omega
    | [f, f'], hfit =>
      simp only [List.map_cons, List.map_nil, List.sum_cons, List.sum_nil, samples,
        oneBitSampleNum, maxSampleNum, cspDataBits] at hfit ⊢
      omega
    | _ :: _ :: _ :: _, hfit =>
      simp only [List.map_cons, List.sum_cons, maxSampleNum, cspDataBits, oneBitSampleNum] at hfit
      omega

/-! ### What is recorded of frames -/

/-- A tap at a high level that has held for whole bit times. -/
structure Resting (t : Tap) : Prop where
  even : t.Even oneBitSampleNum
  high : t.level = true

/-- **A frame on the line**: its bits are taken, and those of the idle time before it. -/
theorem Resting.frame {t : Tap} (h : Resting t) (idle : Nat) (c : BitVec 8) :
    (t.run oneBitSampleNum (List.replicate idle true ++
        (frameBits c ++ [true]).flatMap (List.replicate oneBitSampleNum))).bits =
      (List.replicate (samples oneBitSampleNum idle) true ++ frameBits c ++ [true]).reverse ++
        t.bits ∧
    Resting (t.run oneBitSampleNum (List.replicate idle true ++
        (frameBits c ++ [true]).flatMap (List.replicate oneBitSampleNum))) := by
  have hw : 1 < oneBitSampleNum := by decide
  have hidle := h.even.run_replicate hw true idle
  have hlevel : (t.run oneBitSampleNum (List.replicate idle true)).level = true := by
    rcases Nat.eq_zero_or_pos idle with rfl | hpos
    · exact h.high
    · exact Tap.run_level true hpos
  rw [Tap.run_append, frameBits, List.cons_append, List.flatMap_cons, Tap.run_append]
  -- the start bit begins with an edge
  obtain ⟨hstart, hheld⟩ := Tap.run_replicate_edge hw (b := false)
    (t := t.run oneBitSampleNum (List.replicate idle true)) (by rw [hlevel]; decide)
    (show 0 < oneBitSampleNum by decide)
  have heven : ((t.run oneBitSampleNum (List.replicate idle true)).run oneBitSampleNum
      (List.replicate oneBitSampleNum false)).Even oneBitSampleNum := by
    unfold Tap.Even
    rw [hheld]
  obtain ⟨hbits, heven'⟩ := heven.run_bits hw ((List.range 8).map c.getLsbD ++ [true])
  refine ⟨?_, heven', ?_⟩
  · rw [hbits, hstart, hidle, Tap.samples_self hw]
    simp only [List.reverse_append, List.reverse_cons, List.reverse_replicate, List.append_assoc,
      List.replicate_one, List.cons_append, List.nil_append]
  · rw [List.flatMap_append, Tap.run_append]
    exact Tap.run_level true (show 0 < oneBitSampleNum by decide)

theorem Resting.frames {t : Tap} (h : Resting t) (frames : List (Nat × BitVec 8)) :
    (t.run oneBitSampleNum (frameLevels frames)).bits = (framesBits frames).reverse ++ t.bits ∧
      Resting (t.run oneBitSampleNum (frameLevels frames)) := by
  induction frames generalizing t with
  | nil => exact ⟨rfl, h⟩
  | cons f frames ih =>
    obtain ⟨idle, c⟩ := f
    obtain ⟨hbits, hrest⟩ := h.frame idle c
    obtain ⟨hbits', hrest'⟩ := ih hrest
    rw [frameLevels, Tap.run_append]
    refine ⟨?_, hrest'⟩
    rw [hbits', hbits, framesBits]
    simp only [List.reverse_append, List.reverse_cons, List.append_assoc, List.cons_append,
      List.nil_append]
    rfl

/-- What is recorded in the window after the first low level. -/
theorem bits_window (idle : Nat) (c : BitVec 8) (rest : List (Nat × BitVec 8)) :
    (Line.idleTap.run oneBitSampleNum (frameLevels ((0, c) :: rest) ++
      List.replicate (maxSampleNum + 1 - (frameLevels ((0, c) :: rest)).length) true)).bits =
        (lineBits ((idle, c) :: rest)).reverse := by
  have hidle : Resting Line.idleTap := ⟨dvd_zero _, rfl⟩
  obtain ⟨hbits, hrest⟩ := hidle.frames ((0, c) :: rest)
  rw [Tap.run_append, hrest.even.run_replicate (by decide), hbits, lineBits]
  simp only [List.cons_append, List.reverse_cons, List.reverse_append, List.reverse_replicate,
    List.append_assoc]
  rfl

/-- A line that is high for some ticks and then low. -/
theorem Line.after_edge {levels : Nat → Bool} {idle : Nat} (hpos : 0 < idle)
    (hhigh : ∀ k < idle, levels k = true) (hlow : levels idle = false) (j : Nat) :
    (∀ k < idle, Line.after levels (k + 1) = .idle) ∧
      Line.after levels (idle + (j + 1)) = .tapping (j + 1) (Line.idleTap.run oneBitSampleNum
        ((List.range (j + 1)).map fun i => levels (idle + i))) := by
  have hidle : ∀ k < idle, Line.after levels (k + 1) = .idle := by
    intro k hk
    induction k with
    | zero => rw [Line.after, Line.after, hhigh 0 hk]; rfl
    | succ k ih => rw [Line.after, ih (Nat.lt_of_succ_lt hk), hhigh _ hk]; rfl
  refine ⟨hidle, ?_⟩
  induction j with
  | zero =>
    have hprev := hidle (idle - 1) (by omega)
    rw [Nat.sub_add_cancel hpos] at hprev
    rw [Line.after, hprev, Nat.zero_add, List.range_one, List.map_singleton, Nat.add_zero, hlow]
    rfl
  | succ j ih =>
    rw [← Nat.add_assoc idle, Line.after, ih, List.range_succ (n := j + 1), List.map_append,
      Tap.run_append]
    rfl

/-! ### The window of a waveform -/

variable {frames : List (Nat × BitVec 8)}

theorem waveform_idle {idle : Nat} {c : BitVec 8} {rest : List (Nat × BitVec 8)} {k : Nat}
    (hk : k < idle) : waveform ((idle, c) :: rest) k = true := by
  unfold waveform frameLevels
  rw [List.append_assoc, List.getElem?_append_left (by rwa [List.length_replicate]),
    List.getElem?_replicate, if_pos hk]
  rfl

/-- From the first start bit on. -/
theorem waveform_add (idle : Nat) (c : BitVec 8) (rest : List (Nat × BitVec 8)) (i : Nat) :
    waveform ((idle, c) :: rest) (idle + i) = waveform ((0, c) :: rest) i := by
  unfold waveform
  rw [frameLevels, frameLevels, List.append_assoc, List.getElem?_append_right
    (by rw [List.length_replicate]; exact Nat.le_add_right _ _), List.length_replicate,
    Nat.add_sub_cancel_left]
  rfl

theorem waveform_start (c : BitVec 8) (rest : List (Nat × BitVec 8)) :
    waveform ((0, c) :: rest) 0 = false := rfl

theorem waveform_late {n : Nat} (hn : (frameLevels frames).length ≤ n) :
    waveform frames n = true := by
  rw [waveform, List.getElem?_eq_none hn]
  rfl

theorem map_waveform {n : Nat} (hn : (frameLevels frames).length ≤ n) :
    (List.range n).map (waveform frames) =
      frameLevels frames ++ List.replicate (n - (frameLevels frames).length) true := by
  refine List.ext_getElem ?_ ?_
  · rw [List.length_map, List.length_range, List.length_append, List.length_replicate]
    omega
  · intro i h₁ h₂
    rw [List.getElem_map, List.getElem_range, List.getElem_append]
    by_cases hi : i < (frameLevels frames).length
    · rw [dif_pos hi, waveform, List.getElem?_eq_getElem hi]
      rfl
    · rw [dif_neg hi, List.getElem_replicate, waveform_late (Nat.le_of_not_lt hi)]

/-- The tick at which the window closes. -/
def windowEnd : List (Nat × BitVec 8) → Nat
  | [] => cspDataBits * oneBitSampleNum
  | (idle, _) :: _ => idle + (maxSampleNum + 1)

/-- **The window**: what was recorded when it closes, and that it closes no sooner. -/
theorem window (h : Fits frames) :
    (Line.after (waveform frames) (windowEnd frames)).bits = (lineBits frames).reverse ∧
    (Line.after (waveform frames) (windowEnd frames)).Expired (windowEnd frames) ∧
    ∀ k < windowEnd frames, ¬ (Line.after (waveform frames) k).Expired k := by
  match frames, h with
  | [], _ =>
    have hidle : ∀ k, Line.after (waveform []) (k + 1) = .idle := by
      intro k
      induction k with
      | zero => rfl
      | succ k ih => rw [Line.after, ih]; rfl
    refine ⟨?_, ?_, ?_⟩
    · rw [windowEnd, show cspDataBits * oneBitSampleNum = 79 + 1 from rfl, hidle]
      rfl
    · rw [windowEnd, show cspDataBits * oneBitSampleNum = 79 + 1 from rfl, hidle]
      exact le_refl (79 + 1)
    · intro k hk hexp
      cases k with
      | zero => exact absurd (show cspDataBits * oneBitSampleNum ≤ 0 from hexp) (by decide)
      | succ k =>
        rw [hidle] at hexp
        exact absurd hexp (Nat.not_le_of_lt hk)
  | (idle, c) :: rest, ⟨hpos, hlim, hfit⟩ =>
    have hhigh : ∀ k < idle, waveform ((idle, c) :: rest) k = true := fun k hk => waveform_idle hk
    have hlow : waveform ((idle, c) :: rest) idle = false := by
      have hadd := waveform_add idle c rest 0
      rwa [Nat.add_zero, waveform_start] at hadd
    have hafter := fun j => Line.after_edge hpos hhigh hlow j
    refine ⟨?_, ?_, ?_⟩
    · rw [windowEnd, (hafter maxSampleNum).2, Line.bits,
        List.map_congr_left (fun i _ => waveform_add idle c rest i),
        map_waveform hfit]
      exact bits_window idle c rest
    · rw [windowEnd, (hafter maxSampleNum).2]
      exact Nat.lt_succ_self maxSampleNum
    · intro k hk hexp
      rcases Nat.lt_or_ge idle k with hlt | hge
      · obtain ⟨j, rfl⟩ := Nat.exists_eq_add_of_lt hlt
        rw [Nat.add_assoc, (hafter j).2] at hexp
        have hmax : maxSampleNum < j + 1 := hexp
        rw [windowEnd] at hk
        omega
      · cases k with
        | zero => exact absurd (show cspDataBits * oneBitSampleNum ≤ 0 from hexp) (by decide)
        | succ k =>
          rw [(hafter 0).1 k hge] at hexp
          have hle : cspDataBits * oneBitSampleNum ≤ k + 1 := hexp
          omega

/-! ### The end of the sampling -/

/-- `special_id` at the end of the sampling is the code of the first character in the window. -/
theorem exists_finished_found {m : Sampler} (h : Follows table m .quiet 0)
    (hfit : Fits frames) : ∃ n,
      (m.after table (waveform frames) n).gpiUtc.sampleFlag.finished = true ∧
      (m.after table (waveform frames) n).gpiUtc.specialId =
        foundId table (lineBits frames).reverse := by
  obtain ⟨hbits, hend, hopenEnd⟩ := window hfit
  obtain ⟨n, hn, hopen, hclose⟩ := exists_closing table (waveform frames)
  have hle : n ≤ windowEnd frames := by
    by_contra hlt
    exact (hopen _ (Nat.lt_of_not_le hlt)).1 hend
  have hmono : ∀ k ≤ windowEnd frames, (Line.after (waveform frames) k).bits <:+
      (Line.after (waveform frames) (windowEnd frames)).bits := by
    intro k hk
    induction hk using Nat.decreasingInduction with
    | self => exact List.suffix_rfl
    | of_succ k _ ih =>
      refine List.IsSuffix.trans ?_ ih
      rcases Line.bits_read (Line.after (waveform frames) k) (waveform frames k) with he | he
      · rw [Line.after, he]
      · rw [Line.after, he]
        exact List.suffix_cons _ _
  have hroom : (Line.after (waveform frames) n).bits.length ≤ 32 := by
    refine (hmono n hle).length_le.trans ?_
    rw [hbits, List.length_reverse]
    exact length_lineBits_le hfit
  have hf := h.after hopen hroom
  by_cases hfound : foundId table (Line.after (waveform frames) n).bits = 0
  · have hexp := hclose.resolve_right (not_not.mpr hfound)
    have heq : n = windowEnd frames := by
      by_contra hne
      exact hopenEnd n (by omega) hexp
    obtain ⟨hfin, hid⟩ := hf.read_expired hexp hfound
      ((Nat.succ_le_succ hn).trans_lt (by decide)) (waveform frames n)
    refine ⟨n + 1, hfin, ?_⟩
    rw [Sampler.after, hid, ← hbits, ← heq, hfound]
  · have hwait := hf.waitStop.trans (decide_eq_true hfound)
    obtain ⟨k, hk⟩ := exists_finished_of_waiting hf.finished hwait
      ⟨max n (frameLevels frames).length, le_max_left _ _, waveform_late (le_max_right _ _)⟩
    refine ⟨k, by rw [hk]; rfl, ?_⟩
    rw [hk, ← hbits, foundId_of_suffix (hmono n hle) hfound]
    exact hf.specialId

/-! ### The characters of the table -/

/-- The code of a character: one plus its index in the table, cut to a byte. -/
theorem searchChar_eq (c : BitVec 8) : ∀ (table : List (BitVec 8)) (i : Nat),
    searchChar c table i 0 =
      if c ∈ table then BitVec.ofNat 8 (i + table.idxOf c + 1) else 0
  | [], i => rfl
  | x :: table, i => by
      by_cases hx : c = x
      · subst hx
        rw [searchChar, if_pos rfl, if_pos List.mem_cons_self, List.idxOf_cons_self]
      · rw [searchChar, if_neg hx, searchChar_eq c table (i + 1),
          List.idxOf_cons_ne _ (Ne.symm hx)]
        simp only [List.mem_cons, hx, false_or]
        congr 2
        omega

/-- One plus the table index of the first character received that is in the table, or 0. -/
def expectedId (table : List (BitVec 8)) : List (BitVec 8) → Nat
  | [] => 0
  | c :: chars => if c ∈ table then table.idxOf c + 1 else expectedId table chars

/-- The characters of a line, each with the number of bits recorded at its end. -/
def frameEnds : Nat → List (Nat × BitVec 8) → List (Nat × BitVec 8)
  | _, [] => []
  | n, (idle, c) :: rest =>
      (n + samples oneBitSampleNum idle + 9, c) ::
        frameEnds (n + samples oneBitSampleNum idle + 10) rest

/-- The ends of the characters of a whole line, which begins with the idle bit. -/
def lineEnds : List (Nat × BitVec 8) → List (Nat × BitVec 8)
  | [] => []
  | (_, c) :: rest => frameEnds 1 ((0, c) :: rest)

/-- Ten bits in a row that spell a character of the table, and are no frame. -/
structure Stray (table : List (BitVec 8)) (frames : List (Nat × BitVec 8)) (n : Nat) : Prop where
  within : n ≤ (lineBits frames).length
  spells : lastId table ((lineBits frames).take n).reverse ≠ 0
  noFrame : ∀ c, (n, c) ∉ lineEnds frames

/-- The code expected fits a byte, and the first stray character, where it comes before every
character received that is in the table, has that code. -/
structure Undisturbed (table : List (BitVec 8)) (frames : List (Nat × BitVec 8)) : Prop where
  small : expectedId table (frames.map Prod.snd) < 256
  clean : ∀ n, Stray table frames n → (∀ k < n, ¬ Stray table frames k) →
    (∀ e c, (e, c) ∈ lineEnds frames → c ∈ table → n < e) →
    (lastId table ((lineBits frames).take n).reverse).toNat =
      expectedId table (frames.map Prod.snd)

/-! ### Frames in the bits recorded -/

theorem charOf_data (c : BitVec 8) : charOf ((List.range 8).map c.getLsbD).reverse = c := by
  have hlen : ((List.range 8).map c.getLsbD).reverse.length = 8 := by simp
  apply BitVec.eq_of_getLsbD_eq
  intro i hi
  rw [charOf, getLsbD_charOf _ _ _ hi, dif_pos (by omega), List.getElem_reverse,
    List.getElem_map, List.getElem_range]
  congr 1
  rw [List.length_reverse] at hlen ⊢
  omega

/-- The bits up to the end of a frame spell its character. -/
theorem lastId_frame (c : BitVec 8) {pre : List Bool} (h : pre.getLast? = some true) :
    lastId table ((frameBits c).reverse ++ pre.reverse) = searchChar c table 0 0 := by
  have hrev : (frameBits c).reverse = ((List.range 8).map c.getLsbD).reverse ++ [false] := by
    rw [frameBits, List.reverse_cons]
  have hlen : ((List.range 8).map c.getLsbD).reverse.length = 8 := by simp
  have hidle : ((frameBits c).reverse ++ pre.reverse)[9]? = some true := by
    rw [List.getElem?_append_right (by rw [List.length_reverse, length_frameBits]),
      List.length_reverse, length_frameBits, Nat.sub_self, ← List.head?_eq_getElem?,
      List.head?_reverse, h]
  have hstart : ((frameBits c).reverse ++ pre.reverse)[8]? = some false := by
    rw [hrev, List.append_assoc, List.getElem?_append_right (by rw [hlen]), hlen]
    rfl
  have htake : ((frameBits c).reverse ++ pre.reverse).take 8 =
      ((List.range 8).map c.getLsbD).reverse := by
    rw [hrev, List.append_assoc, List.take_left' hlen]
  rw [lastId, if_pos ⟨hidle, hstart⟩, htake, charOf_data]

theorem mem_frameEnds {e : Nat} {c : BitVec 8} (post : List Bool) :
    ∀ {frames : List (Nat × BitVec 8)} {pre : List Bool}, pre.getLast? = some true →
      (e, c) ∈ frameEnds pre.length frames → ∃ p q, p.getLast? = some true ∧
        pre ++ framesBits frames ++ post = p ++ frameBits c ++ q ∧ e = p.length + 9
  | [], _, _, hmem => absurd hmem List.not_mem_nil
  | (idle, c') :: rest, pre, hpre, hmem => by
      rw [frameEnds, List.mem_cons] at hmem
      have hidle : (pre ++ List.replicate (samples oneBitSampleNum idle) true).getLast? =
          some true := by
        rw [List.getLast?_append, List.getLast?_replicate, hpre]
        split <;> rfl
      rcases hmem with heq | hrest
      · cases heq
        refine ⟨_, true :: framesBits rest ++ post, hidle, ?_, ?_⟩
        · rw [framesBits]
          simp only [List.append_assoc, List.cons_append]
        · rw [List.length_append, List.length_replicate]
      · have hlen : pre.length + samples oneBitSampleNum idle + 10 =
            (pre ++ List.replicate (samples oneBitSampleNum idle) true ++ frameBits c' ++
              [true]).length := by
          simp only [List.length_append, List.length_replicate, length_frameBits,
            List.length_singleton]
        rw [hlen] at hrest
        obtain ⟨p, q, hp, heq, he⟩ := mem_frameEnds post (by simp) hrest
        refine ⟨p, q, hp, ?_, he⟩
        rw [← heq, framesBits]
        simp only [List.append_assoc, List.cons_append, List.nil_append]

/-- At the end of a frame the last ten bits spell its character. -/
theorem lastId_lineEnds {e : Nat} {c : BitVec 8} (h : (e, c) ∈ lineEnds frames) :
    e ≤ (lineBits frames).length ∧
      lastId table ((lineBits frames).take e).reverse = searchChar c table 0 0 := by
  match frames, h with
  | [], h => exact absurd h List.not_mem_nil
  | (idle, c') :: rest, h =>
    obtain ⟨p, q, hp, heq, he⟩ := mem_frameEnds (List.replicate (samples oneBitSampleNum
      (maxSampleNum + 1 - (frameLevels ((0, c') :: rest)).length)) true) 
      (rfl : [true].getLast? = some true) h
    have hline : lineBits ((idle, c') :: rest) = p ++ frameBits c ++ q := heq
    have hlen : (p ++ frameBits c).length = e := by
      rw [List.length_append, length_frameBits, he]
    rw [hline]
    refine ⟨?_, ?_⟩
    · rw [List.length_append, hlen]
      exact Nat.le_add_right _ _
    · rw [List.take_left' hlen, List.reverse_append]
      exact lastId_frame c hp

/-! ### The first character of the table -/

theorem le_of_mem_frameEnds {e : Nat} {c : BitVec 8} :
    ∀ {frames : List (Nat × BitVec 8)} {n : Nat}, (e, c) ∈ frameEnds n frames → n ≤ e
  | [], _, h => absurd h List.not_mem_nil
  | (idle, c') :: rest, n, h => by
      rw [frameEnds, List.mem_cons] at h
      rcases h with heq | hrest
      · cases heq
        omega
      · exact le_trans (by omega) (le_of_mem_frameEnds hrest)

/-- Either no character received is in the table, or the first such one gives the code expected. -/
theorem expectedId_cases (table : List (BitVec 8)) : ∀ (frames : List (Nat × BitVec 8)) (n : Nat),
    (expectedId table (frames.map Prod.snd) = 0 ∧
      ∀ e c, (e, c) ∈ frameEnds n frames → c ∉ table) ∨
    ∃ e c, (e, c) ∈ frameEnds n frames ∧ c ∈ table ∧
      expectedId table (frames.map Prod.snd) = table.idxOf c + 1 ∧
      ∀ e' c', (e', c') ∈ frameEnds n frames → c' ∈ table → e ≤ e'
  | [], _ => .inl ⟨rfl, fun _ _ h => absurd h List.not_mem_nil⟩
  | (idle, c) :: rest, n => by
      rw [List.map_cons, expectedId, frameEnds]
      by_cases hc : c ∈ table
      · refine .inr ⟨_, c, List.mem_cons_self, hc, if_pos hc, fun e' c' hmem _ => ?_⟩
        rcases List.mem_cons.mp hmem with heq | hrest
        · cases heq
          exact le_rfl
        · exact le_trans (by omega) (le_of_mem_frameEnds hrest)
      · rw [if_neg hc]
        rcases expectedId_cases table rest (n + samples oneBitSampleNum idle + 10) with
          ⟨hzero, hnone⟩ | ⟨e, c₀, hmem, htab, hexp, hfirst⟩
        · refine .inl ⟨hzero, fun e' c' hmem => ?_⟩
          rcases List.mem_cons.mp hmem with heq | hrest
          · cases heq
            exact hc
          · exact hnone e' c' hrest
        · refine .inr ⟨e, c₀, List.mem_cons_of_mem _ hmem, htab, hexp, fun e' c' hmem' htab' => ?_⟩
          rcases List.mem_cons.mp hmem' with heq | hrest
          · cases heq
            exact absurd htab' hc
          · exact hfirst e' c' hrest htab'

theorem expectedId_line (table : List (BitVec 8)) (frames : List (Nat × BitVec 8)) :
    (expectedId table (frames.map Prod.snd) = 0 ∧ ∀ e c, (e, c) ∈ lineEnds frames → c ∉ table) ∨
    ∃ e c, (e, c) ∈ lineEnds frames ∧ c ∈ table ∧
      expectedId table (frames.map Prod.snd) = table.idxOf c + 1 ∧
      ∀ e' c', (e', c') ∈ lineEnds frames → c' ∈ table → e ≤ e' := by
  match frames with
  | [] => exact .inl ⟨rfl, fun _ _ h => absurd h List.not_mem_nil⟩
  | (_, c) :: rest => exact expectedId_cases table ((0, c) :: rest) 1

/-! ### Recognition -/

/-- The code of a character of the table is the one expected of it where that fits a byte. -/
theorem toNat_searchChar {c : BitVec 8} (hc : c ∈ table) (hsmall : table.idxOf c + 1 < 256) :
    (searchChar c table 0 0).toNat = table.idxOf c + 1 := by
  rw [searchChar_eq, if_pos hc, BitVec.toNat_ofNat, Nat.zero_add]
  exact Nat.mod_eq_of_lt hsmall

theorem le_of_lineEnds {e : Nat} {c : BitVec 8} (h : (e, c) ∈ lineEnds frames) :
    e ≤ (lineBits frames).length :=
  (lastId_lineEnds h : _ ∧ lastId [] _ = _).1

/-- A frame that spells a code is of a character of the table. -/
theorem mem_of_lineEnds {n : Nat} {c : BitVec 8} (h : (n, c) ∈ lineEnds frames)
    (hne : lastId table ((lineBits frames).take n).reverse ≠ 0) : c ∈ table := by
  rw [(lastId_lineEnds h).2, searchChar_eq] at hne
  by_contra hc
  exact hne (if_neg hc)

/-- **The code found in a line of frames.** -/
theorem foundId_eq_iff (table : List (BitVec 8)) (frames : List (Nat × BitVec 8)) :
    (foundId table (lineBits frames).reverse).toNat = expectedId table (frames.map Prod.snd) ↔
      Undisturbed table frames := by
  classical
  constructor
  · intro heq
    refine ⟨heq ▸ BitVec.isLt _, fun n hn hfirst hbefore => ?_⟩
    rw [← heq, foundId_eq_of_first hn.within hn.spells]
    intro k hk
    by_contra hne
    -- an earlier match is no stray one, so it is a frame, and the stray character comes before it
    refine hfirst k hk ⟨hk.le.trans hn.within, hne, fun c hmem => ?_⟩
    exact absurd (hbefore k c hmem (mem_of_lineEnds hmem hne)) (Nat.not_lt_of_gt hk)
  · rintro ⟨hsmall, hclean⟩
    have hcode : ∀ e c, (e, c) ∈ lineEnds frames → c ∈ table →
        expectedId table (frames.map Prod.snd) = table.idxOf c + 1 →
        (lastId table ((lineBits frames).take e).reverse).toNat =
          expectedId table (frames.map Prod.snd) := by
      intro e c hmem hc hexp
      rw [hexp] at hsmall
      rw [(lastId_lineEnds hmem).2, toNat_searchChar hc hsmall, hexp]
    by_cases hany : ∃ n, n ≤ (lineBits frames).length ∧
        lastId table ((lineBits frames).take n).reverse ≠ 0
    · obtain ⟨hlen, hne⟩ := Nat.find_spec hany
      have hmin : ∀ k < Nat.find hany, lastId table ((lineBits frames).take k).reverse = 0 := by
        intro k hk
        have hk' := Nat.find_min hany hk
        rw [not_and, not_not] at hk'
        exact hk' (hk.le.trans hlen)
      rw [foundId_eq_of_first hlen hne hmin]
      rcases expectedId_line table frames with ⟨hzero, hnone⟩ | ⟨e, c, hmem, hc, hexp, hfirst⟩
      · refine hclean _ ⟨hlen, hne, fun c hmem => hnone _ c hmem (mem_of_lineEnds hmem hne)⟩
          (fun k hk hs => hs.spells (hmin k hk)) (fun e c hmem hc => absurd hc (hnone e c hmem))
      · -- the first match is not after the first frame of the table
        have hle : Nat.find hany ≤ e := by
          refine Nat.find_min' hany ⟨le_of_lineEnds hmem, fun hzero => ?_⟩
          have hid := hcode e c hmem hc hexp
          rw [hzero, hexp] at hid
          exact absurd hid (Nat.succ_ne_zero _).symm
        by_cases hframe : ∃ c', (Nat.find hany, c') ∈ lineEnds frames
        · obtain ⟨c', hmem'⟩ := hframe
          have heq : e = Nat.find hany :=
            le_antisymm (hfirst _ c' hmem' (mem_of_lineEnds hmem' hne)) hle
          rw [← heq]
          exact hcode e c hmem hc hexp
        · refine hclean _ ⟨hlen, hne, fun c' hmem' => hframe ⟨c', hmem'⟩⟩
            (fun k hk hs => hs.spells (hmin k hk)) (fun e' c' hmem' hc' => ?_)
          refine lt_of_le_of_ne (hle.trans (hfirst e' c' hmem' hc')) fun heq => hframe ⟨c', ?_⟩
          rw [heq]
          exact hmem'
    · have hnone : ∀ n ≤ (lineBits frames).length,
          lastId table ((lineBits frames).take n).reverse = 0 := by
        intro n hn
        by_contra hne
        exact hany ⟨n, hn, hne⟩
      rw [foundId_eq_zero hnone]
      rcases expectedId_line table frames with ⟨hzero, -⟩ | ⟨e, c, hmem, hc, hexp, -⟩
      · rw [hzero]
        rfl
      · have hid := hcode e c hmem hc hexp
        rw [hnone e (le_of_lineEnds hmem)] at hid
        exact hid

/-- The sampling ends, with `special_id` the code of the first character received that is in the
table, and 0 where none is. -/
def Recognises (table : List (BitVec 8)) (frames : List (Nat × BitVec 8)) (m : Sampler) : Prop :=
  ∃ n, (m.after table (waveform frames) n).gpiUtc.sampleFlag.finished = true ∧
    (m.after table (waveform frames) n).softSampleEnd.gpiUtc.specialId.toNat =
      expectedId table (frames.map Prod.snd)

theorem softSampleEnd_specialId (m : Sampler) :
    m.softSampleEnd.gpiUtc.specialId = m.gpiUtc.specialId := by
  unfold Sampler.softSampleEnd
  dsimp only
  split <;> rfl

/-- There is one state at the end of the sampling. -/
theorem recognises_of_follows {m : Sampler} (h : Follows table m .quiet 0) (hfit : Fits frames) :
    Recognises table frames m ↔ Undisturbed table frames := by
  obtain ⟨n, hfin, hid⟩ := exists_finished_found h hfit
  rw [← foundId_eq_iff, ← hid]
  constructor
  · rintro ⟨k, hk, heq⟩
    rw [softSampleEnd_specialId] at heq
    rcases Nat.le_total n k with hle | hle
    · rwa [after_finished hfin hle] at heq
    · rwa [← after_finished hk hle] at heq
  · intro heq
    exact ⟨n, hfin, by rw [softSampleEnd_specialId]; exact heq⟩

/-- **The character recognised**, for every line of frames that fits the window. -/
theorem recognises_iff (table : List (BitVec 8)) (workMode : BitVec 8) (usePll : Bool)
    (m : Sampler) {frames : List (Nat × BitVec 8)} (hfit : Fits frames) :
    Recognises table frames (m.softSampleInit workMode usePll) ↔ Undisturbed table frames :=
  recognises_of_follows (follows_init table workMode usePll m) hfit

/-- `AT` and a third character, without gaps. -/
def atFrames (c : BitVec 8) : List (Nat × BitVec 8) := [(8, 0x41), (0, 0x54), (0, c)]

theorem fits_atFrames (c : BitVec 8) : Fits (atFrames c) := by
  refine ⟨by decide, by decide, ?_⟩
  rw [length_frameLevels]
  exact (by decide : 80 + (80 + (80 + 0)) ≤ maxSampleNum + 1)

theorem recognises_plus :
    Recognises gAtReqThirdChars (atFrames 0x2B) (Sampler.fresh.softSampleInit 0 false) :=
  (recognises_iff _ 0 false .fresh (fits_atFrames 0x2B)).mpr
    ((foundId_eq_iff _ _).mp (by decide +kernel))

/-- `ATD`: across `T` and `D` the line spells an `E`. -/
theorem not_recognises_dial :
    ¬ Recognises gAtReqThirdChars (atFrames 0x44) (Sampler.fresh.softSampleInit 0 false) := by
  rw [recognises_of_follows (follows_init _ 0 false .fresh) (fits_atFrames 0x44), ← foundId_eq_iff]
  decide +kernel

end XY1100.Uart
