import XY1100.Flash.Pages

/-!
# Flash — choosing the current page

`xy_choose_valid_ftl` as a loop, battery refusals included.

* **When it terminates** (`xyChooseValidFtl_returns_iff`).  The pages that keep it going
  (`blocking`) have the highest number of the region, a wrong checksum, and lie after every
  intact page with that number.  Each is erased once the battery lets an erase through, and until
  then the loop takes the same page again.
* **What it chooses** (`chooseAgain_spec`).  From a flash in which no page in use outranks the
  newest intact one (`Unhidden`) it chooses that page, whatever the battery does.  From any flash
  it chooses pages that were intact, and erases pages only that are not (`chooseAgain_scrubs`).
-/

namespace XY1100
open Support

namespace FtlRegion
variable {env : Env} {r : FtlRegion}

theorem erase_ne {f : Buf} {i j : Nat} (hne : j ≠ i) :
    r.nums ((FlashOp.erase (r.sector i)).apply f) j = r.nums f j ∧
    r.goods ((FlashOp.erase (r.sector i)).apply f) j = r.goods f j :=
  ⟨num_congr (page_erase_ne hne), goodNum_congr (page_erase_ne hne)⟩

theorem nums_erase (f : Buf) (i : Nat) :
    r.nums ((FlashOp.erase (r.sector i)).apply f) i = none := num_page_erase f i

theorem nums_of_goods {f : Buf} {i k : Nat} (h : r.goods f i = some k) : r.nums f i = some k :=
  num_of_goodNum h

theorem goods_eq_none {f : Buf} {i : Nat} (h : r.nums f i = none) : r.goods f i = none := by
  rcases hg : r.goods f i with _ | k
  · rfl
  · rw [nums_of_goods hg] at h; cases h

/-- Erasing a page that is not intact leaves the numbers of the intact ones. -/
theorem goods_erase {f : Buf} {i : Nat} (hb : ¬ ChksumOk (r.page f i)) :
    r.goods ((FlashOp.erase (r.sector i)).apply f) = r.goods f := by
  funext j
  rcases eq_or_ne j i with rfl | hne
  · rw [goods_eq_none (nums_erase f j)]
    exact (goodNum_eq_none hb).symm
  · exact (erase_ne hne).2

theorem nums_of_nums_erase {f : Buf} {i j k : Nat}
    (h : r.nums ((FlashOp.erase (r.sector i)).apply f) j = some k) :
    j ≠ i ∧ r.nums f j = some k := by
  rcases eq_or_ne j i with rfl | hne
  · rw [nums_erase] at h; cases h
  · exact ⟨hne, (erase_ne hne).1 ▸ h⟩

/-! ### When the loop ends -/

/-- The highest number in use, 0 when there is none. -/
def top (r : FtlRegion) (f : Buf) : Nat :=
  (Finset.range r.pages).sup fun i => (r.nums f i).getD 0

/-- The pages with number `m` and a wrong checksum that lie after every intact one with that
number. -/
def blockingAt (r : FtlRegion) (f : Buf) (m : Nat) : Finset Nat :=
  (Finset.range r.pages).filter fun i =>
    r.nums f i = some m ∧ ¬ ChksumOk (r.page f i) ∧
      ∀ j < r.pages, r.goods f j = some m → j < i

/-- The pages the loop has to erase before it can end. -/
def blocking (r : FtlRegion) (f : Buf) : Finset Nat := r.blockingAt f (r.top f)

/-- How many of the first `m` battery checks from the board's next one are passed. -/
def passed (env : Env) (b : Board) (m : Nat) : Nat :=
  ((List.range m).map fun t => (env.vbatOk (b.checks + t)).toNat).sum

theorem mem_blockingAt {f : Buf} {i m : Nat} :
    i ∈ r.blockingAt f m ↔ i < r.pages ∧ r.nums f i = some m ∧ ¬ ChksumOk (r.page f i) ∧
      ∀ j < r.pages, r.goods f j = some m → j < i := by
  simp [blockingAt]

theorem le_top {f : Buf} {i k : Nat} (hi : i < r.pages) (hk : r.nums f i = some k) :
    k ≤ r.top f := by
  have h : (r.nums f i).getD 0 ≤ r.top f :=
    Finset.le_sup (f := fun i => (r.nums f i).getD 0) (Finset.mem_range.mpr hi)
  rwa [hk, Option.getD_some] at h

/-- The last maximum of the numbers has the highest one. -/
theorem top_eq {f : Buf} {lo i k : Nat} (h : IsLastMax (r.nums f) r.pages lo i k) :
    r.top f = k := by
  refine le_antisymm (Finset.sup_le fun j hj => ?_) (le_top h.lt h.key_eq)
  rcases hn : r.nums f j with _ | l
  · simp
  · exact h.max j (Finset.mem_range.mp hj) l hn

theorem card_blocking_le (f : Buf) : (r.blocking f).card ≤ r.pages :=
  (Finset.card_filter_le _ _).trans (Finset.card_range _).le

theorem passed_succ (env : Env) (b : Board) (m : Nat) :
    passed env b (m + 1) = (env.vbatOk b.checks).toNat + passed env b.checked m := by
  simp [passed, List.range_succ_eq_map, Function.comp_def, Nat.add_assoc, Nat.add_comm 1]

/-- When every check is passed the pages are erased one after the other. -/
theorem passed_of_forall {env : Env} (h : ∀ k, env.vbatOk k = true) (b : Board) (m : Nat) :
    passed env b m = m := by
  simp [passed, h]

theorem checks_rejected (b : Board) (i : Nat) : (rejected env r b i).checks = b.checks + 1 := by
  unfold rejected; split <;> rfl

/-- A bad page that is the last maximum blocks the loop. -/
theorem mem_blockingAt_of_isLastMax {f : Buf} {lo i m : Nat}
    (h : IsLastMax (r.nums f) r.pages lo i m) (hb : ¬ ChksumOk (r.page f i)) :
    i ∈ r.blockingAt f m :=
  mem_blockingAt.mpr ⟨h.lt, h.key_eq, hb, fun j hj hg =>
    lt_of_le_of_ne (h.last j hj (nums_of_goods hg)) (by
      rintro rfl; exact hb (chksumOk_of_goodNum hg))⟩

/-- Rejecting it takes it from the blocking pages, if the erase gets through. -/
theorem blockingAt_rejected (env : Env) {b : Board} {lo i m : Nat}
    (h : IsLastMax (r.nums b.flash) r.pages lo i m) (hb : ¬ ChksumOk (r.page b.flash i)) :
    (r.blockingAt (rejected env r b i).flash m).card + (env.vbatOk b.checks).toNat =
      (r.blockingAt b.flash m).card := by
  have hi := mem_blockingAt_of_isLastMax h hb
  cases hv : env.vbatOk b.checks
  · simp [rejected, hv]
  · have he : r.blockingAt (rejected env r b i).flash m = (r.blockingAt b.flash m).erase i := by
      ext j
      simp only [rejected, hv, if_true, Board.flash_perform, Board.flash_checked,
        FlashOp.replay_cons, FlashOp.replay_nil, Finset.mem_erase, mem_blockingAt,
        goods_erase hb]
      rcases eq_or_ne j i with rfl | hne
      · simp [nums_erase]
      · have hp := chksumOk_congr (page_erase_ne (r := r) (f := b.flash) hne)
        simp [hne, (erase_ne hne).1, hp]
    rw [he, Finset.card_erase_of_mem hi]
    have := Finset.card_pos.mpr ⟨i, hi⟩
    simp only [Bool.toNat_true]
    omega

/-- One attempt, seen from the number `m` that no page exceeds: it ends when no page blocks, and
otherwise rejects the last page with that number. -/
theorem chooseAttempt_cases (env : Env) {b : Board} {lo m : Nat} (hlo : lo ≤ m)
    (hle : ∀ i < r.pages, ∀ k, r.nums b.flash i = some k → k ≤ m)
    (hm : lo = m ∨ ∃ i < r.pages, r.nums b.flash i = some m) :
    ((r.blockingAt b.flash m).card = 0 ∧
      ∃ x, chooseAttempt env r.cfg r.addr lo b = .ok (.inr x) b) ∨
    ∃ i, IsLastMax (r.nums b.flash) r.pages m i m ∧ ¬ ChksumOk (r.page b.flash i) ∧
      chooseAttempt env r.cfg r.addr lo b = .ok (.inl m) (rejected env r b i) := by
  by_cases hex : ∃ i < r.pages, r.nums b.flash i = some m
  · obtain ⟨i₀, hi₀, hk₀⟩ := hex
    obtain ⟨i, k, h⟩ := exists_isLastMax hi₀ hk₀ hlo
    obtain rfl : k = m := le_antisymm (hle i h.lt k h.key_eq) (h.max i₀ hi₀ m hk₀)
    by_cases hc : ChksumOk (r.page b.flash i)
    · refine .inl ⟨Finset.card_eq_zero.mpr (Finset.eq_empty_of_forall_notMem fun j hj => ?_), _,
        chooseAttempt_good h hc⟩
      obtain ⟨hj, hn, -, hg⟩ := mem_blockingAt.mp hj
      have := hg i h.lt ((goodNum_eq hc).trans h.key_eq)
      have := h.last j hj hn
      omega
    · exact .inr ⟨i, h.of_le le_rfl, hc, chooseAttempt_bad h hc⟩
  · obtain rfl : lo = m := hm.resolve_right hex
    have hlt : ∀ i < r.pages, ∀ k, r.nums b.flash i = some k → k < lo := fun i hi k hk =>
      lt_of_le_of_ne (hle i hi k hk) (by rintro rfl; exact hex ⟨i, hi, hk⟩)
    refine .inl ⟨Finset.card_eq_zero.mpr (Finset.eq_empty_of_forall_notMem fun j hj => ?_), _,
      chooseAttempt_none hlt⟩
    obtain ⟨hj, hn, -⟩ := mem_blockingAt.mp hj
    exact hex ⟨j, hj, hn⟩

/-- Rejecting a page brings no number that was not there. -/
theorem nums_rejected {b : Board} {i j k : Nat}
    (h : r.nums (rejected env r b i).flash j = some k) : r.nums b.flash j = some k := by
  unfold rejected at h
  split at h
  · exact (nums_of_nums_erase h).2
  · exact h

/-- The loop ends within `m` attempts more than the erases it needs, if these get through. -/
theorem chooseAgain_returns (env : Env) {top : Nat} : ∀ (m : Nat) {b : Board} {lo : Nat}, lo ≤ top →
    (∀ i < r.pages, ∀ k, r.nums b.flash i = some k → k ≤ top) →
    (lo = top ∨ ∃ i < r.pages, r.nums b.flash i = some top) →
    (r.blockingAt b.flash top).card ≤ passed env b m →
    ∃ x b', chooseAgain env r.cfg r.addr (m + 1) lo b = .ok x b' := by
  intro m
  induction m with
  | zero =>
    intro b lo hlo hle hm hc
    rcases chooseAttempt_cases env hlo hle hm with ⟨-, x, he⟩ | ⟨i, h, hb, -⟩
    · exact ⟨x, b, chooseAgain_done he⟩
    · -- a blocking page with no check left
      have := blockingAt_rejected env h hb
      have := Finset.card_pos.mpr ⟨i, mem_blockingAt_of_isLastMax h hb⟩
      simp only [passed, List.range_zero, List.map_nil, List.sum_nil] at hc
      omega
  | succ m ih =>
    intro b lo hlo hle hm hc
    rcases chooseAttempt_cases env hlo hle hm with ⟨-, x, he⟩ | ⟨i, h, hb, he⟩
    · exact ⟨x, b, chooseAgain_done he⟩
    · rw [chooseAgain_again he]
      have hcard := blockingAt_rejected env h hb
      rw [passed_succ] at hc
      have hp : passed env (rejected env r b i) m = passed env b.checked m := by
        simp only [passed, checks_rejected, Board.checks_checked]
      exact ih le_rfl (fun j hj k hk => hle j hj k (nums_rejected hk)) (.inl rfl) (by omega)

/-- A loop that ended has got every erase through that it needed. -/
theorem chooseAgain_returns_inv {top : Nat} : ∀ (fuel : Nat) {b b' : Board} {lo : Nat}
    {x : Option Nat × Nat}, lo ≤ top →
    (∀ i < r.pages, ∀ k, r.nums b.flash i = some k → k ≤ top) →
    (lo = top ∨ ∃ i < r.pages, r.nums b.flash i = some top) →
    chooseAgain env r.cfg r.addr fuel lo b = .ok x b' →
    ∃ m, (r.blockingAt b.flash top).card ≤ passed env b m := by
  intro fuel
  induction fuel with
  | zero => intro b b' lo x _ _ _ h; cases h
  | succ fuel ih =>
    intro b b' lo x hlo hle hm h
    rcases chooseAttempt_cases env hlo hle hm with ⟨hc, -⟩ | ⟨i, hi, hb, he⟩
    · exact ⟨0, by omega⟩
    · rw [chooseAgain_again he] at h
      obtain ⟨m, hc⟩ := ih le_rfl (fun j hj k hk => hle j hj k (nums_rejected hk)) (.inl rfl) h
      have hcard := blockingAt_rejected env hi hb
      have hp : passed env (rejected env r b i) m = passed env b.checked m := by
        simp only [passed, checks_rejected, Board.checks_checked]
      exact ⟨m + 1, by rw [passed_succ]; omega⟩

/-- The start of the loop: the highest number is some page's, or no page is in use. -/
theorem top_reached (f : Buf) : (0 = r.top f) ∨ ∃ i < r.pages, r.nums f i = some (r.top f) := by
  rcases scan_cases (r.nums f) r.pages 0 with ⟨i, k, h, -⟩ | ⟨h, -⟩
  · exact .inr ⟨i, h.lt, (top_eq h).symm ▸ h.key_eq⟩
  · refine .inl (Eq.symm (Nat.le_zero.mp (Finset.sup_le fun j hj => ?_)))
    rcases hn : r.nums f j with _ | l
    · simp
    · exact absurd (h j (Finset.mem_range.mp hj) l hn) (Nat.not_lt_zero l)

/-- With the battery good, one attempt more than the region has pages is enough. -/
theorem chooseAgain_returns_of_vbatOk (hv : ∀ k, env.vbatOk k = true) {fuel : Nat}
    (hf : r.pages < fuel) (b : Board) :
    ∃ x b', chooseAgain env r.cfg r.addr fuel 0 b = .ok x b' := by
  obtain ⟨m, rfl⟩ := Nat.exists_eq_add_of_lt (Nat.zero_lt_of_lt hf)
  rw [Nat.zero_add]
  refine chooseAgain_returns env m (Nat.zero_le _) (fun i hi k hk => le_top hi hk)
    (top_reached b.flash) ?_
  rw [passed_of_forall hv]
  have := card_blocking_le (r := r) b.flash
  simp only [blocking] at this
  omega

/-- **When `xy_choose_valid_ftl` terminates.**  Exactly when, from some point on, the battery has
let through as many erases as there are pages blocking the choice. -/
theorem xyChooseValidFtl_returns_iff (hr : r.Registered env) (b : Board) :
    (∃ fuel x b', xyChooseValidFtl env fuel r.addr b = .ok x b') ↔
      ∃ m, (r.blocking b.flash).card ≤ passed env b m := by
  constructor
  · rintro ⟨fuel, x, b', h⟩
    rw [xyChooseValidFtl_eq hr] at h
    exact chooseAgain_returns_inv fuel (Nat.zero_le _) (fun i hi k hk => le_top hi hk)
      (top_reached b.flash) h
  · rintro ⟨m, hm⟩
    obtain ⟨x, b', h⟩ := chooseAgain_returns env m (Nat.zero_le _)
      (fun i hi k hk => le_top hi hk) (top_reached b.flash) hm
    exact ⟨m + 1, x, b', by rw [xyChooseValidFtl_eq hr, h]⟩

/-- A torn page in an otherwise erased region. -/
def tornBoard : Board where
  flash := blankFlash.write (nonVolatile.sector 0) ((tornPage 1).read 0 sectorLength)
  ops := []
  checks := 0

/-- The board runs on after the reset for low voltage, and the voltage is still low. -/
def lowVoltageEnv : Env := { bootEnv with vbatOk := vbatCourse ⟨30, true⟩ fun _ => 2500 }

theorem nums_tornBoard : IsLastMax (nonVolatile.nums tornBoard.flash) nonVolatile.pages 0 0 1 := by
  have h₀ : nonVolatile.nums tornBoard.flash 0 = some 1 :=
    (num_congr (page_write 0)).trans (num_tornPage (by decide) (by decide))
  have h₁ : nonVolatile.nums tornBoard.flash 1 = none := by
    refine (num_congr (page_write_ne (by decide) (by simp))).trans ?_
    exact num_of_erased fun _ _ => rfl
  exact isLastMax_of_only_zero h₀ h₁ (Nat.zero_le 1)

theorem not_chksumOk_tornBoard : ¬ ChksumOk (nonVolatile.page tornBoard.flash 0) := fun h =>
  not_chksumOk_tornPage 1 ((chksumOk_congr (page_write 0)).mp h)

/-- With the battery good, the torn page is erased and the loop ends. -/
theorem xyChooseValidFtl_returns_tornBoard :
    ∃ fuel x b', xyChooseValidFtl bootEnv fuel nonVolatile.addr tornBoard = .ok x b' :=
  (xyChooseValidFtl_returns_iff registered_nonVolatile tornBoard).mpr
    ⟨nonVolatile.pages, (card_blocking_le _).trans (passed_of_forall (fun _ => rfl) _ _).ge⟩

/-- After the reset for low voltage every erase is refused, and the loop rejects the torn page for
ever. -/
theorem not_xyChooseValidFtl_returns_lowVoltage :
    ¬ ∃ fuel x b', xyChooseValidFtl lowVoltageEnv fuel nonVolatile.addr tornBoard = .ok x b' := by
  rintro ⟨fuel, x, b', h⟩
  have hr : nonVolatile.Registered lowVoltageEnv := rfl
  rw [xyChooseValidFtl_eq hr] at h
  obtain ⟨m, hm⟩ := chooseAgain_returns_inv fuel (Nat.zero_le _) (fun i hi k hk => le_top hi hk)
    (top_reached tornBoard.flash) h
  have hlow : ∀ k, lowVoltageEnv.vbatOk k = false := fun k =>
    vbatCourse_sticky (show vbatCourse ⟨30, true⟩ (fun _ => 2500) 0 = false from by decide) k
      (Nat.zero_le k)
  have hp : passed lowVoltageEnv tornBoard m = 0 := by simp [passed, hlow]
  have hb := mem_blockingAt_of_isLastMax nums_tornBoard not_chksumOk_tornBoard
  rw [top_eq nums_tornBoard, hp] at hm
  exact absurd (Finset.card_pos.mpr ⟨0, hb⟩) (by omega)

/-! ### What the loop chooses -/

/-- The newest intact page is `j`, with number `l`. -/
abbrev Newest (r : FtlRegion) (f : Buf) (j l : Nat) : Prop := IsLastMax (r.goods f) r.pages 0 j l

/-- The newest intact page. -/
def current (r : FtlRegion) (f : Buf) : Option Nat := (scan (r.goods f) r.pages 0).2

/-- The page to write next. -/
def next (r : FtlRegion) (f : Buf) : Nat :=
  match r.current f with
  | some i => (i + 1) % r.pages
  | none => 0

/-- No page in use has a higher number than the newest intact one. -/
def Unhidden (r : FtlRegion) (f : Buf) : Prop :=
  ∀ j l, r.Newest f j l → ∀ i < r.pages, ∀ k, r.nums f i = some k → k ≤ l

/-- Erases of pages that are not intact. -/
inductive Scrubs (r : FtlRegion) : Buf → List FlashOp → Buf → Prop
  | nil (f : Buf) : Scrubs r f [] f
  | cons {f f' : Buf} {i : Nat} {ops : List FlashOp} (hi : i < r.pages)
      (hb : ¬ ChksumOk (r.page f i))
      (t : Scrubs r ((FlashOp.erase (r.sector i)).apply f) ops f') :
      Scrubs r f (.erase (r.sector i) :: ops) f'

theorem current_of_newest {f : Buf} {j l : Nat} (h : r.Newest f j l) : r.current f = some j := by
  rw [current, scan_of_isLastMax h]

theorem current_cases (r : FtlRegion) (f : Buf) :
    (∃ j l, r.Newest f j l ∧ r.current f = some j) ∨
    ((∀ i < r.pages, r.goods f i = none) ∧ r.current f = none) := by
  rcases scan_cases (r.goods f) r.pages 0 with ⟨j, l, h, he⟩ | ⟨h, he⟩
  · exact .inl ⟨j, l, h, by rw [current, he]⟩
  · refine .inr ⟨fun i hi => ?_, by rw [current, he]⟩
    rcases hg : r.goods f i with _ | k
    · rfl
    · exact absurd (h i hi k hg) (Nat.not_lt_zero k)

theorem newest_of_current {f : Buf} {j : Nat} (h : r.current f = some j) :
    ∃ l, r.Newest f j l := by
  rcases current_cases r f with ⟨i, l, hn, hc⟩ | ⟨-, hc⟩
  · rw [hc] at h; cases h; exact ⟨l, hn⟩
  · rw [hc] at h; cases h

theorem current_lt {f : Buf} {j : Nat} (h : r.current f = some j) : j < r.pages :=
  (newest_of_current h).elim fun _ hn => hn.lt

theorem next_eq {f : Buf} {i : Nat} (h : r.current f = some i) :
    r.next f = (i + 1) % r.pages := by rw [next, h]

theorem next_of_none {f : Buf} (h : r.current f = none) : r.next f = 0 := by rw [next, h]

namespace Scrubs

theorem replay_eq {f f' : Buf} {ops : List FlashOp} (h : r.Scrubs f ops f') :
    f' = FlashOp.replay ops f := by
  induction h with
  | nil => rfl
  | cons _ _ _ ih => rw [ih, FlashOp.replay_cons]

theorem trans {f f' f'' : Buf} {ops ops' : List FlashOp} (h : r.Scrubs f ops f')
    (h' : r.Scrubs f' ops' f'') : r.Scrubs f (ops ++ ops') f'' := by
  induction h with
  | nil => exact h'
  | cons hi hb _ ih => exact .cons hi hb (ih h')

/-- Rejecting a page that is not intact. -/
theorem rejected (env : Env) {b : Board} {i : Nat} (hi : i < r.pages)
    (hb : ¬ ChksumOk (r.page b.flash i)) :
    ∃ ops, r.Scrubs b.flash ops (rejected env r b i).flash ∧
      (FtlRegion.rejected env r b i).ops = b.ops ++ ops := by
  unfold FtlRegion.rejected
  split_ifs
  · exact ⟨_, .cons hi hb (.nil _), rfl⟩
  · exact ⟨[], .nil _, by simp⟩

theorem goods_eq {f f' : Buf} {ops : List FlashOp} (h : r.Scrubs f ops f') :
    r.goods f' = r.goods f := by
  induction h with
  | nil => rfl
  | cons _ hb _ ih => rw [ih, goods_erase hb]

theorem nums_sub {f f' : Buf} {ops : List FlashOp} (h : r.Scrubs f ops f') :
    ∀ {i k : Nat}, r.nums f' i = some k → r.nums f i = some k := by
  induction h with
  | nil => exact fun h => h
  | cons _ _ _ ih => exact fun h => (nums_of_nums_erase (ih h)).2

/-- Intact pages keep their bytes. -/
theorem page_agree {f f' : Buf} {ops : List FlashOp} (h : r.Scrubs f ops f') {i : Nat}
    (hc : ChksumOk (r.page f i)) : (r.page f' i).Agree (r.page f i) 0 4096 := by
  induction h with
  | nil => exact fun _ _ _ => rfl
  | @cons f f' j ops _ hb _ ih =>
    have hp := page_erase_ne (r := r) (f := f) (i := j) (j := i) (by rintro rfl; exact hb hc)
    intro k h₁ h₂
    rw [ih ((chksumOk_congr hp).mpr hc) k h₁ h₂, hp k h₁ h₂]

theorem outside {f f' : Buf} {ops : List FlashOp} (h : r.Scrubs f ops f') {a : Nat}
    (ha : r.Outside a) : f' a = f a := by
  induction h with
  | nil => rfl
  | cons hi _ _ ih => rw [ih, FlashOp.apply_outside (ha.not_mem hi)]

theorem unhidden {f f' : Buf} {ops : List FlashOp} (h : r.Scrubs f ops f')
    (hU : r.Unhidden f) : r.Unhidden f' := fun j l hn i hi k hk =>
  hU j l (hn.congr fun _ _ => by rw [h.goods_eq]) i hi k (h.nums_sub hk)

end Scrubs

theorem chksumOk_of_current {f : Buf} {i : Nat} (h : r.current f = some i) :
    ChksumOk (r.page f i) := by
  obtain ⟨l, hn⟩ := newest_of_current h
  exact chksumOk_of_goodNum hn.key_eq

/-- `g` has the newest intact page of `f`, and what is outside the region.  Other pages of it may
no longer be intact. -/
structure KeepsCurrent (r : FtlRegion) (f g : Buf) : Prop where
  outside : ∀ a, r.Outside a → g a = f a
  goods : ∀ i < r.pages, r.goods g i = r.goods f i ∨ r.goods g i = none ∧ r.current f ≠ some i
  page : ∀ i, r.current f = some i → (r.page g i).Agree (r.page f i) 0 4096

namespace KeepsCurrent

theorem refl (f : Buf) : r.KeepsCurrent f f :=
  ⟨fun _ _ => rfl, fun _ _ => .inl rfl, fun _ _ _ _ _ => rfl⟩

theorem current_eq {f g : Buf} (h : r.KeepsCurrent f g) : r.current g = r.current f := by
  rcases current_cases r f with ⟨j, l, hn, hc⟩ | ⟨hn, hc⟩
  · have hsub : ∀ i < r.pages, ∀ k, r.goods g i = some k → r.goods f i = some k := by
      intro i hi k hk
      rcases h.goods i hi with h | ⟨h, -⟩ <;> rw [h] at hk
      · exact hk
      · cases hk
    have hj : r.goods g j = some l := by
      rcases h.goods j hn.lt with h | ⟨-, h⟩
      · rw [h, hn.key_eq]
      · exact absurd hc h
    have hg : r.Newest g j l := ⟨hn.lt, hj, hn.le, fun i hi k hk => hn.max i hi k (hsub i hi k hk),
      fun i hi hk => hn.last i hi (hsub i hi l hk)⟩
    rw [hc, current_of_newest hg]
  · rcases current_cases r g with ⟨j, l, hg, -⟩ | ⟨-, hc'⟩
    · have := hg.key_eq
      rcases h.goods j hg.lt with h | ⟨h, -⟩
      · rw [h, hn j hg.lt] at this; cases this
      · rw [h] at this; cases this
    · rw [hc, hc']

theorem next_eq {f g : Buf} (h : r.KeepsCurrent f g) : r.next g = r.next f := by
  simp only [next, h.current_eq]

theorem trans {f g k : Buf} (h : r.KeepsCurrent f g) (h' : r.KeepsCurrent g k) :
    r.KeepsCurrent f k where
  outside a ha := (h'.outside a ha).trans (h.outside a ha)
  goods i hi := by
    rcases h'.goods i hi with e | ⟨e, hne⟩
    · rw [e]; exact h.goods i hi
    · rw [h.current_eq] at hne
      exact .inr ⟨e, hne⟩
  page i hi m h₁ h₂ := (h'.page i (h.current_eq.trans hi) m h₁ h₂).trans (h.page i hi m h₁ h₂)

end KeepsCurrent

theorem Scrubs.keeps {f f' : Buf} {ops : List FlashOp} (h : r.Scrubs f ops f') :
    r.KeepsCurrent f f' where
  outside _ ha := h.outside ha
  goods i _ := .inl (congrFun h.goods_eq i)
  page _ hi := h.page_agree (chksumOk_of_current hi)

/-- A computation ends in `b'`, either returning `x` or stopped. -/
def EndsIn {α : Type} (res : EStateM.Result Fault Board α) (x : α) (b' : Board) : Prop :=
  res = .ok x b' ∨ ∃ e, res = .error e b'

/-- **What the loop chooses.**  From `max_writenum` at most the number of the newest intact page,
the newest intact page, after erases of pages that are not intact. -/
theorem chooseAgain_spec (env : Env) :
    ∀ (fuel : Nat) (lo : Nat) {b : Board}, r.Unhidden b.flash →
    (∀ j l, r.Newest b.flash j l → lo ≤ l) →
    ∃ ops b', r.Scrubs b.flash ops b'.flash ∧ b'.ops = b.ops ++ ops ∧
      EndsIn (chooseAgain env r.cfg r.addr fuel lo b) (r.current b.flash, r.next b.flash) b' := by
  intro fuel
  induction fuel with
  | zero => exact fun _ b _ _ => ⟨[], b, .nil _, by simp, .inr ⟨.outOfFuel, rfl⟩⟩
  | succ fuel ih =>
    intro lo b hU hlo
    rcases scan_cases (r.nums b.flash) r.pages lo with ⟨i, k, h, -⟩ | ⟨h, -⟩
    · by_cases hc : ChksumOk (r.page b.flash i)
      · -- the last maximum of the numbers is intact, so it is the newest intact page
        have hn : r.Newest b.flash i k := ⟨h.lt, (goodNum_eq hc).trans h.key_eq, Nat.zero_le k,
          fun j hj k' hk' => h.max j hj k' (nums_of_goods hk'),
          fun j hj hk' => h.last j hj (nums_of_goods hk')⟩
        refine ⟨[], b, .nil _, by simp, .inl ?_⟩
        rw [chooseAgain_done (chooseAttempt_good h hc), next, current_of_newest hn]
      · rw [chooseAgain_again (chooseAttempt_bad h hc)]
        have hk : ∀ j l, r.Newest b.flash j l → k ≤ l := fun j l hn => hU j l hn i h.lt k h.key_eq
        obtain ⟨ops₁, hs₁, ho₁⟩ := Scrubs.rejected env h.lt hc
        obtain ⟨ops, b', hs, ho, he⟩ := ih k (hs₁.unhidden hU) fun j l hn =>
          hk j l (hn.congr fun m _ => congrFun hs₁.goods_eq.symm m)
        rw [hs₁.keeps.current_eq, hs₁.keeps.next_eq] at he
        exact ⟨ops₁ ++ ops, b', hs₁.trans hs, by rw [ho, ho₁, List.append_assoc], he⟩
    · -- no number reaches `lo`, and an intact page would have one
      have hnone : r.current b.flash = none := by
        rcases current_cases r b.flash with ⟨j, l, hn, -⟩ | ⟨-, hc⟩
        · exact absurd (h j hn.lt l (nums_of_goods hn.key_eq)) (not_lt.mpr (hlo j l hn))
        · exact hc
      refine ⟨[], b, .nil _, by simp, .inl ?_⟩
      rw [chooseAgain_done (chooseAttempt_none h), next, hnone]

/-- Once `max_writenum` has passed the newest intact page, the loop finds none. -/
theorem chooseAgain_beyond : ∀ (fuel : Nat) {b : Board} {lo : Nat},
    (∀ j l, r.Newest b.flash j l → l < lo) →
    ∃ b', EndsIn (chooseAgain env r.cfg r.addr fuel lo b) (none, 0) b' := by
  intro fuel
  induction fuel with
  | zero => exact fun {b} _ _ => ⟨b, .inr ⟨.outOfFuel, rfl⟩⟩
  | succ fuel ih =>
    intro b lo hlo
    rcases scan_cases (r.nums b.flash) r.pages lo with ⟨i, k, h, -⟩ | ⟨h, -⟩
    · by_cases hc : ChksumOk (r.page b.flash i)
      · have hn : r.Newest b.flash i k := ⟨h.lt, (goodNum_eq hc).trans h.key_eq, Nat.zero_le k,
          fun j hj k' hk' => h.max j hj k' (nums_of_goods hk'),
          fun j hj hk' => h.last j hj (nums_of_goods hk')⟩
        exact absurd h.le (not_le.mpr (hlo i k hn))
      · rw [chooseAgain_again (chooseAttempt_bad h hc)]
        obtain ⟨ops, hs, -⟩ := Scrubs.rejected env h.lt hc
        exact ih fun j l hn =>
          (hlo j l (hn.congr fun m _ => congrFun hs.goods_eq.symm m)).trans_le h.le
    · exact ⟨b, .inl (chooseAgain_done (chooseAttempt_none h))⟩

/-- A page that hides the newest intact one: the last with the highest number fails its
checksum. -/
theorem exists_top_of_hidden {f : Buf} (hU : ¬ r.Unhidden f) :
    ∃ i k j l, IsLastMax (r.nums f) r.pages 0 i k ∧ ¬ ChksumOk (r.page f i) ∧ r.Newest f j l ∧
      l < k := by
  simp only [Unhidden, not_forall, not_le] at hU
  obtain ⟨j, l, hn, i₀, hi₀, k₀, hk₀, hlt⟩ := hU
  obtain ⟨i, k, h⟩ := exists_isLastMax hi₀ hk₀ (Nat.zero_le k₀)
  have hlk : l < k := hlt.trans_le (h.max i₀ hi₀ k₀ hk₀)
  refine ⟨i, k, j, l, h, fun hc => ?_, hn, hlk⟩
  exact absurd (hn.max i h.lt k ((goodNum_eq hc).trans h.key_eq)) (not_le.mpr hlk)

/-- **What hides the newest intact page.**  When a page in use has a higher number, the loop gives
up the intact one. -/
theorem chooseAgain_hidden (env : Env) (fuel : Nat) {b : Board} (hU : ¬ r.Unhidden b.flash) :
    ∃ b', EndsIn (chooseAgain env r.cfg r.addr fuel 0 b) (none, 0) b' := by
  cases fuel with
  | zero => exact ⟨b, .inr ⟨.outOfFuel, rfl⟩⟩
  | succ fuel =>
    obtain ⟨i, k, j, l, h, hc, hn, hlk⟩ := exists_top_of_hidden hU
    rw [chooseAgain_again (chooseAttempt_bad h hc)]
    refine chooseAgain_beyond fuel fun j' l' hn' => ?_
    obtain ⟨ops, hs, -⟩ := Scrubs.rejected env h.lt hc
    obtain ⟨-, rfl⟩ := hn.unique (hn'.congr fun m _ => congrFun hs.goods_eq.symm m)
    exact hlk

/-- The loop erases pages only that are not intact, and chooses one of the region that was intact
and in use when the choice began. -/
theorem chooseAgain_scrubs : ∀ (fuel : Nat) {b b' : Board} {lo : Nat} {x : Option Nat × Nat},
    chooseAgain env r.cfg r.addr fuel lo b = .ok x b' →
    (∃ ops, r.Scrubs b.flash ops b'.flash) ∧
      ∀ i, x.1 = some i → i < r.pages ∧ ∃ k, r.goods b.flash i = some k := by
  intro fuel
  induction fuel with
  | zero => intro b b' lo x h; cases h
  | succ fuel ih =>
    intro b b' lo x h
    rcases scan_cases (r.nums b.flash) r.pages lo with ⟨m, k, hm, -⟩ | ⟨hm, -⟩
    · by_cases hc : ChksumOk (r.page b.flash m)
      · rw [chooseAgain_done (chooseAttempt_good hm hc)] at h
        cases h
        refine ⟨⟨[], .nil _⟩, ?_⟩
        rintro i ⟨⟩
        exact ⟨hm.lt, k, (goodNum_eq hc).trans hm.key_eq⟩
      · -- the erase of the page in hand leaves the intact ones
        rw [chooseAgain_again (chooseAttempt_bad hm hc)] at h
        obtain ⟨ops, hs, -⟩ := Scrubs.rejected env hm.lt hc
        obtain ⟨⟨ops', hs'⟩, hchosen⟩ := ih h
        refine ⟨⟨ops ++ ops', hs.trans hs'⟩, ?_⟩
        intro i hi
        rw [← hs.goods_eq]
        exact hchosen i hi
    · rw [chooseAgain_done (chooseAttempt_none hm)] at h
      cases h
      refine ⟨⟨[], .nil _⟩, ?_⟩
      rintro i ⟨⟩

/-- A page that is chosen was intact and in use when the choice began. -/
theorem chosen_good {fuel : Nat} {b b' : Board} {lo i j : Nat}
    (h : chooseAgain env r.cfg r.addr fuel lo b = .ok (some i, j) b') :
    i < r.pages ∧ ∃ k, r.goods b.flash i = some k :=
  (chooseAgain_scrubs fuel h).2 i rfl

/-- The choice leaves what is outside the region. -/
theorem chooseAgain_outside {fuel : Nat} {b b' : Board} {lo : Nat} {x : Option Nat × Nat}
    (h : chooseAgain env r.cfg r.addr fuel lo b = .ok x b') {a : Nat} (ha : r.Outside a) :
    b'.flash a = b.flash a := by
  obtain ⟨⟨ops, hs⟩, -⟩ := chooseAgain_scrubs fuel h
  exact hs.outside ha

/-- With the battery good and enough fuel, the loop returns. -/
theorem chooseAgain_ok (hv : ∀ k, env.vbatOk k = true) {fuel : Nat} (hf : r.pages < fuel)
    {b : Board} (hU : r.Unhidden b.flash) :
    ∃ ops b', r.Scrubs b.flash ops b'.flash ∧ b'.ops = b.ops ++ ops ∧
      chooseAgain env r.cfg r.addr fuel 0 b = .ok (r.current b.flash, r.next b.flash) b' := by
  obtain ⟨ops, b', hs, ho, he⟩ := chooseAgain_spec env fuel 0 hU
    fun _ _ _ => Nat.zero_le _
  obtain ⟨x, b'', h⟩ := chooseAgain_returns_of_vbatOk hv hf b
  rcases he with he | ⟨e, he⟩
  · exact ⟨ops, b', hs, ho, he⟩
  · rw [he] at h; cases h

end FtlRegion

end XY1100
