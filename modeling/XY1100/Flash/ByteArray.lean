import XY1100.Support.Calls
import XY1100.Flash.Access

/-!
# Flash — a region as a byte array

What the translation layer is for: a region stands for the bytes of its user area (`areaStep`).
A call answers as the byte array does, and leaves a flash that stands for the byte array after it
(`ftlCall_simulates`), and so does every run of calls (`ftl_refines_bytes`), as long as each is
made in a flash in which no page in use outranks the newest intact one, and no write that changes
something takes the write number to the value of erased flash.

Both conditions are needed.  A page that is not intact but has a higher number makes
`xy_choose_valid_ftl` give up the intact one (`hidden_read`): `max_writenum` keeps its number when
the choice is made again.
-/

namespace XY1100
open Support

/-! ### Calls and the byte array -/

inductive FtlCall
  | read (off size : Nat)
  | write (off : Int) (data : List UInt8)

inductive FtlReply
  | bytes (bs : Option (List UInt8))
  | status (ret : XyRet)
  deriving DecidableEq

/-- A call within the user area. -/
def FtlCall.InRange : FtlCall → Prop
  | .read off size => off + size ≤ xyFtlAvailableSize
  | .write off data => 0 ≤ off ∧ off + data.length ≤ xyFtlAvailableSize

/-- The byte array: the user area once it has been written, and before that the image a read is
answered from, if there is one.  The first write changes that image, or zeros. -/
def areaStep (image : Option Buf) (area : Option Buf) : FtlCall → FtlReply × Option Buf
  | .read off size => (.bytes ((area <|> image).map (Buf.read · off size)), area)
  | .write off data =>
      (.status .xyOk, some (((area <|> image).getD fun _ => 0).write off.toNat data))

namespace FtlRegion

/-- A call on a region. -/
def call (env : Env) (fuel : Nat) (r : FtlRegion) : FtlCall → Exec FtlReply
  | .read off size =>
      .bytes <$> xyFtlRead env fuel (r.addr + UInt32.ofNat off) (UInt32.ofNat size)
  | .write off data => .status <$> xyFtlWrite env fuel r.addr off data

variable {env : Env} {r : FtlRegion}

/-- The image a factory region is read from before its first write. -/
def image (r : FtlRegion) (f : Buf) : Option Buf :=
  if r.addr = NV_FLASH_FACTORY_BASE then
    some fun k => f (NV_FLASH_MAIN_FACTORY_BASE.toNat + k)
  else none

/-- The user area a flash stands for: that of the newest intact page. -/
def area (r : FtlRegion) (f : Buf) : Option Buf :=
  (r.current f).map fun i k => r.page f i (4 + k)

/-- The write number a write starts from. -/
def sourceNum (r : FtlRegion) (f : Buf) : UInt32 :=
  match r.current f with
  | some i => (r.page f i).word eftlWriteNumOffset
  | none =>
    if r.addr = NV_FLASH_FACTORY_BASE then
      f.word (NV_FLASH_MAIN_FACTORY_BASE.toNat + (eftlWriteNumOffset - 4))
    else 0

/-- The data of the write is in the current page already. -/
def Unchanged (r : FtlRegion) (f : Buf) (off : Nat) (data : List UInt8) : Prop :=
  ∃ i, r.current f = some i ∧ (r.page f i).read (4 + off) data.length = data

/-- The condition on a call and the flash it is made in. -/
structure CallOk (r : FtlRegion) (f : Buf) (c : FtlCall) : Prop where
  inRange : c.InRange
  unhidden : r.Unhidden f
  numLeft : ∀ off data, c = .write off data →
    r.Unchanged f off.toNat data ∨ r.sourceNum f ≠ 0xFFFFFFFE

/-- A flash stands for a byte array. -/
structure Holds (r : FtlRegion) (f₀ f : Buf) (area : Option Buf) : Prop where
  outside : ∀ a, r.Outside a → f a = f₀ a
  isNone : area = none → r.current f = none
  isSome : ∀ u, area = some u →
    ∃ i, r.current f = some i ∧ ∀ k < xyFtlAvailableSize, r.page f i (4 + k) = u k

theorem holds_area (f : Buf) : r.Holds f f (r.area f) where
  outside _ _ := rfl
  isNone h := by
    rcases hc : r.current f with _ | i
    · rfl
    · rw [area, hc] at h; cases h
  isSome u h := by
    rcases hc : r.current f with _ | i
    · rw [area, hc] at h; cases h
    · rw [area, hc] at h; cases h
      exact ⟨i, rfl, fun _ _ => rfl⟩

theorem Holds.keeps {f₀ f f' : Buf} {u : Option Buf} (hH : r.Holds f₀ f u)
    (h : r.KeepsCurrent f f') : r.Holds f₀ f' u where
  outside a ha := (h.outside a ha).trans (hH.outside a ha)
  isNone hn := h.current_eq.trans (hH.isNone hn)
  isSome v hv := by
    obtain ⟨i, hc, hk⟩ := hH.isSome v hv
    refine ⟨i, h.current_eq.trans hc, fun k hk' => ?_⟩
    simp only [xyFtlAvailableSize] at hk hk'
    rw [h.page i hc _ (by omega) (by omega), hk k hk']

/-! ### Reading -/

/-- What a read returns is what the byte array answers. -/
theorem Holds.areaRead_eq {f₀ f : Buf} {u : Option Buf} (h : r.Holds f₀ f u) {off size : Nat}
    (hin : off + size ≤ xyFtlAvailableSize) :
    r.areaRead f off size = (u <|> r.image f₀).map (Buf.read · off size) := by
  rcases u with _ | u
  · simp only [areaRead, h.isNone rfl, image]
    split_ifs with hf
    · refine congrArg some (Buf.read_congr fun k hk => ?_)
      rw [Nat.add_assoc]
      refine h.outside _ (main_outside hf ?_)
      simp only [xyFtlAvailableSize] at hin
      omega
    · rfl
  · obtain ⟨i, hc, hk⟩ := h.isSome u rfl
    simp only [areaRead, hc]
    refine congrArg some (Buf.read_congr fun k hk' => ?_)
    rw [Nat.add_assoc]
    exact hk (off + k) (by omega)

/-! ### Writing -/

theorem nextWriteNum_eq {w : UInt32} (h : w ≠ 0xFFFFFFFE) :
    nextWriteNum w ≠ 0xFFFFFFFF ∧
      (w.toNat < 0xFFFFFFFF → (nextWriteNum w).toNat = w.toNat + 1) := by
  have hlt := w.toNat_lt
  rw [ne_eq, ← UInt32.toNat_inj] at h ⊢
  unfold nextWriteNum
  split_ifs with hw
  · subst hw; exact ⟨by decide, by decide⟩
  · simp only [UInt32.toNat_add, UInt32.reduceToNat] at h ⊢
    omega

theorem source_word (f : Buf) :
    (r.source env f).word eftlWriteNumOffset = r.sourceNum f := by
  unfold source sourceNum
  rcases hc : r.current f with _ | i
  · dsimp only
    split_ifs with hf
    · refine Buf.word_congr fun j hj => ?_
      have h := Buf.write_read_inside (m := env.heap) (f := f) (a := 4)
        (c := NV_FLASH_MAIN_FACTORY_BASE.toNat) (n := sectorLength - 4)
        (i := eftlWriteNumOffset - 4 + j) (by simp only [sectorLength, eftlWriteNumOffset]; omega)
      rw [show eftlWriteNumOffset + j = 4 + (eftlWriteNumOffset - 4 + j) by
        simp only [eftlWriteNumOffset]; omega, h, Nat.add_assoc]
    · rfl
  · refine Buf.word_congr fun j hj => ?_
    exact (read_page_agree (r := r) env.heap f i) _ (by omega)
      (by simp only [eftlWriteNumOffset]; omega)

/-- The page buffer holds the bytes the byte array is written over. -/
theorem Holds.source_eq {f₀ f : Buf} {u : Option Buf} (h : r.Holds f₀ f u) {k : Nat}
    (hk : k < xyFtlAvailableSize) :
    r.source env f (4 + k) = ((u <|> r.image f₀).getD fun _ => 0) k := by
  simp only [xyFtlAvailableSize] at hk
  rcases u with _ | u
  · simp only [source, h.isNone rfl, image]
    split_ifs with hf
    · rw [Buf.write_read_inside (by simp only [sectorLength]; omega)]
      exact h.outside _ (main_outside hf (by omega))
    · rfl
  · obtain ⟨i, hc, hk'⟩ := h.isSome u rfl
    rw [source_of_current hc]
    exact (read_page_agree (r := r) env.heap f i _ (by omega) (by omega)).trans
      (hk' k (by simp only [xyFtlAvailableSize]; omega))

theorem sourceNum_of_newest {f : Buf} {i l : Nat} (h : r.Newest f i l) :
    (r.sourceNum f).toNat = l ∧ l < 0xFFFFFFFF := by
  have hl := num_bounds (nums_of_goods h.key_eq)
  simp only [sourceNum, current_of_newest h]
  exact ⟨hl.1.symm, hl.2.2⟩

/-- The page that was stored is the newest one. -/
theorem newest_store (hp : 0 < r.pages) {f : Buf} (p : Buf)
    (hg : goodNum p = some (nextWriteNum (r.sourceNum f)).toNat)
    (hn : r.sourceNum f ≠ 0xFFFFFFFE) :
    r.Newest (f.write (r.sector (r.next f)) (p.read 0 sectorLength)) (r.next f)
      (nextWriteNum (r.sourceNum f)).toNat := by
  have hnew : r.goods (f.write (r.sector (r.next f)) (p.read 0 sectorLength)) (r.next f) =
      some (nextWriteNum (r.sourceNum f)).toNat := (goodNum_congr (page_write (r.next f))).trans hg
  have hold : ∀ j, j ≠ r.next f →
      r.goods (f.write (r.sector (r.next f)) (p.read 0 sectorLength)) j = r.goods f j :=
    fun j hj => goodNum_congr (page_write_ne hj (by simp))
  -- the intact pages that were there have smaller numbers
  have hlt : ∀ j < r.pages, ∀ k, r.goods f j = some k →
      k < (nextWriteNum (r.sourceNum f)).toNat := by
    intro j hj k hk
    rcases current_cases r f with ⟨i, l, hnew, -⟩ | ⟨hnone, -⟩
    · have hs := sourceNum_of_newest hnew
      have := hnew.max j hj k hk
      have := (nextWriteNum_eq hn).2 (by omega)
      omega
    · rw [hnone j hj] at hk; cases hk
  refine ⟨r.next_lt hp f, hnew, Nat.zero_le _, fun j hj k hk => ?_, fun j hj hk => ?_⟩
  · rcases eq_or_ne j (r.next f) with rfl | hne
    · rw [hnew] at hk; cases hk; exact le_rfl
    · exact (hlt j hj k (hold j hne ▸ hk)).le
  · rcases eq_or_ne j (r.next f) with rfl | hne
    · exact le_rfl
    · exact absurd (hlt j hj _ (hold j hne ▸ hk)) (lt_irrefl _)

/-- Storing a page leaves none that outranks it, where the pages in use have lower numbers. -/
theorem unhidden_store (hp : 0 < r.pages) {f : Buf} (p : Buf)
    (hg : goodNum p = some (nextWriteNum (r.sourceNum f)).toNat)
    (hn : r.sourceNum f ≠ 0xFFFFFFFE)
    (hlow : ∀ m < r.pages, ∀ k, r.nums f m = some k →
      k ≤ (nextWriteNum (r.sourceNum f)).toNat) :
    r.Unhidden (f.write (r.sector (r.next f)) (p.read 0 sectorLength)) := by
  intro j l hnew m hm k hk
  obtain ⟨-, rfl⟩ := hnew.unique (newest_store hp p hg hn)
  rcases eq_or_ne m (r.next f) with rfl | hne
  · have h : some k = some _ :=
      hk.symm.trans ((num_congr (page_write (r.next f))).trans (num_of_goodNum hg))
    cases h; exact le_rfl
  · exact hlow m hm k ((num_congr (page_write_ne hne (by simp))).symm.trans hk)

/-- The pages in use have lower numbers than the page that is stored next, where there is an intact
one and none outranks it. -/
theorem Unhidden.le_next {f : Buf} (hU : r.Unhidden f) {i : Nat} (hc : r.current f = some i)
    (hn : r.sourceNum f ≠ 0xFFFFFFFE) :
    ∀ m < r.pages, ∀ k, r.nums f m = some k → k ≤ (nextWriteNum (r.sourceNum f)).toNat := by
  intro m hm k hk
  obtain ⟨l, hcur⟩ := newest_of_current hc
  have hs := sourceNum_of_newest hcur
  have := hU i l hcur m hm k hk
  have := (nextWriteNum_eq hn).2 (by omega)
  omega

/-- What a flash stands for after a page was stored. -/
theorem Holds.store (hp : 0 < r.pages) {f₀ f : Buf} {u : Option Buf} (h : r.Holds f₀ f u)
    {off : Nat} {data : List UInt8} (hin : off + data.length ≤ xyFtlAvailableSize)
    (hn : r.sourceNum f ≠ 0xFFFFFFFE) :
    r.Holds f₀ (f.write (r.sector (r.next f))
        ((sealPage (r.source env f) (4 + off) data).read 0 sectorLength))
      (some (((u <|> r.image f₀).getD fun _ => 0).write off data)) where
  outside a ha := by
    have := ha.not_mem (r.next_lt hp f)
    rw [Buf.write_outside (by rw [Buf.length_read]; simpa only [sectorLength] using this)]
    exact h.outside a ha
  isNone h := by cases h
  isSome v hv := by
    cases hv
    simp only [xyFtlAvailableSize] at hin
    have hg := goodNum_sealPage (r.source env f) (4 + off) data
      (by simp only [eftlCsmOffset]; omega) (by omega)
    rw [source_word, if_neg (nextWriteNum_eq hn).1] at hg
    refine ⟨r.next f, current_of_newest (newest_store hp _ hg hn), fun k hk => ?_⟩
    have hk' : k < 4076 := hk
    refine (page_write (r.next f) _ (by omega) (by omega)).trans ?_
    rw [sealPage_data hk, Buf.write_shift]
    exact Buf.write_congr (h.source_eq hk) off data

/-- A write of what is there already leaves the byte array. -/
theorem Holds.unchanged {f₀ f : Buf} {u : Option Buf} (h : r.Holds f₀ f u) {off : Nat}
    {data : List UInt8} (hin : off + data.length ≤ xyFtlAvailableSize)
    (hsome : (r.current f).isSome) (hd : (r.source env f).read (4 + off) data.length = data) :
    r.Holds f₀ f (some (((u <|> r.image f₀).getD fun _ => 0).write off data)) := by
  rcases u with _ | u
  · rw [h.isNone rfl] at hsome; cases hsome
  · have hu : u.read off data.length = data := by
      refine Eq.trans (Buf.read_congr fun k hk => ?_) hd
      rw [Nat.add_assoc, h.source_eq (by omega)]
      rfl
    show r.Holds f₀ f (some (u.write off data))
    rw [Buf.write_read_self hu]
    exact h

theorem KeepsCurrent.sourceNum_eq {f g : Buf} (h : r.KeepsCurrent f g) :
    r.sourceNum g = r.sourceNum f := by
  simp only [sourceNum, h.current_eq]
  rcases hc : r.current f with _ | i
  · dsimp only
    split_ifs with hf
    · refine Buf.word_congr fun k hk => ?_
      rw [Nat.add_assoc]
      exact h.outside _ (main_outside hf (by simp only [eftlWriteNumOffset]; omega))
    · rfl
  · exact Buf.word_congr fun k hk => h.page i hc _ (by omega)
      (by simp only [eftlWriteNumOffset]; omega)

theorem KeepsCurrent.source_read {f g : Buf} (h : r.KeepsCurrent f g) {i off n : Nat}
    (hc : r.current f = some i) (hin : off + n ≤ xyFtlAvailableSize) :
    (r.source env g).read (4 + off) n = (r.page f i).read (4 + off) n := by
  rw [source_of_current (h.current_eq.trans hc)]
  simp only [xyFtlAvailableSize] at hin
  refine Buf.read_congr fun k hk => ?_
  exact (read_page_agree (r := r) env.heap g i _ (by omega) (by omega)).trans
    (h.page i hc _ (by omega) (by omega))

/-! ### Runs -/

/-- **One call.**  It answers as the byte array does, and the flash stands for what the byte array
has become. -/
theorem call_simulates (hr : r.Registered env) (hp : 0 < r.pages)
    (hv : ∀ k, env.vbatOk k = true) {fuel : Nat} (hf : r.pages < fuel) {f₀ : Buf} {b : Board}
    {u : Option Buf} {c : FtlCall} (hH : r.Holds f₀ b.flash u) (hc : r.CallOk b.flash c) :
    ∃ b', r.call env fuel c b = .ok (areaStep (r.image f₀) u c).1 b' ∧
      r.Holds f₀ b'.flash (areaStep (r.image f₀) u c).2 := by
  cases c with
  | read off size =>
    obtain ⟨ops, b', hs, -, he⟩ := xyFtlRead_returns hr hv hf hc.unhidden hc.inRange
    refine ⟨b', ?_, hH.keeps hs.keeps⟩
    rw [hH.areaRead_eq hc.inRange] at he
    exact map_ok he
  | write off data =>
    obtain ⟨h₀, hin⟩ := hc.inRange
    obtain ⟨off, rfl⟩ := Int.eq_ofNat_of_zero_le h₀
    have hin : off + data.length ≤ xyFtlAvailableSize := by omega
    obtain ⟨ops, f', b', hs, he, h⟩ := xyFtlWrite_returns hr hp hv hf hc.unhidden hin
    refine ⟨b', map_ok he, ?_⟩
    have hH' := hH.keeps hs.keeps
    rcases h with ⟨hsome, hd, hfl⟩ | ⟨hne, hfl⟩
    · rw [hfl]
      exact hH'.unchanged hin (by rw [hs.keeps.current_eq]; exact hsome) hd
    · rw [hfl, ← hs.keeps.next_eq]
      refine hH'.store hp hin ?_
      rcases hc.numLeft off data rfl with ⟨i, hcur, hd⟩ | hn
      · -- the page buffer is the current page, so the data would have been found there
        exact absurd ⟨by rw [hcur]; rfl, (hs.keeps.source_read hcur hin).trans hd⟩ hne
      · rwa [hs.keeps.sourceNum_eq]

/-- The region takes a write: the call meets `CallOk`, and where no page is intact none is in
use. -/
structure Takes (r : FtlRegion) (f : Buf) (off : Nat) (data : List UInt8) : Prop where
  callOk : r.CallOk f (.write off data)
  unused : r.current f = none → ∀ i < r.pages, r.nums f i = none

/-- A region takes a write where it has an intact page that none outranks. -/
theorem takes_of_newest {f : Buf} {i l : Nat} (hn : r.Newest f i l) (hU : r.Unhidden f)
    (hl : l < 0xFFFFFFFE) {off : Nat} {data : List UInt8}
    (hin : off + data.length ≤ xyFtlAvailableSize) : r.Takes f off data where
  callOk := {
    inRange := ⟨Int.natCast_nonneg off, by omega⟩
    unhidden := hU
    numLeft := fun _ _ _ => .inr fun he => by
      have h := (sourceNum_of_newest hn).1
      rw [he, show (0xFFFFFFFE : UInt32).toNat = 0xFFFFFFFE from rfl] at h
      omega }
  unused hc := by
    rw [current_of_newest hn] at hc
    cases hc

/-- After a write that a region takes no page in use outranks the newest intact one. -/
theorem Takes.unhidden (hr : r.Registered env) (hp : 0 < r.pages) (hv : ∀ k, env.vbatOk k = true)
    {fuel : Nat} (hf : r.pages < fuel) {b b' : Board} {off : Nat} {data : List UInt8}
    (h : r.Takes b.flash off data) (he : xyFtlWrite env fuel r.addr off data b = .ok .xyOk b') :
    r.Unhidden b'.flash := by
  obtain ⟨-, hin⟩ := h.callOk.inRange
  obtain ⟨ops, f', b₁, hs, he₁, hend⟩ :=
    xyFtlWrite_returns hr hp hv hf h.callOk.unhidden (show off + data.length ≤ _ by omega)
  cases he.symm.trans he₁
  have hU := hs.unhidden h.callOk.unhidden
  rcases hend with ⟨-, -, hfl⟩ | ⟨hne, hfl⟩
  · rwa [hfl]
  · have hnum : r.sourceNum f' ≠ 0xFFFFFFFE := by
      rcases h.callOk.numLeft off data rfl with ⟨i, hcur, hd⟩ | hn
      · exact absurd ⟨by rw [hcur]; rfl,
          (hs.keeps.source_read hcur (by omega)).trans hd⟩ hne
      · rwa [hs.keeps.sourceNum_eq]
    simp only [xyFtlAvailableSize] at hin
    have hg := goodNum_sealPage (r.source env f') (4 + off) data
      (by simp only [eftlCsmOffset]; omega) (by omega)
    rw [source_word, if_neg (nextWriteNum_eq hnum).1] at hg
    rw [hfl, ← hs.keeps.next_eq]
    refine unhidden_store hp _ hg hnum fun m hm k hk => ?_
    rcases hc : r.current b.flash with _ | i
    · cases (h.unused hc m hm).symm.trans (hs.nums_sub hk)
    · exact hU.le_next (hs.keeps.current_eq.trans hc) hnum m hm k hk

/-- **A region refines a byte array.**  Every run of calls, each made in a flash that meets
`CallOk`, answers as the byte array does from what the region stands for at its start. -/
theorem ftl_refines_bytes (hr : r.Registered env) (hp : 0 < r.pages)
    (hv : ∀ k, env.vbatOk k = true) {fuel : Nat} (hf : r.pages < fuel) {b : Board}
    {cs : List FtlCall}
    (h : Along (r.call env fuel) (fun b c => r.CallOk b.flash c) cs b) :
    ∃ b', cs.mapM (r.call env fuel) b =
      .ok (specRun (areaStep (r.image b.flash)) (r.area b.flash) cs).1 b' := by
  obtain ⟨b', he, -⟩ := mapM_simulates (R := fun b' u => r.Holds b.flash b'.flash u)
    (fun _ _ _ hH hc => call_simulates hr hp hv hf hH hc) (holds_area b.flash) h
  exact ⟨b', he⟩

/-- The board after the first write to the region. -/
def sealedBoard : Board := ⟨sealedFlash, [], 0⟩

theorem takes_sealedFlash : nonVolatile.Takes sealedFlash 0 [8] :=
  takes_of_newest newest_sealedFlash unhidden_sealedFlash (by decide) (by decide)

/-- After the second write no page in use outranks the newest intact one. -/
theorem unhidden_second_write {o : FtlReply} {b : Board}
    (h : nonVolatile.call bootEnv 3 (.write 0 [8]) sealedBoard = .ok o b) :
    nonVolatile.Unhidden b.flash := by
  obtain ⟨b', hcall, -⟩ := call_simulates registered_nonVolatile (by decide) (fun _ => rfl)
    (show nonVolatile.pages < 3 by decide) (holds_area sealedBoard.flash) takes_sealedFlash.callOk
  obtain ⟨ret, he, hret⟩ := map_eq_ok hcall
  cases hret
  cases h.symm.trans hcall
  exact takes_sealedFlash.unhidden registered_nonVolatile (by decide) (fun _ => rfl) (by decide) he

/-- A second write, and a read. -/
theorem ftl_refines_bytes_sealedBoard :
    ∃ b', [FtlCall.write 0 [8], .read 0 1].mapM (nonVolatile.call bootEnv 3) sealedBoard =
      .ok (specRun (areaStep (nonVolatile.image sealedFlash)) (nonVolatile.area sealedFlash)
        [FtlCall.write 0 [8], .read 0 1]).1 b' :=
  ftl_refines_bytes registered_nonVolatile (by decide) (fun _ => rfl) (by decide)
    ⟨takes_sealedFlash.callOk, fun _ _ h =>
      ⟨⟨show 0 + 1 ≤ xyFtlAvailableSize by decide, unhidden_second_write h,
        fun _ _ hw => by cases hw⟩, fun _ _ _ => trivial⟩⟩

def hiddenBoard : Board := ⟨hiddenFlash, [], 0⟩

/-- In a flash with a torn second write a read does not return the byte of the first. -/
theorem not_ftl_refines_bytes_hiddenFlash :
    ¬ ∃ b', [FtlCall.read 0 1].mapM (nonVolatile.call bootEnv 3) hiddenBoard =
      .ok (specRun (areaStep (nonVolatile.image hiddenFlash)) (nonVolatile.area hiddenFlash)
        [FtlCall.read 0 1]).1 b' := by
  rintro ⟨b', h⟩
  obtain ⟨o, os, b₁, ho, hc, -⟩ := mapM_cons_inv h
  obtain ⟨x, hx, rfl⟩ := map_eq_ok hc
  have hf : nonVolatile.addr ≠ NV_FLASH_FACTORY_BASE := by decide
  have hU : ¬ nonVolatile.Unhidden hiddenBoard.flash := by
    simpa only [hiddenBoard] using not_unhidden_hiddenFlash
  have hin : 0 + 1 ≤ xyFtlAvailableSize := by simp only [xyFtlAvailableSize]; omega
  obtain ⟨b₃, hend⟩ := xyFtlRead_hidden 3
    registered_nonVolatile hf hU hin
  rcases hend with he' | ⟨e, he'⟩
  · cases he'.symm.trans hx
    simp only [specRun, areaStep, area, current_of_newest newest_hiddenFlash] at ho
    cases ho
  · cases he'.symm.trans hx

end FtlRegion

end XY1100
