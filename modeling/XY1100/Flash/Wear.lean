import Mathlib.Data.Int.CardIntervalMod
import XY1100.Flash.ByteArray

/-!
# Flash — wear levelling

Writes to a region that starts erased, with nothing but these writes changing it.  Every page in
use is then intact (`AllIntact`), so choosing the current page erases nothing, and a write either
finds its data there already or rewrites the page cyclically after the current one (`WearLaw`).

Below the limit of the write number, the page to write next is the number of pages stored so far
modulo the number of pages (`Levelled`), so each sector was erased as often as that position came
up, and no sector more than once more than another (`wear_levelling`).
-/

namespace XY1100
open Support

/-- The arguments of `xy_ftl_write` besides the region. -/
structure FtlWrite where
  off : Int
  data : List UInt8

namespace FtlRegion

/-- A write on a region. -/
def write (env : Env) (fuel : Nat) (r : FtlRegion) (w : FtlWrite) : Exec XyRet :=
  xyFtlWrite env fuel r.addr w.off w.data

/-- Every byte of the region is erased. -/
def Erased (r : FtlRegion) (f : Buf) : Prop :=
  ∀ a, r.sector 0 ≤ a → a < r.sector r.pages → f a = 0xFF

/-- The current page holds the data of the write. -/
def SameData (r : FtlRegion) (f : Buf) (w : FtlWrite) : Prop :=
  ∃ i, r.current f = some i ∧ (r.page f i).read (4 + w.off).toNat w.data.length = w.data

/-- A write of the data the current page holds does nothing.  Any other erases and programs one
sector, that of the page cyclically after the current one, or page 0 when there is none. -/
structure WearLaw (r : FtlRegion) (w : FtlWrite) (b b' : Board) : Prop where
  same : r.SameData b.flash w → b'.ops = b.ops
  changed : ¬ r.SameData b.flash w → ∃ p bs, p < r.pages ∧ r.current b.flash ≠ some p ∧
    (∀ i, r.current b.flash = some i → p = (i + 1) % r.pages) ∧ bs.length = sectorLength ∧
    b'.ops = b.ops ++ [.erase (r.sector p), .program (r.sector p) bs]

/-- How often a list of operations erases a page. -/
def wear (r : FtlRegion) (ops : List FlashOp) (i : Nat) : Nat := ops.count (.erase (r.sector i))

/-- The number the next write stores. -/
def nextNum (r : FtlRegion) (f : Buf) : Nat := (nextWriteNum (r.sourceNum f)).toNat

/-- Every page in use is intact. -/
def AllIntact (r : FtlRegion) (f : Buf) : Prop := ∀ i < r.pages, r.nums f i = r.goods f i

variable {env : Env} {r : FtlRegion} {fuel : Nat} {b b' : Board} {w : FtlWrite} {ret : XyRet}

/-! ### One write -/

/-- With every page in use intact the choice takes the newest one, and erases nothing. -/
theorem AllIntact.chooseAgain (h : r.AllIntact b.flash) (fuel : Nat) :
    chooseAgain env r.cfg r.addr (fuel + 1) 0 b = .ok (r.current b.flash, r.next b.flash) b := by
  rcases scan_cases (r.nums b.flash) r.pages 0 with ⟨i, k, hm, -⟩ | ⟨hm, -⟩
  · have hg : r.goods b.flash i = some k := (h i hm.lt).symm.trans hm.key_eq
    have hn : r.Newest b.flash i k := hm.congr fun j hj => (h j hj).symm
    rw [chooseAgain_done (chooseAttempt_good hm (chksumOk_of_goodNum hg)), next_eq
      (current_of_newest hn), current_of_newest hn]
  · have hcur : r.current b.flash = none := by
      rcases current_cases r b.flash with ⟨j, l, hn, -⟩ | ⟨-, hc⟩
      · exact absurd (hm j hn.lt l (nums_of_goods hn.key_eq)) (Nat.not_lt_zero l)
      · exact hc
    rw [chooseAgain_done (chooseAttempt_none hm), next_of_none hcur, hcur]

/-- The buffer of a write holds the data exactly when the current page does. -/
theorem source_read_iff {dst : Nat} (hdst : dst = (4 + w.off).toNat)
    (hle : dst + w.data.length ≤ sectorLength) :
    ((r.current b.flash).isSome ∧ (r.source env b.flash).read dst w.data.length = w.data) ↔
      r.SameData b.flash w := by
  simp only [sectorLength] at hle
  constructor
  · rintro ⟨hsome, hd⟩
    obtain ⟨i, hi⟩ := Option.isSome_iff_exists.mp hsome
    rw [source_of_current hi, (read_page_agree env.heap b.flash i).read (Nat.zero_le _)
      (by omega), hdst] at hd
    exact ⟨i, hi, hd⟩
  · rintro ⟨i, hi, hd⟩
    refine ⟨by rw [hi]; rfl, ?_⟩
    rw [source_of_current hi, (read_page_agree env.heap b.flash i).read (Nat.zero_le _)
      (by omega), hdst]
    exact hd

/-- The last assertion of a write found the magic word. -/
theorem magic_of_stored {dst : Nat} {data : List UInt8}
    (h : (Exec.xyAssert ((r.storePage env b dst data).flash.word (r.sector (r.next b.flash)) =
      EFTL_MAGIC_NUM) >>= fun _ => pure .xyOk) (r.storePage env b dst data) = .ok ret b') :
    (sealPage (r.source env b.flash) dst data).word 0 = EFTL_MAGIC_NUM ∧
      b' = r.storePage env b dst data := by
  by_cases hm : (r.storePage env b dst data).flash.word (r.sector (r.next b.flash)) =
      EFTL_MAGIC_NUM
  · rw [bind_ok (Exec.xyAssert_of hm _)] at h
    cases h
    exact ⟨(storePage_word env b dst data).symm.trans hm, rfl⟩
  · rw [bind_error (Exec.xyAssert_of_not hm _)] at h
    cases h

/-- The data of a write that passes its assertion and fits in the page buffer ends before the
checksum. -/
theorem dst_add_le {offset : Int} {data : List UInt8} (h₀ : 0 ≤ 4 + offset)
    (hle : 4 + offset + data.length ≤ sectorLength)
    (ha : (UInt32.ofInt offset + UInt32.ofNat data.length).toNat ≤ xyFtlAvailableSize) :
    (4 + offset).toNat + data.length ≤ eftlCsmOffset := by
  simp only [sectorLength, xyFtlAvailableSize, eftlCsmOffset] at *
  rw [show UInt32.ofInt offset = UInt32.ofNat (offset % 2 ^ 32).toNat from rfl, UInt32.toNat_add,
    UInt32.toNat_ofNat', UInt32.toNat_ofNat'] at ha
  omega

/-- A write that returns leaves the flash, or stores a page whose checksum matches and whose number
is the next one. -/
theorem write_cases (hr : r.Registered env) (hp : 0 < r.pages) (hI : r.AllIntact b.flash)
    (h : r.write env fuel w b = .ok ret b') :
    (b'.flash = b.flash ∧ b'.ops = b.ops ∧ (ret = .xyOk → r.SameData b.flash w)) ∨
    ∃ p : Buf, ¬ r.SameData b.flash w ∧ ChksumOk p ∧
      num p = (if nextWriteNum (r.sourceNum b.flash) = 0xFFFFFFFF then none
        else some (r.nextNum b.flash)) ∧
      b'.flash = b.flash.write (r.sector (r.next b.flash)) (p.read 0 sectorLength) ∧
      b'.ops = b.ops ++ [.erase (r.sector (r.next b.flash)),
        .program (r.sector (r.next b.flash)) (p.read 0 sectorLength)] := by
  have h' : xyFtlWrite env fuel r.addr w.off w.data b = .ok ret b' := h
  obtain ⟨ha, x, c, hc⟩ := chose_of_write hr h'
  obtain ⟨fuel, rfl⟩ : ∃ n, fuel = n + 1 := by
    cases fuel with
    | zero => cases hc
    | succ n => exact ⟨n, rfl⟩
  rcases xyFtlWrite_cases hr hp w.off w.data ha (hI.chooseAgain fuel) with
    ⟨-, he⟩ | ⟨⟨h₀, hle⟩, hsome, hd, he⟩ | ⟨-, he⟩ | ⟨h₀, hle, hne, he⟩
  · rw [he] at h'; cases h'
  · rw [he] at h'
    cases h'
    exact .inl ⟨rfl, rfl, fun _ => (source_read_iff rfl (by omega)).mp ⟨hsome, hd⟩⟩
  · rw [he] at h'
    cases h'
    exact .inl ⟨rfl, rfl, fun hok => by cases hok⟩
  · rw [he] at h'
    obtain ⟨hm, hb'⟩ := magic_of_stored h'
    have hdst : (4 + w.off).toNat + w.data.length ≤ eftlCsmOffset := dst_add_le h₀ hle ha
    have hg := goodNum_sealPage_of_magic hm hdst
    rw [source_word] at hg
    refine .inr ⟨sealPage (r.source env b.flash) (4 + w.off).toNat w.data,
      fun hs => hne ((source_read_iff rfl (by omega)).mpr hs), sealPage_chksumOk, ?_, ?_, ?_⟩
    · exact (goodNum_eq sealPage_chksumOk).symm.trans hg
    · rw [hb', storePage_flash]
    · rw [hb']
      rfl

theorem nums_of_erasedRegion {f : Buf} (h : r.Erased f) {i : Nat} (hi : i < r.pages) :
    r.nums f i = none := num_of_erased fun k hk => by
  have h₁ : r.sector i + 4096 ≤ r.sector r.pages := sector_add_lt hi
  have h₂ : r.sector 0 ≤ r.sector i := by
    rcases Nat.eq_zero_or_pos i with rfl | hpos
    · exact le_rfl
    · have := sector_add_lt (r := r) hpos; omega
  exact h _ (by omega) (by omega)

theorem AllIntact.erased {f : Buf} (h : r.Erased f) : r.AllIntact f := fun i hi => by
  have hn := nums_of_erasedRegion h hi
  rw [hn, goods_eq_none hn]

theorem current_of_erased {f : Buf} (h : r.Erased f) : r.current f = none := by
  rcases current_cases r f with ⟨j, l, hn, -⟩ | ⟨-, hc⟩
  · have := nums_of_goods hn.key_eq
    rw [nums_of_erasedRegion h hn.lt] at this; cases this
  · exact hc

/-- Storing a page whose checksum matches keeps every page in use intact. -/
theorem AllIntact.store {f p : Buf} (h : r.AllIntact f) (i : Nat) (hc : ChksumOk p) :
    r.AllIntact (f.write (r.sector i) (p.read 0 sectorLength)) := by
  intro j hj
  rcases eq_or_ne j i with rfl | hne
  · exact (num_congr (page_write j)).trans ((goodNum_eq hc).symm.trans
      (goodNum_congr (page_write j)).symm)
  · exact (num_congr (page_write_ne hne (by simp))).trans ((h j hj).trans
      (goodNum_congr (page_write_ne hne (by simp))).symm)

theorem AllIntact.write (hr : r.Registered env) (hp : 0 < r.pages) (hI : r.AllIntact b.flash)
    (h : r.write env fuel w b = .ok ret b') : r.AllIntact b'.flash := by
  rcases write_cases hr hp hI h with ⟨hf, -⟩ | ⟨p, -, hc, -, hf, -⟩
  · rwa [hf]
  · rw [hf]
    exact hI.store _ hc

/-- The newest page in use is the newest intact one. -/
theorem AllIntact.unhidden {f : Buf} (h : r.AllIntact f) : r.Unhidden f := by
  intro j l hn i hi k hk
  exact hn.max i hi k ((h i hi).symm.trans hk)

/-- With the battery good and enough fuel a write in the user area succeeds. -/
theorem AllIntact.write_returns (hI : r.AllIntact b.flash) (hr : r.Registered env)
    (hp : 0 < r.pages) (hv : ∀ k, env.vbatOk k = true) (hf : r.pages < fuel) (off : Nat)
    (data : List UInt8) (hin : off + data.length ≤ xyFtlAvailableSize) :
    ∃ b', r.write env fuel ⟨off, data⟩ b = .ok .xyOk b' ∧ r.AllIntact b'.flash := by
  obtain ⟨-, -, b', -, h, -⟩ := xyFtlWrite_returns hr hp hv hf hI.unhidden hin
  have h' : r.write env fuel ⟨off, data⟩ b = .ok .xyOk b' := h
  exact ⟨b', h', hI.write hr hp h'⟩

/-- One successful write. -/
theorem AllIntact.wearLaw (hr : r.Registered env) (hp : 2 ≤ r.pages) (hI : r.AllIntact b.flash)
    (h : r.write env fuel w b = .ok .xyOk b') : r.WearLaw w b b' := by
  rcases write_cases hr (by omega) hI h with ⟨-, ho, hs⟩ | ⟨p, hs, -, -, -, ho⟩
  · exact ⟨fun _ => ho, fun hne => absurd (hs rfl) hne⟩
  · refine ⟨fun he => absurd he hs, fun _ => ⟨r.next b.flash, p.read 0 sectorLength,
      r.next_lt (by omega) _, fun hc => next_ne_current hp hc rfl, fun i hi => next_eq hi,
      Buf.length_read .., ho⟩⟩

/-! ### Runs -/

/-- After `k` stored pages, numbered from `first`: the page to write next is `k` modulo the number
of pages, and each sector was erased as often as that position has come up. -/
structure Levelled (r : FtlRegion) (first : Nat) (ops₀ : List FlashOp) (k : Nat) (b : Board) :
    Prop where
  intact : r.AllIntact b.flash
  next_eq : r.next b.flash = k % r.pages
  nextNum_eq : r.nextNum b.flash = first + k
  wear : ∃ ops, b.ops = ops₀ ++ ops ∧
    ∀ i < r.pages, r.wear ops i = Nat.count (fun t => t % r.pages = i) k

theorem toNat_nextWriteNum {n : UInt32} (h : n ≠ 0xFFFFFFFF) :
    (nextWriteNum n).toNat = n.toNat + 1 := by
  have hlt := n.toNat_lt
  rw [nextWriteNum, if_neg h, UInt32.toNat_add]
  rw [ne_eq, ← UInt32.toNat_inj] at h
  simp only [UInt32.reduceToNat] at h ⊢
  omega

theorem sector_inj {i j : Nat} (h : r.sector i = r.sector j) : i = j := by
  rcases Nat.lt_trichotomy i j with hlt | he | hlt
  · have := sector_add_lt (r := r) hlt; omega
  · exact he
  · have := sector_add_lt (r := r) hlt; omega

/-- The erase of a stored page counts for its own sector. -/
theorem wear_append_store (ops : List FlashOp) (i p : Nat) (bs : List UInt8) :
    r.wear (ops ++ [.erase (r.sector p), .program (r.sector p) bs]) i =
      r.wear ops i + if p = i then 1 else 0 := by
  have he : (FlashOp.erase (r.sector p) == FlashOp.erase (r.sector i)) = decide (p = i) := by
    rw [Bool.eq_iff_iff, beq_iff_eq, decide_eq_true_iff, FlashOp.erase.injEq]
    exact ⟨sector_inj, fun h => by rw [h]⟩
  have hpr : (FlashOp.program (r.sector p) bs == FlashOp.erase (r.sector i)) = false := by
    rw [beq_eq_false_iff_ne]
    exact fun h => by cases h
  simp only [wear, List.count_append, List.count_cons, List.count_nil, he, hpr,
    decide_eq_true_iff, Nat.zero_add, Bool.false_eq_true, if_false]

/-- One write, below the limit of the write number. -/
theorem Levelled.write {first k : Nat} {ops₀ : List FlashOp} (hr : r.Registered env)
    (hp : 0 < r.pages) (hL : r.Levelled first ops₀ k b) (hk : first + k < 0xFFFFFFFF)
    (h : r.write env fuel w b = .ok ret b') :
    r.Levelled first ops₀ k b' ∨ r.Levelled first ops₀ (k + 1) b' := by
  rcases write_cases hr hp hL.intact h with ⟨hf, ho, -⟩ | ⟨p, -, hc, hnum, hf, ho⟩
  · exact .inl ⟨by rw [hf]; exact hL.intact, by rw [hf]; exact hL.next_eq,
      by rw [hf]; exact hL.nextNum_eq, by rw [ho]; exact hL.wear⟩
  right
  have hnn : (nextWriteNum (r.sourceNum b.flash)).toNat = first + k := hL.nextNum_eq
  have hne : nextWriteNum (r.sourceNum b.flash) ≠ 0xFFFFFFFF := by
    rw [ne_eq, ← UInt32.toNat_inj, hnn]
    simp only [UInt32.reduceToNat]
    omega
  have hsrc : r.sourceNum b.flash ≠ 0xFFFFFFFE := by
    intro he
    exact hne (by rw [he]; decide)
  rw [if_neg hne] at hnum
  have hnew := newest_store hp p ((goodNum_eq hc).trans hnum) hsrc
  rw [← hf] at hnew
  have hnext : r.next b'.flash = (r.next b.flash + 1) % r.pages :=
    FtlRegion.next_eq (current_of_newest hnew)
  have hnum' := (sourceNum_of_newest hnew).1
  refine ⟨hf ▸ hL.intact.store _ hc, ?_, ?_, ?_⟩
  · rw [hnext, hL.next_eq, Nat.mod_add_mod]
  · rw [nextNum, toNat_nextWriteNum, hnum', hnn, Nat.add_assoc]
    rw [ne_eq, ← UInt32.toNat_inj, hnum', hnn]
    simp only [UInt32.reduceToNat]
    omega
  · obtain ⟨ops, hops, hw⟩ := hL.wear
    refine ⟨_, by rw [ho, hops, List.append_assoc], fun i hi => ?_⟩
    rw [wear_append_store, hw i hi, Nat.count_succ, hL.next_eq]

/-- A run of writes, below the limit. -/
theorem Levelled.run {first : Nat} {ops₀ : List FlashOp} (hr : r.Registered env)
    (hp : 0 < r.pages) : ∀ {ws : List FtlWrite} {k : Nat} {b b' : Board} {rets : List XyRet},
    r.Levelled first ops₀ k b → first + k + ws.length ≤ 0xFFFFFFFF →
    ws.mapM (r.write env fuel) b = .ok rets b' → ∃ k', r.Levelled first ops₀ k' b'
  | [], k, _, _, _, hL, _, h => by cases h; exact ⟨k, hL⟩
  | w :: ws, k, b, b', rets, hL, hk, h => by
      obtain ⟨ret, rets', b₁, -, h₁, h₂⟩ := mapM_cons_inv h
      simp only [List.length_cons] at hk
      rcases hL.write hr hp (by omega) h₁ with hL₁ | hL₁
      · exact Levelled.run hr hp hL₁ (by omega) h₂
      · exact Levelled.run hr hp hL₁ (by omega) h₂

/-- Two positions of a round come up equally often, up to one. -/
theorem count_mod_le {n : Nat} {i j : Nat} (hi : i < n) (hj : j < n) (k : Nat) :
    Nat.count (fun t => t % n = i) k ≤ Nat.count (fun t => t % n = j) k + 1 := by
  have hcount : ∀ i < n, Nat.count (fun t => t % n = i) k =
      k / n + if i < k % n then 1 else 0 := fun i hi => by
    have h := Nat.count_modEq_card (r := n) k (by omega) i
    simpa only [Nat.ModEq, Nat.mod_eq_of_lt hi] using h
  rw [hcount i hi, hcount j hj]
  split_ifs <;> omega

/-- **Wear levelling.**  In a run of writes on a region that starts erased, each successful one
follows `WearLaw`, and below the limit of the write number no sector is erased more than once more
than another. -/
theorem wear_levelling (hr : r.Registered env) (hp : 2 ≤ r.pages) (he : r.Erased b.flash)
    {ws : List FtlWrite} {rets : List XyRet} (h : ws.mapM (r.write env fuel) b = .ok rets b') :
    Along (r.write env fuel) (fun b w => ∀ b', r.write env fuel w b = .ok .xyOk b' →
      r.WearLaw w b b') ws b ∧
    (r.nextNum b.flash + ws.length ≤ 0xFFFFFFFF → ∃ ops, b'.ops = b.ops ++ ops ∧
      ∀ i < r.pages, ∀ j < r.pages, r.wear ops i ≤ r.wear ops j + 1) := by
  have hI := AllIntact.erased he
  constructor
  · refine Along.of_invariant (fun b => r.AllIntact b.flash) ?_ ?_ (along_true ws b)
    · intro b w hI _
      exact ⟨fun b' h => hI.wearLaw hr hp h, fun ret b' h => hI.write hr (by omega) h⟩
    · exact hI
  · intro hlim
    have hL : r.Levelled (r.nextNum b.flash) b.ops 0 b :=
      ⟨hI, (next_of_none (current_of_erased he)).trans (Nat.zero_mod _).symm, rfl, [], by simp,
        fun _ _ => by simp [wear]⟩
    obtain ⟨k, hL⟩ := hL.run hr (by omega) hlim h
    obtain ⟨ops, hops, hw⟩ := hL.wear
    refine ⟨ops, hops, fun i hi j hj => ?_⟩
    rw [hw i hi, hw j hj]
    exact count_mod_le hi hj k

/-- On a board that writes twice, the second time other data. -/
theorem wear_levelling_blankBoard : ∃ rets b',
    [⟨0, [7]⟩, ⟨0, [8]⟩].mapM (nonVolatile.write bootEnv 3) blankBoard = .ok rets b' ∧
      ∀ i < 2, ∀ j < 2, nonVolatile.wear b'.ops i ≤ nonVolatile.wear b'.ops j + 1 := by
  have he : nonVolatile.Erased blankBoard.flash := fun _ _ _ => rfl
  obtain ⟨b₁, h₁, hI⟩ := (AllIntact.erased he).write_returns registered_nonVolatile (by decide)
    (fun _ => rfl) (by decide : nonVolatile.pages < 3) 0 [7] (by decide)
  obtain ⟨b₂, h₂, -⟩ := hI.write_returns registered_nonVolatile (by decide)
    (fun _ => rfl) (by decide : nonVolatile.pages < 3) 0 [8] (by decide)
  have hrun := mapM_cons_ok h₁ <| mapM_cons_ok h₂ <| mapM_nil _ _
  have hnext : nonVolatile.nextNum blankBoard.flash = 1 := by
    rw [nextNum, sourceNum, current_of_erased he]
    rfl
  obtain ⟨-, hlevel⟩ := wear_levelling registered_nonVolatile (by decide) he hrun
  obtain ⟨ops, hops, hwear⟩ := hlevel (by rw [hnext]; decide)
  have hops' : b₂.ops = ops := hops
  exact ⟨_, b₂, hrun, hops' ▸ hwear⟩

end FtlRegion

end XY1100
