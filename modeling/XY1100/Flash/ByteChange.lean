import XY1100.Flash.Access

/-!
# Flash — a page with one byte changed

The checksum of a page covers its magic word and its user area.

* `not_chksumOk_of_byteChanged`: an intact page with one of these bytes changed is not intact.
* `byteChange_rejected`: so `xy_choose_valid_ftl`, which chooses pages that were intact when it was
  called, rejects the changed page in every state of the region.
-/

namespace XY1100
open Support

/-- `q` is `p` with exactly one byte of the checksummed part changed. -/
def ByteChanged (p q : Buf) : Prop :=
  (∃ i, DiffersAt p q 0 eftlCsmOffset i) ∧ p.Agree q eftlCsmOffset (sectorLength - eftlCsmOffset)

theorem not_chksumOk_of_byteChanged {p q : Buf} (hp : ChksumOk p) (h : ByteChanged p q) :
    ¬ ChksumOk q := by
  obtain ⟨⟨i, hi⟩, hrest⟩ := h
  -- the stored checksum is that of the page before the change
  have hcsm : p.word eftlCsmOffset = q.word eftlCsmOffset := Buf.word_congr fun k hk =>
    hrest _ (Nat.le_add_right _ _) (by simp only [eftlCsmOffset, sectorLength_eq]; omega)
  have hne := xyChksum_ne_of_differsAt (by decide) hi
  rw [ChksumOk] at hp ⊢
  rw [← hcsm, hp]
  exact hne

namespace FtlRegion
variable {env : Env} {r : FtlRegion}

/-- `xy_choose_valid_ftl` does not choose the page, and an attempt that comes to it erases it,
battery permitting, and goes on. -/
def Rejects (env : Env) (r : FtlRegion) (b : Board) (i : Nat) : Prop :=
  (∀ fuel j b', xyChooseValidFtl env fuel r.addr b ≠ .ok (some i, j) b') ∧
  ∀ lo k, IsLastMax (r.nums b.flash) r.pages lo i k →
    chooseAttempt env r.cfg r.addr lo b = .ok (.inl k) (rejected env r b i)

theorem rejects_of_not_chksumOk (hr : r.Registered env) {b : Board} {i : Nat}
    (hc : ¬ ChksumOk (r.page b.flash i)) : r.Rejects env b i := by
  refine ⟨fun fuel j b' h => ?_, fun lo k hk => chooseAttempt_bad hk hc⟩
  rw [xyChooseValidFtl_eq hr] at h
  -- a page that is chosen would be intact
  obtain ⟨-, k, hk⟩ := chosen_good h
  exact hc (chksumOk_of_goodNum hk)

/-- **The checksum catches a changed byte.**  Below 131072 bytes the accumulator does not overflow
and another value of one byte gives another checksum; so a page with one byte changed is
rejected. -/
theorem byteChange_rejected (env : Env) (r : FtlRegion) (hr : r.Registered env) :
    (∀ (m : Buf) (pos len : Nat), len < 131072 →
      (xyChksumLoop m pos len 0).toNat = wordSum m pos len ∧
      ∀ m' i, DiffersAt m m' pos len i → xyChksum m pos len ≠ xyChksum m' pos len) ∧
    ∀ (b : Board) (i : Nat) (p : Buf), ChksumOk p → ByteChanged p (r.page b.flash i) →
      r.Rejects env b i := by
  refine ⟨fun m pos len hlen => ⟨toNat_accumulator m pos hlen, fun m' i h => ?_⟩, ?_⟩
  · exact xyChksum_ne_of_differsAt hlen h
  · exact fun b i p hp h => rejects_of_not_chksumOk hr (not_chksumOk_of_byteChanged hp h)

/-- A sealed page, and a board with its byte 5 changed in the page 0. -/
def sealedZero : Buf := sealPage (fun _ => 0) 4 []

def changedBoard : Board where
  flash := fun a =>
    if a = nonVolatile.sector 0 + 5 then sealedZero 5 + 1 else sealedZero (a - nonVolatile.sector 0)
  ops := []
  checks := 0

theorem byteChanged_changedBoard :
    ByteChanged sealedZero (nonVolatile.page changedBoard.flash 0) := by
  have hother : ∀ j, j ≠ 5 → nonVolatile.page changedBoard.flash 0 j = sealedZero j := by
    intro j hj
    have hne : nonVolatile.sector 0 + j ≠ nonVolatile.sector 0 + 5 := by omega
    simp only [page, changedBoard, if_neg hne, Nat.add_sub_cancel_left]
  refine ⟨⟨5, by decide, ?_, fun j _ hj => ?_⟩, fun j hj _ => (hother j ?_).symm⟩
  · have hfive : nonVolatile.page changedBoard.flash 0 5 = sealedZero 5 + 1 := by
      simp only [page, changedBoard, if_true]
    rw [Nat.zero_add, hfive]
    simp
  · rw [Nat.zero_add]
    exact (hother j hj).symm
  · simp only [eftlCsmOffset] at hj
    omega

/-- The page 0 of the board is rejected, and two bytes that differ have two checksums. -/
theorem byteChange_rejected_changedBoard :
    nonVolatile.Rejects bootEnv changedBoard 0 ∧
      xyChksum (fun _ => 0) 0 1 ≠ xyChksum (fun _ => 0xff) 0 1 := by
  obtain ⟨hsum, hpage⟩ := byteChange_rejected bootEnv nonVolatile registered_nonVolatile
  refine ⟨hpage changedBoard 0 sealedZero sealPage_chksumOk byteChanged_changedBoard, ?_⟩
  exact (hsum (fun _ => 0) 0 1 (by decide)).2 (fun _ => 0xff) 0
    ⟨by decide, by decide, fun j hj hne => absurd (Nat.lt_one_iff.mp hj) hne⟩

end FtlRegion

end XY1100
