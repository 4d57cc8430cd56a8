import XY1100.Flash.ByteArray

/-!
# Flash — the ranges of reads and writes

`xy_ftl_read` and `xy_ftl_write` check their ranges in different terms.  A write adds offset and
size and compares with the size of the user area, `0xFEC`.  A read compares the size with that and
the end of the range with the offset of the checksum, `0xFF0`, although the user area starts 4
bytes into the page.

* A read is accepted up to 4 bytes beyond the user area (`readAccepts_iff`), and then returns bytes
  of the checksum.
* The sum of a write is taken modulo `2^32` (`writeAccepts_iff`), so a write of nearly `2^32` bytes
  is accepted.

Elsewhere the two accept the same ranges and reads return user data only (`onlyUserData_iff`).
-/

namespace XY1100
open Support

namespace FtlRegion

/-- The user area of a page. -/
def userArea (r : FtlRegion) (f : Buf) (i : Nat) : List UInt8 :=
  (r.page f i).read 4 xyFtlAvailableSize

/-- A read gets past its assertions: without fuel for the choice of the page, it is there that it
stops. -/
def ReadAccepts (r : FtlRegion) (off size : Nat) : Prop :=
  ∀ env b, r.Registered env →
    xyFtlRead env 0 (r.addr + UInt32.ofNat off) (UInt32.ofNat size) b = .error .outOfFuel b

/-- A write gets past its assertion. -/
def WriteAccepts (r : FtlRegion) (off size : Nat) : Prop :=
  ∀ env b data, r.Registered env → data.length = size →
    xyFtlWrite env 0 r.addr off data b = .error .outOfFuel b

/-- What a read returns of the current page is the range of its user area. -/
def ReturnsUserData (r : FtlRegion) (off size : Nat) : Prop :=
  ∀ env fuel b i nxt b₁ bs b₂, r.Registered env →
    xyChooseValidFtl env fuel r.addr b = .ok (some i, nxt) b₁ →
    xyFtlRead env fuel (r.addr + UInt32.ofNat off) (UInt32.ofNat size) b = .ok (some bs) b₂ →
    bs = ((r.userArea b₁.flash i).drop off).take size

/-- An accepted read returns user data only, and reads and writes are accepted alike. -/
def OnlyUserData (r : FtlRegion) (off size : Nat) : Prop :=
  (r.ReadAccepts off size → r.ReturnsUserData off size) ∧
    (r.ReadAccepts off size ↔ r.WriteAccepts off size)

/-- The range of a read ends in the checksum word. -/
def EndsInChecksum (off size : Nat) : Prop :=
  size ≤ xyFtlAvailableSize ∧ xyFtlAvailableSize < off + size ∧ off + size ≤ eftlCsmOffset

/-- The unsigned sum of offset and size wraps around to one that fits. -/
def SumWraps (off size : Nat) : Prop :=
  2 ^ 32 ≤ off + size ∧ off + size - 2 ^ 32 ≤ xyFtlAvailableSize

variable {r : FtlRegion} {off size : Nat}

/-! ### What is accepted -/

/-- An environment in which the region is the only one. -/
def soleEnv (r : FtlRegion) : Env := { quietEnv with userNvCfgs := [r.cfg] }

theorem registered_soleEnv (r : FtlRegion) : r.Registered r.soleEnv := by
  simp [Registered, soleEnv, findValidFtlCfg]

theorem readAccepts_iff (r : FtlRegion) (hoff : off < 4096) (hsize : size < 2 ^ 32) :
    r.ReadAccepts off size ↔ ReadInRange off size := by
  constructor
  · intro h
    by_contra hno
    have h := h r.soleEnv blankBoard r.registered_soleEnv
    rw [← read_asserts_iff r hoff hsize, not_and_or] at hno
    by_cases h₁ : (UInt32.ofNat size).toNat ≤ xyFtlAvailableSize
    · rw [xyFtlRead, bind_ok (Exec.xyAssert_of h₁ _),
        bind_error (Exec.xyAssert_of_not (hno.resolve_left (not_not_intro h₁)) _)] at h
      cases h
    · rw [xyFtlRead, bind_error (Exec.xyAssert_of_not h₁ _)] at h
      cases h
  · intro h env b hr
    rw [xyFtlRead_eq hr h]
    exact bind_error rfl

theorem writeAccepts_iff (r : FtlRegion) (hoff : off < 4096) :
    r.WriteAccepts off size ↔ (off + size) % 2 ^ 32 ≤ xyFtlAvailableSize := by
  have hsum : (UInt32.ofInt (off : Int) + UInt32.ofNat size).toNat = (off + size) % 2 ^ 32 := by
    rw [show UInt32.ofInt (off : Int) = UInt32.ofNat ((off : Int) % 2 ^ 32).toNat from rfl,
      UInt32.toNat_add, UInt32.toNat_ofNat', UInt32.toNat_ofNat']
    omega
  constructor
  · intro h
    by_contra hno
    have h := h r.soleEnv blankBoard (List.replicate size 0) r.registered_soleEnv
      List.length_replicate
    rw [xyFtlWrite, bind_error (Exec.xyAssert_of_not (by rwa [List.length_replicate, hsum]) _)] at h
    cases h
  · intro h env b data hr hlen
    rw [xyFtlWrite, bind_ok (Exec.xyAssert_of (by rwa [hlen, hsum]) b), xyChooseValidFtl_eq hr]
    exact bind_error rfl

/-- What reads and writes accept differs exactly where a read ends in the checksum, or the sum of a
write wraps. -/
theorem accepts_alike_iff (r : FtlRegion) (hoff : off < 4096) (hsize : size < 2 ^ 32) :
    (r.ReadAccepts off size ↔ r.WriteAccepts off size) ↔
      ¬ EndsInChecksum off size ∧ ¬ SumWraps off size := by
  rw [readAccepts_iff r hoff hsize, writeAccepts_iff r hoff]
  simp only [ReadInRange, EndsInChecksum, SumWraps, xyFtlAvailableSize, eftlCsmOffset]
  omega

/-! ### What is returned -/

/-- A read inside the user area returns its range. -/
theorem returnsUserData_of_le (hin : off + size ≤ xyFtlAvailableSize) :
    r.ReturnsUserData off size := by
  intro env fuel b i nxt b₁ bs b₂ hr hc h
  rw [xyChooseValidFtl_eq hr] at hc
  have hi := (chosen_good hc).1
  rw [xyFtlRead_eq hr (readInRange_of_le hin), bind_ok hc] at h
  dsimp only [readChosen] at h
  rw [bind_ok (xyFlashRead_page hi b₁)] at h
  cases h
  simp only [xyFtlAvailableSize] at hin
  rw [(read_page_agree (r := r) env.heap b₁.flash i).read (by omega) (by omega), userArea,
    Buf.drop_read (by simp only [xyFtlAvailableSize]; omega),
    Buf.take_read (by simp only [xyFtlAvailableSize]; omega)]

/-- **The ranges of reads and writes.**  For every offset in the page and every size, an accepted
read returns user data and is what a write accepts too, except where a read ends in the checksum
word, and where the sum of a write wraps. -/
theorem onlyUserData_iff (r : FtlRegion) (hoff : off < 4096) (hsize : size < 2 ^ 32) :
    r.OnlyUserData off size ↔ ¬ EndsInChecksum off size ∧ ¬ SumWraps off size := by
  rw [OnlyUserData, accepts_alike_iff r hoff hsize]
  refine and_iff_right_of_imp fun ⟨hcsm, _⟩ hread => returnsUserData_of_le ?_
  rw [readAccepts_iff r hoff hsize] at hread
  simp only [ReadInRange, EndsInChecksum, xyFtlAvailableSize, eftlCsmOffset] at *
  omega

/-- The whole user area. -/
theorem onlyUserData_iff_nonVolatile : nonVolatile.OnlyUserData 0 0xFEC ↔
    ¬ EndsInChecksum 0 0xFEC ∧ ¬ SumWraps 0 0xFEC :=
  onlyUserData_iff nonVolatile (by decide) (by decide)

/-- The last 4 bytes a read accepts are those of the checksum. -/
theorem not_onlyUserData_checksum : ¬ nonVolatile.OnlyUserData 0xFEC 4 := by
  rintro ⟨h, -⟩
  have hin : ReadInRange 0xFEC 4 := by decide
  have hacc : nonVolatile.ReadAccepts 0xFEC 4 := (readAccepts_iff _ (by decide) (by decide)).mpr hin
  have hc : chooseAgain bootEnv nonVolatile.cfg nonVolatile.addr 3 0 ⟨sealedFlash, [], 0⟩ =
      .ok (some 0, 1) ⟨sealedFlash, [], 0⟩ :=
    chooseAgain_done (chooseAttempt_good isLastMax_sealedFlash
      (chksumOk_of_goodNum goods_sealedFlash))
  have hread : xyFtlRead bootEnv 3 (nonVolatile.addr + UInt32.ofNat 0xFEC) (UInt32.ofNat 4)
      ⟨sealedFlash, [], 0⟩ = _ := xyFtlRead_eq registered_nonVolatile hin
  rw [bind_ok hc] at hread
  dsimp only [readChosen] at hread
  rw [bind_ok (xyFlashRead_page (by decide) _)] at hread
  have hlen := congrArg List.length (h hacc bootEnv 3 ⟨sealedFlash, [], 0⟩ 0 1 _ _ _
    registered_nonVolatile ((congrFun (xyChooseValidFtl_eq registered_nonVolatile 3) _).trans hc)
    hread)
  simp [userArea, xyFtlAvailableSize] at hlen

end FtlRegion

end XY1100
