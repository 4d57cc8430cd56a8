import XY1100.Flash.ByteArray

/-!
# Flash — a region as its callers see it

What the code above the translation layer relies on, for a region with no main copy and with the
battery good.

* From every flash a read returns what the region has stored (`xyFtlRead_stored`), and a write in
  range returns `XY_OK` (`xyFtlWrite_ok`).
* Where the region takes a write (`Takes`), it has stored afterwards what the byte array that it
  refines holds (`xyFtlWrite_stored`).
-/

namespace XY1100
open Support

namespace FtlRegion
variable {env : Env} {r : FtlRegion}

/-- The page that is chosen from a flash: the newest intact one, unless a page in use has a higher
number. -/
def served (r : FtlRegion) (f : Buf) : Option Nat :=
  (r.current f).filter fun i => r.nums f i = some (r.top f)

/-- What a region has stored: the user area of the page that is chosen. -/
def stored (r : FtlRegion) (f : Buf) : Option Buf := (r.served f).map fun i k => r.page f i (4 + k)

theorem served_of_unhidden {f : Buf} (h : r.Unhidden f) : r.served f = r.current f := by
  rcases current_cases r f with ⟨i, l, hn, hc⟩ | ⟨-, hc⟩
  · have hnum := nums_of_goods hn.key_eq
    have htop : r.top f = l := by
      refine le_antisymm (Finset.sup_le fun j hj => ?_) (le_top hn.lt hnum)
      rcases hk : r.nums f j with _ | k
      · simp
      · exact h i l hn j (Finset.mem_range.mp hj) k hk
    simp [served, hc, hnum, htop]
  · simp [served, hc]

theorem served_of_hidden {f : Buf} (h : ¬ r.Unhidden f) : r.served f = none := by
  obtain ⟨i, k, j, l, htop, -, hn, hlk⟩ := exists_top_of_hidden h
  have hne : r.nums f j ≠ some (r.top f) := by
    rw [nums_of_goods hn.key_eq, top_eq htop, ne_eq, Option.some_inj]
    omega
  simp [served, current_of_newest hn, hne]

/-- What is stored is what the region stands for, where no page outranks the newest intact one. -/
theorem stored_of_unhidden {f : Buf} (h : r.Unhidden f) : r.stored f = r.area f := by
  rw [stored, served_of_unhidden h, area]

/-- There is no image to fall back to. -/
theorem area_orElse_image (hmain : r.addr ≠ NV_FLASH_FACTORY_BASE) (f f₀ : Buf) :
    (r.area f <|> r.image f₀) = r.area f := by
  rw [image, if_neg hmain]
  cases r.area f <;> rfl

/-! ### Reading -/

/-- **What a read brings.** -/
theorem xyFtlRead_stored (hr : r.Registered env) (hmain : r.addr ≠ NV_FLASH_FACTORY_BASE)
    (hv : ∀ k, env.vbatOk k = true) {fuel : Nat} (hf : r.pages < fuel) (b : Board) {size : Nat}
    (hin : size ≤ xyFtlAvailableSize) :
    ∃ b', xyFtlRead env fuel r.addr (UInt32.ofNat size) b =
      .ok ((r.stored b.flash).map (Buf.read · 0 size)) b' := by
  have haddr : r.addr = r.addr + UInt32.ofNat 0 := by simp
  have hin' : 0 + size ≤ xyFtlAvailableSize := by omega
  by_cases hU : r.Unhidden b.flash
  · obtain ⟨-, b', -, -, he⟩ := xyFtlRead_returns hr hv hf hU hin'
    refine ⟨b', ?_⟩
    rw [haddr, he, (holds_area b.flash).areaRead_eq hin', area_orElse_image hmain,
      stored_of_unhidden hU]
  · -- the choice returns, and has given up the intact page
    obtain ⟨x, b₁, hchosen⟩ := chooseAgain_returns_of_vbatOk hv hf b
    obtain ⟨b', he | ⟨e, he⟩⟩ := chooseAgain_hidden env fuel hU
    · refine ⟨b', ?_⟩
      rw [haddr, xyFtlRead_eq hr (readInRange_of_le hin'), bind_ok he, stored, served_of_hidden hU]
      simp only [readChosen, if_neg hmain]
      rfl
    · rw [hchosen] at he
      cases he

/-! ### Writing -/

/-- The end of a write that has chosen no page: a page of the data between zeros is stored. -/
theorem xyFtlWrite_none (hr : r.Registered env) (hp : 0 < r.pages)
    (hmain : r.addr ≠ NV_FLASH_FACTORY_BASE) (hv : ∀ k, env.vbatOk k = true) {fuel : Nat}
    {b b₁ : Board} {off : Nat} {data : List UInt8} (hin : off + data.length ≤ xyFtlAvailableSize)
    (he : chooseAgain env r.cfg r.addr fuel 0 b = .ok (none, 0) b₁) :
    ∃ b', xyFtlWrite env fuel r.addr off data b = .ok .xyOk b' := by
  have ha := assert_of_le hin
  simp only [xyFtlAvailableSize] at hin
  have hload : loadPage env r.addr none b₁ = .ok (fun _ => 0) b₁ := by
    rw [loadPage, if_neg hmain]
    rfl
  have hover : ¬ (4 + (off : Int) < 0 ∨ (sectorLength : Int) < 4 + (off : Int) + data.length) := by
    simp only [sectorLength]
    omega
  have hdst : (4 + (off : Int)).toNat = 4 + off := by omega
  have hw := xyFlashWrite_sector env
    ((sealPage (fun _ => 0) (4 + off) data).read 0 sectorLength) (pageAddr_mod hp) (inFlash hp)
    (by simp) b₁
  rw [hv, if_pos rfl] at hw
  -- the word the last assertion reads is the first of the page
  have hmagic : (b₁.checked.perform [.erase (pageAddr r.addr 0).toNat,
      .program (pageAddr r.addr 0).toNat
        ((sealPage (fun _ => 0) (4 + off) data).read 0 sectorLength)]).flash.word
      (pageAddr r.addr 0).toNat = EFTL_MAGIC_NUM := by
    have hseal : (sealPage (fun _ => 0) (4 + off) data).word 0 = EFTL_MAGIC_NUM :=
      sealPage_magic (by omega)
    rw [Board.flash_perform, replay_rewrite (by simp), ← hseal]
    exact Buf.word_congr fun i hi => Buf.write_read_inside (by simp only [sectorLength]; omega)
  generalize b₁.checked.perform _ = b' at hw hmagic
  refine ⟨b', ?_⟩
  rw [xyFtlWrite, bind_ok (Exec.xyAssert_of ha b), xyChooseValidFtl_eq hr, bind_ok he]
  dsimp only
  rw [bind_ok hload, if_neg hover, if_neg (fun h => by cases h.1), hdst, bind_ok hw,
    if_neg (by simp), bind_ok (Exec.flash_eq _), bind_ok (Exec.xyAssert_of hmagic _)]
  rfl

/-- **A write returns `XY_OK`**, from every flash. -/
theorem xyFtlWrite_ok (hr : r.Registered env) (hp : 0 < r.pages)
    (hmain : r.addr ≠ NV_FLASH_FACTORY_BASE) (hv : ∀ k, env.vbatOk k = true) {fuel : Nat}
    (hf : r.pages < fuel) (b : Board) {off : Nat} {data : List UInt8}
    (hin : off + data.length ≤ xyFtlAvailableSize) :
    ∃ b', xyFtlWrite env fuel r.addr off data b = .ok .xyOk b' := by
  by_cases hU : r.Unhidden b.flash
  · obtain ⟨-, -, b', -, he, -⟩ := xyFtlWrite_returns hr hp hv hf hU hin
    exact ⟨b', he⟩
  · obtain ⟨x, b₁, hchosen⟩ := chooseAgain_returns_of_vbatOk hv hf b
    obtain ⟨b₁, he | ⟨e, he⟩⟩ := chooseAgain_hidden env fuel hU
    · exact xyFtlWrite_none hr hp hmain hv hin he
    · rw [hchosen] at he
      cases he

/-- **What is written is stored.** -/
theorem xyFtlWrite_stored (hr : r.Registered env) (hp : 0 < r.pages)
    (hmain : r.addr ≠ NV_FLASH_FACTORY_BASE) (hv : ∀ k, env.vbatOk k = true) {fuel : Nat}
    (hf : r.pages < fuel) {b : Board} {off : Nat} {data : List UInt8}
    (h : r.Takes b.flash off data) :
    ∃ b' u, xyFtlWrite env fuel r.addr off data b = .ok .xyOk b' ∧ r.stored b'.flash = some u ∧
      u.Agree (((r.area b.flash).getD fun _ => 0).write off data) 0 xyFtlAvailableSize := by
  obtain ⟨b', hcall, hH⟩ := call_simulates hr hp hv hf (holds_area b.flash) h.callOk
  obtain ⟨ret, he, hret⟩ := map_eq_ok hcall
  cases hret
  have hU := h.unhidden hr hp hv hf he
  rw [areaStep, area_orElse_image hmain] at hH
  obtain ⟨i, hc, hk⟩ := hH.isSome _ rfl
  refine ⟨b', _, he, by rw [stored_of_unhidden hU, area, hc]; rfl, fun k _ hk' => ?_⟩
  exact hk k (by omega)

end FtlRegion

end XY1100
