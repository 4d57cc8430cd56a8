import XY1100.Flash.ByteArray

/-!
# Flash — losing power during a write

Power may be lost before, during or after any operation of a write (`PowerCut`).  The sector of
the operation in progress is then left with any contents, except that a page that was not
completed carries no matching checksum (`Torn`); the rest of the flash is untouched.

In a region of two pages or more a write operates on pages that are not intact, and on one page
that is not the current one, so a cut keeps the newest intact page unless the write is complete
(`WriteTrace.cut`).  A run of calls is therefore atomic at each of its writes, as long as it never
meets a page in use that outranks the newest intact one (`ftl_write_atomic`).  That page is what
a cut may leave: the magic word and the number of the new page without its checksum, and then
neither the old data nor the new is read back (`chooseAgain_hidden`).
-/

namespace XY1100
open Support

/-! ### Power cuts -/

/-- What an operation leaves of the flash when power is lost during it. -/
structure Torn (op : FlashOp) (f g : Buf) : Prop where
  outside : ∀ a, a < op.start ∨ op.start + sectorLength ≤ a → g a = f a
  page : g = f ∨ g = op.apply f ∨ ¬ ChksumOk fun k => g (op.start + k)

/-- What a list of operations leaves of the flash when power is lost at some point of it. -/
inductive PowerCut : Buf → List FlashOp → Buf → Prop
  | before (f : Buf) (ops : List FlashOp) : PowerCut f ops f
  | during {op : FlashOp} {ops : List FlashOp} {f g : Buf} (h : Torn op f g) :
      PowerCut f (op :: ops) g
  | after {op : FlashOp} {ops : List FlashOp} {f g : Buf} (t : PowerCut (op.apply f) ops g) :
      PowerCut f (op :: ops) g

/-- A cut falls into the first part of a list of operations or into the second. -/
theorem PowerCut.of_append {ops' : List FlashOp} {g : Buf} : ∀ {ops : List FlashOp} {f : Buf},
    PowerCut f (ops ++ ops') g → PowerCut f ops g ∨ PowerCut (FlashOp.replay ops f) ops' g
  | [], _, h => .inr h
  | op :: ops, f, h => by
      cases h with
      | before => exact .inl (.before _ _)
      | during h => exact .inl (.during h)
      | after t => exact (PowerCut.of_append t).imp .after id

namespace FtlRegion
variable {env : Env} {r : FtlRegion}

/-- A flash that differs from `f` in one page, not the current one and not intact any more. -/
theorem keepsCurrent_of_page {f g : Buf} {i : Nat} (hi : i < r.pages)
    (hcur : r.current f ≠ some i)
    (hout : ∀ a, a < r.sector i ∨ r.sector i + sectorLength ≤ a → g a = f a)
    (hg : r.goods g i = none) : r.KeepsCurrent f g where
  outside a ha := hout a (ha.not_mem hi)
  goods j _ := by
    rcases eq_or_ne j i with rfl | hne
    · exact .inr ⟨hg, hcur⟩
    · exact .inl (goodNum_congr (page_agree fun k hk => hout _ (page_disjoint hne hk)))
  page j hj := page_agree fun k hk => hout _ (page_disjoint (by rintro rfl; exact hcur hj) hk)

/-- A write from the last number stores a page that is not in use: what it wrote is not read
back. -/
theorem keepsCurrent_of_last_num (hp : 2 ≤ r.pages) {f : Buf} {dst : Nat} {data : List UInt8}
    (h : dst + data.length ≤ eftlCsmOffset) (h₀ : 4 ≤ dst) (hn : r.sourceNum f = 0xFFFFFFFE) :
    r.KeepsCurrent f (f.write (r.sector (r.next f))
      ((sealPage (r.source env f) dst data).read 0 sectorLength)) := by
  refine keepsCurrent_of_page (r.next_lt (by omega) f) (fun hc => next_ne_current hp hc rfl)
    (fun a ha => Buf.write_outside (by rwa [Buf.length_read])) ?_
  refine (goodNum_congr (page_write (r.next f))).trans ?_
  rw [goodNum_sealPage _ _ _ h h₀, source_word, hn]
  rfl

/-- A torn operation on a page that is not the current one keeps the current one, or is the whole
operation. -/
theorem keepsCurrent_of_torn {op : FlashOp} {f g : Buf} {i : Nat} (hi : i < r.pages)
    (hcur : r.current f ≠ some i) (hop : op.start = r.sector i) (h : Torn op f g) :
    r.KeepsCurrent f g ∨ g = op.apply f := by
  rcases h.page with rfl | rfl | hc
  · exact .inl (.refl _)
  · exact .inr rfl
  · refine .inl (keepsCurrent_of_page hi hcur (hop ▸ h.outside) ?_)
    rw [hop] at hc
    exact goodNum_eq_none hc

theorem keepsCurrent_of_erase {f : Buf} {i : Nat} (hi : i < r.pages) (hcur : r.current f ≠ some i) :
    r.KeepsCurrent f ((FlashOp.erase (r.sector i)).apply f) :=
  keepsCurrent_of_page hi hcur (fun _ ha => FlashOp.apply_outside ha)
    (goods_eq_none (nums_erase f i))

/-- A cut among erases of pages that are not intact. -/
theorem Scrubs.cut {f f' : Buf} {ops : List FlashOp} (h : r.Scrubs f ops f') :
    ∀ {g : Buf}, PowerCut f ops g → r.KeepsCurrent f g := by
  induction h with
  | nil f =>
    intro g hg
    cases hg
    exact .refl f
  | cons hi hb _ ih =>
    intro g hg
    have hcur := fun hc => hb (chksumOk_of_current hc)
    have he := keepsCurrent_of_erase hi hcur
    cases hg with
    | before => exact .refl _
    | during h =>
      rcases keepsCurrent_of_torn hi hcur rfl h with h | rfl
      · exact h
      · exact he
    | after t => exact he.trans (ih t)

/-- **A cut during a write** keeps the current page, unless the write is complete. -/
theorem WriteTrace.cut (hp : 2 ≤ r.pages) {f g : Buf} {ops : List FlashOp}
    (h : r.WriteTrace f ops) (hg : PowerCut f ops g) :
    r.KeepsCurrent f g ∨ g = FlashOp.replay ops f := by
  obtain ⟨scrub, f', hs, rfl | ⟨bs, -, rfl⟩⟩ := h
  · exact .inl (hs.cut hg)
  have hcur : r.current f ≠ some (r.next f) := fun hc => next_ne_current hp hc rfl
  have hlt := r.next_lt (by omega) f
  rcases hg.of_append with hg | hg
  · exact .inl (hs.cut hg)
  rw [← hs.replay_eq] at hg
  rw [FlashOp.replay_append, ← hs.replay_eq]
  rw [← hs.keeps.current_eq] at hcur
  have he := keepsCurrent_of_erase hlt hcur
  cases hg with
  | before => exact .inl hs.keeps
  | during h =>
    rcases keepsCurrent_of_torn hlt hcur rfl h with h | rfl
    · exact .inl (hs.keeps.trans h)
    · exact .inl (hs.keeps.trans he)
  | after t =>
    cases t with
    | before => exact .inl (hs.keeps.trans he)
    | during h =>
      rcases keepsCurrent_of_torn hlt (by rwa [he.current_eq]) rfl h with h | rfl
      · exact .inl (hs.keeps.trans (he.trans h))
      · exact .inr rfl
    | after t =>
      cases t
      exact .inr rfl

/-! ### Reading after the cut -/

/-- Whatever board the flash `f` is found in, reading `size` bytes at `off` gives `v`: a read that
returns does so, and with the battery good it returns. -/
structure ReadsAs (r : FtlRegion) (f : Buf) (off size : Nat) (v : Option (List UInt8)) : Prop where
  sound : ∀ (env : Env) (b : Board) (fuel : Nat) (x : Option (List UInt8)) (b' : Board),
    r.Registered env → b.flash = f →
    xyFtlRead env fuel (r.addr + UInt32.ofNat off) (UInt32.ofNat size) b = .ok x b' → x = v
  returns : ∀ (env : Env) (b : Board) (fuel : Nat),
    r.Registered env → b.flash = f → (∀ k, env.vbatOk k = true) → r.pages < fuel →
    ∃ b', xyFtlRead env fuel (r.addr + UInt32.ofNat off) (UInt32.ofNat size) b = .ok v b'

theorem readsAs_of_unhidden {f : Buf} (hU : r.Unhidden f) {off size : Nat}
    (hin : off + size ≤ xyFtlAvailableSize) : r.ReadsAs f off size (r.areaRead f off size) where
  sound env b fuel x b' hr hb h := by
    subst hb
    obtain ⟨_, b'', -, -, he | ⟨e, he⟩⟩ := xyFtlRead_spec hr fuel hU hin
    · rw [he] at h; cases h; rfl
    · rw [he] at h; cases h
  returns env b fuel hr hb hv hf := by
    subst hb
    obtain ⟨_, b', -, -, he⟩ := xyFtlRead_returns hr hv hf hU hin
    exact ⟨b', he⟩

/-- What a flash reads as is one value. -/
theorem ReadsAs.unique {f : Buf} {off size : Nat} {v w : Option (List UInt8)}
    (hr : r.Registered env) (hv : ∀ k, env.vbatOk k = true) (h : r.ReadsAs f off size v)
    (h' : r.ReadsAs f off size w) : v = w := by
  obtain ⟨b', he⟩ := h.returns env ⟨f, [], 0⟩ (r.pages + 1) hr rfl hv (Nat.lt_succ_self _)
  exact h'.sound env ⟨f, [], 0⟩ (r.pages + 1) v b' hr rfl he

/-- A flash whose newest intact page is hidden reads as nothing. -/
theorem ReadsAs.eq_none_of_hidden {f : Buf} {off size : Nat} {v : Option (List UInt8)}
    (hr : r.Registered env) (hv : ∀ k, env.vbatOk k = true) (hf : r.addr ≠ NV_FLASH_FACTORY_BASE)
    (hin : off + size ≤ xyFtlAvailableSize) (hU : ¬ r.Unhidden f) (h : r.ReadsAs f off size v) :
    v = none := by
  obtain ⟨b', he⟩ := h.returns env ⟨f, [], 0⟩ (r.pages + 1) hr rfl hv (Nat.lt_succ_self _)
  obtain ⟨b'', he' | ⟨e, he'⟩⟩ := xyFtlRead_hidden (r.pages + 1) hr hf
    (show ¬ r.Unhidden (Board.mk f [] 0).flash from hU) hin
  · rw [he'] at he; cases he; rfl
  · rw [he'] at he; cases he

/-- Every read of `g` gives what it gives on `f`, or every one what it gives on `f'`. -/
def ReadsEither (r : FtlRegion) (f f' g : Buf) : Prop :=
  ∃ h, (h = f ∨ h = f') ∧ ∀ off size, off + size ≤ xyFtlAvailableSize →
    ∃ v, r.ReadsAs h off size v ∧ r.ReadsAs g off size v

/-- The board a write ends in, and the operations it performed. -/
def writeEnd (env : Env) (fuel : Nat) (r : FtlRegion) (b : Board) (offset : Int)
    (data : List UInt8) : Board := finalState (xyFtlWrite env fuel r.addr offset data b)

def writeOps (env : Env) (fuel : Nat) (r : FtlRegion) (b : Board) (offset : Int)
    (data : List UInt8) : List FlashOp := (r.writeEnd env fuel b offset data).ops.drop b.ops.length

/-- One write, cut at any point. -/
theorem xyFtlWrite_cut (hr : r.Registered env) (hp : 2 ≤ r.pages) {fuel : Nat} {b : Board}
    (hU : r.Unhidden b.flash) {offset : Int} {data : List UInt8} {g : Buf}
    (hg : PowerCut b.flash (r.writeOps env fuel b offset data) g) (hU' : r.Unhidden g) :
    r.ReadsEither b.flash (r.writeEnd env fuel b offset data).flash g := by
  obtain ⟨ops, ht, ho, hf⟩ := xyFtlWrite_trace hr (by omega) fuel hU offset data
  have hops : r.writeOps env fuel b offset data = ops := by
    rw [writeOps, writeEnd, ho, List.drop_left]
  rw [hops] at hg
  rcases ht.cut hp hg with hk | rfl
  · refine ⟨b.flash, .inl rfl, fun off size hin => ⟨_, readsAs_of_unhidden hU hin, ?_⟩⟩
    rw [← hk.areaRead_eq hin]
    exact readsAs_of_unhidden hU' hin
  · exact ⟨_, .inr hf.symm, fun off size hin =>
      ⟨_, readsAs_of_unhidden hU' hin, readsAs_of_unhidden hU' hin⟩⟩

/-- **Writes are atomic.**  In a run whose calls are each made in a flash in which no page in use
outranks the newest intact one, a write cut at any point reads back as not begun or as complete,
if the cut leaves no such page either. -/
theorem ftl_write_atomic (hr : r.Registered env) (hp : 2 ≤ r.pages) {fuel : Nat} {b : Board}
    {cs : List FtlCall} (h : Along (r.call env fuel) (fun b _ => r.Unhidden b.flash) cs b) :
    Along (r.call env fuel) (fun b c => ∀ offset data g, c = .write offset data →
      PowerCut b.flash (r.writeOps env fuel b offset data) g → r.Unhidden g →
      r.ReadsEither b.flash (r.writeEnd env fuel b offset data).flash g) cs b :=
  h.mono fun _ _ hU _ _ _ _ hg hU' => xyFtlWrite_cut hr hp hU hg hU'

/-- A second write, and a read. -/
theorem ftl_write_atomic_sealedBoard :
    Along (nonVolatile.call bootEnv 3) (fun b c => ∀ offset data g, c = .write offset data →
      PowerCut b.flash (nonVolatile.writeOps bootEnv 3 b offset data) g → nonVolatile.Unhidden g →
      nonVolatile.ReadsEither b.flash (nonVolatile.writeEnd bootEnv 3 b offset data).flash g)
      [.write 0 [8], .read 0 1] sealedBoard :=
  ftl_write_atomic registered_nonVolatile (by decide)
    ⟨unhidden_sealedFlash, fun _ _ h => ⟨unhidden_second_write h, fun _ _ _ => trivial⟩⟩

theorem flash_sealedBoard : sealedBoard.flash = sealedFlash := by simp only [sealedBoard]

/-- The second write takes page 0 for the current one and stores page 1. -/
theorem writeEnd_sealedBoard :
    nonVolatile.writeEnd bootEnv 3 sealedBoard 0 [8] =
      nonVolatile.storePage bootEnv sealedBoard 4 [8] := by
  have hcur : nonVolatile.current sealedBoard.flash = some 0 := by
    rw [flash_sealedBoard, current_of_newest newest_sealedFlash]
  have hnums : IsLastMax (nonVolatile.nums sealedBoard.flash) nonVolatile.pages 0 0 1 := by
    rw [flash_sealedBoard]
    exact isLastMax_sealedFlash
  have he : chooseAgain bootEnv nonVolatile.cfg nonVolatile.addr 3 0 sealedBoard =
      .ok (nonVolatile.current sealedBoard.flash, nonVolatile.next sealedBoard.flash)
        sealedBoard := by
    rw [next_eq hcur, hcur]
    exact chooseAgain_done (chooseAttempt_good hnums (chksumOk_of_current hcur))
  have hne : (nonVolatile.source bootEnv sealedBoard.flash).read 4 1 ≠ [8] := by
    have h : nonVolatile.source bootEnv sealedBoard.flash 4 = 7 := by
      rw [flash_sealedBoard, source_of_current (current_of_newest newest_sealedFlash)]
      exact (read_page_agree bootEnv.heap sealedFlash 0 4 (by decide) (by decide)).trans
        byte_sealedFlash
    show [nonVolatile.source bootEnv sealedBoard.flash 4] ≠ [8]
    rw [h]
    decide
  rcases xyFtlWrite_cases registered_nonVolatile (by decide) 0 [8]
    (by decide) he with ⟨h, -⟩ | ⟨-, -, h, -⟩ | ⟨h, -⟩ | ⟨-, -, -, h⟩
  · exact absurd h (by decide)
  · exact absurd h hne
  · cases h
  · rw [writeEnd, h, Exec.finalState_xyAssert]
    rfl

theorem next_sealedFlash : nonVolatile.next sealedFlash = 1 :=
  next_eq (current_of_newest newest_sealedFlash)

/-- Power is lost while page 1 is erased: the sector is left with a torn page. -/
theorem cut_hiddenFlash :
    PowerCut sealedBoard.flash (nonVolatile.writeOps bootEnv 3 sealedBoard 0 [8]) hiddenFlash := by
  rw [writeOps, writeEnd_sealedBoard, storePage, flash_sealedBoard, next_sealedFlash]
  refine .during ⟨fun a ha => Buf.write_outside (by rwa [Buf.length_read]), .inr (.inr fun h => ?_)⟩
  exact not_chksumOk_tornPage 2 ((chksumOk_congr (page_write 1)).mp h)

/-- The completed write leaves page 1 the newest one, and none that outranks it. -/
theorem unhidden_writeEnd_sealedBoard :
    nonVolatile.Unhidden (nonVolatile.writeEnd bootEnv 3 sealedBoard 0 [8]).flash ∧
      nonVolatile.current (nonVolatile.writeEnd bootEnv 3 sealedBoard 0 [8]).flash = some 1 := by
  have hcur := current_of_newest newest_sealedFlash
  have hnum : nonVolatile.sourceNum sealedFlash ≠ 0xFFFFFFFE := fun he => by
    have h := (sourceNum_of_newest newest_sealedFlash).1
    rw [he] at h
    exact absurd h (by decide)
  have hg := goodNum_sealPage (nonVolatile.source bootEnv sealedFlash) 4 [8]
    (by decide) (by decide)
  rw [source_word, if_neg (nextWriteNum_eq hnum).1] at hg
  rw [writeEnd_sealedBoard, storePage_flash, flash_sealedBoard]
  refine ⟨unhidden_store (by decide) _ hg hnum (unhidden_sealedFlash.le_next hcur hnum), ?_⟩
  rw [current_of_newest (newest_store (by decide) _ hg hnum), next_sealedFlash]

/-- A second write torn after its magic word and number reads back as neither. -/
theorem not_ftl_write_atomic_hiddenFlash :
    ¬ Along (nonVolatile.call bootEnv 3) (fun b c => ∀ offset data g, c = .write offset data →
      PowerCut b.flash (nonVolatile.writeOps bootEnv 3 b offset data) g →
      nonVolatile.ReadsEither b.flash (nonVolatile.writeEnd bootEnv 3 b offset data).flash g)
      [.write 0 [8]] sealedBoard := by
  rintro ⟨h, -⟩
  have hin : 0 + 1 ≤ xyFtlAvailableSize := by decide
  obtain ⟨f, hf, hall⟩ := h 0 [8] hiddenFlash rfl cut_hiddenFlash
  obtain ⟨v, hv, hg⟩ := hall 0 1 hin
  -- both candidates have a current page, so their reads return bytes
  have hU : nonVolatile.Unhidden f ∧ (nonVolatile.current f).isSome := by
    rcases hf with hf | hf
    · rw [hf, flash_sealedBoard, current_of_newest newest_sealedFlash]
      exact ⟨unhidden_sealedFlash, rfl⟩
    · rw [hf, unhidden_writeEnd_sealedBoard.2]
      exact ⟨unhidden_writeEnd_sealedBoard.1, rfl⟩
  have hsome : v = nonVolatile.areaRead f 0 1 :=
    hv.unique registered_nonVolatile (fun _ => rfl) (readsAs_of_unhidden hU.1 hin)
  have hnone : v = none := hg.eq_none_of_hidden registered_nonVolatile (fun _ => rfl)
    (by decide) hin
    not_unhidden_hiddenFlash
  obtain ⟨i, hi⟩ := Option.isSome_iff_exists.mp hU.2
  rw [hnone, areaRead, hi] at hsome
  cases hsome

end FtlRegion

end XY1100
