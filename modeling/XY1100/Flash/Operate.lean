import XY1100.Flash.Device

/-!
# Flash — erasing and programming a range

`xy_flash_erase`, `xy_flash_write_no_erase` and `xy_flash_write` of more than a sector.  What the
operations they perform amount to is the same whether the flash is driven locally or by the DSP
core: the range is erased (`Erases`), the data is programmed (`Programs`), or whole sectors are
rewritten one after the other (`sectorOps`).  A refused call performs none, and returns
`XY_Err_LowVbat`.
-/

namespace XY1100
open Support

variable {env : Env}

/-- The operation stays in `[lo, hi)`. -/
structure FlashOp.Within (op : FlashOp) (lo hi : Nat) : Prop where
  le : lo ≤ op.start
  end_le : op.start + op.length ≤ hi

/-- Operations that erase the `n` bytes from `a`, and nothing else when `a` starts a sector. -/
structure Erases (ops : List FlashOp) (a n : Nat) : Prop where
  erased : ∀ f i, a ≤ i → i < a + n → FlashOp.replay ops f i = 0xFF
  within : a % 4096 = 0 → n % 4096 = 0 → ∀ op ∈ ops, op.Within a (a + n)

/-- Operations that program `bs` from `a`. -/
structure Programs (ops : List FlashOp) (a : Nat) (bs : List UInt8) : Prop where
  replay_eq : ∀ f, FlashOp.replay ops f = f.program a bs
  within : ∀ op ∈ ops, op.Within a (a + bs.length)

theorem FlashOp.Within.mono {op : FlashOp} {lo hi lo' hi' : Nat} (h : op.Within lo hi)
    (h₁ : lo' ≤ lo) (h₂ : hi ≤ hi') : op.Within lo' hi' :=
  ⟨h₁.trans h.le, h.end_le.trans h₂⟩

/-- Operations within a range leave what is outside it. -/
theorem replay_outside {ops : List FlashOp} {lo hi i : Nat} (h : ∀ op ∈ ops, op.Within lo hi)
    (hi : i < lo ∨ hi ≤ i) (f : Buf) : FlashOp.replay ops f i = f i := by
  induction ops generalizing f with
  | nil => rfl
  | cons op ops ih =>
    have hop := h op List.mem_cons_self
    rw [FlashOp.replay_cons, ih (fun op' h' => h op' (List.mem_cons_of_mem _ h'))]
    exact FlashOp.apply_outside (by have := hop.le; have := hop.end_le; omega)

/-! ### The operations a computation performs -/

/-- The computation adds operations to the board, all of which meet `P`, whether it returns or
stops. -/
def Performs {α : Type} (P : FlashOp → Prop) (x : Exec α) (b : Board) : Prop :=
  ∃ ops, (finalState (x b)).ops = b.ops ++ ops ∧ ∀ op ∈ ops, P op

theorem performs_of_ops_eq {α : Type} {P : FlashOp → Prop} {x : Exec α} {b : Board}
    (h : (finalState (x b)).ops = b.ops) : Performs P x b := ⟨[], by simpa using h, by simp⟩

theorem Performs.mono {α : Type} {P Q : FlashOp → Prop} {x : Exec α} {b : Board}
    (h : Performs P x b) (hPQ : ∀ op, P op → Q op) : Performs Q x b :=
  h.imp fun _ ⟨ho, hP⟩ => ⟨ho, fun op hop => hPQ op (hP op hop)⟩

theorem Performs.bind {α β : Type} {P : FlashOp → Prop} {x : Exec α} {f : α → Exec β} {b : Board}
    (hx : Performs P x b) (hf : ∀ a b', x b = .ok a b' → Performs P (f a) b') :
    Performs P (x >>= f) b := by
  obtain ⟨ops, ho, hP⟩ := hx
  rcases h : x b with ⟨a, b'⟩ | ⟨e, b'⟩ <;> rw [h] at ho
  · obtain ⟨ops', ho', hP'⟩ := hf a b' h
    refine ⟨ops ++ ops', ?_, fun op hop => (List.mem_append.mp hop).elim (hP op) (hP' op)⟩
    rw [bind_ok h, ho', show b'.ops = b.ops ++ ops from ho, List.append_assoc]
  · exact ⟨ops, by rw [bind_error h]; exact ho, hP⟩

/-! ### Erasing -/

/-- A byte that has been erased stays so while sectors are erased. -/
theorem replay_erases {ops : List FlashOp} (h : ∀ op ∈ ops, ∃ s, op = .erase s) {f : Buf} {i : Nat}
    (hf : f i = 0xFF) : FlashOp.replay ops f i = 0xFF := by
  induction ops generalizing f with
  | nil => exact hf
  | cons op ops ih =>
    obtain ⟨s, rfl⟩ := h op List.mem_cons_self
    refine ih (fun op' hop => h op' (List.mem_cons_of_mem _ hop)) ?_
    show Buf.fill f s sectorLength 0xFF i = 0xFF
    simp only [Buf.fill]
    split_ifs
    · rfl
    · exact hf

/-- `flash_erase` of whole sectors. -/
theorem erases_range (a n : Nat) :
    Erases ((List.range n).map fun i => .erase (a + i * 4096)) a (n * 4096) where
  erased f i h₁ h₂ := by
    -- the sector of the byte is erased, and later erases leave it so
    induction n with
    | zero => omega
    | succ n ih =>
      rw [List.range_succ, List.map_append, FlashOp.replay_append]
      by_cases hi : i < a + n * 4096
      · exact replay_erases (by simp) (ih hi)
      · exact Buf.fill_inside (by omega) (by simp only [sectorLength]; omega)
  within _ _ op hop := by
    obtain ⟨i, hi, rfl⟩ := List.mem_map.mp hop
    rw [List.mem_range] at hi
    have : (i + 1) * 4096 ≤ n * 4096 := Nat.mul_le_mul_right _ hi
    exact ⟨Nat.le_add_right _ _, by simp only [FlashOp.start, FlashOp.length, sectorLength]; omega⟩

/-- The DSP erases the sectors the range touches. -/
theorem flashOperateExt_erase : ∀ (size : Nat) (addr : UInt32) (b : Board),
    addr.toNat + size < 2 ^ 32 →
    ∃ ops, (∀ op ∈ ops, ∃ s, op = .erase s) ∧ Erases ops addr.toNat size ∧
      flashOperateExt .flashOpErase addr [] size b = b.perform ops := by
  intro size
  induction size using Nat.strong_induction_on with
  | _ size ih =>
    intro addr b hlt
    rcases Nat.eq_zero_or_pos size with rfl | hpos
    · exact ⟨[], by simp, ⟨fun _ _ _ _ => by omega, by simp⟩, by
        rw [flashOperateExt_zero, Board.perform_nil]⟩
    · have hoff : addr.toNat % 4096 < 4096 := Nat.mod_lt _ (by omega)
      rw [flashOperateExt, if_neg (by omega)]
      simp only [sectorLength_eq, List.drop_nil]
      generalize hw : min size (4096 - addr.toNat % 4096) = w
      have hsum : (addr + UInt32.ofNat w).toNat = addr.toNat + w := by
        rw [UInt32.toNat_add, UInt32.toNat_ofNat']
        omega
      obtain ⟨ops, hall, he, hop⟩ := ih (size - w) (by omega) (addr + UInt32.ofNat w)
        (b.perform [.erase (addr.toNat - addr.toNat % 4096)]) (by omega)
      rw [hsum] at he
      refine ⟨.erase (addr.toNat - addr.toNat % 4096) :: ops, ?_, ⟨fun f i h₁ h₂ => ?_, ?_⟩, ?_⟩
      · simpa using hall
      · by_cases hi : i < addr.toNat + w
        · exact replay_erases hall (Buf.fill_inside (by omega) (by simp only [sectorLength]; omega))
        · exact he.erased _ i (by omega) (by omega)
      · intro ha hn op hop'
        rcases List.mem_cons.mp hop' with rfl | hop'
        · exact ⟨by simp only [FlashOp.start]; omega, by
            simp only [FlashOp.start, FlashOp.length, sectorLength]; omega⟩
        · obtain ⟨h₁, h₂⟩ := he.within (by omega) (by omega) op hop'
          exact ⟨by omega, by omega⟩
      · rw [hop, ← Board.perform_append, List.singleton_append]

/-- The mask of the sector size rounds down to whole sectors. -/
theorem toNat_and_not_mask (x : UInt32) : (x &&& ~~~4095).toNat = x.toNat / 4096 * 4096 := by
  have hx := x.toNat_lt
  have hm : (~~~4095 : UInt32).toNat = (2 ^ 20 - 1) <<< 12 := by decide
  rw [UInt32.toNat_and, hm, show x.toNat / 4096 * 4096 = (x.toNat >>> 12) <<< 12 by
    rw [Nat.shiftRight_eq_div_pow, Nat.shiftLeft_eq]]
  refine Nat.eq_of_testBit_eq fun i => ?_
  rw [Nat.testBit_and, Nat.testBit_shiftLeft, Nat.testBit_shiftLeft, Nat.testBit_two_pow_sub_one,
    Nat.testBit_shiftRight]
  by_cases h₁ : 12 ≤ i
  · by_cases h₂ : i < 32
    · simp [h₁, show i - 12 < 20 by omega, show 12 + (i - 12) = i by omega]
    · have : x.toNat.testBit i = false := Nat.testBit_lt_two_pow
        (hx.trans_le (Nat.pow_le_pow_right (by omega) (by omega)))
      simp [this, show 12 + (i - 12) = i by omega]
  · simp [h₁]

theorem eraseCount_eq {size : UInt32} (hal : size.toNat % 4096 = 0) (hlt : size.toNat < 2 ^ 31) :
    eraseCount size * 4096 = size.toNat := by
  have h : ((size + 4095) &&& ~~~4095).toNat = size.toNat := by
    rw [toNat_and_not_mask, UInt32.toNat_add, show (4095 : UInt32).toNat = 4095 from rfl]
    omega
  simp only [eraseCount, h, if_pos hlt, sectorLength_eq]
  omega

/-- **Erasing a range** of whole sectors: refused, stopped at an address that does not start a
sector, or done. -/
theorem xyFlashErase_spec (env : Env) (addr size : UInt32) (hs : 4096 ≤ size.toNat)
    (hal : size.toNat % 4096 = 0) (hlt : addr.toNat + size.toNat < 2 ^ 31) (b : Board) :
    (env.vbatOk b.checks = false ∧ xyFlashErase env addr size b = .ok .xyErrLowVbat b.checked) ∨
    (addr.toNat % 4096 ≠ 0 ∧ xyFlashErase env addr size b = .error .assertion b.checked) ∨
    (env.vbatOk b.checks = true ∧ ∃ ops, Erases ops addr.toNat size.toNat ∧
      xyFlashErase env addr size b = .ok .xyOk (b.checked.perform ops)) := by
  have hsz : ¬ size < 4096 := by
    rw [UInt32.lt_iff_toNat_lt]
    simpa using hs
  have hv : checkVbat env b = .ok (env.vbatOk b.checks) b.checked := rfl
  have hd : dspIsOff env b.checked = .ok (env.dspOff (b.checks + 1)) b.checked := rfl
  rw [xyFlashErase]
  simp only [if_neg hsz]
  rw [bind_ok hv]
  cases hvb : env.vbatOk b.checks
  · exact .inl ⟨rfl, rfl⟩
  simp only [Bool.not_true, Bool.false_eq_true, if_false]
  rw [bind_ok hd]
  cases env.dspOff (b.checks + 1)
  · -- through the DSP
    obtain ⟨ops, -, he, hop⟩ := flashOperateExt_erase size.toNat addr b.checked (by omega)
    refine .inr (.inr ⟨trivial, ops, he, ?_⟩)
    have : flashOperateExtInt .flashOpErase addr [] size b.checked =
        .ok () (b.checked.perform ops) := by
      rw [flashOperateExtInt, if_pos (show size.toNat < 2 ^ 31 by omega), hop]
    simp only [Bool.false_eq_true, if_false]
    rw [bind_ok this]
    rfl
  · by_cases ha : addr.toNat % 4096 = 0
    · have ha' : addr % 4096 = 0 := UInt32.toNat_inj.mp (by simpa using ha)
      have hc := eraseCount_eq hal (show size.toNat < 2 ^ 31 by omega)
      refine .inr (.inr ⟨trivial, _, hc ▸ erases_range addr.toNat (eraseCount size), ?_⟩)
      have hops : (List.range (eraseCount size)).map (fun page =>
          FlashOp.erase (addr + UInt32.ofNat (page * sectorLength)).toNat) =
          (List.range (eraseCount size)).map fun i => .erase (addr.toNat + i * 4096) := by
        refine List.map_congr_left fun i hi => ?_
        have hi' : (i + 1) * 4096 ≤ eraseCount size * 4096 :=
          Nat.mul_le_mul_right _ (List.mem_range.mp hi)
        congr 1
        rw [UInt32.toNat_add, UInt32.toNat_ofNat', sectorLength_eq]
        omega
      have : flashErase addr size b.checked = .ok () (b.checked.perform
          ((List.range (eraseCount size)).map fun i => .erase (addr.toNat + i * 4096))) := by
        rw [flashErase, bind_ok (Exec.xyAssert_of ha' _), hops]
        rfl
      simp only [if_true]
      rw [bind_ok this]
      rfl
    · have ha' : ¬ addr % 4096 = 0 := fun h => ha (by simpa using congrArg UInt32.toNat h)
      refine .inr (.inl ⟨ha, ?_⟩)
      have : flashErase addr size b.checked = .error .assertion b.checked := by
        rw [flashErase, bind_error (Exec.xyAssert_of_not ha' _)]
      simp only [if_true]
      rw [bind_error this]

/-- An erase that returned made one check, and erased if it passed it. -/
theorem xyFlashErase_inv {addr size : UInt32} (hs : 4096 ≤ size.toNat)
    (hal : size.toNat % 4096 = 0) (hlt : addr.toNat + size.toNat < 2 ^ 31) {b b' : Board}
    {r : XyRet} (h : xyFlashErase env addr size b = .ok r b') :
    b'.checks = b.checks + 1 ∧ (env.vbatOk b.checks = true →
      ∃ ops, Erases ops addr.toNat size.toNat ∧ b'.flash = FlashOp.replay ops b.flash) := by
  rcases xyFlashErase_spec env addr size hs hal hlt b with ⟨hv, h'⟩ | ⟨-, h'⟩ | ⟨-, ops, he, h'⟩ <;>
    rw [h'] at h <;> cases h
  · exact ⟨rfl, fun hv' => by rw [hv] at hv'; cases hv'⟩
  · exact ⟨rfl, fun _ => ⟨ops, he, rfl⟩⟩

theorem xyFlashErase_performs {addr size : UInt32} (hs : 4096 ≤ size.toNat)
    (hal : size.toNat % 4096 = 0) (ha : addr.toNat % 4096 = 0)
    (hlt : addr.toNat + size.toNat < 2 ^ 31) (b : Board) :
    Performs (FlashOp.Within · addr.toNat (addr.toNat + size.toNat)) (xyFlashErase env addr size)
      b := by
  rcases xyFlashErase_spec env addr size hs hal hlt b with ⟨-, h⟩ | ⟨hne, -⟩ | ⟨-, ops, he, h⟩
  · exact performs_of_ops_eq (by rw [h]; rfl)
  · exact absurd ha hne
  · exact ⟨ops, by rw [h]; rfl, he.within ha hal⟩

/-! ### Programming -/

theorem programs_single (a : Nat) (bs : List UInt8) : Programs [.program a bs] a bs where
  replay_eq _ := rfl
  within op hop := by
    rw [List.mem_singleton.mp hop]
    exact ⟨Nat.le_refl _, Nat.le_refl _⟩

/-- The DSP programs the data sector by sector. -/
theorem flashOperateExt_program : ∀ (n : Nat) (addr : UInt32) (data : List UInt8) (b : Board),
    data.length = n → addr.toNat + n < 2 ^ 32 →
    ∃ ops, Programs ops addr.toNat data ∧
      flashOperateExt .flashOpWriteNoErase addr data n b = b.perform ops := by
  intro n
  induction n using Nat.strong_induction_on with
  | _ n ih =>
    intro addr data b hn hlt
    rcases Nat.eq_zero_or_pos n with rfl | hpos
    · refine ⟨[], ⟨fun f => ?_, by simp⟩, by rw [flashOperateExt_zero, Board.perform_nil]⟩
      rw [List.length_eq_zero_iff.mp hn, Buf.program_nil]
      rfl
    · have hoff : addr.toNat % 4096 < 4096 := Nat.mod_lt _ (by omega)
      rw [flashOperateExt, if_neg (by omega)]
      simp only [sectorLength_eq]
      generalize hw : min n (4096 - addr.toNat % 4096) = w
      have hsum : (addr + UInt32.ofNat w).toNat = addr.toNat + w := by
        rw [UInt32.toNat_add, UInt32.toNat_ofNat']
        omega
      have haddr : addr.toNat - addr.toNat % 4096 + addr.toNat % 4096 = addr.toNat := by omega
      obtain ⟨ops, hp, hop⟩ := ih (n - w) (by omega) (addr + UInt32.ofNat w) (data.drop w)
        (b.perform [.program addr.toNat (data.take w)]) (by rw [List.length_drop, hn]) (by omega)
      rw [hsum] at hp
      have hlen : (data.take w).length = w := by rw [List.length_take]; omega
      refine ⟨.program addr.toNat (data.take w) :: ops, ⟨fun f => ?_, fun op hop' => ?_⟩, ?_⟩
      · rw [FlashOp.replay_cons, hp.replay_eq]
        conv_rhs => rw [← List.take_append_drop w data, Buf.program_append, hlen]
        rfl
      · rcases List.mem_cons.mp hop' with rfl | hop'
        · exact ⟨Nat.le_refl _, by simp only [FlashOp.start, FlashOp.length, hlen]; omega⟩
        · obtain ⟨h₁, h₂⟩ := hp.within op hop'
          rw [List.length_drop] at h₂
          exact ⟨by omega, by omega⟩
      · rw [haddr, hop, ← Board.perform_append, List.singleton_append]

/-- **Programming a range**: refused, or done. -/
theorem xyFlashWriteNoErase_spec (env : Env) {addr : UInt32} (data : List UInt8)
    (hin : InFlash addr)
    (hlt : addr.toNat + data.length < 2 ^ 31) (b : Board) :
    (env.vbatOk b.checks = false ∧
      xyFlashWriteNoErase env addr data b = .ok .xyErrLowVbat b.checked) ∨
    (env.vbatOk b.checks = true ∧ ∃ ops, Programs ops addr.toNat data ∧
      xyFlashWriteNoErase env addr data b = .ok .xyOk (b.checked.perform ops)) := by
  have hv : checkVbat env b = .ok (env.vbatOk b.checks) b.checked := rfl
  have hd : dspIsOff env b.checked = .ok (env.dspOff (b.checks + 1)) b.checked := rfl
  rw [xyFlashWriteNoErase, bind_ok (Exec.xyAssert_of hin b), bind_ok hv]
  cases hvb : env.vbatOk b.checks
  · exact .inl ⟨rfl, rfl⟩
  simp only [Bool.not_true, Bool.false_eq_true, if_false]
  rw [bind_ok hd]
  cases env.dspOff (b.checks + 1)
  · obtain ⟨ops, hp, hop⟩ := flashOperateExt_program data.length addr data b.checked rfl (by omega)
    refine .inr ⟨trivial, ops, hp, ?_⟩
    have hsz : (UInt32.ofNat data.length).toNat = data.length := by
      rw [UInt32.toNat_ofNat', Nat.mod_eq_of_lt (by omega)]
    have : flashOperateExtInt .flashOpWriteNoErase addr data (UInt32.ofNat data.length) b.checked =
        .ok () (b.checked.perform ops) := by
      rw [flashOperateExtInt, hsz, if_pos (show data.length < 2 ^ 31 by omega), hop]
    simp only [Bool.false_eq_true, if_false]
    rw [bind_ok this]
    rfl
  · exact .inr ⟨trivial, _, programs_single addr.toNat data, rfl⟩

theorem xyFlashWriteNoErase_of_not_inFlash {addr : UInt32} (h : ¬ InFlash addr)
    (data : List UInt8) (b : Board) :
    xyFlashWriteNoErase env addr data b = .error .assertion b := by
  rw [xyFlashWriteNoErase, bind_error (Exec.xyAssert_of_not h b)]

/-- A write that returned made one check, and programmed if it passed it. -/
theorem xyFlashWriteNoErase_inv {addr : UInt32} {data : List UInt8}
    (hlt : addr.toNat + data.length < 2 ^ 31) {b b' : Board} {r : XyRet}
    (h : xyFlashWriteNoErase env addr data b = .ok r b') :
    InFlash addr ∧ b'.checks = b.checks + 1 ∧
      (env.vbatOk b.checks = true → b'.flash = b.flash.program addr.toNat data) := by
  by_cases hin : InFlash addr
  case neg => rw [xyFlashWriteNoErase_of_not_inFlash hin] at h; cases h
  rcases xyFlashWriteNoErase_spec env data hin hlt b with ⟨hv, h'⟩ | ⟨-, ops, hp, h'⟩ <;>
    rw [h'] at h <;> cases h
  · exact ⟨hin, rfl, fun hv' => by rw [hv] at hv'; cases hv'⟩
  · exact ⟨hin, rfl, fun _ => hp.replay_eq b.flash⟩

theorem xyFlashWriteNoErase_performs {addr : UInt32} {data : List UInt8}
    (hlt : addr.toNat + data.length < 2 ^ 31) (b : Board) :
    Performs (FlashOp.Within · addr.toNat (addr.toNat + data.length))
      (xyFlashWriteNoErase env addr data) b := by
  by_cases hin : InFlash addr
  · rcases xyFlashWriteNoErase_spec env data hin hlt b with ⟨-, h⟩ | ⟨-, ops, hp, h⟩
    · exact performs_of_ops_eq (by rw [h]; rfl)
    · exact ⟨ops, by rw [h]; rfl, hp.within⟩
  · refine performs_of_ops_eq ?_
    rw [xyFlashWriteNoErase_of_not_inFlash hin]
    rfl

/-! ### Writing whole sectors -/

/-- The operations that write `n` sectors of data from `a`. -/
def sectorOps : (a : Nat) → (data : List UInt8) → (n : Nat) → List FlashOp
  | _, _, 0 => []
  | a, data, n + 1 =>
      [.erase a, .program a (data.take 4096)] ++ sectorOps (a + 4096) (data.drop 4096) n

theorem sectorOps_within : ∀ (n a : Nat) (data : List UInt8),
    ∀ op ∈ sectorOps a data n, op.Within a (a + 4096 * n)
  | 0, _, _, op, hop => by cases hop
  | n + 1, a, data, op, hop => by
      have hlen : (data.take 4096).length ≤ 4096 := List.length_take_le _ _
      rcases List.mem_append.mp hop with hop | hop
      · rcases List.mem_pair.mp hop with rfl | rfl
        · exact ⟨Nat.le_refl _, by simp only [FlashOp.start, FlashOp.length, sectorLength]; omega⟩
        · exact ⟨Nat.le_refl _, by simp only [FlashOp.start, FlashOp.length]; omega⟩
      · exact (sectorOps_within n _ _ op hop).mono (by omega) (by omega)

/-- A loop that rewrites the data sector by sector. -/
theorem perform_sectors (store : UInt32 → List UInt8 → Board → Board)
    (hnil : ∀ addr b, store addr [] b = b)
    (hsector : ∀ addr data b, 4096 ≤ data.length → addr.toNat % 4096 = 0 →
      store addr data b = store (addr + UInt32.ofNat 4096) (data.drop 4096)
        (b.perform [.erase addr.toNat, .program addr.toNat (data.take 4096)])) :
    ∀ (n : Nat) (addr : UInt32) (data : List UInt8) (b : Board), data.length = 4096 * n →
      addr.toNat % 4096 = 0 → addr.toNat + 4096 * n < 2 ^ 32 →
      store addr data b = b.perform (sectorOps addr.toNat data n) := by
  intro n
  induction n with
  | zero =>
    intro addr data b hd _ _
    rw [List.length_eq_zero_iff.mp (hd.trans (Nat.mul_zero _)), hnil]
    exact (Board.perform_nil b).symm
  | succ n ih =>
    intro addr data b hd ha hlt
    have hsum : (addr + UInt32.ofNat 4096).toNat = addr.toNat + 4096 := by
      rw [UInt32.toNat_add, UInt32.toNat_ofNat']
      omega
    rw [hsector addr data b (by omega) ha, ih _ _ _ (by rw [List.length_drop]; omega) (by omega)
      (by omega), hsum, sectorOps, Board.perform_append]

/-- Whole sectors on the local path. -/
theorem flashWriteErase_sectors : ∀ (n : Nat) (addr : UInt32) (data : List UInt8) (b : Board),
    data.length = 4096 * n → addr.toNat % 4096 = 0 → addr.toNat + 4096 * n < 2 ^ 32 →
    flashWriteErase addr data b = b.perform (sectorOps addr.toNat data n) := by
  refine perform_sectors flashWriteErase flashWriteErase_nil ?_
  intro addr data b hd ha
  rw [flashWriteErase, if_neg (by omega)]
  simp only [ha, sectorLength_eq, Nat.sub_zero, Nat.min_eq_right hd, if_true]

/-- Whole sectors through the DSP. -/
theorem flashOperateExt_sectors (n : Nat) (addr : UInt32) (data : List UInt8) (b : Board)
    (hd : data.length = 4096 * n) (ha : addr.toNat % 4096 = 0)
    (hlt : addr.toNat + 4096 * n < 2 ^ 32) :
    flashOperateExt .flashOpWriteErase addr data (4096 * n) b =
      b.perform (sectorOps addr.toNat data n) := by
  rw [← hd]
  refine perform_sectors (fun addr data => flashOperateExt .flashOpWriteErase addr data data.length)
    (fun addr b => flashOperateExt_zero _ _ _ b) ?_ n addr data b hd ha hlt
  intro addr data b hd ha
  rw [flashOperateExt, if_neg (by omega), List.length_drop]
  simp only [ha, sectorLength_eq, Nat.sub_zero, Nat.min_eq_right hd, and_self, if_true]

/-- **Writing whole sectors** performs operations in them only. -/
theorem xyFlashWrite_performs {addr : UInt32} {n : Nat} {data : List UInt8}
    (hd : data.length = 4096 * n) (ha : addr.toNat % 4096 = 0)
    (hlt : addr.toNat + 4096 * n < 2 ^ 31) (b : Board) :
    Performs (FlashOp.Within · addr.toNat (addr.toNat + 4096 * n))
      (xyFlashWrite env addr data) b := by
  by_cases hin : InFlash addr
  case neg =>
    refine performs_of_ops_eq ?_
    rw [xyFlashWrite, bind_error (Exec.xyAssert_of_not hin b)]
    rfl
  have hv : checkVbat env b = .ok (env.vbatOk b.checks) b.checked := rfl
  have hdsp : dspIsOff env b.checked = .ok (env.dspOff (b.checks + 1)) b.checked := rfl
  have hops := sectorOps_within n addr.toNat data
  cases hvb : env.vbatOk b.checks
  · refine performs_of_ops_eq ?_
    rw [xyFlashWrite, bind_ok (Exec.xyAssert_of hin b), bind_ok hv, hvb]
    rfl
  refine ⟨sectorOps addr.toNat data n, ?_, hops⟩
  rw [xyFlashWrite, bind_ok (Exec.xyAssert_of hin b), bind_ok hv, hvb]
  simp only [Bool.not_true, Bool.false_eq_true, if_false]
  rw [bind_ok hdsp]
  cases env.dspOff (b.checks + 1)
  · have hsz : (UInt32.ofNat data.length).toNat = 4096 * n := by
      rw [UInt32.toNat_ofNat', Nat.mod_eq_of_lt (by omega), hd]
    have : flashOperateExtInt .flashOpWriteErase addr data (UInt32.ofNat data.length) b.checked =
        .ok () (b.checked.perform (sectorOps addr.toNat data n)) := by
      rw [flashOperateExtInt, hsz, if_pos (show 4096 * n < 2 ^ 31 by omega),
        flashOperateExt_sectors n addr data b.checked hd ha (by omega)]
    simp only [Bool.false_eq_true, if_false]
    rw [bind_ok this]
    rfl
  · have : (modify (flashWriteErase addr data) : Exec Unit) b.checked =
        .ok () (b.checked.perform (sectorOps addr.toNat data n)) := by
      rw [← flashWriteErase_sectors n addr data b.checked hd ha (by omega)]
      rfl
    simp only [if_true]
    rw [bind_ok this]
    rfl

end XY1100
