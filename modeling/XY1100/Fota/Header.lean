import XY1100.Fota.Region

/-!
# Fota — nothing is stored without a header

Whether the header is complete is read from `recv_size`, which `ota_downlink_packet_proc` sets
before it checks the header.  A packet that comes after a rejected header therefore finds the
header complete, and is stored as if it had been accepted (`not_body_guarded`).

`HeadPhase` records beside a download what has become of its header.  Nothing is programmed or
fed to the HMAC without an accepted header, and nothing is accepted after a rejected one, exactly
in the runs that follow a rejected header with packets refused for their size only
(`body_guarded_iff`).
-/

namespace XY1100
open Support

variable {env : Env} {sizes : ImageSizes}

/-! ### What has become of the header -/

inductive HeadPhase
  | collecting
  | accepted
  | rejected
  deriving DecidableEq, Repr

instance (flash head : Buf) (flashBase : UInt32) : Decidable (HeadOk flash flashBase head) :=
  decidable_of_iff (DeltaHeadInfo.magicNum head = MAGIC_NUM ∧ otaVersionCheck flash head = .xyOk ∧
      flashBase ≤ DeltaHeadInfo.fotaPacketBase head)
    ⟨fun ⟨h₁, h₂, h₃⟩ => ⟨h₁, h₂, h₃⟩, fun ⟨h₁, h₂, h₃⟩ => ⟨h₁, h₂, h₃⟩⟩

/-- The packet is not refused for its size, and completes the header. -/
def CompletesHead (s : Fota) (data : List UInt8) : Prop :=
  s.ctx.sum data ≤ s.ctx.flashMaxlen ∧ headSize ≤ s.ctx.sum data

instance (s : Fota) (data : List UInt8) : Decidable (CompletesHead s data) :=
  inferInstanceAs (Decidable (_ ∧ _))

/-- The phase after a packet. -/
def HeadPhase.next (s : Fota) (data : List UInt8) : HeadPhase → HeadPhase
  | .collecting =>
    if CompletesHead s data then
      if HeadOk s.board.flash s.ctx.flashBase (s.ctx.completed data) then .accepted else .rejected
    else .collecting
  | phase => phase

/-- A call, with the phase beside the download. -/
def phasedPacketProc (env : Env) (data : List UInt8) : EStateM Fault (Fota × HeadPhase) XyRet :=
  fun (s, phase) => match otaDownlinkPacketProc env data s with
    | .ok o s' => .ok o (s', phase.next s data)
    | .error e s' => .error e (s', phase.next s data)

namespace HeadPhase

theorem next_of_not_completes {s : Fota} {data : List UInt8} (h : ¬ CompletesHead s data)
    (phase : HeadPhase) : phase.next s data = phase := by
  cases phase
  · rw [next, if_neg h]
  · rfl
  · rfl

theorem next_of_ne {phase : HeadPhase} (h : phase ≠ .collecting) (s : Fota) (data : List UInt8) :
    phase.next s data = phase := by
  cases phase
  · exact absurd rfl h
  · rfl
  · rfl

theorem next_accepted {s : Fota} {data : List UInt8} (h : CompletesHead s data)
    (hok : HeadOk s.board.flash s.ctx.flashBase (s.ctx.completed data)) :
    collecting.next s data = accepted := by rw [next, if_pos h, if_pos hok]

theorem next_rejected {s : Fota} {data : List UInt8} (h : CompletesHead s data)
    (hno : ¬ HeadOk s.board.flash s.ctx.flashBase (s.ctx.completed data)) :
    collecting.next s data = rejected := by rw [next, if_pos h, if_neg hno]

end HeadPhase

theorem phasedPacketProc_inv {data : List UInt8} {t t' : Fota × HeadPhase} {o : XyRet}
    (h : phasedPacketProc env data t = .ok o t') :
    otaDownlinkPacketProc env data t.1 = .ok o t'.1 ∧ t'.2 = t.2.next t.1 data := by
  rw [phasedPacketProc] at h
  rcases hr : otaDownlinkPacketProc env data t.1 with ⟨o', s'⟩ | ⟨e, s'⟩ <;>
    simp only [hr] at h <;> cases h
  exact ⟨rfl, rfl⟩

/-! ### Guarded calls -/

/-- The call performs no flash operation and feeds nothing to the HMAC. -/
structure Untouched (env : Env) (s : Fota) (data : List UInt8) : Prop where
  ops : packetOps env s data = []
  hmac : (finalState (otaDownlinkPacketProc env data s)).ctx.hmacContext = s.ctx.hmacContext

/-- Nothing is stored unless a header has been accepted, and nothing is accepted once one has been
rejected. -/
structure BodyGuarded (env : Env) (t : Fota × HeadPhase) (data : List UInt8) : Prop where
  untouched : t.2.next t.1 data ≠ .accepted → Untouched env t.1 data
  refused : t.2 = .rejected → ∃ s', otaDownlinkPacketProc env data t.1 = .ok .xyErr s'

/-- The condition on a packet and the state it finds: once a header has been rejected, the packet
is too large. -/
def TooLargeOnceRejected (t : Fota × HeadPhase) (data : List UInt8) : Prop :=
  t.2 = .rejected → t.1.ctx.flashMaxlen < t.1.ctx.sum data

/-- The phase tells what `recv_size` does. -/
def PhaseOk (t : Fota × HeadPhase) : Prop := t.2 = .collecting ↔ t.1.ctx.recvSize.toNat < 164

theorem phaseOk_init (b : Board) : PhaseOk (⟨b, otaUpdateInit sizes⟩, .collecting) :=
  iff_of_true rfl (show (0 : UInt32).toNat < 164 by decide)

theorem untouched_of_final {s : Fota} {data : List UInt8}
    (h : (finalState (otaDownlinkPacketProc env data s)).board.ops = s.board.ops)
    (h' : (finalState (otaDownlinkPacketProc env data s)).ctx.hmacContext = s.ctx.hmacContext) :
    Untouched env s data :=
  ⟨by rw [packetOps, h, List.drop_length], h'⟩

/-- The size received after a stored packet, also if the sum of the sizes wraps. -/
theorem recvSize_stored_accept {ctx : OtaContext} {data : List UInt8}
    (h : ctx.recvSize.toNat < 164) (h164 : 164 ≤ ctx.recvSize.toNat + data.length) :
    ((ctx.acceptHead data).stored (data.drop ctx.rest)).recvSize = ctx.sum data := by
  have hrest := toNat_rest h
  apply UInt32.toNat_inj.mp
  show (headSize + UInt32.ofNat (data.drop ctx.rest).length).toNat = (ctx.sum data).toNat
  rw [OtaContext.sum, UInt32.toNat_add, UInt32.toNat_add, UInt32.toNat_ofNat', UInt32.toNat_ofNat',
    toNat_headSize, List.length_drop, hrest]
  omega

/-- A packet that brings the sum of the sizes to that of the header is long enough for it. -/
theorem le_of_le_sum {ctx : OtaContext} {data : List UInt8} (h : ctx.recvSize.toNat < 164)
    (h164 : 164 ≤ (ctx.sum data).toNat) : 164 ≤ ctx.recvSize.toNat + data.length := by
  rw [OtaContext.sum, UInt32.toNat_add, UInt32.toNat_ofNat'] at h164
  omega

theorem not_completesHead_of_lt {s : Fota} {data : List UInt8} (h : (s.ctx.sum data).toNat < 164) :
    ¬ CompletesHead s data := fun hc => by
  have := UInt32.le_iff_toNat_le.mp hc.2
  rw [toNat_headSize] at this
  omega

theorem completesHead_of_le {s : Fota} {data : List UInt8}
    (hle : s.ctx.sum data ≤ s.ctx.flashMaxlen) (h : 164 ≤ (s.ctx.sum data).toNat) :
    CompletesHead s data := ⟨hle, UInt32.le_iff_toNat_le.mpr h⟩

/-- **One call** keeps the phase and `recv_size` in step. -/
theorem PhaseOk.step {s s' : Fota} {phase : HeadPhase} {data : List UInt8} {o : XyRet}
    (h : PhaseOk (s, phase)) (hres : otaDownlinkPacketProc env data s = .ok o s') :
    PhaseOk (s', phase.next s data) := by
  have hp : phase = .collecting ↔ s.ctx.recvSize.toNat < 164 := h
  show phase.next s data = .collecting ↔ s'.ctx.recvSize.toNat < 164
  rcases otaDownlinkPacketProc_cases env s data with ⟨hl, hr⟩ | ⟨hle, ⟨hs, ⟨hin, hr⟩ | ⟨-, hr⟩⟩ |
    ⟨h164, ⟨hlt, ⟨hok, hr⟩ | ⟨hno, hr⟩⟩ | ⟨hge, hr⟩⟩⟩ <;> rw [hr] at hres
  · -- too large
    cases hres
    rw [HeadPhase.next_of_not_completes fun hc => UInt32.not_lt.mpr hc.1 hl]
    exact hp
  · -- within the header
    cases hres
    have hsum : (s.ctx.sum data).toNat = s.ctx.recvSize.toNat + data.length := toNat_sum (by omega)
    rw [HeadPhase.next_of_not_completes (not_completesHead_of_lt hs)]
    exact iff_of_true (hp.mpr (by omega)) hs
  · cases hres
  · -- a header that is accepted
    rw [hp.mpr hlt, HeadPhase.next_accepted (completesHead_of_le hle h164) hok,
      (storePacket_inv hres).2.2, recvSize_stored_accept hlt (le_of_le_sum hlt h164)]
    exact iff_of_false (by decide) (by omega)
  · -- a header that is rejected
    cases hres
    rw [hp.mpr hlt, HeadPhase.next_rejected (completesHead_of_le hle h164) hno]
    exact iff_of_false (by decide) (show ¬ headSize.toNat < 164 by decide)
  · -- after the header
    have hne : phase ≠ .collecting := fun hc => absurd (hp.mp hc) (by omega)
    rw [HeadPhase.next_of_ne hne, (storePacket_inv hres).2.2]
    exact iff_of_false hne (Nat.not_lt.mpr h164)

/-- **One call** is guarded exactly if the condition holds of it. -/
theorem bodyGuarded_iff_step {t : Fota × HeadPhase} (data : List UInt8) (h : PhaseOk t) :
    TooLargeOnceRejected t data ↔ BodyGuarded env t data := by
  obtain ⟨s, phase⟩ := t
  have hp : phase = .collecting ↔ s.ctx.recvSize.toNat < 164 := h
  constructor
  · intro hc
    have hc' : phase = .rejected → s.ctx.flashMaxlen < s.ctx.sum data := hc
    rcases otaDownlinkPacketProc_cases env s data with ⟨-, hr⟩ | ⟨hle, ⟨hs, ⟨hin, hr⟩ | ⟨-, hr⟩⟩ |
      ⟨h164, ⟨hlt, ⟨hok, hr⟩ | ⟨hno, hr⟩⟩ | ⟨hge, hr⟩⟩⟩
    · exact ⟨fun _ => untouched_of_final (by rw [hr]; rfl) (by rw [hr]; rfl), fun _ => ⟨s, hr⟩⟩
    all_goals have hne : phase ≠ .rejected := fun hrej => UInt32.not_lt.mpr hle (hc' hrej)
    · exact ⟨fun _ => untouched_of_final (by rw [hr]; rfl) (by rw [hr]; rfl),
        fun hrej => absurd hrej hne⟩
    · exact ⟨fun _ => untouched_of_final (by rw [hr]; rfl) (by rw [hr]; rfl),
        fun hrej => absurd hrej hne⟩
    · refine ⟨fun hna => absurd ?_ hna, fun hrej => absurd hrej hne⟩
      show phase.next s data = .accepted
      rw [hp.mpr hlt, HeadPhase.next_accepted (completesHead_of_le hle h164) hok]
    · exact ⟨fun _ => untouched_of_final (by rw [hr]; rfl) (by rw [hr]; rfl),
        fun hrej => absurd hrej hne⟩
    · refine ⟨fun hna => absurd ?_ hna, fun hrej => absurd hrej hne⟩
      show phase.next s data = .accepted
      have hcol : phase ≠ .collecting := fun hcol => absurd (hp.mp hcol) (by omega)
      rw [HeadPhase.next_of_ne hcol]
      cases phase <;> trivial
  · rintro hg (rfl : phase = .rejected)
    obtain ⟨s', hs'⟩ := hg.refused rfl
    have hge : ¬ s.ctx.recvSize.toNat < 164 := fun hlt => by cases hp.mpr hlt
    show s.ctx.flashMaxlen < s.ctx.sum data
    rcases otaDownlinkPacketProc_cases env s data with ⟨hl, -⟩ | ⟨-, ⟨-, ⟨-, hr⟩ | ⟨-, hr⟩⟩ |
      ⟨-, ⟨hlt, -⟩ | ⟨-, hr⟩⟩⟩
    · exact hl
    · rw [hr] at hs'; cases hs'
    · rw [hr] at hs'; cases hs'
    · exact absurd hlt hge
    · rw [hr] at hs'
      cases (storePacket_inv hs').1

theorem phaseOk_step_phased (t : Fota × HeadPhase) (data : List UInt8) (o : XyRet)
    (t' : Fota × HeadPhase) (h : PhaseOk t) (hres : phasedPacketProc env data t = .ok o t') :
    PhaseOk t' := by
  obtain ⟨h₁, h₂⟩ := phasedPacketProc_inv hres
  show PhaseOk (t'.1, t'.2)
  rw [h₂]
  exact PhaseOk.step h h₁

/-- **Every run from a fresh context** is guarded exactly if each packet after a rejected header is
too large. -/
theorem body_guarded_iff (b : Board) (packets : List (List UInt8)) :
    Along (phasedPacketProc env) TooLargeOnceRejected packets
        (⟨b, otaUpdateInit sizes⟩, .collecting) ↔
      Along (phasedPacketProc env) (BodyGuarded env) packets
        (⟨b, otaUpdateInit sizes⟩, .collecting) :=
  along_iff_of_invariant PhaseOk (fun _ data h => bodyGuarded_iff_step data h)
    (fun t data o t' h _ => phaseOk_step_phased t data o t' h) (phaseOk_init b)

/-! ### A packet after a rejected header -/

/-- A header of zeros. -/
def zeroHead : List UInt8 := List.replicate 164 0

theorem length_zeroHead : zeroHead.length = 164 := List.length_replicate

theorem not_headOk_zeroHead :
    ¬ HeadOk blankFlash noImage.base ((otaUpdateInit noImage).completed zeroHead) := fun hok => by
  have hmagic : DeltaHeadInfo.magicNum (headOf zeroHead) = MAGIC_NUM := by
    rw [← hok.magic]
    exact Buf.word_congr fun i hi =>
      completed_init noImage _ (by rw [length_zeroHead]) _ (by omega) (by omega)
  exact absurd hmagic (by decide)

/-- After a header of zeros. -/
def zeroHeadFota : Fota := { sampleFota with ctx := (otaUpdateInit noImage).rejectHead zeroHead }

theorem phasedPacketProc_zeroHead :
    phasedPacketProc quietEnv zeroHead (sampleFota, .collecting) =
      .ok .xyErr (zeroHeadFota, .rejected) := by
  have hsum : sampleFota.ctx.sum zeroHead = headSize := by
    rw [OtaContext.sum, length_zeroHead]
    rfl
  have hcall : otaDownlinkPacketProc quietEnv zeroHead sampleFota = .ok .xyErr zeroHeadFota := by
    refine otaDownlinkPacketProc_reject (s := sampleFota)
      ?_ ?_ (by decide) ?_ not_headOk_zeroHead <;>
      rw [length_zeroHead] <;> decide
  have hnext : HeadPhase.collecting.next sampleFota zeroHead = .rejected :=
    HeadPhase.next_rejected (by rw [CompletesHead, hsum]; decide) not_headOk_zeroHead
  simp only [phasedPacketProc, hcall, hnext]

/-- A header of zeros is rejected, and the packet after it is not. -/
theorem not_body_guarded :
    ¬ Along (phasedPacketProc quietEnv) (BodyGuarded quietEnv) [zeroHead, [0]]
      (sampleFota, .collecting) := by
  rintro ⟨-, h⟩
  obtain ⟨hg, -⟩ := h _ _ phasedPacketProc_zeroHead
  have hphase := phaseOk_step_phased _ _ _ _ (phaseOk_init blankBoard) phasedPacketProc_zeroHead
  have hlarge := (bodyGuarded_iff_step [0] hphase).mpr hg rfl
  exact absurd hlarge (by decide)

end XY1100
