import XY1100.Lwip.CloudSessions

/-!
# Lwip — the packet a session waits for

`resume_net_app_by_dl_pkt` resumes a pending service by a downlink packet.  It compares the saved
session with bytes at fixed offsets: the ports at 20 and 22, whatever the length of the IPv4 header,
and for the cloud services neither the protocol nor the local port.

* `resumesRight_iff`: the services resumed are those the packet is addressed to, and only bytes of
  the packet are read, exactly when the packet is as long as the bytes read and the comparison at the
  fixed offsets is not mistaken about a pending service.
-/

namespace XY1100.Resume
open Support

/-! ### The bytes read -/

/-- The bytes `match_net_app_by_touple` reads. -/
def bytesOfMatch : NetAppType → List Nat
  | .socketTask => [12, 13, 14, 15, 20, 21, 22, 23, 9]
  | .onenetTask | .cdpTask => [12, 13, 14, 15, 20, 21, 22, 23]

/-- `ip_type`. -/
def ipType (data : Buf) : UInt8 := (data 0 &&& 0xf0) >>> 4

/-- The bytes of a packet that `resume_net_app_by_dl_pkt` reads. -/
def bytesRead (cfg : Cfg) (data : Buf) (c : State) : List Nat :=
  if cfg.saveCloud = 0 ∨ c.seen = 0 then []
  else if ipType data ≠ 4 then [0]
  else if data.word 16 ≠ c.seenIp then [0, 16, 17, 18, 19]
  else
    [0, 16, 17, 18, 19] ++
      ([.socketTask, .onenetTask, .cdpTask].filter fun t => NetNeedRecovery c.seen t).flatMap
        bytesOfMatch

/-! ### The packet -/

/-- The port at an offset. -/
def portAt (data : Buf) (i : Nat) : UInt16 :=
  UInt16.ofNat ((data i).toNat * 256 + (data (i + 1)).toNat)

/-- The length of the IPv4 header. -/
def headerLen (data : Buf) : Nat := 4 * (data 0 &&& 0x0f).toNat

/-- A whole IPv4 UDP header is in the packet, which is no later fragment. -/
structure IsUdp (data : Buf) (len : Nat) : Prop where
  version : ipType data = 4
  header : 20 ≤ headerLen data
  inside : headerLen data + 8 ≤ len
  protocol : data 9 = 17
  first : (data 6 &&& 0x1f) = 0 ∧ data 7 = 0

/-- The source address and port are those saved. -/
def FromPeer (cfg : Cfg) (reg : RegInfo) (data : Buf) (at_ : Nat) : Prop :=
  cfg.inetAton reg.remoteIp = data.word 12 ∧ reg.remotePort = portAt data at_

/-- With the ports at an offset: the local port of the sockets, the peer of a cloud service. -/
def PeerAt (cfg : Cfg) (infos : AppDeepsleepInfos) (data : Buf) (at_ : Nat) : NetAppType → Prop
  | .socketTask =>
      infos.udpContext.udpSocket0.localPort = portAt data (at_ + 2) ∨
        infos.udpContext.udpSocket1.localPort = portAt data (at_ + 2)
  | .onenetTask => FromPeer cfg infos.onenetRegInfo data at_
  | .cdpTask => FromPeer cfg infos.cdpRegInfo data at_

/-- With the ports at an offset: the local port of a cloud service. -/
def LocalPortAt (infos : AppDeepsleepInfos) (data : Buf) (at_ : Nat) : NetAppType → Prop
  | .socketTask => True
  | .onenetTask => infos.onenetRegInfo.localPort = portAt data (at_ + 2)
  | .cdpTask => infos.cdpRegInfo.localPort = portAt data (at_ + 2)

/-- The packet is an IPv4 UDP packet to the saved address, with the saved ports and source. -/
def Addressed (cfg : Cfg) (infos : AppDeepsleepInfos) (data : Buf) (len : Nat) (localIp : UInt32)
    (t : NetAppType) : Prop :=
  IsUdp data len ∧ data.word 16 = localIp ∧ PeerAt cfg infos data (headerLen data) t ∧
    LocalPortAt infos data (headerLen data) t

/-- The comparison at the fixed offsets is right about a service: a UDP packet from its peer, without
options, is for its local port; the options of a UDP packet pass for ports only where the ports do;
and no other packet passes. -/
structure Unmistaken (cfg : Cfg) (infos : AppDeepsleepInfos) (data : Buf) (len : Nat)
    (t : NetAppType) : Prop where
  plain : IsUdp data len → headerLen data = 20 → PeerAt cfg infos data 20 t →
    LocalPortAt infos data 20 t
  options : IsUdp data len → headerLen data ≠ 20 →
    (PeerAt cfg infos data 20 t ↔
      PeerAt cfg infos data (headerLen data) t ∧ LocalPortAt infos data (headerLen data) t)
  other : ¬ IsUdp data len → (t = .socketTask → data 9 = 17) → ¬ PeerAt cfg infos data 20 t

/-! ### The comparison -/

theorem swapPort_halfword (data : Buf) (i : Nat) : swapPort (halfword data i) = portAt data i := by
  have hlo := (data i).toNat_lt
  have hhi := (data (i + 1)).toNat_lt
  unfold swapPort halfword portAt
  apply UInt16.toNat_inj.mp
  rw [UInt16.toNat_add, UInt16.toNat_shiftRight, UInt16.toNat_shiftLeft, UInt16.toNat_ofNat',
    UInt16.toNat_ofNat']
  have height : (8 : UInt16).toNat % 16 = 8 := rfl
  have hfit : ((data i).toNat + 256 * (data (i + 1)).toNat) % 2 ^ 16 =
      (data i).toNat + 256 * (data (i + 1)).toNat := Nat.mod_eq_of_lt (by omega)
  have hdiv : ((data i).toNat + 256 * (data (i + 1)).toNat) / 2 ^ 8 = (data (i + 1)).toNat := by
    omega
  have hmul : ((data i).toNat + 256 * (data (i + 1)).toNat) * 2 ^ 8 % 2 ^ 16 =
      (data i).toNat * 2 ^ 8 := by omega
  rw [height, Nat.shiftRight_eq_div_pow, Nat.shiftLeft_eq, hfit, hdiv, hmul]
  omega

theorem matchNetAppByTouple_iff {cfg : Cfg} {t : NetAppType} {data : Buf}
    {infos : AppDeepsleepInfos} :
    matchNetAppByTouple cfg t data infos = true ↔
      PeerAt cfg infos data 20 t ∧ (t = .socketTask → data 9 = 17) := by
  cases t <;> simp [matchNetAppByTouple, PeerAt, FromPeer, swapPort_halfword, or_and_right]

section
variable {cfg : Cfg} {env : Env} {data : Buf} {infos : AppDeepsleepInfos} {r : Reply} {c : State}
  {len : Nat}

theorem matches_iff (hflash : c.flash = some infos) (t : NetAppType) :
    Matches cfg c data t ↔ ipType data = 4 ∧ data.word 16 = c.seenIp ∧
      PeerAt cfg infos data 20 t ∧ (t = .socketTask → data 9 = 17) := by
  unfold Matches
  rw [hflash]
  simp [matchNetAppByTouple_iff, ipType]

/-- The comparison agrees with what the packet is addressed to. -/
theorem agrees_iff (hflash : c.flash = some infos) (t : NetAppType) :
    (Matches cfg c data t ↔ Addressed cfg infos data len c.seenIp t) ↔
      (ipType data = 4 → data.word 16 = c.seenIp → Unmistaken cfg infos data len t) := by
  rw [matches_iff hflash]
  unfold Addressed
  by_cases htype : ipType data = 4
  · by_cases hdst : data.word 16 = c.seenIp
    · by_cases hudp : IsUdp data len
      · have hproto := hudp.protocol
        by_cases hlen : headerLen data = 20
        · rw [hlen]
          constructor
          · intro h _ _
            exact ⟨fun _ _ hpeer => (h.mp ⟨htype, hdst, hpeer, fun _ => hproto⟩).2.2.2,
              fun _ hne => absurd hlen hne, fun hno => absurd hudp hno⟩
          · intro h
            have hu := h htype hdst
            exact ⟨fun hm => ⟨hudp, hdst, hm.2.2.1, hu.plain hudp hlen hm.2.2.1⟩,
              fun ha => ⟨htype, hdst, ha.2.2.1, fun _ => hproto⟩⟩
        · constructor
          · intro h _ _
            refine ⟨fun _ heq => absurd heq hlen, fun _ _ => ?_, fun hno => absurd hudp hno⟩
            exact ⟨fun hpeer => (h.mp ⟨htype, hdst, hpeer, fun _ => hproto⟩).2.2,
              fun hports => (h.mpr ⟨hudp, hdst, hports⟩).2.2.1⟩
          · intro h
            have hopt := (h htype hdst).options hudp hlen
            exact ⟨fun hm => ⟨hudp, hdst, hopt.mp hm.2.2.1⟩,
              fun ha => ⟨htype, hdst, hopt.mpr ha.2.2, fun _ => hproto⟩⟩
      · constructor
        · intro h _ _
          refine ⟨fun hyes => absurd hyes hudp, fun hyes => absurd hyes hudp, ?_⟩
          exact fun _ hproto hpeer => hudp (h.mp ⟨htype, hdst, hpeer, hproto⟩).1
        · intro h
          exact ⟨fun hm => absurd hm.2.2.1 ((h htype hdst).other hudp hm.2.2.2),
            fun ha => absurd ha.1 hudp⟩
    · exact iff_of_true (iff_of_false (fun hm => hdst hm.2.1) (fun ha => hdst ha.2.1))
        fun _ hyes => absurd hyes hdst
  · exact iff_of_true (iff_of_false (fun hm => htype hm.1) (fun ha => htype ha.1.version))
      fun hyes => absurd hyes htype

/-! ### The call -/

variable (env data r) in
/-- A service is taken up, its flag cleared, by a packet that matches it. -/
theorem resumeMatched_flag (t : NetAppType) (hcloud : cfg.saveCloud ≠ 0)
    (hread : c.gHaveReadSavedInfo = true) (hflash : c.flash = some infos) :
    NetNeedRecovery (resumeMatched cfg env data t (r, c)).2.gAppRecoveryType t ↔
      NetNeedRecovery c.gAppRecoveryType t ∧ ¬ matchNetAppByTouple cfg t data infos = true := by
  by_cases h : NetNeedRecovery c.gAppRecoveryType t ∧ matchNetAppByTouple cfg t data infos = true
  · have hclear : (resumeMatched cfg env data t (r, c)).2 =
        (resumeFlagged cfg env t c).2.clearFlag t := by
      simp only [resumeMatched, hflash, if_pos h, resumeNetApp_of_read hcloud hread, if_pos h.1]
    have hflags := (consumed_resumeFlagged cfg env t c).clearFlag.flags
    rw [hclear, hflags, ← mem_services, services_clear, Finset.mem_erase]
    exact iff_of_false (fun hno => hno.1 rfl) (fun hno => hno.2 h.2)
  · have hsame : resumeMatched cfg env data t (r, c) = (r, c) := by
      simp only [resumeMatched, hflash, if_neg h]
    rw [hsame]
    exact ⟨fun hneed => ⟨hneed, fun hm => h ⟨hneed, hm⟩⟩, And.left⟩

/-- The flags after the three services. -/
theorem resumeMatched_all_flags (hcloud : cfg.saveCloud ≠ 0)
    (hread : c.gHaveReadSavedInfo = true) (hflash : c.flash = some infos) (t : NetAppType) :
    NetNeedRecovery (resumeMatched cfg env data .cdpTask
        (resumeMatched cfg env data .onenetTask
          (resumeMatched cfg env data .socketTask (r, c)))).2.gAppRecoveryType t ↔
      NetNeedRecovery c.gAppRecoveryType t ∧ ¬ matchNetAppByTouple cfg t data infos = true := by
  obtain ⟨h₁, -⟩ := resumeMatched_spec env data r .socketTask hcloud hread hflash
  obtain ⟨w₁, hflash₁⟩ := h₁.record
  obtain ⟨h₂, -⟩ := resumeMatched_spec env data
    (resumeMatched cfg env data .socketTask (r, c)).1 .onenetTask hcloud h₁.read hflash₁
  obtain ⟨w₂, hflash₂⟩ := h₂.record
  obtain ⟨h₃, -⟩ := resumeMatched_spec env data
    (resumeMatched cfg env data .onenetTask
      (resumeMatched cfg env data .socketTask (r, c))).1 .cdpTask hcloud h₂.read hflash₂
  -- each service clears its own flag and leaves the others
  cases t with
  | socketTask =>
      exact (h₃.others _ (by decide)).trans ((h₂.others _ (by decide)).trans
        (resumeMatched_flag env data r .socketTask hcloud hread hflash))
  | onenetTask =>
      have hflag := resumeMatched_flag env data
        (resumeMatched cfg env data .socketTask (r, c)).1 .onenetTask hcloud h₁.read hflash₁
      rw [h₁.others _ (by decide)] at hflag
      exact (h₃.others _ (by decide)).trans hflag
  | cdpTask =>
      have hflag := resumeMatched_flag env data
        (resumeMatched cfg env data .onenetTask
          (resumeMatched cfg env data .socketTask (r, c))).1 .cdpTask hcloud h₂.read hflash₂
      rw [h₂.others _ (by decide), h₁.others _ (by decide)] at hflag
      exact hflag

/-- **The flags** after the call. -/
theorem resumeNetAppByDlPkt_flags (hcloud : cfg.saveCloud ≠ 0) (hflash : c.flash = some infos)
    (t : NetAppType) :
    NetNeedRecovery (resumeNetAppByDlPkt cfg env data c).2.gAppRecoveryType t ↔
      NetNeedRecovery c.seen t ∧ ¬ Matches cfg c data t := by
  obtain ⟨hread, hflash', hflags, -⟩ := loadedByPkt_spec c
  rw [resumeNetAppByDlPkt_eq hcloud]
  by_cases hzero : c.seen = 0
  · rw [if_pos hzero, hflags, hzero]
    have hneed : ¬ NetNeedRecovery 0 t := by cases t <;> decide
    exact iff_of_false hneed fun hno => hneed hno.1
  · rw [if_neg hzero]
    by_cases htype : (data 0 &&& 0xf0) >>> 4 = 4
    · rw [if_neg (not_not_intro htype)]
      by_cases hdst : data.word 16 = c.seenIp
      · rw [if_neg (not_not_intro hdst),
          resumeMatched_all_flags hcloud hread (hflash'.trans hflash), hflags]
        have hmatches : Matches cfg c data t ↔ matchNetAppByTouple cfg t data infos = true := by
          unfold Matches
          rw [hflash]
          simp [htype, hdst]
        rw [hmatches]
      · rw [if_pos hdst, hflags]
        exact ⟨fun hneed => ⟨hneed, fun hm => hdst hm.2.1⟩, And.left⟩
    · rw [if_pos htype, hflags]
      exact ⟨fun hneed => ⟨hneed, fun hm => htype hm.1⟩, And.left⟩

/-! ### The reads -/

/-- The packet is as long as the bytes read. -/
def LongEnough (cfg : Cfg) (data : Buf) (len : Nat) (c : State) : Prop :=
  cfg.saveCloud ≠ 0 → c.seen ≠ 0 → 0 < len ∧ (ipType data = 4 → 20 ≤ len ∧
    (data.word 16 = c.seenIp → ∀ t, NetNeedRecovery c.seen t → 24 ≤ len))

theorem bytesOfMatch_lt (t : NetAppType) : (∀ i ∈ bytesOfMatch t, i < len) ↔ 24 ≤ len := by
  cases t <;> simp only [bytesOfMatch, List.forall_mem_cons, List.not_mem_nil, false_implies,
    implies_true, and_true] <;> omega

theorem mem_pending_flatMap {i : Nat} :
    i ∈ ([.socketTask, .onenetTask, .cdpTask].filter fun t =>
        NetNeedRecovery c.seen t).flatMap bytesOfMatch ↔
      ∃ t, NetNeedRecovery c.seen t ∧ i ∈ bytesOfMatch t := by
  have hall : ∀ t : NetAppType, t ∈ [NetAppType.socketTask, .onenetTask, .cdpTask] := by
    intro t
    cases t <;> decide
  simp only [List.mem_flatMap, List.mem_filter, decide_eq_true_eq]
  exact ⟨fun ⟨t, ⟨_, hneed⟩, hi⟩ => ⟨t, hneed, hi⟩, fun ⟨t, hneed, hi⟩ => ⟨t, ⟨hall t, hneed⟩, hi⟩⟩

theorem bytesRead_lt_iff : (∀ i ∈ bytesRead cfg data c, i < len) ↔ LongEnough cfg data len c := by
  unfold bytesRead LongEnough
  by_cases hoff : cfg.saveCloud = 0 ∨ c.seen = 0
  · rw [if_pos hoff]
    exact iff_of_true (fun _ hno => absurd hno List.not_mem_nil)
      fun hcloud hseen => (hoff.elim hcloud hseen).elim
  · obtain ⟨hcloud, hseen⟩ := not_or.mp hoff
    rw [if_neg hoff]
    simp only [ne_eq, hcloud, not_false_eq_true, hseen, forall_true_left]
    by_cases htype : ipType data = 4
    · rw [if_neg (not_not_intro htype)]
      have hfirst : (∀ i ∈ [0, 16, 17, 18, 19], i < len) ↔ 20 ≤ len := by
        simp only [List.forall_mem_cons, List.not_mem_nil, false_implies, implies_true, and_true]
        omega
      by_cases hdst : data.word 16 = c.seenIp
      · rw [if_neg (not_not_intro hdst)]
        simp only [List.forall_mem_append, hfirst, htype, hdst, forall_true_left,
          mem_pending_flatMap, forall_exists_index, and_imp]
        constructor
        · rintro ⟨hlen, hall⟩
          exact ⟨by omega, hlen, fun t hneed => (bytesOfMatch_lt t).mp fun i hi => hall i t hneed hi⟩
        · rintro ⟨-, hlen, hall⟩
          exact ⟨hlen, fun i t hneed hi => (bytesOfMatch_lt t).mpr (hall t hneed) i hi⟩
      · rw [if_pos hdst, hfirst]
        exact ⟨fun hlen => ⟨by omega, fun _ => ⟨hlen, fun hyes => absurd hyes hdst⟩⟩,
          fun h => (h.2 htype).1⟩
    · rw [if_pos htype]
      simp [htype]

variable {data' : Buf}

theorem word_eq_of_bytes {a : Nat} (h : ∀ i ∈ [a, a + 1, a + 2, a + 3], data i = data' i) :
    data.word a = data'.word a := by
  simp only [List.forall_mem_cons] at h
  obtain ⟨h₀, h₁, h₂, h₃, -⟩ := h
  simp only [Buf.word, h₀, h₁, h₂, h₃]

theorem portAt_congr {i : Nat} (h : data i = data' i) (h' : data (i + 1) = data' (i + 1)) :
    portAt data i = portAt data' i := by
  unfold portAt
  rw [h, h']

theorem matchNetAppByTouple_congr {t : NetAppType}
    (h : ∀ i ∈ bytesOfMatch t, data i = data' i) :
    matchNetAppByTouple cfg t data infos = matchNetAppByTouple cfg t data' infos := by
  -- every comparison reads the address of the peer and both ports
  have haddr : ∀ i ∈ [12, 13, 14, 15], i ∈ bytesOfMatch t := by cases t <;> decide
  have hports : ∀ i ∈ [20, 21, 22, 23], i ∈ bytesOfMatch t := by cases t <;> decide
  have hsrc : data.word 12 = data'.word 12 := word_eq_of_bytes fun i hi => h i (haddr i hi)
  have hport : ∀ i ∈ [20, 21, 22, 23], data i = data' i := fun i hi => h i (hports i hi)
  have hremote : portAt data 20 = portAt data' 20 :=
    portAt_congr (hport 20 (by decide)) (hport 21 (by decide))
  have hlocal : portAt data 22 = portAt data' 22 :=
    portAt_congr (hport 22 (by decide)) (hport 23 (by decide))
  rw [Bool.eq_iff_iff, matchNetAppByTouple_iff, matchNetAppByTouple_iff]
  cases t with
  | socketTask =>
      have hproto : data 9 = data' 9 := h 9 (by decide)
      simp only [PeerAt, hlocal, hproto]
  | onenetTask => simp only [PeerAt, FromPeer, hsrc, hremote, reduceCtorEq, false_implies]
  | cdpTask => simp only [PeerAt, FromPeer, hsrc, hremote, reduceCtorEq, false_implies]

/-- One service reads only what its comparison does. -/
theorem resumeMatched_congr {t : NetAppType}
    (h : NetNeedRecovery c.gAppRecoveryType t → ∀ i ∈ bytesOfMatch t, data i = data' i) :
    resumeMatched cfg env data t (r, c) = resumeMatched cfg env data' t (r, c) := by
  unfold resumeMatched
  dsimp only
  cases c.flash with
  | none => rfl
  | some infos =>
      by_cases hneed : NetNeedRecovery c.gAppRecoveryType t
      · simp only [matchNetAppByTouple_congr (h hneed)]
      · simp only [hneed, false_and, if_false]

variable (env data r) in
/-- A service sets no flag. -/
theorem resumeMatched_sets_none (t : NetAppType) (hcloud : cfg.saveCloud ≠ 0)
    (hread : c.gHaveReadSavedInfo = true) :
    (resumeMatched cfg env data t (r, c)).2.gHaveReadSavedInfo = true ∧
      ∀ u, NetNeedRecovery (resumeMatched cfg env data t (r, c)).2.gAppRecoveryType u →
        NetNeedRecovery c.gAppRecoveryType u := by
  cases hflash : c.flash with
  | none =>
      rw [resumeMatched_unreadable t hflash]
      exact ⟨hread, fun _ hneed => hneed⟩
  | some infos =>
      obtain ⟨hserved, -⟩ := resumeMatched_spec env data r t hcloud hread hflash
      refine ⟨hserved.read, fun u hneed => ?_⟩
      by_cases hu : u = t
      · subst hu
        exact ((resumeMatched_flag env data r u hcloud hread hflash).mp hneed).1
      · exact (hserved.others u hu).mp hneed

/-- The three services read only what the comparisons of the pending ones do. -/
theorem resumeMatched_all_congr (hcloud : cfg.saveCloud ≠ 0) (hread : c.gHaveReadSavedInfo = true)
    (h : ∀ t, NetNeedRecovery c.gAppRecoveryType t → ∀ i ∈ bytesOfMatch t, data i = data' i) :
    resumeMatched cfg env data .cdpTask (resumeMatched cfg env data .onenetTask
        (resumeMatched cfg env data .socketTask (r, c))) =
      resumeMatched cfg env data' .cdpTask (resumeMatched cfg env data' .onenetTask
        (resumeMatched cfg env data' .socketTask (r, c))) := by
  obtain ⟨hread₁, hneed₁⟩ := resumeMatched_sets_none env data r .socketTask hcloud hread
  obtain ⟨-, hneed₂⟩ := resumeMatched_sets_none env data
    (resumeMatched cfg env data .socketTask (r, c)).1 .onenetTask hcloud hread₁
  -- a service that is not pending for the first is not pending for the later ones
  have h₁ : resumeMatched cfg env data .socketTask (r, c) =
      resumeMatched cfg env data' .socketTask (r, c) := resumeMatched_congr (h _)
  have h₂ : resumeMatched cfg env data .onenetTask
        (resumeMatched cfg env data .socketTask (r, c)) =
      resumeMatched cfg env data' .onenetTask (resumeMatched cfg env data .socketTask (r, c)) :=
    resumeMatched_congr fun hneed => h _ (hneed₁ _ hneed)
  have h₃ : resumeMatched cfg env data .cdpTask (resumeMatched cfg env data .onenetTask
        (resumeMatched cfg env data .socketTask (r, c))) =
      resumeMatched cfg env data' .cdpTask (resumeMatched cfg env data .onenetTask
        (resumeMatched cfg env data .socketTask (r, c))) :=
    resumeMatched_congr fun hneed => h _ (hneed₁ _ (hneed₂ _ hneed))
  rw [h₃, h₂, h₁]

/-- **The call depends on no byte that it does not read.** -/
theorem resumeNetAppByDlPkt_congr (h : ∀ i ∈ bytesRead cfg data c, data i = data' i) :
    resumeNetAppByDlPkt cfg env data c = resumeNetAppByDlPkt cfg env data' c := by
  by_cases hcloud : cfg.saveCloud = 0
  · simp only [resumeNetAppByDlPkt, if_pos hcloud]
  · obtain ⟨hread, -, hflags, -⟩ := loadedByPkt_spec c
    rw [resumeNetAppByDlPkt_eq hcloud, resumeNetAppByDlPkt_eq hcloud]
    by_cases hzero : c.seen = 0
    · rw [if_pos hzero, if_pos hzero]
    · unfold bytesRead at h
      rw [if_neg (not_or.mpr ⟨hcloud, hzero⟩)] at h
      rw [if_neg hzero, if_neg hzero]
      by_cases htype : ipType data = 4
      · rw [if_neg (not_not_intro htype)] at h
        -- the type and the destination are read before any comparison
        have hsub : ∀ i ∈ [0, 16, 17, 18, 19], data i = data' i := by
          by_cases hdst : data.word 16 = c.seenIp
          · rw [if_neg (not_not_intro hdst)] at h
            exact fun i hi => h i (List.mem_append_left _ hi)
          · rw [if_pos hdst] at h
            exact h
        have htype' : ipType data' = 4 := by
          unfold ipType
          rw [← hsub 0 List.mem_cons_self]
          exact htype
        have hword : data.word 16 = data'.word 16 :=
          word_eq_of_bytes fun i hi => hsub i (List.mem_cons_of_mem _ hi)
        have hcode : (data 0 &&& 0xf0) >>> 4 = 4 := htype
        have hcode' : (data' 0 &&& 0xf0) >>> 4 = 4 := htype'
        rw [if_neg (not_not_intro hcode), if_neg (not_not_intro hcode'), ← hword]
        by_cases hdst : data.word 16 = c.seenIp
        · rw [if_neg (not_not_intro hdst)] at h
          rw [if_neg (not_not_intro hdst), if_neg (not_not_intro hdst)]
          have hmatch : ∀ t, NetNeedRecovery c.seen t → ∀ i ∈ bytesOfMatch t, data i = data' i :=
            fun t hneed i hi =>
              h i (List.mem_append_right _ (mem_pending_flatMap.mpr ⟨t, hneed, hi⟩))
          exact resumeMatched_all_congr hcloud hread fun t hneed => hmatch t (hflags ▸ hneed)
        · rw [if_pos hdst, if_pos hdst]
      · rw [if_pos htype] at h
        have hcode : (data 0 &&& 0xf0) >>> 4 ≠ 4 := htype
        rw [← h 0 List.mem_cons_self, if_pos hcode, if_pos hcode]

/-! ### The right packet -/

/-- The service waits for its packet. -/
def Pending (cfg : Cfg) (c : State) (t : NetAppType) : Prop :=
  cfg.saveCloud ≠ 0 ∧ NetNeedRecovery c.seen t

/-- The state with a record in flash. -/
def State.withRecord (c : State) (infos : AppDeepsleepInfos) : State :=
  { c with flash := some infos }

/-- Only bytes of the packet are read; the flags cleared are those of the pending services the packet
is addressed to; and of these, those whose stored registration is accepted, and no others, are
resumed. -/
structure ResumesRight (cfg : Cfg) (env : Env) (infos : AppDeepsleepInfos) (data : Buf) (len : Nat)
    (c : State) : Prop where
  inside : ∀ i ∈ bytesRead cfg data c, i < len
  taken : ∀ t, Pending cfg c t →
    (¬ NetNeedRecovery (resumeNetAppByDlPkt cfg env data c).2.gAppRecoveryType t ↔
      Addressed cfg infos data len c.seenIp t)
  resumed : ∀ t, t ∈ (resumeNetAppByDlPkt cfg env data c).1.resumed ↔
    Pending cfg c t ∧ Addressed cfg infos data len c.seenIp t ∧ env.Accepts t

theorem resumesRight_iff_agrees (hflash : c.flash = some infos) :
    ResumesRight cfg env infos data len c ↔ LongEnough cfg data len c ∧
      ∀ t, Pending cfg c t → (Matches cfg c data t ↔ Addressed cfg infos data len c.seenIp t) := by
  have htaken : ∀ t, Pending cfg c t →
      (¬ NetNeedRecovery (resumeNetAppByDlPkt cfg env data c).2.gAppRecoveryType t ↔
        Matches cfg c data t) := by
    rintro t ⟨hcloud, hneed⟩
    rw [resumeNetAppByDlPkt_flags hcloud hflash, not_and, not_not]
    exact ⟨fun h => h hneed, fun h _ => h⟩
  constructor
  · rintro ⟨hin, htake, -⟩
    exact ⟨bytesRead_lt_iff.mp hin, fun t hp => (htaken t hp).symm.trans (htake t hp)⟩
  · rintro ⟨hlong, hagree⟩
    refine ⟨bytesRead_lt_iff.mpr hlong, fun t hp => (htaken t hp).trans (hagree t hp), fun t => ?_⟩
    rw [resumeNetAppByDlPkt_spec.2]
    constructor
    · rintro ⟨hcloud, hneed, hm, hacc⟩
      exact ⟨⟨hcloud, hneed⟩, (hagree t ⟨hcloud, hneed⟩).mp hm, hacc⟩
    · rintro ⟨hp, ha, hacc⟩
      exact ⟨hp.1, hp.2, (hagree t hp).mpr ha, hacc⟩

end

/-- **The packet of a session.**  The right services are resumed, and only bytes of the packet read,
exactly when the packet is long enough and, where it gets as far as the comparisons, they are mistaken
about no pending service. -/
theorem resumesRight_iff (cfg : Cfg) (env : Env) (infos : AppDeepsleepInfos) (data : Buf) (len : Nat)
    (c : State) :
    ResumesRight cfg env infos data len (c.withRecord infos) ↔
      LongEnough cfg data len (c.withRecord infos) ∧
        ∀ t, Pending cfg (c.withRecord infos) t → ipType data = 4 →
          data.word 16 = (c.withRecord infos).seenIp → Unmistaken cfg infos data len t := by
  have hflash : (c.withRecord infos).flash = some infos := rfl
  rw [resumesRight_iff_agrees hflash]
  exact and_congr_right fun _ => forall₂_congr fun t _ => agrees_iff hflash t

/-- CDP is pending, with the server 1.2.3.4, port 5683, and the local port 5683. -/
def cdpInfos : AppDeepsleepInfos :=
  { AppDeepsleepInfos.zero with
    recoveryType := 8
    localAddr := 0x0100000A
    cdpRegInfo := ⟨5683, 5683, [49, 46, 50, 46, 51, 46, 52, 0], []⟩ }

/-- A decimal number below 256. -/
def octet (digits : List UInt8) : UInt32 :=
  digits.foldl (fun v d => 10 * v + (d - 48).toUInt32) 0

/-- `inet_aton` of four decimal numbers, the first in the low byte. -/
def dottedQuad (text : List UInt8) : UInt32 :=
  ((text.takeWhile (· ≠ 0)).splitOn 46).foldr (fun digits v => 256 * v + octet digits) 0

def cdpCfg : Cfg where
  saveCloud := 1
  keepCloudAlive := 0
  inetAton := dottedQuad

/-- A UDP packet from 1.2.3.4, port 5683, to 10.0.0.1, port 4660. -/
def strayPacket : List UInt8 :=
  [0x45, 0, 0, 28, 0, 0, 0, 0, 64, 17, 0, 0, 1, 2, 3, 4, 10, 0, 0, 1, 0x16, 0x33, 0x12, 0x34, 0, 8,
    0, 0]

/-- A packet of the server to another local port resumes CDP. -/
theorem not_resumesRight_stray :
    ¬ ResumesRight cdpCfg ⟨xyOk, xyOk, true⟩ cdpInfos (fun i => strayPacket.getD i 0) 28
      (State.withRecord { flash := none } cdpInfos) := by
  intro h
  have hmem : NetAppType.cdpTask ∈ (resumeNetAppByDlPkt cdpCfg ⟨xyOk, xyOk, true⟩
      (fun i => strayPacket.getD i 0) (State.withRecord { flash := none } cdpInfos)).1.resumed := by
    decide
  have hport : cdpInfos.cdpRegInfo.localPort = portAt (fun i => strayPacket.getD i 0)
      (headerLen (fun i => strayPacket.getD i 0) + 2) :=
    ((h.resumed .cdpTask).mp hmem).2.1.2.2.2
  exact absurd hport (by decide)

end XY1100.Resume
