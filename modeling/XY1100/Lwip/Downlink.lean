import XY1100.Lwip.NetifTable
import XY1100.Support.Calls
import XY1100.Support.Ownership

/-!
# Lwip — who frees a downlink packet

The DSP passes a downlink packet in a buffer of its own, which `send_packet_to_user` of the M3 core
frees or hands on, by the switches set: to the ping thread, or through `send_ps_packet_to_tcpip` to
the TCP/IP stack, which frees it with the `pbuf` that refers to it.

* `owned_iff`: the buffer is given away once and not used after that, exactly when a packet for the
  TCP/IP stack is delivered once, the slot found has a netif, and a netif whose link is up gets its
  `pbuf`.
-/

namespace XY1100.Netif
open Support

/-! ### The code -/

/-- What is done with the buffer. -/
inductive Act
  | use
  /-- `xy_free`, or `pbuf_free` of the `pbuf` that refers to it. -/
  | free
  /-- `input` of the netif took the `pbuf`. -/
  | input
  /-- `send_packet_to_ping`. -/
  | ping
  deriving DecidableEq

/-- The buffer has another owner, or none. -/
def Act.Gives (a : Act) : Prop := a ≠ .use

instance (a : Act) : Decidable a.Gives := inferInstanceAs (Decidable (_ ≠ _))

/-- The switches `send_packet_to_user` finds. -/
structure Switches where
  haveFreeLock : Bool
  offDebug : Int
  dropDownDbg : Int
  tickCount : Nat
  /-- `g_nonip_func` is not null. -/
  nonipFunc : Bool
  nowInPing : Bool
  doubleTrance : Int
  doubleTranceNum : Int

/-- The packet is dropped for a test. -/
def Switches.DebugDrop (s : Switches) : Prop :=
  s.offDebug = 0 ∧ 0 < s.dropDownDbg ∧ s.tickCount % s.dropDownDbg.toNat = 0

instance (s : Switches) : Decidable s.DebugDrop := inferInstanceAs (Decidable (_ ∧ _))

/-- What a delivery finds: the table, the links that are up, whether there is a `pbuf`, and whether
`input` takes it. -/
structure Delivery where
  psIf : List PsNetif
  linkUp : Nat → Bool
  pbufAlloc : Bool
  inputOk : Bool

/-- A call, with what is done with the buffer, in order. -/
abbrev Call := EStateM Fault (List Act)

def act (a : Act) : Call Unit := modify fun log => log ++ [a]

/-- `ip_packet_information_print` under a condition. -/
def printIf (c : Prop) [Decidable c] : Call Unit := if c then act .use else pure ()

def xyOk : Int := 0
def xyErr : Int := -1

/-- `send_ps_packet_to_tcpip`. -/
def sendPsPacketToTcpip (d : Delivery) (cid : UInt8) : Call Int :=
  match findNetifByCid cid d.psIf with
  | none => do
      act .free
      return xyErr
  | some psTemp =>
      match psTemp.psEth with
      | none => throw .nullPointer
      | some psEth =>
          if d.linkUp psEth then do
            -- `resume_net_app_by_dl_pkt`
            act .use
            if d.pbufAlloc then
              if d.inputOk then
                act .input
                return xyOk
              else
                act .free
                return xyErr
            else throw .assertion
          else do
            act .free
            return xyErr

/-- The loop of the duplicate delivery, from index `i` on, `n` times. -/
def deliverLoop (delivery : Nat → Delivery) (cid : UInt8) : Nat → Nat → Call Unit
  | _, 0 => return
  | i, n + 1 => do
      discard (sendPsPacketToTcpip (delivery i) cid)
      deliverLoop delivery cid (i + 1) n

/-- The part of `send_packet_to_user` for the TCP/IP stack. -/
def deliver (s : Switches) (delivery : Nat → Delivery) (cid : UInt8) : Call Unit :=
  if s.doubleTrance ≠ 0 then deliverLoop delivery cid 0 s.doubleTranceNum.toNat
  else discard (sendPsPacketToTcpip (delivery 0) cid)

/-- `send_packet_to_user` of the M3 core. -/
def sendPacketToUser (s : Switches) (delivery : Nat → Delivery) (cid : UInt8) : Call Unit := do
  printIf s.haveFreeLock
  if s.DebugDrop then act .free
  else do
    printIf (s.offDebug = 0)
    -- `wireshark_forward_format_print`
    act .use
    if s.nonipFunc then do
      act .use
      act .free
    else if s.nowInPing then act .ping
    else deliver s delivery cid

/-! ### One delivery -/

/-- The call returns, and has given the buffer away once and not used it after that. -/
def Owned {α : Type} : EStateM.Result Fault (List Act) α → Prop
  | .ok _ log => GivenOnce Act.Gives log
  | .error _ _ => False

theorem act_ok (a : Act) (log : List Act) : act a log = .ok () (log ++ [a]) := rfl

/-- Nothing but uses so far. -/
def Uses (log : List Act) : Prop := ∀ a ∈ log, ¬ a.Gives

theorem uses_nil : Uses [] := fun _ h => by cases h

theorem Uses.use {log : List Act} (h : Uses log) : Uses (log ++ [.use]) := by
  intro a ha
  rcases List.mem_append.mp ha with hlog | hnew
  · exact h a hlog
  · exact not_not_intro (List.mem_singleton.mp hnew)

/-- The slot found has a netif, and there is a `pbuf` where its link is up. -/
def Settles (d : Delivery) (cid : UInt8) : Prop :=
  ∀ psTemp, findNetifByCid cid d.psIf = some psTemp →
    ∃ psEth, psTemp.psEth = some psEth ∧ (d.linkUp psEth → d.pbufAlloc)

variable {d : Delivery} {cid : UInt8} {log : List Act}

/-- **A delivery** that settles gives the buffer away once. -/
theorem sendPsPacketToTcpip_settles (h : Settles d cid) :
    ∃ acts, GivenOnce Act.Gives acts ∧
      ∀ log, ∃ ret, sendPsPacketToTcpip d cid log = .ok ret (log ++ acts) := by
  have hfree : Act.Gives .free := by decide
  have hinput : Act.Gives .input := by decide
  have huse : ¬ Act.Gives .use := by decide
  unfold sendPsPacketToTcpip
  cases hfind : findNetifByCid cid d.psIf with
  | none => exact ⟨[.free], .single hfree, fun log => ⟨xyErr, rfl⟩⟩
  | some psTemp =>
      obtain ⟨psEth, heth, hup⟩ := h psTemp hfind
      simp only [heth]
      by_cases hlink : d.linkUp psEth = true
      · simp only [if_pos hlink, if_pos (hup hlink)]
        by_cases hin : d.inputOk = true
        · simp only [if_pos hin]
          exact ⟨[.use, .input], .inr ⟨huse, .single hinput⟩,
            fun log => ⟨xyOk, congrArg (EStateM.Result.ok xyOk) (List.append_assoc log [_] [_])⟩⟩
        · simp only [if_neg hin]
          exact ⟨[.use, .free], .inr ⟨huse, .single hfree⟩,
            fun log => ⟨xyErr, congrArg (EStateM.Result.ok xyErr) (List.append_assoc log [_] [_])⟩⟩
      · simp only [if_neg hlink]
        exact ⟨[.free], .single hfree, fun log => ⟨xyErr, rfl⟩⟩

/-- Any other delivery stops. -/
theorem sendPsPacketToTcpip_stops (h : ¬ Settles d cid) (log : List Act) :
    ∃ f log', sendPsPacketToTcpip d cid log = .error f log' := by
  unfold Settles at h
  push Not at h
  obtain ⟨psTemp, hfind, hno⟩ := h
  unfold sendPsPacketToTcpip
  simp only [hfind]
  cases heth : psTemp.psEth with
  | none => exact ⟨.nullPointer, log, rfl⟩
  | some psEth =>
      obtain ⟨hlink, halloc⟩ := hno psEth heth
      simp only [if_pos hlink, if_neg halloc]
      exact ⟨.assertion, log ++ [.use], rfl⟩

/-! ### The loop -/

/-- A delivery adds to the log, or stops. -/
theorem sendPsPacketToTcpip_cases (d : Delivery) (cid : UInt8) (log : List Act) :
    (∃ ret acts, acts ≠ [] ∧ sendPsPacketToTcpip d cid log = .ok ret (log ++ acts)) ∨
      ∃ f log', sendPsPacketToTcpip d cid log = .error f log' := by
  by_cases h : Settles d cid
  · obtain ⟨acts, hgiven, hcall⟩ := sendPsPacketToTcpip_settles h
    obtain ⟨ret, hret⟩ := hcall log
    refine .inl ⟨ret, acts, ?_, hret⟩
    rintro rfl
    exact hgiven
  · exact .inr (sendPsPacketToTcpip_stops h log)

theorem discard_ok {m : Call Int} {ret : Int} {log' : List Act} (h : m log = .ok ret log') :
    discard m log = .ok () log' := by
  show EStateM.map _ m log = _
  simp only [EStateM.map, h]

theorem discard_error {m : Call Int} {f : Fault} {log' : List Act} (h : m log = .error f log') :
    discard m log = .error f log' := by
  show EStateM.map _ m log = _
  simp only [EStateM.map, h]

/-- The loop only adds to the log, and adds something if it runs at all. -/
theorem deliverLoop_cases (delivery : Nat → Delivery) (cid : UInt8) :
    ∀ (n i : Nat) (log : List Act),
      (∃ acts, (acts = [] → n = 0) ∧ deliverLoop delivery cid i n log = .ok () (log ++ acts)) ∨
        ∃ f log', deliverLoop delivery cid i n log = .error f log'
  | 0, _, log => .inl ⟨[], fun _ => rfl, by rw [List.append_nil]; rfl⟩
  | n + 1, i, log => by
      rw [deliverLoop]
      rcases sendPsPacketToTcpip_cases (delivery i) cid log with
        ⟨ret, acts, hne, hcall⟩ | ⟨f, log', hcall⟩
      · rw [bind_ok (discard_ok hcall)]
        rcases deliverLoop_cases delivery cid n (i + 1) (log ++ acts) with
          ⟨acts', -, hloop⟩ | ⟨f, log', hloop⟩
        · -- the first round has added something, so the whole loop has
          refine .inl ⟨acts ++ acts', fun hnil => ?_, by rw [hloop, List.append_assoc]⟩
          exact absurd (List.append_eq_nil_iff.mp hnil).1 hne
        · exact .inr ⟨f, log', hloop⟩
      · exact .inr ⟨f, log', bind_error (discard_error hcall)⟩

variable {delivery : Nat → Delivery}

/-- One delivery after uses. -/
theorem owned_discard (h : Uses log) :
    Owned (discard (sendPsPacketToTcpip d cid) log) ↔ Settles d cid := by
  by_cases hs : Settles d cid
  · obtain ⟨acts, hgiven, hcall⟩ := sendPsPacketToTcpip_settles hs
    obtain ⟨ret, hret⟩ := hcall log
    rw [discard_ok hret]
    exact iff_of_true ((GivenOnce.append_iff h).mpr hgiven) hs
  · obtain ⟨f, log', hstop⟩ := sendPsPacketToTcpip_stops hs log
    rw [discard_error hstop]
    exact iff_of_false id hs

/-- The loop after uses: once is right. -/
theorem owned_deliverLoop (h : Uses log) (n : Nat) :
    Owned (deliverLoop delivery cid 0 n log) ↔ n = 1 ∧ Settles (delivery 0) cid := by
  cases n with
  | zero => exact iff_of_false (GivenOnce.not_of_uses h) (fun hno => absurd hno.1 (by decide))
  | succ n =>
      rw [deliverLoop]
      by_cases hs : Settles (delivery 0) cid
      · obtain ⟨acts, hgiven, hcall⟩ := sendPsPacketToTcpip_settles hs
        obtain ⟨ret, hret⟩ := hcall log
        have honce : GivenOnce Act.Gives (log ++ acts) := (GivenOnce.append_iff h).mpr hgiven
        rw [bind_ok (discard_ok hret)]
        cases n with
        | zero => exact iff_of_true honce ⟨rfl, hs⟩
        | succ n =>
            refine iff_of_false ?_ fun hno => absurd hno.1 (by omega)
            -- the second delivery comes after the buffer was given away
            rcases deliverLoop_cases delivery cid (n + 1) 1 (log ++ acts) with
              ⟨acts', hn, hloop⟩ | ⟨f, log', hloop⟩
            · rw [hloop]
              exact honce.not_append fun hnil => absurd (hn hnil) (Nat.succ_ne_zero n)
            · rw [hloop]
              exact id
      · obtain ⟨f, log', hstop⟩ := sendPsPacketToTcpip_stops hs log
        rw [bind_error (discard_error hstop)]
        exact iff_of_false id (fun hno => hs hno.2)

/-! ### The switches -/

/-- The packet is for the TCP/IP stack. -/
def Switches.ToTcpip (s : Switches) : Prop :=
  ¬ s.DebugDrop ∧ s.nonipFunc = false ∧ s.nowInPing = false

theorem owned_deliver (s : Switches) (h : Uses log) :
    Owned (deliver s delivery cid log) ↔
      (s.doubleTrance ≠ 0 → s.doubleTranceNum = 1) ∧ Settles (delivery 0) cid := by
  unfold deliver
  by_cases hdouble : s.doubleTrance ≠ 0
  · have hnat : s.doubleTranceNum.toNat = 1 ↔ s.doubleTranceNum = 1 := by omega
    rw [if_pos hdouble, owned_deliverLoop h, hnat, forall_prop_of_true hdouble]
  · rw [if_neg hdouble, owned_discard h]
    exact (and_iff_right fun hyes => absurd hyes hdouble).symm

/-- A print leaves uses. -/
theorem printIf_ok (c : Prop) [Decidable c] (h : Uses log) :
    ∃ log', printIf c log = .ok () log' ∧ Uses log' := by
  unfold printIf
  by_cases hc : c
  · rw [if_pos hc]
    exact ⟨log ++ [.use], rfl, h.use⟩
  · rw [if_neg hc]
    exact ⟨log, rfl, h⟩

/-- **The buffer** of a downlink packet is given away once and not used after that, exactly when a
packet for the TCP/IP stack is delivered once, and the delivery settles. -/
theorem owned_iff (s : Switches) (delivery : Nat → Delivery) (cid : UInt8) :
    Owned (sendPacketToUser s delivery cid []) ↔
      (s.ToTcpip → (s.doubleTrance ≠ 0 → s.doubleTranceNum = 1) ∧ Settles (delivery 0) cid) := by
  have hfree : Act.Gives .free := by decide
  have hping : Act.Gives .ping := by decide
  have hgive : ∀ {log : List Act} {a : Act}, Uses log → a.Gives → Owned (act a log) :=
    fun hlog ha => (GivenOnce.append_iff hlog).mpr (.single ha)
  -- up to the switch the buffer is only printed from
  unfold sendPacketToUser
  obtain ⟨log₁, hprint₁, huses₁⟩ := printIf_ok (s.haveFreeLock = true) uses_nil
  rw [bind_ok hprint₁]
  by_cases hdrop : s.DebugDrop
  · rw [if_pos hdrop]
    exact iff_of_true (hgive huses₁ hfree) fun hto => absurd hdrop hto.1
  · rw [if_neg hdrop]
    obtain ⟨log₂, hprint₂, huses₂⟩ := printIf_ok (s.offDebug = 0) huses₁
    rw [bind_ok hprint₂, bind_ok (act_ok .use log₂)]
    by_cases hnonip : s.nonipFunc = true
    · rw [if_pos hnonip, bind_ok (act_ok .use _)]
      refine iff_of_true (hgive huses₂.use.use hfree) fun hto => ?_
      exact absurd (hnonip.symm.trans hto.2.1) (by decide)
    · rw [if_neg hnonip]
      by_cases hinping : s.nowInPing = true
      · rw [if_pos hinping]
        refine iff_of_true (hgive huses₂.use hping) fun hto => ?_
        exact absurd (hinping.symm.trans hto.2.2) (by decide)
      · rw [if_neg hinping, owned_deliver s huses₂.use]
        have hto : s.ToTcpip :=
          ⟨hdrop, Bool.eq_false_iff.mpr hnonip, Bool.eq_false_iff.mpr hinping⟩
        exact ⟨fun h _ => h, fun h => h hto⟩

/-- No switch set but the duplicate delivery. -/
def doubled (num : Int) : Switches where
  haveFreeLock := false
  offDebug := 1
  dropDownDbg := 0
  tickCount := 0
  nonipFunc := false
  nowInPing := false
  doubleTrance := 1
  doubleTranceNum := num

/-- A packet delivered twice is freed twice where its cid has no netif. -/
theorem not_owned_doubled : ¬ Owned (sendPacketToUser (doubled 2)
    (fun _ => { psIf := psIf, linkUp := fun _ => true, pbufAlloc := true, inputOk := true }) 5 []) := by
  intro h
  have hlog : GivenOnce Act.Gives ([.use, .free] ++ [.free]) := h
  have hfirst : GivenOnce Act.Gives [.use, .free] := .inr ⟨by decide, .single (by decide)⟩
  exact hfirst.not_append (List.cons_ne_nil _ _) hlog

end XY1100.Netif
