import XY1100.Ping.Reply
import XY1100.Ping.Statistics
import XY1100.Support.Calls

/-!
# Ping — a run of `_ping_ipv4`

A run sends echo requests one after the other.  After each it takes packets from `ping_packet_q`
until one is the reply or `rcv_timeout` has passed.  After a packet that is not the reply,
`rcv_timeout` becomes what is left of the timeout, but stays as it was when nothing is left.

Time is a count of ticks that does not wrap; the code sees it modulo `2 ^ 32`.  It passes while the
thread sleeps or waits, and from the moment a packet is put into the queue until the thread reads the
tick after it.

* `pingIpv4_right`: in every run in which no reply was put before its request was sent, no other
  packet is taken when the timeout has passed, no reply with a round-trip time follows one without,
  and the numbers fit, the statistics are right in every state.
-/

namespace XY1100.Ping4
open Support Ping

/-! ### The code -/

/-- The arguments of `_ping_ipv4` that a run depends on. -/
structure Args where
  host : UInt32
  dataLen : UInt16
  timeout : UInt8

/-- `timeout * 1000`. -/
def Args.timeoutMs (a : Args) : Nat := a.timeout.toNat * 1000

/-- A packet as it is taken from the queue: when it was put, when the thread reads the tick after
it, and what its check finds. -/
structure Taken where
  arrived : Nat
  tick : Nat
  data : Buf
  len : Nat
  heap : Buf
  gPingStop : Bool
  localIp : Option UInt32

/-- What the loop finds before it sends a request. -/
structure Sending where
  gPingStop : Bool
  /-- Out of service, with `g_ping_stop` set when the semaphore comes. -/
  stoppedOutOfService : Bool
  /-- `getlocalip` is not null. -/
  hasLocalIp : Bool
  tick : Nat

/-- What the thread meets next. -/
inductive Event
  | sending (g : Sending)
  /-- `getlocalip` is null when a packet is waited for. -/
  | noLocalIp
  /-- `osMessageQueueGet` finds none. -/
  | timeout (tick : Nat)
  | packet (p : Taken)

/-- Where the thread is. -/
inductive Pc
  /-- At the head of the loop. -/
  | loop
  /-- In `osMessageQueueGet`, after a request. -/
  | receiving (startTime rcvTimeout : Nat)
  | finished
  deriving DecidableEq

/-- A run.  `now` is the last tick the thread read; a reply is counted with the sequence number of its
request. -/
structure Run where
  pc : Pc
  now : Nat
  pingNum : Nat
  seqno : UInt16
  tally : Tally (UInt16 × Taken)

/-- After `init_ping_ipv4`. -/
def start (pingNum tick : Nat) : Run where
  pc := .loop
  now := tick
  pingNum := pingNum
  seqno := (tickCount tick).toUInt16
  tally := .zero

/-- What the check of a packet finds. -/
def Args.echo (a : Args) (seqno : UInt16) (p : Taken) : Echo where
  gPingStop := p.gPingStop
  localIp := p.localIp
  host := a.host
  identifier := 0
  seqno := seqno
  dataLen := a.dataLen

/-- The packet is taken for the reply. -/
def Matches (a : Args) (seqno : UInt16) (p : Taken) : Prop :=
  Accepts (a.echo seqno p) (recvFromPsDirectly p.heap p.data) p.len

instance (e : Echo) (recvData : Buf) (recvLen : Nat) : Decidable (Accepts e recvData recvLen) :=
  inferInstanceAs (Decidable (_ ∧ _))

instance (a : Args) (seqno : UInt16) (p : Taken) : Decidable (Matches a seqno p) :=
  inferInstanceAs (Decidable (Accepts ..))

/-- `rcv_timeout` after a packet that is not the reply. -/
def nextTimeout (a : Args) (startTime endTime rcvTimeout : Nat) : Nat :=
  if tickCount endTime - tickCount startTime < UInt32.ofNat a.timeoutMs then
    a.timeoutMs - (tickCount endTime - tickCount startTime).toNat
  else rcvTimeout

/-- The end of a round. -/
def Run.endRound (s : Run) : Run :=
  if s.pingNum = 0 then { s with pc := .finished }
  else { s with pc := .loop, seqno := s.seqno + 1 }

/-- The reply is counted. -/
def Run.count (s : Run) (startTime : Nat) (p : Taken) : Run :=
  { s with now := p.tick, tally := s.tally.count startTime p.arrived p.tick (s.seqno, p) }

/-- The head of the loop, and the request. -/
def Run.request (a : Args) (s : Run) (g : Sending) : Run :=
  if g.gPingStop = true ∨ s.pingNum = 0 then { s with pc := .finished }
  else if g.stoppedOutOfService = true ∨ g.hasLocalIp = false then
    { s with pc := .finished, pingNum := s.pingNum - 1 }
  else
    { s with
      pc := .receiving g.tick a.timeoutMs
      now := g.tick
      pingNum := s.pingNum - 1
      tally := s.tally.send }

/-- A packet is taken. -/
def Run.packet (a : Args) (s : Run) (startTime rcvTimeout : Nat) (p : Taken) : Run :=
  if Matches a s.seqno p then (s.count startTime p).endRound
  else
    { s with
      now := p.tick
      pc := .receiving startTime (nextTimeout a startTime p.tick rcvTimeout) }

/-- The thread goes on with an event; an event that cannot come stops the run.  Ticks do not go
back, `osMessageQueueGet` gives up no earlier than after `rcv_timeout`, and it returns no packet put
after that. -/
def step (a : Args) (e : Event) : EStateM Unit Run Unit := fun s =>
  match s.pc, e with
  | .loop, .sending g => if s.now ≤ g.tick then .ok () (s.request a g) else .error () s
  | .receiving _ _, .noLocalIp => .ok () s.endRound
  | .receiving _ rcvTimeout, .timeout tick =>
      if s.now + rcvTimeout ≤ tick then .ok () { s with now := tick }.endRound else .error () s
  | .receiving startTime rcvTimeout, .packet p =>
      if s.now ≤ p.tick ∧ p.arrived ≤ p.tick ∧ p.arrived ≤ s.now + rcvTimeout then
        .ok () (s.packet a startTime rcvTimeout p)
      else .error () s
  | _, _ => .error () s

/-! ### The statistics -/

/-- The packet counted is the reply to the request, and was put within the timeout after it. -/
def Answers (a : Args) (c : Counted (UInt16 × Taken)) : Prop :=
  Matches a c.reply.1 c.reply.2 ∧ c.arrived = c.reply.2.arrived ∧ c.startTime ≤ c.arrived ∧
    c.arrived ≤ c.startTime + a.timeoutMs

/-- The statistics are those of replies that answer their requests. -/
def StatisticsRight (a : Args) (s : Run) : Prop := s.tally.Right (Answers a)

/-- A reply can be counted: it was put after the request, and its round-trip time fits. -/
structure Countable (s : Run) (startTime : Nat) (p : Taken) : Prop where
  after : startTime ≤ p.arrived
  fits : Fits s.tally.roundTrips (p.tick - startTime)

/-- What the statistics need of a step: the number of requests fits, replies can be counted, and
another packet is taken only while the timeout has not passed. -/
def Orderly (a : Args) (s : Run) (e : Event) : Prop :=
  match s.pc, e with
  | .loop, .sending _ => s.tally.sent + 1 < 2 ^ 31
  | .receiving startTime _, .packet p =>
      if Matches a s.seqno p then Countable s startTime p else p.tick < startTime + a.timeoutMs
  | _, _ => True

/-! ### One step -/

/-- What holds between two steps.  While a reply is waited for, its request has none, and the wait
ends with the timeout. -/
structure Inv (a : Args) (s : Run) : Prop where
  tally : s.tally.Inv (Answers a)
  waiting : ∀ startTime rcvTimeout, s.pc = .receiving startTime rcvTimeout →
    s.tally.Unanswered ∧ startTime ≤ s.now ∧ s.now + rcvTimeout ≤ startTime + a.timeoutMs

variable {a : Args} {s : Run}

theorem Countable.orderly {startTime rcvTimeout : Nat} {p : Taken} (h : Countable s startTime p)
    (hpc : s.pc = .receiving startTime rcvTimeout) (hmatch : Matches a s.seqno p) :
    Orderly a s (.packet p) := by
  unfold Orderly
  simp only [hpc, if_pos hmatch]
  exact h

theorem inv_start (pingNum tick : Nat) : Inv a (start pingNum tick) :=
  ⟨Tally.Inv.zero, fun _ _ h => Pc.noConfusion h⟩

theorem endRound_not_waiting (s : Run) (startTime rcvTimeout : Nat) :
    s.endRound.pc ≠ .receiving startTime rcvTimeout := by
  unfold Run.endRound
  split_ifs <;> exact fun h => Pc.noConfusion h

@[simp] theorem endRound_tally (s : Run) : s.endRound.tally = s.tally := by
  unfold Run.endRound
  split_ifs <;> rfl

/-- A round ends. -/
theorem inv_endRound (h : s.tally.Inv (Answers a)) : Inv a s.endRound :=
  ⟨by rw [endRound_tally]; exact h, fun _ _ hno => absurd hno (endRound_not_waiting _ _ _)⟩

theorem Inv.request (h : Inv a s) (g : Sending) (hnum : s.tally.sent + 1 < 2 ^ 31) :
    Inv a (s.request a g) := by
  unfold Run.request
  split_ifs with hstop hdrop
  · exact ⟨h.tally, fun _ _ hno => Pc.noConfusion hno⟩
  · exact ⟨h.tally, fun _ _ hno => Pc.noConfusion hno⟩
  · obtain ⟨htally, hopen⟩ := h.tally.send hnum
    refine ⟨htally, ?_⟩
    rintro startTime rcvTimeout ⟨⟩
    exact ⟨hopen, le_rfl, le_rfl⟩

/-- Before the timeout has passed, `rcv_timeout` is what is left of it. -/
theorem nextTimeout_eq {startTime endTime rcvTimeout : Nat} (hle : startTime ≤ endTime)
    (hlt : endTime < startTime + a.timeoutMs) :
    nextTimeout a startTime endTime rcvTimeout = a.timeoutMs - (endTime - startTime) := by
  -- the timeout is a byte of seconds, so the milliseconds fit
  have hmax : a.timeoutMs < 2 ^ 32 := by
    have hbyte := a.timeout.toNat_lt
    unfold Args.timeoutMs
    omega
  have helapsed := toNat_tickCount_sub hle (by omega)
  unfold nextTimeout
  rw [if_pos, helapsed]
  rw [UInt32.lt_iff_toNat_lt, helapsed, UInt32.toNat_ofNat', Nat.mod_eq_of_lt hmax]
  omega

/-- A reply is counted in time. -/
theorem Inv.count (h : Inv a s) {startTime rcvTimeout : Nat} {p : Taken}
    (hpc : s.pc = .receiving startTime rcvTimeout) (hmatch : Matches a s.seqno p)
    (hnow : s.now ≤ p.tick) (harrived : p.arrived ≤ s.now + rcvTimeout)
    (hok : Countable s startTime p) : Inv a (s.count startTime p).endRound := by
  obtain ⟨hopen, hstart, hdeadline⟩ := h.waiting _ _ hpc
  exact inv_endRound (h.tally.count hopen ⟨hmatch, rfl, hok.after, harrived.trans hdeadline⟩
    (hstart.trans hnow) hok.fits)

/-- Another packet leaves the end of the wait where it is. -/
theorem Inv.wait (h : Inv a s) {startTime rcvTimeout : Nat} {p : Taken}
    (hpc : s.pc = .receiving startTime rcvTimeout) (hnow : s.now ≤ p.tick)
    (hok : p.tick < startTime + a.timeoutMs) :
    Inv a { s with
      now := p.tick
      pc := .receiving startTime (nextTimeout a startTime p.tick rcvTimeout) } := by
  obtain ⟨hopen, hstart, -⟩ := h.waiting _ _ hpc
  refine ⟨h.tally, ?_⟩
  rintro _ _ ⟨⟩
  refine ⟨hopen, hstart.trans hnow, ?_⟩
  show p.tick + nextTimeout a startTime p.tick rcvTimeout ≤ _
  rw [nextTimeout_eq (hstart.trans hnow) hok]
  omega

/-- **One step.** -/
theorem Inv.step (h : Inv a s) {e : Event} {s' : Run} {o : Unit} (hok : Orderly a s e)
    (hstep : step a e s = .ok o s') : Inv a s' := by
  unfold Ping4.step at hstep
  unfold Orderly at hok
  split at hstep
  next g hpc =>
    simp only [hpc] at hok
    split_ifs at hstep
    cases hstep
    exact h.request g hok
  next startTime rcvTimeout hpc =>
    cases hstep
    exact inv_endRound h.tally
  next startTime rcvTimeout tick hpc =>
    split_ifs at hstep
    cases hstep
    exact inv_endRound h.tally
  next startTime rcvTimeout p hpc =>
    simp only [hpc] at hok
    split_ifs at hstep with hpossible
    cases hstep
    unfold Run.packet
    -- a reply ends the round, and any other packet shortens the wait
    split_ifs at hok ⊢ with hmatch
    · exact h.count hpc hmatch hpossible.1 hpossible.2.2 hok
    · exact h.wait hpc hpossible.1 hok
  next => cases hstep

/-- **A run of ping.**  In every run of orderly steps the statistics are right. -/
theorem pingIpv4_right (a : Args) (pingNum tick : Nat) {es : List Event} {os : List Unit} {s : Run}
    (hok : Along (step a) (Orderly a) es (start pingNum tick))
    (hrun : es.mapM (step a) (start pingNum tick) = .ok os s) : StatisticsRight a s :=
  (mapM_invariant (Inv a) (fun _ _ _ _ h hok hstep => h.step hok hstep) (inv_start pingNum tick) hok
    hrun).tally.right

/-- A ping of 1.2.3.4 without data, with a timeout of one second. -/
def shortPing : Args := ⟨0x04030201, 0, 1⟩

/-- A packet from the address 10.0.0.1. -/
def taken (arrived tick : Nat) (bytes : List UInt8) : Taken where
  arrived := arrived
  tick := tick
  data i := bytes.getD i 0
  len := bytes.length
  heap _ := 0
  gPingStop := false
  localIp := some 0x0100000A

/-- The reply to the request with a sequence number. -/
def echoReply (seqno : UInt8) : List UInt8 :=
  [0x45, 0, 0, 28, 0, 0, 0, 0, 64, 1, 0, 0, 1, 2, 3, 4, 10, 0, 0, 1, 0, 0, 0, 0, 0, 0, 0, seqno]

/-- A request goes out at a tick. -/
def sendAt (tick : Nat) : Event := .sending ⟨false, false, true, tick⟩

/-- Two requests, with replies after 30 ticks and after 20. -/
def promptRun : List Event :=
  [sendAt 0, .packet (taken 30 30 (echoReply 0)),
    sendAt 1000, .packet (taken 1018 1020 (echoReply 1))]

theorem pingIpv4_right_prompt : ∃ os s, promptRun.mapM (step shortPing) (start 2 0) = .ok os s ∧
    s.tally.stats.info = ⟨2, 2, 30, 20, 25⟩ ∧ StatisticsRight shortPing s := by
  have hmatch : Matches shortPing 0 (taken 30 30 (echoReply 0)) := by decide
  have hmatch' : Matches shortPing 1 (taken 1018 1020 (echoReply 1)) := by decide
  have hreplies : returnsIn (fun s => s.tally.stats.info = ⟨2, 2, 30, 20, 25⟩)
      (promptRun.mapM (step shortPing) (start 2 0)) = true := by decide
  obtain ⟨os, s, hrun, hinfo⟩ := exists_of_returnsIn hreplies
  have hok : Along (step shortPing) (Orderly shortPing) promptRun (start 2 0) := by
    refine Along.cons ?_ rfl (Along.cons ?_ rfl (Along.cons ?_ rfl ⟨?_, fun _ _ _ => trivial⟩))
    · show 0 + 1 < 2 ^ 31
      decide
    · exact Countable.orderly ⟨by decide, by decide, by decide, by decide⟩ rfl hmatch
    · show 1 + 1 < 2 ^ 31
      decide
    · exact Countable.orderly ⟨by decide, by decide, by decide, by decide⟩ rfl hmatch'
  exact ⟨os, s, hrun, of_decide_eq_true hinfo, pingIpv4_right shortPing 2 0 hok hrun⟩

/-- Another packet is put before the timeout ends and taken as it does, and the reply comes half a
second later. -/
def lateRun : List Event :=
  [sendAt 0, .packet (taken 999 1000 []), .packet (taken 1500 1500 (echoReply 0))]

/-- The late reply is counted. -/
theorem not_statisticsRight_late : ¬ ∀ (a : Args) (pingNum tick : Nat) (es : List Event)
    (os : List Unit) (s : Run), es.mapM (step a) (start pingNum tick) = .ok os s →
      StatisticsRight a s := by
  intro h
  have hlate : returnsIn (fun s => s.tally.counted.any fun c => c.startTime + 1000 < c.arrived)
      (lateRun.mapM (step shortPing) (start 1 0)) = true := by decide
  obtain ⟨os, s, hrun, hany⟩ := exists_of_returnsIn hlate
  obtain ⟨c, hc, hlt⟩ := List.any_eq_true.mp hany
  have hin := ((h shortPing 1 0 lateRun os s hrun).answers c hc).2.2.2
  exact absurd hin (Nat.not_le_of_lt (of_decide_eq_true hlt))

end XY1100.Ping4
