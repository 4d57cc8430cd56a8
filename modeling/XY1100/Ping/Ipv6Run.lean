import XY1100.Lwip.ResumeMatch
import XY1100.Ping.Statistics
import XY1100.Support.Calls

/-!
# Ping — a run of `_ping_ipv6`

After each echo request the thread waits in `select` for a packet at its raw socket, takes one, and
counts the reply when the byte at the place of the type says so.  It looks neither at the identifier
nor at the sequence number, nor at how much it received.

* `pingIpv6_right`: in every run in which each packet taken reaches the type, and each echo reply
  taken is a whole one to the request, put after it, and the numbers fit, the replies counted are
  those of their requests and the statistics are right in every state.
-/

namespace XY1100.Ping6
open Support Ping
open Resume (portAt)

/-! ### The code -/

/-- `IP6_HLEN`. -/
def ip6Hlen : Nat := 40

/-- The size of `struct icmp6_echo_hdr`. -/
def icmp6EchoHdrLen : Nat := 8

/-- `ICMP6_TYPE_EREP`. -/
def icmp6TypeErep : UInt8 := 129

/-- The arguments of `_ping_ipv6` that a run depends on, and `echo_id`. -/
structure Args where
  dataLen : UInt16
  timeout : UInt8
  echoId : UInt16

/-- The wait in `select`. -/
def Args.timeoutMs (a : Args) : Nat := a.timeout.toNat * 1000

/-- The size of `recv_data`. -/
def Args.recvLen (a : Args) : Nat := ip6Hlen + a.dataLen.toNat + icmp6EchoHdrLen

/-- A packet as it is taken from the socket: when it was delivered, when the thread reads the tick
after it, its bytes, and whether its `sin6_port` is that of ICMPv6. -/
structure Received where
  arrived : Nat
  tick : Nat
  data : Buf
  len : Nat
  isIcmpv6 : Bool

/-- What the loop finds before it sends a request. -/
structure Sending where
  gPingStop : Bool
  /-- `sendto2` fails. -/
  fails : Bool
  tick : Nat

/-- What the thread meets next. -/
inductive Event
  | sending (g : Sending)
  /-- `select` finds none. -/
  | timeout (tick : Nat)
  | packet (p : Received)

/-- Where the thread is. -/
inductive Pc
  /-- At the head of the loop. -/
  | loop
  /-- In `select`, after a request with a sequence number. -/
  | receiving (startTime : Nat) (seqNo : UInt8)
  | finished
  deriving DecidableEq

/-- A run.  `now` is the last tick the thread read, `headerReads` are the places of the ICMPv6 header
read so far, with the number of bytes received; a reply is counted with the sequence number of its
request. -/
structure Run where
  pc : Pc
  now : Nat
  pingNum : Nat
  seqNo : UInt8
  recvData : Buf
  tally : Tally (UInt8 × Received)
  headerReads : List (Nat × Nat)

/-- Before the loop. -/
def start (pingNum tick : Nat) : Run where
  pc := .loop
  now := tick
  pingNum := pingNum
  seqNo := 1
  recvData _ := 0
  tally := .zero
  headerReads := []

/-- What `recvfrom` returns. -/
def Received.ret (a : Args) (p : Received) : Nat := min p.len a.recvLen

/-- `recv_data` after `recvfrom`, which leaves what it does not receive. -/
def recvfrom (a : Args) (recvData : Buf) (p : Received) : Buf :=
  fun i => if i < p.ret a then p.data i else recvData i

/-- The head of the loop, and the request. -/
def Run.request (s : Run) (g : Sending) : Run :=
  if s.pingNum = 0 ∨ g.gPingStop = true then { s with pc := .finished }
  else if g.fails = true then { s with pingNum := s.pingNum - 1, now := g.tick }
  else
    { s with
      pc := .receiving g.tick s.seqNo
      now := g.tick
      pingNum := s.pingNum - 1
      seqNo := s.seqNo + 1
      tally := s.tally.send }

/-- A packet is taken.  The type is looked at, and of an echo reply the identifier is printed. -/
def Run.packet (a : Args) (s : Run) (startTime : Nat) (seqNo : UInt8) (p : Received) : Run :=
  let ret := p.ret a
  let recvData := recvfrom a s.recvData p
  if 0 < ret ∧ p.isIcmpv6 = true then
    if recvData ip6Hlen = icmp6TypeErep then
      { s with
        pc := .loop
        now := p.tick
        recvData := recvData
        tally := s.tally.count startTime p.arrived p.tick (seqNo, p)
        headerReads := [(ip6Hlen, ret), (ip6Hlen + 4, ret), (ip6Hlen + 5, ret)] ++ s.headerReads }
    else
      { s with
        pc := .loop
        now := p.tick
        recvData := recvData
        headerReads := (ip6Hlen, ret) :: s.headerReads }
  else { s with pc := .loop, now := p.tick, recvData := recvData }

/-- The thread goes on with an event; an event that cannot come stops the run.  Ticks do not go
back, `select` gives up no earlier than after the timeout, and it waits for no packet longer. -/
def step (a : Args) (e : Event) : EStateM Unit Run Unit := fun s =>
  match s.pc, e with
  | .loop, .sending g => if s.now ≤ g.tick then .ok () (s.request g) else .error () s
  | .receiving _ _, .timeout tick =>
      if s.now + a.timeoutMs ≤ tick then .ok () { s with pc := .loop, now := tick }
      else .error () s
  | .receiving startTime seqNo, .packet p =>
      if s.now ≤ p.tick ∧ p.arrived ≤ p.tick ∧ p.arrived ≤ s.now + a.timeoutMs then
        .ok () (s.packet a startTime seqNo p)
      else .error () s
  | _, _ => .error () s

/-! ### The replies -/

/-- An echo reply, received whole, with the identifier of the run and a sequence number. -/
structure IsReply (a : Args) (seqNo : UInt8) (p : Received) : Prop where
  whole : ip6Hlen + icmp6EchoHdrLen ≤ p.ret a
  type : p.data ip6Hlen = icmp6TypeErep
  identifier : portAt p.data (ip6Hlen + 4) = a.echoId
  seqno : portAt p.data (ip6Hlen + 6) = seqNo.toUInt16

/-- The packet counted is the reply to the request, and was delivered within the timeout after it. -/
def Answers (a : Args) (c : Counted (UInt8 × Received)) : Prop :=
  IsReply a c.reply.1 c.reply.2 ∧ c.arrived = c.reply.2.arrived ∧ c.startTime ≤ c.arrived ∧
    c.arrived ≤ c.startTime + a.timeoutMs

/-- Only the replies to their requests are counted, with the right statistics, and the ICMPv6 header
is read only from bytes received. -/
structure RepliesRight (a : Args) (s : Run) : Prop where
  tally : s.tally.Right (Answers a)
  inside : ∀ r ∈ s.headerReads, r.1 < r.2

/-- A packet reaches the type; and if it is an echo reply, it is that to the request, delivered after
it, and its round-trip time fits. -/
structure Countable (a : Args) (s : Run) (startTime : Nat) (seqNo : UInt8) (p : Received) : Prop where
  reached : ip6Hlen < p.ret a
  reply : p.data ip6Hlen = icmp6TypeErep → IsReply a seqNo p
  after : p.data ip6Hlen = icmp6TypeErep → startTime ≤ p.arrived
  fits : p.data ip6Hlen = icmp6TypeErep → Fits s.tally.roundTrips (p.tick - startTime)

/-- What the replies need of a step. -/
def Orderly (a : Args) (s : Run) (e : Event) : Prop :=
  match s.pc, e with
  | .loop, .sending _ => s.tally.sent + 1 < 2 ^ 31
  | .receiving startTime seqNo, .packet p =>
      0 < p.ret a → p.isIcmpv6 = true → Countable a s startTime seqNo p
  | _, _ => True

/-! ### One step -/

/-- What holds between two steps.  While a reply is waited for, its request has none, and the wait
began with it. -/
structure Inv (a : Args) (s : Run) : Prop where
  tally : s.tally.Inv (Answers a)
  inside : ∀ r ∈ s.headerReads, r.1 < r.2
  waiting : ∀ startTime seqNo, s.pc = .receiving startTime seqNo →
    s.tally.Unanswered ∧ startTime = s.now

variable {a : Args} {s : Run}

theorem inv_start (pingNum tick : Nat) : Inv a (start pingNum tick) where
  tally := Tally.Inv.zero
  inside _ hno := absurd hno List.not_mem_nil
  waiting _ _ h := Pc.noConfusion h

theorem Inv.request (h : Inv a s) (hloop : s.pc = .loop) (g : Sending)
    (hnum : s.tally.sent + 1 < 2 ^ 31) : Inv a (s.request g) := by
  unfold Run.request
  split_ifs with hstop hfails
  · exact ⟨h.tally, h.inside, fun _ _ hno => Pc.noConfusion hno⟩
  · exact ⟨h.tally, h.inside, fun _ _ hno => Pc.noConfusion (hloop.symm.trans hno)⟩
  · obtain ⟨htally, hopen⟩ := h.tally.send hnum
    refine ⟨htally, h.inside, ?_⟩
    rintro startTime seqNo ⟨⟩
    exact ⟨hopen, rfl⟩

/-- A packet is taken in time. -/
theorem Inv.packet (h : Inv a s) {startTime : Nat} {seqNo : UInt8} {p : Received}
    (hpc : s.pc = .receiving startTime seqNo) (hnow : s.now ≤ p.tick)
    (harrived : p.arrived ≤ s.now + a.timeoutMs)
    (hok : 0 < p.ret a → p.isIcmpv6 = true → Countable a s startTime seqNo p) :
    Inv a (s.packet a startTime seqNo p) := by
  obtain ⟨hopen, rfl⟩ := h.waiting _ _ hpc
  unfold Run.packet
  dsimp only
  split_ifs with hicmp htype
  · obtain ⟨hreached, hreply, hafter, hfits⟩ := hok hicmp.1 hicmp.2
    -- the type was received in this packet and is not left from an earlier one
    have hbyte : recvfrom a s.recvData p ip6Hlen = p.data ip6Hlen := if_pos hreached
    rw [hbyte] at htype
    have hwhole := (hreply htype).whole
    refine ⟨h.tally.count hopen ⟨hreply htype, rfl, hafter htype, harrived⟩ hnow (hfits htype), ?_,
      fun _ _ hno => Pc.noConfusion hno⟩
    simp only [List.forall_mem_append, List.forall_mem_cons]
    unfold icmp6EchoHdrLen at hwhole
    exact ⟨⟨hreached, by omega, by omega, fun _ hno => absurd hno List.not_mem_nil⟩, h.inside⟩
  · have hreached := (hok hicmp.1 hicmp.2).reached
    exact ⟨h.tally, List.forall_mem_cons.mpr ⟨hreached, h.inside⟩,
      fun _ _ hno => Pc.noConfusion hno⟩
  · exact ⟨h.tally, h.inside, fun _ _ hno => Pc.noConfusion hno⟩

/-- **One step.** -/
theorem Inv.step (h : Inv a s) {e : Event} {s' : Run} {o : Unit} (hok : Orderly a s e)
    (hstep : step a e s = .ok o s') : Inv a s' := by
  unfold Ping6.step at hstep
  unfold Orderly at hok
  split at hstep
  next g hpc =>
    simp only [hpc] at hok
    split_ifs at hstep
    cases hstep
    exact h.request hpc g hok
  next startTime seqNo tick hpc =>
    split_ifs at hstep
    cases hstep
    exact ⟨h.tally, h.inside, fun _ _ hno => Pc.noConfusion hno⟩
  next startTime seqNo p hpc =>
    simp only [hpc] at hok
    split_ifs at hstep with hpossible
    cases hstep
    exact h.packet hpc hpossible.1 hpossible.2.2 hok
  next => cases hstep

/-- **A run of ping.**  In every run of orderly steps only replies to their requests are counted. -/
theorem pingIpv6_right (a : Args) (pingNum tick : Nat) {es : List Event} {os : List Unit} {s : Run}
    (hok : Along (step a) (Orderly a) es (start pingNum tick))
    (hrun : es.mapM (step a) (start pingNum tick) = .ok os s) : RepliesRight a s := by
  have hinv := mapM_invariant (Inv a) (fun _ _ _ _ h hok hstep => h.step hok hstep)
    (inv_start pingNum tick) hok hrun
  exact ⟨hinv.tally.right, hinv.inside⟩

/-- A ping without data, with a timeout of one second and the identifier 1. -/
def shortPing : Args := ⟨0, 1, 1⟩

/-- An echo reply of 48 bytes with an identifier and a sequence number, delivered and read at two
ticks. -/
def echoReply (id seqNo : UInt8) (arrived tick : Nat) : Received where
  arrived := arrived
  tick := tick
  data i := if i = 40 then icmp6TypeErep else if i = 45 then id else if i = 47 then seqNo else 0
  len := 48
  isIcmpv6 := true

/-- A request goes out at a tick. -/
def sendAt (tick : Nat) : Event := .sending ⟨false, false, tick⟩

/-- Two requests, with replies after 30 ticks and after 20. -/
def promptRun : List Event :=
  [sendAt 0, .packet (echoReply 1 1 30 30), sendAt 1000, .packet (echoReply 1 2 1018 1020)]

theorem pingIpv6_right_prompt : ∃ os s, promptRun.mapM (step shortPing) (start 2 0) = .ok os s ∧
    s.tally.stats.info = ⟨2, 2, 30, 20, 25⟩ ∧ RepliesRight shortPing s := by
  have hreplies : returnsIn (fun s => s.tally.stats.info = ⟨2, 2, 30, 20, 25⟩)
      (promptRun.mapM (step shortPing) (start 2 0)) = true := by decide
  obtain ⟨os, s, hrun, hinfo⟩ := exists_of_returnsIn hreplies
  have hreply : IsReply shortPing 1 (echoReply 1 1 30 30) :=
    ⟨by decide, by decide, by decide, by decide⟩
  have hreply' : IsReply shortPing 2 (echoReply 1 2 1018 1020) :=
    ⟨by decide, by decide, by decide, by decide⟩
  have hok : Along (step shortPing) (Orderly shortPing) promptRun (start 2 0) := by
    refine Along.cons ?_ rfl (Along.cons ?_ rfl (Along.cons ?_ rfl ⟨?_, fun _ _ _ => trivial⟩))
    · show 0 + 1 < 2 ^ 31
      decide
    · intro _ _
      exact ⟨by decide, fun _ => hreply, fun _ => by decide,
        fun _ => ⟨by decide, by decide, by decide⟩⟩
    · show 1 + 1 < 2 ^ 31
      decide
    · intro _ _
      exact ⟨by decide, fun _ => hreply', fun _ => by decide,
        fun _ => ⟨by decide, by decide, by decide⟩⟩
  exact ⟨os, s, hrun, of_decide_eq_true hinfo, pingIpv6_right shortPing 2 0 hok hrun⟩

/-- A reply with another identifier is counted. -/
theorem not_repliesRight_foreign : ¬ ∀ (a : Args) (pingNum tick : Nat) (es : List Event)
    (os : List Unit) (s : Run), es.mapM (step a) (start pingNum tick) = .ok os s →
      RepliesRight a s := by
  intro h
  have hforeign : returnsIn (fun s => s.tally.counted.any fun c => portAt c.reply.2.data 44 ≠ 1)
      ([sendAt 0, .packet (echoReply 7 1 30 30)].mapM (step shortPing) (start 1 0)) = true := by decide
  obtain ⟨os, s, hrun, hany⟩ := exists_of_returnsIn hforeign
  obtain ⟨c, hc, hne⟩ := List.any_eq_true.mp hany
  have hid := ((h shortPing 1 0 _ os s hrun).tally.answers c hc).1.identifier
  exact absurd hid (of_decide_eq_true hne)

end XY1100.Ping6
