import Mathlib.Tactic
import XY1100.Support.Calls
import XY1100.Support.MsgQueue
import XY1100.Support.Ownership

/-!
# Lwip — the queue of packets for ping

While `now_in_ping` is set, `send_packet_to_user` hands the packets that arrive to
`send_packet_to_ping`, which puts them into `ping_packet_q` in an element of their own.  The ping
thread makes the queue, takes packets from it, empties it, deletes it, forgets it and clears
`now_in_ping`, in this order, and may do so again in another run.

A step is a section of one of the two threads: one read of a variable they share, or one operation
on the queue.  The packets handed to `send_packet_to_ping` are numbered; an element has the number
of its packet.  `freedData` and `freedElem` are the packets and the elements freed so far.

* `Accounted`: every packet handed over is held by one of the threads or the queue, or freed, and
  its element likewise.
* `packets_kept_iff`: a run frees every packet and element once, and puts nothing into a deleted
  queue, exactly when the downlink thread never goes on to a queue that was forgotten or deleted
  since it looked, and the ping thread never finds a message while it deletes the queue.
-/

namespace XY1100.Ping
open Support

/-- The messages `ping_packet_q` has room for. -/
def pingQueueSize : Nat := 20

/-- Where the downlink thread is. -/
inductive Downlink
  /-- In neither function. -/
  | idle
  /-- `send_packet_to_user` has found `now_in_ping` set. -/
  | sending (n : Nat)
  /-- `send_packet_to_ping` has found `ping_packet_q` not null. -/
  | tested (n : Nat)
  /-- In `osMessageQueuePut`. -/
  | putting (q n : Nat)
  deriving Repr, DecidableEq

/-- Where the ping thread is in `_ping_ipv4`. -/
inductive PingThread
  /-- In no run. -/
  | idle
  /-- `init_ping_ipv4`: emptying a queue that is there. -/
  | clearing
  /-- `init_ping_ipv4`: about to make a queue. -/
  | creating
  /-- `now_in_ping` not yet set. -/
  | created
  /-- In the loop. -/
  | running
  /-- At the end of the run, emptying the queue. -/
  | draining
  /-- The queue was empty. -/
  | drained
  /-- In `xy_queue_Delete`, emptying the queue. -/
  | deleting
  /-- In `xy_queue_Delete`, about to delete the queue. -/
  | removing
  /-- The queue is deleted. -/
  | deleted
  /-- `ping_packet_q` is null. -/
  | cleared
  deriving Repr, DecidableEq

/-- The state of the system. -/
structure Sys where
  nowInPing : Bool
  pingPacketQ : Option Nat
  /-- The queue that exists. -/
  queue : Option (MsgQueue Nat)
  /-- The queues made so far. -/
  queues : Nat
  downlink : Downlink
  ping : PingThread
  /-- The packets handed to `send_packet_to_ping` so far. -/
  handed : Nat
  freedData : List Nat
  freedElem : List Nat

/-- No run so far. -/
def start : Sys where
  nowInPing := false
  pingPacketQ := none
  queue := none
  queues := 0
  downlink := .idle
  ping := .idle
  handed := 0
  freedData := []
  freedElem := []

/-! ### The downlink thread -/

/-- `xy_free` of a packet and of its element. -/
def Sys.free (s : Sys) (n : Nat) : Sys :=
  { s with freedData := n :: s.freedData, freedElem := n :: s.freedElem }

/-- `send_packet_to_user` reads `now_in_ping` for a packet. -/
def packet (s : Sys) : Sys :=
  if s.nowInPing then { s with downlink := .sending s.handed, handed := s.handed + 1 } else s

/-- `osMessageQueuePut` into the queue `q`, which waits for room. -/
def osMessageQueuePut (q n : Nat) : EStateM QueueStop Sys Unit := fun s =>
  match putMsg pingQueueSize s.queue q n with
  | .error stop => .error stop s
  | .ok queue => .ok () { s with queue := some queue, downlink := .idle }

/-- The next section of `send_packet_to_ping`.  `osMessageQueuePut` refuses a null queue, and what
it returns is not looked at. -/
def downlinkNext : Downlink → EStateM QueueStop Sys Unit
  | .idle => fun s => .error .waits s
  | .sending n => fun s =>
      match s.pingPacketQ with
      | none => .ok () { s.free n with downlink := .idle }
      | some _ => .ok () { s with downlink := .tested n }
  | .tested n => fun s =>
      match s.pingPacketQ with
      | none => .ok () { s with downlink := .idle }
      | some q => .ok () { s with downlink := .putting q n }
  | .putting q n => osMessageQueuePut q n

/-! ### The ping thread -/

/-- `osMessageQueueGet` from `ping_packet_q`, and what is done with the message; without a message,
the thread goes on.  A null queue gives none. -/
def osMessageQueueGet (use : Nat → Sys → Sys) (done : PingThread) : EStateM QueueStop Sys Unit :=
  fun s =>
    match s.pingPacketQ with
    | none => .ok () { s with ping := done }
    | some q =>
        match getMsg s.queue q with
        | .error stop => .error stop s
        | .ok none => .ok () { s with ping := done }
        | .ok (some (n, queue)) => .ok () (use n { s with queue := some queue })

/-- `osMessageQueueDelete` of `ping_packet_q`. -/
def osMessageQueueDelete : EStateM QueueStop Sys Unit := fun s =>
  match s.pingPacketQ with
  | none => .error .deletedQueue s
  | some q =>
      match deleteQueue s.queue q with
      | .error stop => .error stop s
      | .ok queue => .ok () { s with queue := queue, ping := .deleted }

/-- `xy_free` of the element only. -/
def Sys.freeElem (s : Sys) (n : Nat) : Sys := { s with freedElem := n :: s.freedElem }

/-- `init_ping_ipv4` makes a queue if there is none. -/
def osMessageQueueNew (s : Sys) : Sys :=
  match s.pingPacketQ with
  | some _ => { s with ping := .created }
  | none => { s with
      pingPacketQ := some s.queues
      queue := some ⟨s.queues, []⟩
      queues := s.queues + 1
      ping := .created }

/-- The next section of the ping thread; in the loop, the way out of it. -/
def pingNext : PingThread → EStateM QueueStop Sys Unit
  | .idle => fun s => .ok () { s with
      ping := if s.pingPacketQ.isSome then .clearing else .creating }
  | .clearing => osMessageQueueGet (fun n s => s.free n) .creating
  | .creating => fun s => .ok () (osMessageQueueNew s)
  | .created => fun s => .ok () { s with nowInPing := true, ping := .running }
  | .running => fun s => .ok () { s with ping := .draining }
  | .draining => osMessageQueueGet (fun n s => s.free n) .drained
  | .drained => fun s => .ok () { s with
      ping := if s.pingPacketQ.isSome then .deleting else .cleared }
  | .deleting => osMessageQueueGet (fun n s => s.freeElem n) .removing
  | .removing => osMessageQueueDelete
  | .deleted => fun s => .ok () { s with pingPacketQ := none, ping := .cleared }
  | .cleared => fun s => .ok () { s with nowInPing := false, ping := .idle }

/-! ### The steps of the system -/

/-- A step of one of the threads. -/
inductive Act
  /-- A packet arrives while the downlink thread is in neither function. -/
  | packet
  /-- The next section of the downlink thread. -/
  | send
  /-- The ping thread goes to the next section, out of the loop if it is in it. -/
  | next
  /-- `recv_from_ps_directly`, in the loop: a message is taken, or none came in time. -/
  | recv
  /-- There is no network: the run ends before `now_in_ping` is set. -/
  | giveUp
  deriving Repr, DecidableEq

/-- A step of the system. -/
def exec (act : Act) : EStateM QueueStop Sys Unit := fun s =>
  match act with
  | .packet => if s.downlink = .idle then .ok () (packet s) else .error .waits s
  | .send => downlinkNext s.downlink s
  | .next => pingNext s.ping s
  | .recv =>
      if s.ping = .running then osMessageQueueGet (fun n s => s.free n) .running s
      else .error .waits s
  | .giveUp =>
      if s.ping = .created then .ok () { s with ping := .draining } else .error .waits s

/-! ### What the runs are to keep -/

/-- The packet the downlink thread has in hand. -/
def Downlink.held : Downlink → List Nat
  | .idle => []
  | .sending n | .tested n | .putting _ n => [n]

/-- The packets that are in hand or in the queue. -/
def Sys.held (s : Sys) : List Nat := s.downlink.held ++ messages s.queue

/-- Every packet handed over is held or was freed once, and so is its element. -/
structure Sys.Accounted (s : Sys) : Prop where
  data : Support.Accounted s.held s.freedData s.handed
  elem : Support.Accounted s.held s.freedElem s.handed

/-- The step uses no queue that does not exist, and loses no packet and no element. -/
structure KeepsPackets (s : Sys) (act : Act) : Prop where
  exists_ : ∀ s', exec act s ≠ .error .deletedQueue s'
  accounted : ∀ s', exec act s = .ok () s' → s'.Accounted

/-- The downlink thread goes on to a queue that has been forgotten or deleted since it looked, or
the ping thread deletes the queue with a message in it. -/
def Races (s : Sys) (act : Act) : Prop :=
  match act with
  | .send =>
      match s.downlink with
      | .tested _ => s.pingPacketQ = none
      | .putting q _ => s.pingPacketQ ≠ some q ∨ s.ping = .deleted
      | .idle | .sending _ => False
  | .next => (s.ping = .deleting ∨ s.ping = .removing) ∧ messages s.queue ≠ []
  | .packet | .recv | .giveUp => False

/-! ### The invariant -/

/-- The queue exists, and `ping_packet_q` is its handle, as long as the ping thread needs it. -/
def Opened (pingPacketQ : Option Nat) (queue : Option (MsgQueue Nat)) : PingThread → Prop
  | .idle | .creating | .cleared => pingPacketQ = none ∧ queue = none
  | .clearing => False
  | .created | .running | .draining | .drained | .deleting | .removing =>
      ∃ q msgs, pingPacketQ = some q ∧ queue = some ⟨q, msgs⟩
  | .deleted => queue = none

/-- The packets are accounted for, and the queue exists while it is used. -/
structure Inv (s : Sys) : Prop where
  accounted : s.Accounted
  opened : Opened s.pingPacketQ s.queue s.ping

variable {s s' : Sys}

/-- The queue of a handle exists until the ping thread deletes it. -/
theorem Inv.not_exists_iff (hi : Inv s) (q : Nat) :
    ¬ Support.Exists s.queue q ↔ s.pingPacketQ ≠ some q ∨ s.ping = .deleted := by
  have hopen := hi.opened
  rw [Support.Exists]
  cases hp : s.ping <;> rw [hp] at hopen <;> simp only [Opened] at hopen
  case idle | creating | cleared => simp [hopen.1, hopen.2]
  case deleted => simp [hopen]
  case created | running | draining | drained | deleting | removing =>
    obtain ⟨q', msgs, hq, hqueue⟩ := hopen
    simp [hq, hqueue]

theorem inv_start : Inv start := ⟨⟨accounted_nil, accounted_nil⟩, rfl, rfl⟩

/-- The packets held change hands. -/
theorem Sys.Accounted.pass (h : s.Accounted) (hheld : s'.held.Perm s.held)
    (hn : s'.handed = s.handed) (hd : s'.freedData = s.freedData)
    (he : s'.freedElem = s.freedElem) : s'.Accounted :=
  ⟨by rw [hn, hd]; exact h.data.pass hheld, by rw [hn, he]; exact h.elem.pass hheld⟩

/-- A packet that was held is freed with its element. -/
theorem Sys.Accounted.free (h : s.Accounted) {n : Nat} (hheld : s.held.Perm (n :: s'.held))
    (hn : s'.handed = s.handed) (hd : s'.freedData = n :: s.freedData)
    (he : s'.freedElem = n :: s.freedElem) : s'.Accounted :=
  ⟨by rw [hn, hd]; exact h.data.free hheld, by rw [hn, he]; exact h.elem.free hheld⟩

/-- A packet that is held no more, and was not freed, is lost. -/
theorem Sys.Accounted.not_of_lost (h : s.Accounted) (hlt : s'.held.length < s.held.length)
    (hn : s'.handed = s.handed) (hd : s'.freedData = s.freedData) : ¬ s'.Accounted := by
  intro h'
  have hdata := h'.data
  rw [hn, hd] at hdata
  exact h.data.not_of_lost hlt hdata

/-- A step keeps the invariant, or does not come to its end because it has to wait. -/
def Keeps : EStateM.Result QueueStop Sys Unit → Prop
  | .ok _ s => Inv s
  | .error .waits _ => True
  | .error .deletedQueue _ => False

/-! ### The steps of the downlink thread -/

theorem Inv.packet (hi : Inv s) (hidle : s.downlink = .idle) : Inv (packet s) := by
  unfold Ping.packet
  split_ifs with hping
  · have hheld : s.held = messages s.queue := by rw [Sys.held, hidle]; rfl
    have hnew : (Sys.held { s with downlink := .sending s.handed }).Perm (s.handed :: s.held) := by
      rw [hheld]
      exact .refl _
    exact ⟨⟨hi.accounted.data.alloc hnew, hi.accounted.elem.alloc hnew⟩, hi.opened⟩
  · exact hi

theorem Inv.sending {n : Nat} (hi : Inv s) (hd : s.downlink = .sending n) :
    Keeps (downlinkNext (.sending n) s) := by
  have hheld : s.held = n :: messages s.queue := by rw [Sys.held, hd]; rfl
  have hopen := hi.opened
  cases hq : s.pingPacketQ with
  | none =>
    simp only [downlinkNext, hq]
    exact ⟨hi.accounted.free (by rw [hheld]; exact .refl _) rfl rfl rfl, hopen⟩
  | some q =>
    rw [hq] at hopen
    simp only [downlinkNext, hq]
    exact ⟨hi.accounted.pass (by rw [hheld]; exact .refl _) rfl rfl rfl, hopen⟩

theorem Inv.tested {n : Nat} (hi : Inv s) (hd : s.downlink = .tested n)
    (hq : s.pingPacketQ ≠ none) : Keeps (downlinkNext (.tested n) s) := by
  have hheld : s.held = n :: messages s.queue := by rw [Sys.held, hd]; rfl
  have hopen := hi.opened
  obtain ⟨q, hq'⟩ := Option.ne_none_iff_exists'.mp hq
  rw [hq'] at hopen
  simp only [downlinkNext, hq']
  exact ⟨hi.accounted.pass (by rw [hheld]; exact .refl _) rfl rfl rfl, hopen⟩

theorem Inv.putting {q n : Nat} {msgs : List Nat} (hi : Inv s) (hd : s.downlink = .putting q n)
    (hq : s.queue = some ⟨q, msgs⟩) : Keeps (downlinkNext (.putting q n) s) := by
  have hmsgs : messages s.queue = msgs := by rw [hq]; rfl
  have hheld : s.held = n :: msgs := by rw [Sys.held, hd, hmsgs]; rfl
  simp only [downlinkNext, osMessageQueuePut, hq, putMsg_some]
  split_ifs
  · refine ⟨hi.accounted.pass ?_ rfl rfl rfl, ?_⟩
    · rw [hheld]
      exact List.perm_append_singleton n msgs
    · -- the ping thread is where there is a queue
      have hopen := hi.opened
      rw [hq] at hopen
      cases hping : s.ping <;> rw [hping] at hopen
      case created | running | draining | drained | deleting | removing =>
        obtain ⟨q', msgs', hq', heq⟩ := hopen
        cases heq
        exact ⟨q, _, hq', rfl⟩
      case clearing => exact hopen
      case deleted => cases hopen
      case idle | creating | cleared => cases hopen.2
  · trivial

/-! ### The steps of the ping thread -/

theorem osMessageQueueGet_nil {q : Nat} {use : Nat → Sys → Sys} {done : PingThread}
    (hq : s.pingPacketQ = some q) (hqueue : s.queue = some ⟨q, []⟩) :
    osMessageQueueGet use done s = .ok () { s with ping := done } := by
  obtain ⟨⟩ := s
  cases hq
  cases hqueue
  simp only [osMessageQueueGet, getMsg_nil]

theorem osMessageQueueGet_cons {q n : Nat} {msgs : List Nat} {use : Nat → Sys → Sys}
    {done : PingThread} (hq : s.pingPacketQ = some q) (hqueue : s.queue = some ⟨q, n :: msgs⟩) :
    osMessageQueueGet use done s = .ok () (use n { s with queue := some ⟨q, msgs⟩ }) := by
  obtain ⟨⟩ := s
  cases hq
  cases hqueue
  simp only [osMessageQueueGet, getMsg_cons]

theorem osMessageQueueDelete_eq {q : Nat} {msgs : List Nat} (hq : s.pingPacketQ = some q)
    (hqueue : s.queue = some ⟨q, msgs⟩) :
    osMessageQueueDelete s = .ok () { s with queue := none, ping := .deleted } := by
  obtain ⟨⟩ := s
  cases hq
  cases hqueue
  simp only [osMessageQueueDelete, deleteQueue_some]

/-- A message is taken from the queue. -/
theorem Inv.get {q : Nat} {msgs : List Nat} {use : Nat → Sys → Sys}
    {done : PingThread} (hq : s.pingPacketQ = some q) (hqueue : s.queue = some ⟨q, msgs⟩)
    (hempty : msgs = [] → Inv { s with ping := done })
    (hmsg : ∀ n rest, msgs = n :: rest → Inv (use n { s with queue := some ⟨q, rest⟩ })) :
    Keeps (osMessageQueueGet use done s) := by
  cases msgs with
  | nil =>
    rw [osMessageQueueGet_nil hq hqueue]
    exact hempty rfl
  | cons n rest =>
    rw [osMessageQueueGet_cons hq hqueue]
    exact hmsg n rest rfl

/-- A message is taken from the queue and freed. -/
theorem Inv.getFree {q : Nat} {msgs : List Nat} (hi : Inv s) {done : PingThread}
    (hq : s.pingPacketQ = some q) (hqueue : s.queue = some ⟨q, msgs⟩)
    (hopen : ∀ msgs, Opened (some q) (some ⟨q, msgs⟩) s.ping)
    (hdone : ∀ msgs, Opened (some q) (some ⟨q, msgs⟩) done) :
    Keeps (osMessageQueueGet (fun n s => s.free n) done s) := by
  refine Inv.get hq hqueue (fun _ => ⟨hi.accounted.pass (.refl _) rfl rfl rfl, ?_⟩)
    fun n rest hmsgs => ?_
  · show Opened s.pingPacketQ s.queue done
    rw [hq, hqueue]
    exact hdone msgs
  · have hheld : s.held = s.downlink.held ++ n :: rest := by
      rw [Sys.held, hqueue, hmsgs, messages_some]
    refine ⟨hi.accounted.free (by rw [hheld]; exact List.perm_middle) rfl rfl rfl, ?_⟩
    show Opened s.pingPacketQ (some ⟨q, rest⟩) s.ping
    rw [hq]
    exact hopen rest

/-- The ping thread goes on, with the queue as it is. -/
theorem Inv.goto {done : PingThread} (hi : Inv s)
    (hdone : Opened s.pingPacketQ s.queue done) : Inv { s with ping := done } :=
  ⟨hi.accounted.pass (.refl _) rfl rfl rfl, hdone⟩

theorem Inv.pingNext (hi : Inv s)
    (hok : ¬ ((s.ping = .deleting ∨ s.ping = .removing) ∧ messages s.queue ≠ [])) :
    Keeps (pingNext s.ping s) := by
  have hopen := hi.opened
  cases hp : s.ping with
  | idle =>
    rw [hp] at hopen
    show Inv { s with ping := if s.pingPacketQ.isSome then .clearing else .creating }
    rw [show s.pingPacketQ.isSome = false by rw [hopen.1]; rfl, if_neg (by decide)]
    exact hi.goto hopen
  | clearing =>
    rw [hp] at hopen
    exact hopen.elim
  | creating =>
    rw [hp] at hopen
    have hheld : s.held = s.downlink.held ++ [] := by rw [Sys.held, hopen.2]; rfl
    show Inv (osMessageQueueNew s)
    simp only [osMessageQueueNew, hopen.1]
    exact ⟨hi.accounted.pass (by rw [hheld]; exact .refl _) rfl rfl rfl, _, _, rfl, rfl⟩
  | created =>
    rw [hp] at hopen
    exact ⟨hi.accounted.pass (.refl _) rfl rfl rfl, hopen⟩
  | running =>
    rw [hp] at hopen
    exact hi.goto hopen
  | draining =>
    rw [hp] at hopen
    obtain ⟨q, msgs, hq, hqueue⟩ := hopen
    exact hi.getFree hq hqueue (fun _ => by rw [hp]; exact ⟨_, _, rfl, rfl⟩)
      fun _ => ⟨_, _, rfl, rfl⟩
  | drained =>
    rw [hp] at hopen
    obtain ⟨q, msgs, hq, hqueue⟩ := hopen
    show Inv { s with ping := if s.pingPacketQ.isSome then .deleting else .cleared }
    rw [show s.pingPacketQ.isSome = true by rw [hq]; rfl, if_pos rfl]
    exact hi.goto ⟨q, msgs, hq, hqueue⟩
  | deleting =>
    rw [hp] at hopen
    obtain ⟨q, msgs, hq, hqueue⟩ := hopen
    have hremoving : Opened s.pingPacketQ s.queue .removing := ⟨q, msgs, hq, hqueue⟩
    show Keeps (osMessageQueueGet (fun n s => s.freeElem n) .removing s)
    refine Inv.get hq hqueue (fun _ => hi.goto hremoving) fun n rest hmsgs => ?_
    refine absurd ⟨.inl hp, ?_⟩ hok
    rw [hqueue, hmsgs]
    exact List.cons_ne_nil _ _
  | removing =>
    rw [hp] at hopen
    obtain ⟨q, msgs, hq, hqueue⟩ := hopen
    have hmsgs : messages s.queue = [] := by
      by_contra hne
      exact hok ⟨.inr hp, hne⟩
    show Keeps (osMessageQueueDelete s)
    rw [osMessageQueueDelete_eq hq hqueue]
    exact ⟨hi.accounted.pass (by rw [Sys.held, Sys.held, hmsgs]; exact .refl _) rfl rfl rfl, rfl⟩
  | deleted =>
    rw [hp] at hopen
    exact ⟨hi.accounted.pass (.refl _) rfl rfl rfl, rfl, hopen⟩
  | cleared =>
    rw [hp] at hopen
    exact ⟨hi.accounted.pass (.refl _) rfl rfl rfl, hopen⟩

theorem Inv.exec {act : Act} (hi : Inv s) (hok : ¬ Races s act) : Keeps (exec act s) := by
  have hopen := hi.opened
  cases act with
  | packet =>
    simp only [Ping.exec]
    split_ifs with h
    · exact hi.packet h
    · trivial
  | send =>
    show Keeps (downlinkNext s.downlink s)
    cases hd : s.downlink with
    | idle => trivial
    | sending n => exact hi.sending hd
    | tested n =>
      refine hi.tested hd fun hq => hok ?_
      simp only [Races, hd]
      exact hq
    | putting q n =>
      simp only [Races, hd] at hok
      rw [← hi.not_exists_iff, not_not] at hok
      obtain ⟨msgs, hq⟩ := hok
      exact hi.putting hd hq
  | next => exact hi.pingNext hok
  | recv =>
    simp only [Ping.exec]
    split_ifs with h
    · rw [h] at hopen
      obtain ⟨q, msgs, hq, hqueue⟩ := hopen
      exact hi.getFree hq hqueue (fun _ => by rw [h]; exact ⟨_, _, rfl, rfl⟩)
        fun _ => ⟨_, _, rfl, rfl⟩
    · trivial
  | giveUp =>
    simp only [Ping.exec]
    split_ifs with h
    · rw [h] at hopen
      exact hi.goto hopen
    · trivial

/-! ### Runs -/

theorem Inv.keepsPackets {act : Act} (hi : Inv s) (hok : ¬ Races s act) : KeepsPackets s act := by
  have hkeeps := hi.exec hok
  refine ⟨fun s' h => ?_, fun s' h => ?_⟩
  · rw [h] at hkeeps
    exact hkeeps
  · rw [h] at hkeeps
    exact hkeeps.accounted

/-- A step that races loses a packet, or uses a queue that is deleted. -/
theorem Inv.not_keepsPackets {act : Act} (hi : Inv s) (h : Races s act) : ¬ KeepsPackets s act := by
  intro hk
  cases act with
  | send =>
    cases hd : s.downlink with
    | tested n =>
      simp only [Races, hd] at h
      have hstep : Ping.exec .send s = .ok () { s with downlink := .idle } := by
        simp only [Ping.exec, hd, downlinkNext, h]
      refine absurd (hk.accounted _ hstep) (hi.accounted.not_of_lost ?_ rfl rfl)
      have hheld : s.held = n :: messages s.queue := by rw [Sys.held, hd]; rfl
      rw [hheld]
      exact Nat.lt_succ_self _
    | putting q n =>
      simp only [Races, hd] at h
      have hgone := (hi.not_exists_iff q).mpr h
      have hstep : Ping.exec .send s = .error .deletedQueue s := by
        simp only [Ping.exec, hd, downlinkNext, osMessageQueuePut, putMsg_of_not_exists hgone]
      exact hk.exists_ s hstep
    | idle | sending =>
      simp only [Races, hd] at h
  | next =>
    obtain ⟨hp, hmsgs⟩ := h
    have hopen : ∃ q msgs, s.pingPacketQ = some q ∧ s.queue = some ⟨q, msgs⟩ := by
      have hopen := hi.opened
      rcases hp with hp | hp <;> rw [hp] at hopen <;> exact hopen
    obtain ⟨q, msgs, hq, hqueue⟩ := hopen
    have hheld : s.held = s.downlink.held ++ msgs := by rw [Sys.held, hqueue]; rfl
    obtain ⟨n, rest, rfl⟩ : ∃ n rest, msgs = n :: rest := by
      rw [hqueue] at hmsgs
      exact List.exists_cons_of_ne_nil hmsgs
    rcases hp with hp | hp
    · have hstep : Ping.exec .next s =
          .ok () (({ s with queue := some ⟨q, rest⟩ } : Sys).freeElem n) := by
        have hget : osMessageQueueGet (fun n s => s.freeElem n) .removing s = _ :=
          osMessageQueueGet_cons hq hqueue
        exact (congrFun (congrArg Ping.pingNext hp) s).trans hget
      refine absurd (hk.accounted _ hstep) (hi.accounted.not_of_lost ?_ rfl rfl)
      rw [hheld]
      simp [Sys.held, Sys.freeElem]
    · have hstep : Ping.exec .next s = .ok () { s with queue := none, ping := .deleted } :=
        (congrFun (congrArg Ping.pingNext hp) s).trans (osMessageQueueDelete_eq hq hqueue)
      refine absurd (hk.accounted _ hstep) (hi.accounted.not_of_lost ?_ rfl rfl)
      rw [hheld]
      simp [Sys.held]
  | packet | recv | giveUp => exact h

theorem Inv.of_exec {act : Act} (hi : Inv s) (hok : ¬ Races s act) {o : Unit}
    (h : Ping.exec act s = .ok o s') : Inv s' := by
  have hkeeps := hi.exec hok
  rw [h] at hkeeps
  exact hkeeps

/-- With no packet in hand or in the queue, each has been freed once, and its element. -/
theorem freed_once {acts : List Act} {os : List Unit}
    (hok : Along exec (fun s act => ¬ Races s act) acts start)
    (h : acts.mapM exec start = .ok os s')
    (hrest : s'.held = []) {n : Nat} (hn : n < s'.handed) :
    s'.freedData.count n = 1 ∧ s'.freedElem.count n = 1 := by
  have hi : Inv s' := mapM_invariant Inv (fun _ _ _ _ hi hok h => hi.of_exec hok h) inv_start hok h
  have hdata := hi.accounted.data
  have helem := hi.accounted.elem
  rw [hrest] at hdata helem
  exact ⟨hdata.count_freed hn, helem.count_freed hn⟩

/-- **When a run frees every packet once** and uses no deleted queue. -/
theorem packets_kept_iff (acts : List Act) :
    Along exec KeepsPackets acts start ↔ Along exec (fun s act => ¬ Races s act) acts start := by
  refine (along_iff_of_invariant Inv (fun s act hi => ?_) (fun _ _ _ _ hi hok h => hi.of_exec hok h)
    inv_start).symm
  exact ⟨hi.keepsPackets, fun hk hr => hi.not_keepsPackets hr hk⟩

/-- A packet that arrived after the queue was emptied, before the queue is deleted. -/
def latePacket : Sys where
  nowInPing := true
  pingPacketQ := some 0
  queue := some ⟨0, [0]⟩
  queues := 1
  downlink := .idle
  ping := .deleting
  handed := 1
  freedData := []
  freedElem := []

/-- The packet is not freed. -/
theorem not_packets_kept : ¬ ∀ acts : List Act, Along exec KeepsPackets acts start := by
  intro h
  have hrun : [.next, .next, .next, .next, .next, .next, .packet, .send, .send, .send].mapM exec
      start = .ok (List.replicate 10 ()) latePacket :=
    mapM_cons_ok rfl <| mapM_cons_ok rfl <| mapM_cons_ok rfl <| mapM_cons_ok rfl <|
      mapM_cons_ok rfl <| mapM_cons_ok rfl <| mapM_cons_ok rfl <| mapM_cons_ok rfl <|
      mapM_cons_ok rfl <| mapM_cons_ok rfl <| mapM_nil _ _
  have hlast : Along exec KeepsPackets [.next] latePacket := Along.of_append (h _) hrun
  have hlost := (hlast.1.accounted (({ latePacket with queue := some ⟨0, []⟩ } : Sys).freeElem 0)
    rfl).data.length_eq
  exact absurd hlost (by decide)

end XY1100.Ping
