import Mathlib.Tactic
import XY1100.Support.Calls
import XY1100.Support.MsgQueue
import XY1100.Support.Ownership

/-!
# Lwip — the capture of packets for Wireshark

`AT+WIRESHARK=1` sets `g_wireshark_set` and starts `wireshark_task`, unless its handle says that it
runs; the task makes the queue `wireshark_msg_q` and takes messages from it.  `AT+WIRESHARK=0`
clears the flag and puts an end message into the queue, at which the task empties and deletes the
queue and clears its handle.  Meanwhile packets are passed to `wireshark_forward_format_print`, by
any number of threads, which puts them into the queue if the flag is set.

A step is a section of the AT thread, of the task, or of one of the calls in progress: up to the
next read or write of something they share.  The messages are numbered as they are allocated.  What
the messages contain, and what the task does with them before it frees them, is left out.

* `capture_kept_iff`: a run puts messages into queues that exist only, frees each once, and has the
  task run when the last command was 1, exactly when no message comes while the task has no queue
  for it, the queue is deleted empty, and the task does not end after a command 1 that has found its
  handle.
-/

namespace XY1100.Wireshark
open Support

/-- The messages `wireshark_msg_q` has room for. -/
def wiresharkQueueSize : Nat := 50

/-- `enum wireshark_msg_type`. -/
inductive MsgId
  | upData
  | downData
  | wiresharkEnd
  deriving Repr, DecidableEq

/-- `struct common_msg`, with its number. -/
structure CommonMsg where
  msgId : MsgId
  number : Nat
  deriving Repr, DecidableEq

/-- Where a call of `wireshark_forward_format_print` is that has found the flag set. -/
inductive Forward
  /-- The message is made. -/
  | made (msg : CommonMsg)
  /-- In `osMessageQueuePut`. -/
  | putting (q : Nat) (msg : CommonMsg)
  deriving Repr, DecidableEq

/-- Where the AT thread is in `at_WIRESHARK_req`. -/
inductive Request
  /-- In no command. -/
  | idle
  /-- `g_wireshark_set` is set to the capture type. -/
  | set (captureType : Bool)
  /-- The task is started, its handle not yet stored. -/
  | started
  /-- The end message is made. -/
  | ending (msg : CommonMsg)
  /-- In `osMessageQueuePut`. -/
  | putting (q : Nat) (msg : CommonMsg)
  deriving Repr, DecidableEq

/-- Where the task is in `wireshark_task`. -/
inductive Task
  /-- There is none. -/
  | absent
  /-- About to make the queue. -/
  | starting
  /-- In its loop. -/
  | running
  /-- In `xy_queue_Delete`, emptying the queue. -/
  | emptying
  /-- In `xy_queue_Delete`, about to delete the queue. -/
  | removing
  /-- The queue is deleted. -/
  | deleted
  /-- `wireshark_msg_q` is null. -/
  | cleared
  deriving Repr, DecidableEq

/-- The state of the system. -/
structure Sys where
  /-- `g_wireshark_set`. -/
  wiresharkSet : Bool
  /-- `g_wireshark_TskHandle` is not null. -/
  tskHandle : Bool
  wiresharkMsgQ : Option Nat
  /-- The queue that exists. -/
  queue : Option (MsgQueue CommonMsg)
  /-- The queues made so far. -/
  queues : Nat
  task : Task
  request : Request
  /-- The calls of `wireshark_forward_format_print` in progress. -/
  forwards : List Forward
  /-- The capture type of the last command. -/
  captureType : Bool
  /-- The messages allocated so far. -/
  allocated : Nat
  freed : List Nat

/-- No command so far. -/
def start : Sys where
  wiresharkSet := false
  tskHandle := false
  wiresharkMsgQ := none
  queue := none
  queues := 0
  task := .absent
  request := .idle
  forwards := []
  captureType := false
  allocated := 0
  freed := []

/-! ### Commands -/

/-- `at_WIRESHARK_req` up to the flag. -/
def command (captureType : Bool) (s : Sys) : Sys :=
  { s with wiresharkSet := captureType, request := .set captureType, captureType := captureType }

/-- The next section of `at_WIRESHARK_req`.  `osMessageQueuePut` refuses a null queue, and what it
returns is not looked at. -/
def requestNext : Request → EStateM QueueStop Sys Unit
  | .idle => fun s => .error .waits s
  | .set true => fun s =>
      if s.tskHandle then .ok () { s with request := .idle }
      else .ok () { s with task := .starting, request := .started }
  | .started => fun s => .ok () { s with tskHandle := true, request := .idle }
  | .set false => fun s =>
      if s.tskHandle then .ok () { s with
        request := .ending ⟨.wiresharkEnd, s.allocated⟩
        allocated := s.allocated + 1 }
      else .ok () { s with request := .idle }
  | .ending msg => fun s =>
      match s.wiresharkMsgQ with
      | none => .ok () { s with request := .idle }
      | some q => .ok () { s with request := .putting q msg }
  | .putting q msg => fun s =>
      match putMsg wiresharkQueueSize s.queue q msg with
      | .error stop => .error stop s
      | .ok queue => .ok () { s with queue := some queue, request := .idle }

/-! ### Packets -/

/-- The `msg_id` of a packet; the message starts zeroed. -/
def packetMsgId (dir : UInt8) : MsgId := if dir = 1 then .downData else .upData

/-- `wireshark_forward_format_print` up to its message. -/
def packet (dir : UInt8) (s : Sys) : Sys :=
  if s.wiresharkSet then { s with
    forwards := s.forwards ++ [.made ⟨packetMsgId dir, s.allocated⟩]
    allocated := s.allocated + 1 }
  else s

/-- The next section of the call `i`. -/
def forwardNext (i : Nat) : EStateM QueueStop Sys Unit := fun s =>
  match s.forwards[i]? with
  | none => .error .waits s
  | some (.made msg) =>
      match s.wiresharkMsgQ with
      | none => .ok () { s with forwards := s.forwards.eraseIdx i }
      | some q => .ok () { s with forwards := s.forwards.set i (.putting q msg) }
  | some (.putting q msg) =>
      match putMsg wiresharkQueueSize s.queue q msg with
      | .error stop => .error stop s
      | .ok queue => .ok () { s with queue := some queue, forwards := s.forwards.eraseIdx i }

/-! ### The task -/

/-- `osMessageQueueGet` from `wireshark_msg_q`, and the message freed; without a message, the task
goes on to `done` or waits. -/
def takeMessage (got : MsgId → Task) (done : Option Task) : EStateM QueueStop Sys Unit := fun s =>
  match s.wiresharkMsgQ with
  | none => .error .deletedQueue s
  | some q =>
      match getMsg s.queue q with
      | .error stop => .error stop s
      | .ok (some (msg, queue)) => .ok () { s with
          queue := some queue
          freed := msg.number :: s.freed
          task := got msg.msgId }
      | .ok none =>
          match done with
          | none => .error .waits s
          | some task => .ok () { s with task := task }

/-- Where the loop goes on after a message. -/
def afterMessage : MsgId → Task
  | .upData | .downData => .running
  | .wiresharkEnd => .emptying

/-- `osMessageQueueDelete` of `wireshark_msg_q`. -/
def removeQueue : EStateM QueueStop Sys Unit := fun s =>
  match s.wiresharkMsgQ with
  | none => .error .deletedQueue s
  | some q =>
      match deleteQueue s.queue q with
      | .error stop => .error stop s
      | .ok queue => .ok () { s with queue := queue, task := .deleted }

/-- The next section of `wireshark_task`. -/
def taskNext : Task → EStateM QueueStop Sys Unit
  | .absent => fun s => .error .waits s
  | .starting => fun s => .ok () { s with
      wiresharkMsgQ := some s.queues
      queue := some ⟨s.queues, []⟩
      queues := s.queues + 1
      task := .running }
  | .running => takeMessage afterMessage none
  | .emptying => takeMessage (fun _ => .emptying) (some .removing)
  | .removing => removeQueue
  | .deleted => fun s => .ok () { s with wiresharkMsgQ := none, task := .cleared }
  | .cleared => fun s => .ok () { s with tskHandle := false, task := .absent }

/-! ### The steps of the system -/

/-- A step of the system. -/
inductive Act
  /-- The command is received. -/
  | command (captureType : Bool)
  /-- The next section of the AT thread. -/
  | request
  /-- A packet is passed to `wireshark_forward_format_print`. -/
  | packet (dir : UInt8)
  /-- The next section of a call in progress. -/
  | forward (i : Nat)
  /-- The next section of the task. -/
  | task
  deriving Repr, DecidableEq

def exec (act : Act) : EStateM QueueStop Sys Unit := fun s =>
  match act with
  | .command captureType =>
      if s.request = .idle then .ok () (command captureType s) else .error .waits s
  | .request => requestNext s.request s
  | .packet dir => .ok () (packet dir s)
  | .forward i => forwardNext i s
  | .task => taskNext s.task s

/-! ### What the runs are to keep -/

/-- The message of a call in progress. -/
def Forward.msg : Forward → CommonMsg
  | .made msg | .putting _ msg => msg

/-- The message the AT thread has in hand. -/
def Request.held : Request → List CommonMsg
  | .idle | .set _ | .started => []
  | .ending msg | .putting _ msg => [msg]

/-- The messages that are in hand or in the queue. -/
def Sys.held (s : Sys) : List Nat :=
  (s.request.held ++ s.forwards.map Forward.msg ++ messages s.queue).map CommonMsg.number

/-- The step puts a message into a queue that is not yet made, or is deleted. -/
def Misputs (s : Sys) (act : Act) : Prop :=
  match act with
  | .request =>
      match s.request with
      | .ending _ => s.wiresharkMsgQ = none
      | .putting q _ => ¬ Exists s.queue q
      | .idle | .set _ | .started => False
  | .forward i =>
      match s.forwards[i]? with
      | some (.made _) => s.wiresharkMsgQ = none
      | some (.putting q _) => ¬ Exists s.queue q
      | none => False
  | .command _ | .packet _ | .task => False

/-- No command is in progress, and the task has handled all that was queued. -/
def Settled (s : Sys) : Prop :=
  s.request = .idle ∧
    (s.task = .absent ∨ s.task = .starting ∨ s.task = .running ∧ messages s.queue = [])

/-- The step puts messages into queues that exist only, loses none and frees none twice, and the
task runs exactly if the last command was 1, once all is settled. -/
structure KeepsCapture (s : Sys) (act : Act) : Prop where
  puts : ¬ Misputs s act
  exists_ : ∀ s', exec act s ≠ .error .deletedQueue s'
  accounted : ∀ s', exec act s = .ok () s' → Accounted s'.held s'.freed s'.allocated
  runs : ∀ s', exec act s = .ok () s' → Settled s' → (s'.task ≠ .absent ↔ s'.captureType = true)

/-- The task is between making its queue and forgetting it. -/
def Task.hasHandle : Task → Bool
  | .absent | .starting | .cleared => false
  | .running | .emptying | .removing | .deleted => true

/-- The task has deleted the queue of the handle `q`. -/
def Stale (s : Sys) (q : Nat) : Prop := s.wiresharkMsgQ ≠ some q ∨ s.task = .deleted

/-- A message is on its way while the task has no queue, or after it has deleted the one the message
is for. -/
def Mistimed (s : Sys) (act : Act) : Prop :=
  match act with
  | .request =>
      match s.request with
      | .ending _ => s.task.hasHandle = false
      | .putting q _ => Stale s q
      | .idle | .set _ | .started => False
  | .forward i =>
      match s.forwards[i]? with
      | some (.made _) => s.task.hasHandle = false
      | some (.putting q _) => Stale s q
      | none => False
  | .command _ | .packet _ | .task => False

/-- A message comes at a time when the task has no queue for it, the queue is deleted with messages
in it, or the task ends after a command 1 that has found its handle. -/
def Races (s : Sys) (act : Act) : Prop :=
  Mistimed s act ∨ act = .task ∧
    (s.task = .removing ∧ messages s.queue ≠ [] ∨
      s.task = .cleared ∧ s.request = .idle ∧ s.captureType = true)

/-! ### The invariant -/

/-- The queue exists, and `wireshark_msg_q` is its handle, as long as the task needs it. -/
def Opened (wiresharkMsgQ : Option Nat) (queue : Option (MsgQueue CommonMsg)) : Task → Prop
  | .absent | .starting | .cleared => wiresharkMsgQ = none ∧ queue = none
  | .running | .emptying | .removing =>
      ∃ q msgs, wiresharkMsgQ = some q ∧ queue = some ⟨q, msgs⟩
  | .deleted => wiresharkMsgQ ≠ none ∧ queue = none

/-- The task will end, or is about to. -/
def Told (msgs : List CommonMsg) : Task → Prop
  | .absent | .starting | .running => ∃ msg ∈ msgs, msg.msgId = .wiresharkEnd
  | .emptying | .removing | .deleted | .cleared => True

/-- What the handle and the task are, at each point of a command. -/
def Controlled (tskHandle captureType : Bool) (task : Task) (msgs : List CommonMsg) :
    Request → Prop
  | .idle => (tskHandle = true ↔ task ≠ .absent) ∧ (captureType = true → task ≠ .absent) ∧
      (captureType = false → task = .absent ∨ Told msgs task)
  | .set type => (tskHandle = true ↔ task ≠ .absent) ∧ captureType = type
  | .started => task ≠ .absent ∧ captureType = true ∧ ¬ Told msgs task
  | .ending msg | .putting _ msg => (tskHandle = true ↔ task ≠ .absent) ∧ captureType = false ∧
      msg.msgId = .wiresharkEnd

/-- The messages are accounted for, the queue exists while it is used, and the AT thread and the
task agree. -/
structure Inv (s : Sys) : Prop where
  accounted : Accounted s.held s.freed s.allocated
  opened : Opened s.wiresharkMsgQ s.queue s.task
  controlled : Controlled s.tskHandle s.captureType s.task (messages s.queue) s.request
  packets : ∀ fwd ∈ s.forwards, fwd.msg.msgId ≠ .wiresharkEnd

variable {s s' : Sys}

/-- A message meets no queue exactly at these times. -/
theorem Inv.misputs_iff (hi : Inv s) (act : Act) : Misputs s act ↔ Mistimed s act := by
  have hopen := hi.opened
  have hnone : s.wiresharkMsgQ = none ↔ s.task.hasHandle = false := by
    cases ht : s.task <;> rw [ht] at hopen <;> simp only [Opened] at hopen
    case absent | starting | cleared => exact iff_of_true hopen.1 rfl
    case deleted => exact iff_of_false hopen.1 (by decide)
    case running | emptying | removing =>
      obtain ⟨q, msgs, hq, -⟩ := hopen
      exact iff_of_false (by rw [hq]; exact Option.some_ne_none q) (by decide)
  have hstale : ∀ q, ¬ Exists s.queue q ↔ Stale s q := by
    intro q
    rw [Stale, Support.Exists]
    cases ht : s.task <;> rw [ht] at hopen <;> simp only [Opened] at hopen
    case absent | starting | cleared => simp [hopen.1, hopen.2]
    case deleted => simp [hopen.2]
    case running | emptying | removing =>
      obtain ⟨q', msgs, hq, hqueue⟩ := hopen
      simp [hq, hqueue]
  cases act with
  | request =>
    simp only [Misputs, Mistimed]
    cases s.request with
    | ending msg => exact hnone
    | putting q msg => exact hstale q
    | idle | set | started => exact Iff.rfl
  | forward i =>
    simp only [Misputs, Mistimed]
    rcases s.forwards[i]? with _ | msg | ⟨q, msg⟩
    · exact Iff.rfl
    · exact hnone
    · exact hstale q
  | command | packet | task => exact Iff.rfl

theorem inv_start : Inv start where
  accounted := accounted_nil
  opened := ⟨rfl, rfl⟩
  controlled := ⟨by decide, (fun h => by cases h), fun _ => .inl rfl⟩
  packets _ h := by cases h

/-- A step keeps the invariant, or does not come to its end because it has to wait. -/
def Keeps : EStateM.Result QueueStop Sys Unit → Prop
  | .ok _ s => Inv s
  | .error .waits _ => True
  | .error .deletedQueue _ => False

/-- Nothing is settled that the invariant does not settle rightly. -/
theorem Inv.runs (hi : Inv s) (h : Settled s) : s.task ≠ .absent ↔ s.captureType = true := by
  obtain ⟨hidle, htask⟩ := h
  have hc := hi.controlled
  rw [hidle] at hc
  obtain ⟨-, hon, hoff⟩ := hc
  refine ⟨fun hne => ?_, hon⟩
  by_contra hfalse
  have hopen := hi.opened
  rcases hoff (Bool.eq_false_iff.mpr hfalse) with habs | htold
  · exact hne habs
  · rcases htask with ht | ht | ⟨ht, hmsgs⟩
    · exact hne ht
    · rw [ht] at hopen htold
      rw [hopen.2] at htold
      obtain ⟨msg, hm, -⟩ := htold
      cases hm
    · rw [ht, hmsgs] at htold
      obtain ⟨msg, hm, -⟩ := htold
      cases hm

/-! ### The messages held -/

theorem held_perm_put (request : Request) (fwds : List CommonMsg) (msgs : List CommonMsg)
    (msg : CommonMsg) (h : request.held = [msg]) :
    ((Request.idle.held ++ fwds ++ (msgs ++ [msg])).map CommonMsg.number).Perm
      ((request.held ++ fwds ++ msgs).map CommonMsg.number) := by
  rw [h]
  refine List.Perm.map _ ?_
  show (fwds ++ (msgs ++ [msg])).Perm (msg :: (fwds ++ msgs))
  rw [← List.append_assoc]
  exact List.perm_append_singleton msg _

theorem held_perm_new (held fwds msgs : List CommonMsg) (msg : CommonMsg) :
    ((held ++ (fwds ++ [msg]) ++ msgs).map CommonMsg.number).Perm
      (msg.number :: (held ++ fwds ++ msgs).map CommonMsg.number) := by
  have hperm : (held ++ (fwds ++ [msg]) ++ msgs).Perm (msg :: (held ++ fwds ++ msgs)) := by
    rw [← List.append_assoc, ← List.cons_append]
    exact (List.perm_append_singleton msg (held ++ fwds)).append_right msgs
  exact hperm.map CommonMsg.number

/-- A call in progress is done with its message. -/
theorem map_msg_perm_eraseIdx {fwds : List Forward} {i : Nat} {fwd : Forward}
    (h : fwds[i]? = some fwd) :
    (fwds.map Forward.msg).Perm (fwd.msg :: (fwds.eraseIdx i).map Forward.msg) := by
  obtain ⟨hi, rfl⟩ := List.getElem?_eq_some_iff.mp h
  exact ((List.getElem_cons_eraseIdx_perm hi).map Forward.msg).symm

/-- A call in progress goes on with its message. -/
theorem map_msg_set {fwds : List Forward} {i : Nat} {fwd fwd' : Forward} (h : fwds[i]? = some fwd)
    (hmsg : fwd'.msg = fwd.msg) : (fwds.set i fwd').map Forward.msg = fwds.map Forward.msg := by
  obtain ⟨hi, rfl⟩ := List.getElem?_eq_some_iff.mp h
  rw [List.map_set, hmsg, ← List.getElem_map Forward.msg (h := by rwa [List.length_map]),
    List.set_getElem_self]

/-! ### Commands -/

theorem Inv.command (hi : Inv s) (hidle : s.request = .idle) (type : Bool) :
    Inv (command type s) := by
  have hc := hi.controlled
  rw [hidle] at hc
  refine ⟨?_, hi.opened, ⟨hc.1, rfl⟩, hi.packets⟩
  have hacc := hi.accounted
  rw [Sys.held, hidle] at hacc
  exact hacc

/-- The queue is there for a put when it is there. -/
theorem Opened.put {wiresharkMsgQ : Option Nat} {q : Nat} {msgs msgs' : List CommonMsg}
    {task : Task}
    (h : Opened wiresharkMsgQ (some ⟨q, msgs⟩) task) :
    Opened wiresharkMsgQ (some ⟨q, msgs'⟩) task := by
  cases task with
  | absent | starting | cleared | deleted => cases h.2
  | running | emptying | removing =>
    obtain ⟨q', msgs₀, hq, heq⟩ := h
    cases heq
    exact ⟨_, msgs', hq, rfl⟩

/-- A task that gets the end message will end. -/
theorem told_of_mem {msgs : List CommonMsg} {task : Task} {msg : CommonMsg} (hm : msg ∈ msgs)
    (hend : msg.msgId = .wiresharkEnd) : Told msgs task := by
  cases task with
  | absent | starting | running => exact ⟨msg, hm, hend⟩
  | emptying | removing | deleted | cleared => trivial

theorem not_told_of_absent (hopen : Opened s.wiresharkMsgQ s.queue .absent) :
    ¬ Told (messages s.queue) .starting := by
  rintro ⟨msg, hm, -⟩
  rw [hopen.2] at hm
  cases hm

/-- The handle is that of a task, except while a task is started. -/
theorem absent_of_handle {handle : Bool} {task : Task} (h : handle = true ↔ task ≠ .absent)
    (hh : ¬ handle = true) : task = .absent := by
  by_contra hne
  exact hh (h.mpr hne)

theorem Inv.setOn (hi : Inv s) (hr : s.request = .set true) :
    Keeps (requestNext (.set true) s) := by
  have hc := hi.controlled
  rw [hr] at hc
  obtain ⟨halive, htype⟩ := hc
  have hacc := hi.accounted
  rw [Sys.held, hr] at hacc
  simp only [requestNext]
  split_ifs with hh
  · refine ⟨hacc, hi.opened, ⟨halive, fun _ => halive.mp hh, fun hf => ?_⟩, hi.packets⟩
    rw [show s.captureType = true from htype] at hf
    cases hf
  · have hopen := hi.opened
    rw [absent_of_handle halive hh] at hopen
    exact ⟨hacc, hopen, ⟨(fun h => by cases h), htype, not_told_of_absent hopen⟩, hi.packets⟩

theorem Inv.setOff (hi : Inv s) (hr : s.request = .set false) :
    Keeps (requestNext (.set false) s) := by
  have hc := hi.controlled
  rw [hr] at hc
  obtain ⟨halive, htype⟩ := hc
  have hacc := hi.accounted
  rw [Sys.held, hr] at hacc
  simp only [requestNext]
  split_ifs with hh
  · exact ⟨hacc.alloc (.refl _), hi.opened, ⟨halive, htype, rfl⟩, hi.packets⟩
  · refine ⟨hacc, hi.opened, ⟨halive, fun ht => ?_, fun _ => .inl (absent_of_handle halive hh)⟩,
      hi.packets⟩
    rw [show s.captureType = false from htype] at ht
    cases ht

theorem Inv.started (hi : Inv s) (hr : s.request = .started) : Keeps (requestNext .started s) := by
  have hc := hi.controlled
  rw [hr] at hc
  obtain ⟨halive, htype, -⟩ := hc
  have hacc := hi.accounted
  rw [Sys.held, hr] at hacc
  refine ⟨hacc, hi.opened, ⟨⟨fun _ => halive, fun _ => rfl⟩, fun _ => halive, fun hf => ?_⟩,
    hi.packets⟩
  rw [show s.captureType = true from htype] at hf
  cases hf

theorem Inv.ending {msg : CommonMsg} (hi : Inv s) (hr : s.request = .ending msg)
    (hq : s.wiresharkMsgQ ≠ none) : Keeps (requestNext (.ending msg) s) := by
  have hc := hi.controlled
  rw [hr] at hc
  have hacc := hi.accounted
  rw [Sys.held, hr] at hacc
  have hopen := hi.opened
  obtain ⟨q, hq⟩ := Option.ne_none_iff_exists'.mp hq
  rw [hq] at hopen
  simp only [requestNext, hq]
  exact ⟨hacc, hopen, hc, hi.packets⟩

theorem Inv.putting {q : Nat} {msg : CommonMsg} (hi : Inv s) (hr : s.request = .putting q msg)
    (hq : Exists s.queue q) : Keeps (requestNext (.putting q msg) s) := by
  have hc := hi.controlled
  rw [hr] at hc
  obtain ⟨halive, htype, hend⟩ := hc
  obtain ⟨msgs, hq⟩ := hq
  have hacc := hi.accounted
  rw [Sys.held, hr, hq] at hacc
  have hopen := hi.opened
  rw [hq] at hopen
  simp only [requestNext, hq, putMsg_some]
  split_ifs
  · refine ⟨hacc.pass (held_perm_put (.putting q msg) _ _ _ rfl), hopen.put, ⟨halive, fun ht => ?_,
      fun _ => .inr (told_of_mem (List.mem_append_right _ (List.mem_singleton_self msg)) hend)⟩,
      hi.packets⟩
    rw [show s.captureType = false from htype] at ht
    cases ht
  · trivial

theorem Inv.requestNext (hi : Inv s) (hok : ¬ Misputs s .request) :
    Keeps (requestNext s.request s) := by
  simp only [Misputs] at hok
  cases hr : s.request with
  | idle => trivial
  | set type =>
    cases type with
    | true => exact hi.setOn hr
    | false => exact hi.setOff hr
  | started => exact hi.started hr
  | ending msg =>
    rw [hr] at hok
    exact hi.ending hr hok
  | putting q msg =>
    rw [hr] at hok
    exact hi.putting hr (not_not.mp hok)

/-! ### Packets -/

theorem Told.of_append {msgs : List CommonMsg} {task : Task} {msg : CommonMsg}
    (hmsg : msg.msgId ≠ .wiresharkEnd) (h : Told (msgs ++ [msg]) task) : Told msgs task := by
  cases task with
  | absent | starting | running =>
    obtain ⟨m, hm, hend⟩ := h
    rcases List.mem_append.mp hm with hm | hm
    · exact ⟨m, hm, hend⟩
    · rw [List.mem_singleton.mp hm] at hend
      exact absurd hend hmsg
  | emptying | removing | deleted | cleared => trivial

theorem Told.append {msgs : List CommonMsg} {task : Task} (msg : CommonMsg) (h : Told msgs task) :
    Told (msgs ++ [msg]) task := by
  cases task with
  | absent | starting | running =>
    obtain ⟨m, hm, hend⟩ := h
    exact ⟨m, List.mem_append_left _ hm, hend⟩
  | emptying | removing | deleted | cleared => trivial

/-- A packet in the queue is nothing to the AT thread. -/
theorem Controlled.append {handle type : Bool} {task : Task} {msgs : List CommonMsg}
    {request : Request} {msg : CommonMsg} (hmsg : msg.msgId ≠ .wiresharkEnd)
    (h : Controlled handle type task msgs request) :
    Controlled handle type task (msgs ++ [msg]) request := by
  cases request with
  | idle => exact ⟨h.1, h.2.1, fun hf => (h.2.2 hf).imp_right (Told.append msg)⟩
  | started => exact ⟨h.1, h.2.1, fun ht => h.2.2 (ht.of_append hmsg)⟩
  | set | ending | putting => exact h

theorem Inv.packet (hi : Inv s) (dir : UInt8) : Inv (packet dir s) := by
  unfold Wireshark.packet
  split_ifs
  · refine ⟨hi.accounted.alloc ?_, hi.opened, hi.controlled, fun fwd hf => ?_⟩
    · have hmap : (s.forwards ++ [Forward.made ⟨packetMsgId dir, s.allocated⟩]).map Forward.msg =
          s.forwards.map Forward.msg ++ [⟨packetMsgId dir, s.allocated⟩] := List.map_append
      show ((s.request.held ++ (s.forwards ++ [_]).map Forward.msg ++ _).map _).Perm _
      rw [hmap]
      exact held_perm_new s.request.held _ _ ⟨packetMsgId dir, s.allocated⟩
    · rcases List.mem_append.mp hf with hf | hf
      · exact hi.packets fwd hf
      · rw [List.mem_singleton.mp hf]
        unfold Forward.msg packetMsgId
        split_ifs <;> exact fun h => by cases h
  · exact hi

theorem Inv.made {i : Nat} {msg : CommonMsg} (hi : Inv s) (hf : s.forwards[i]? = some (.made msg))
    (hq : s.wiresharkMsgQ ≠ none) : Keeps (forwardNext i s) := by
  have hopen := hi.opened
  have hacc := hi.accounted
  obtain ⟨q, hq⟩ := Option.ne_none_iff_exists'.mp hq
  rw [hq] at hopen
  have hmap : (s.forwards.set i (.putting q msg)).map Forward.msg = s.forwards.map Forward.msg :=
    map_msg_set hf rfl
  simp only [forwardNext, hf, hq]
  refine ⟨?_, hopen, hi.controlled, fun fwd hm => ?_⟩
  · rw [Sys.held, ← hmap] at hacc
    exact hacc
  · rcases List.mem_or_eq_of_mem_set hm with hm | rfl
    · exact hi.packets fwd hm
    · exact hi.packets (.made msg) (List.mem_of_getElem? hf)

theorem Inv.put {i q : Nat} {msg : CommonMsg} (hi : Inv s)
    (hf : s.forwards[i]? = some (.putting q msg)) (hq : Exists s.queue q) :
    Keeps (forwardNext i s) := by
  obtain ⟨msgs, hq⟩ := hq
  have hopen := hi.opened
  have hacc := hi.accounted
  have hc := hi.controlled
  rw [hq] at hopen hc
  have hmsg : msg.msgId ≠ .wiresharkEnd := hi.packets _ (List.mem_of_getElem? hf)
  simp only [forwardNext, hf, hq, putMsg_some]
  split_ifs
  · refine ⟨hacc.pass ?_, hopen.put, hc.append hmsg, fun fwd hm =>
      hi.packets fwd (List.mem_of_mem_eraseIdx hm)⟩
    have hperm : (s.request.held ++ (s.forwards.eraseIdx i).map Forward.msg ++ (msgs ++ [msg])).Perm
        (s.request.held ++ s.forwards.map Forward.msg ++ messages s.queue) := by
      rw [hq, List.append_assoc, List.append_assoc, messages_some]
      refine List.Perm.append_left _ ?_
      rw [← List.append_assoc]
      exact (List.perm_append_singleton msg _).trans
        ((map_msg_perm_eraseIdx hf).symm.append_right msgs)
    exact hperm.map CommonMsg.number
  · trivial

theorem Inv.forwardNext {i : Nat} (hi : Inv s) (hok : ¬ Misputs s (.forward i)) :
    Keeps (forwardNext i s) := by
  simp only [Misputs] at hok
  cases hf : s.forwards[i]? with
  | none =>
    simp only [Wireshark.forwardNext, hf]
    trivial
  | some fwd =>
    rw [hf] at hok
    cases fwd with
    | made msg => exact hi.made hf hok
    | putting q msg => exact hi.put hf (not_not.mp hok)

/-! ### The task -/

theorem takeMessage_nil {q : Nat} {got : MsgId → Task} {task : Task}
    (hq : s.wiresharkMsgQ = some q) (hqueue : s.queue = some ⟨q, []⟩) :
    takeMessage got (some task) s = .ok () { s with task := task } := by
  simp only [takeMessage, hq, hqueue, getMsg_nil]

theorem takeMessage_cons {q : Nat} {msg : CommonMsg} {msgs : List CommonMsg} {got : MsgId → Task}
    {done : Option Task} (hq : s.wiresharkMsgQ = some q)
    (hqueue : s.queue = some ⟨q, msg :: msgs⟩) :
    takeMessage got done s = .ok () { s with
      queue := some ⟨q, msgs⟩
      freed := msg.number :: s.freed
      task := got msg.msgId } := by
  simp only [takeMessage, hq, hqueue, getMsg_cons]

/-- The message that was taken is freed. -/
theorem held_perm_take {q : Nat} {msg : CommonMsg} {msgs : List CommonMsg}
    (hqueue : s.queue = some ⟨q, msg :: msgs⟩) : s.held.Perm (msg.number ::
      (s.request.held ++ s.forwards.map Forward.msg ++ msgs).map CommonMsg.number) := by
  rw [Sys.held, hqueue]
  have hmiddle : ((s.request.held ++ s.forwards.map Forward.msg) ++ msg :: msgs).Perm
      (msg :: (s.request.held ++ s.forwards.map Forward.msg ++ msgs)) := List.perm_middle
  exact hmiddle.map CommonMsg.number

/-- A step of the task that neither ends it nor changes whether it will end. -/
theorem Controlled.congr {handle type : Bool} {task task' : Task} {msgs msgs' : List CommonMsg}
    {request : Request} (h : Controlled handle type task msgs request) (hne : task ≠ .absent)
    (hne' : task' ≠ .absent) (htold : Told msgs task ↔ Told msgs' task') :
    Controlled handle type task' msgs' request := by
  have halive : (handle = true ↔ task ≠ .absent) → (handle = true ↔ task' ≠ .absent) :=
    fun h => ⟨fun _ => hne', fun _ => h.mpr hne⟩
  cases request with
  | idle =>
    exact ⟨halive h.1, fun _ => hne', fun hf => .inr (htold.mp ((h.2.2 hf).resolve_left hne))⟩
  | set => exact ⟨halive h.1, h.2⟩
  | started => exact ⟨hne', h.2.1, fun ht => h.2.2 (htold.mpr ht)⟩
  | ending | putting => exact ⟨halive h.1, h.2⟩

theorem told_cons_iff {msg : CommonMsg} {msgs : List CommonMsg} :
    Told (msg :: msgs) .running ↔ Told msgs (afterMessage msg.msgId) := by
  cases hid : msg.msgId with
  | upData | downData =>
    refine ⟨?_, ?_⟩
    · rintro ⟨m, hm, hend⟩
      rcases List.mem_cons.mp hm with rfl | hm
      · rw [hid] at hend
        cases hend
      · exact ⟨m, hm, hend⟩
    · rintro ⟨m, hm, hend⟩
      exact ⟨m, List.mem_cons_of_mem _ hm, hend⟩
  | wiresharkEnd => exact ⟨fun _ => trivial, fun _ => ⟨msg, List.mem_cons_self, hid⟩⟩

/-- The task takes a message and frees it. -/
theorem Inv.take {q : Nat} {msg : CommonMsg} {msgs : List CommonMsg} {task : Task} (hi : Inv s)
    (hqueue : s.queue = some ⟨q, msg :: msgs⟩)
    (hopen : Opened s.wiresharkMsgQ (some ⟨q, msgs⟩) task)
    (hc : Controlled s.tskHandle s.captureType task msgs s.request) : Inv { s with
      queue := some ⟨q, msgs⟩
      freed := msg.number :: s.freed
      task := task } :=
  ⟨hi.accounted.free (held_perm_take hqueue), hopen, hc, hi.packets⟩

theorem Inv.taskNext (hi : Inv s) (hok : ¬ (s.task = .removing ∧ messages s.queue ≠ [] ∨
    s.task = .cleared ∧ s.request = .idle ∧ s.captureType = true)) :
    Keeps (taskNext s.task s) := by
  have hopen := hi.opened
  have hc := hi.controlled
  have hacc := hi.accounted
  cases ht : s.task <;> rw [ht] at hopen hc
  case absent => trivial
  case starting =>
    rw [hopen.2] at hc
    rw [Sys.held, hopen.2] at hacc
    exact ⟨hacc, ⟨_, _, rfl, rfl⟩, hc.congr (fun h => by cases h) (fun h => by cases h) Iff.rfl,
      hi.packets⟩
  case running =>
    obtain ⟨q, msgs, hq, hqueue⟩ := hopen
    show Keeps (takeMessage afterMessage none s)
    cases msgs with
    | nil =>
      simp only [takeMessage, hq, hqueue, getMsg_nil]
      trivial
    | cons msg msgs =>
      rw [takeMessage_cons hq hqueue]
      rw [hqueue] at hc
      have hne : afterMessage msg.msgId ≠ .absent := by
        cases msg.msgId <;> exact fun h => by cases h
      refine hi.take hqueue ?_ (hc.congr (fun h => by cases h) hne told_cons_iff)
      cases msg.msgId <;> exact ⟨q, msgs, hq, rfl⟩
  case emptying =>
    obtain ⟨q, msgs, hq, hqueue⟩ := hopen
    show Keeps (takeMessage (fun _ => .emptying) (some .removing) s)
    cases msgs with
    | nil =>
      rw [takeMessage_nil hq hqueue]
      exact ⟨hacc, ⟨q, [], hq, hqueue⟩,
        hc.congr (fun h => by cases h) (fun h => by cases h) Iff.rfl, hi.packets⟩
    | cons msg msgs =>
      rw [takeMessage_cons hq hqueue]
      exact hi.take hqueue ⟨q, msgs, hq, rfl⟩
        (hc.congr (fun h => by cases h) (fun h => by cases h) Iff.rfl)
  case removing =>
    obtain ⟨q, msgs, hq, hqueue⟩ := hopen
    have hmsgs : messages s.queue = [] := by
      by_contra hne
      exact hok (.inl ⟨ht, hne⟩)
    show Keeps (removeQueue s)
    have hstep : removeQueue s = .ok () { s with queue := none, task := .deleted } := by
      simp only [removeQueue, hq, hqueue, deleteQueue_some]
    rw [hstep]
    rw [Sys.held, hmsgs] at hacc
    have hhandle : s.wiresharkMsgQ ≠ none := by rw [hq]; exact Option.some_ne_none q
    exact ⟨hacc, ⟨hhandle, rfl⟩, hc.congr (fun h => by cases h) (fun h => by cases h) Iff.rfl,
      hi.packets⟩
  case deleted =>
    exact ⟨hacc, ⟨rfl, hopen.2⟩, hc.congr (fun h => by cases h) (fun h => by cases h) Iff.rfl,
      hi.packets⟩
  case cleared =>
    refine ⟨hacc, hopen, ?_, hi.packets⟩
    show Controlled false s.captureType .absent _ s.request
    have hgone : false = true ↔ Task.absent ≠ .absent := by decide
    cases hr : s.request with
    | idle =>
      refine ⟨hgone, fun htype => absurd ?_ hok, fun _ => .inl rfl⟩
      exact .inr ⟨ht, hr, htype⟩
    | set type =>
      rw [hr] at hc
      exact ⟨hgone, hc.2⟩
    | started =>
      rw [hr] at hc
      exact absurd trivial hc.2.2
    | ending msg | putting q msg =>
      rw [hr] at hc
      exact ⟨hgone, hc.2⟩

/-! ### Runs -/

theorem Inv.exec {act : Act} (hi : Inv s) (hok : ¬ Races s act) : Keeps (exec act s) := by
  cases act with
  | command type =>
    simp only [Wireshark.exec]
    split_ifs with h
    · exact hi.command h type
    · trivial
  | request => exact hi.requestNext fun h => hok (.inl ((hi.misputs_iff _).mp h))
  | packet dir => exact hi.packet dir
  | forward i => exact hi.forwardNext fun h => hok (.inl ((hi.misputs_iff _).mp h))
  | task => exact hi.taskNext fun h => hok (.inr ⟨rfl, h⟩)

theorem Inv.of_exec {act : Act} (hi : Inv s) (hok : ¬ Races s act) {o : Unit}
    (h : Wireshark.exec act s = .ok o s') : Inv s' := by
  have hkeeps := hi.exec hok
  rw [h] at hkeeps
  exact hkeeps

theorem Inv.keepsCapture {act : Act} (hi : Inv s) (hok : ¬ Races s act) : KeepsCapture s act := by
  refine ⟨fun h => hok (.inl ((hi.misputs_iff act).mp h)), fun s' h => ?_,
    fun s' h => (hi.of_exec hok h).accounted, fun s' h => (hi.of_exec hok h).runs⟩
  have hkeeps := hi.exec hok
  rw [h] at hkeeps
  exact hkeeps

/-- A step that races loses a message, or leaves no task after a command 1. -/
theorem Inv.not_keepsCapture {act : Act} (hi : Inv s) (h : Races s act) : ¬ KeepsCapture s act := by
  intro hk
  have hopen := hi.opened
  rcases h with h | ⟨rfl, ⟨ht, hmsgs⟩ | ⟨ht, hr, htype⟩⟩
  · exact hk.puts ((hi.misputs_iff act).mpr h)
  · rw [ht] at hopen
    obtain ⟨q, msgs, hq, hqueue⟩ := hopen
    have hstep : Wireshark.exec .task s = .ok () { s with queue := none, task := .deleted } := by
      refine (congrFun (congrArg Wireshark.taskNext ht) s).trans ?_
      simp only [Wireshark.taskNext, removeQueue, hq, hqueue, deleteQueue_some]
    refine absurd (hk.accounted _ hstep) (hi.accounted.not_of_lost ?_)
    have hlen := List.length_pos_of_ne_nil hmsgs
    simp only [Sys.held, List.length_map, List.length_append, messages_none, List.length_nil]
    omega
  · have hstep : Wireshark.exec .task s = .ok () { s with tskHandle := false, task := .absent } :=
      congrFun (congrArg Wireshark.taskNext ht) s
    exact (hk.runs _ hstep ⟨hr, .inl rfl⟩).mpr htype rfl

/-- **When a run keeps the capture.** -/
theorem capture_kept_iff (acts : List Act) :
    Along exec KeepsCapture acts start ↔ Along exec (fun s act => ¬ Races s act) acts start := by
  refine (along_iff_of_invariant Inv (fun s act hi => ?_) (fun _ _ _ _ hi hok h => hi.of_exec hok h)
    inv_start).symm
  exact ⟨hi.keepsCapture, fun hk hr => hi.not_keepsCapture hr hk⟩

/-- After the commands 1, 0 and 1, of which the last found the handle of a task that had yet to
take the end message, the task is about to clear its handle. -/
def restarted : Sys where
  wiresharkSet := true
  tskHandle := true
  wiresharkMsgQ := none
  queue := none
  queues := 1
  task := .cleared
  request := .idle
  forwards := []
  captureType := true
  allocated := 1
  freed := [0]

/-- No task runs then. -/
theorem not_capture_kept : ¬ ∀ acts : List Act, Along exec KeepsCapture acts start := by
  intro h
  have hrun : [.command true, .request, .request, .task, .command false, .request, .request,
      .request, .command true, .request, .task, .task, .task, .task].mapM exec start =
        .ok (List.replicate 14 ()) restarted :=
    mapM_cons_ok rfl <| mapM_cons_ok rfl <| mapM_cons_ok rfl <| mapM_cons_ok rfl <|
      mapM_cons_ok rfl <| mapM_cons_ok rfl <| mapM_cons_ok rfl <| mapM_cons_ok rfl <|
      mapM_cons_ok rfl <| mapM_cons_ok rfl <| mapM_cons_ok rfl <| mapM_cons_ok rfl <|
      mapM_cons_ok rfl <| mapM_cons_ok rfl <| mapM_nil _ _
  have hlast : Along exec KeepsCapture [.task] restarted := Along.of_append (h _) hrun
  exact (hlast.1.runs { restarted with tskHandle := false, task := .absent } rfl
    ⟨rfl, .inl rfl⟩).mpr rfl rfl

end XY1100.Wireshark
