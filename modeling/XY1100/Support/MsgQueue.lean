import Mathlib.Data.List.Basic

/-!
# Support — message queues that come and go

A queue is used through its handle, and may have been deleted since the handle was read.  At most
one queue exists at a time, so the operations are on it or on none: using a handle that is not its
handle is the use of a deleted queue.
-/

namespace Support

/-- A message queue: its handle, and its messages, the one to be taken first at the head. -/
structure MsgQueue (α : Type*) where
  handle : Nat
  msgs : List α
  deriving DecidableEq, Repr

/-- Why an operation on a queue does not come to its end. -/
inductive QueueStop
  | waits
  | deletedQueue
  deriving DecidableEq, Repr

variable {α : Type*} {queue : Option (MsgQueue α)} {q : Nat} {m : α} {msgs : List α} {size : Nat}

/-- The messages in the queue that exists. -/
def messages : Option (MsgQueue α) → List α
  | none => []
  | some mq => mq.msgs

@[simp] theorem messages_none : messages (none : Option (MsgQueue α)) = [] := rfl

@[simp] theorem messages_some : messages (some ⟨q, msgs⟩) = msgs := rfl

/-- A message is put into the queue of a handle, which has room for `size`. -/
def putMsg (size : Nat) (queue : Option (MsgQueue α)) (q : Nat) (m : α) :
    Except QueueStop (MsgQueue α) :=
  match queue with
  | none => .error .deletedQueue
  | some mq =>
      if mq.handle = q then
        if mq.msgs.length < size then .ok ⟨q, mq.msgs ++ [m]⟩ else .error .waits
      else .error .deletedQueue

/-- The first message of the queue of a handle, and what is left; nothing if it is empty. -/
def getMsg (queue : Option (MsgQueue α)) (q : Nat) : Except QueueStop (Option (α × MsgQueue α)) :=
  match queue with
  | none => .error .deletedQueue
  | some mq =>
      if mq.handle = q then
        match mq.msgs with
        | [] => .ok none
        | m :: msgs => .ok (some (m, ⟨q, msgs⟩))
      else .error .deletedQueue

/-- The queue of a handle is deleted. -/
def deleteQueue (queue : Option (MsgQueue α)) (q : Nat) : Except QueueStop (Option (MsgQueue α)) :=
  match queue with
  | none => .error .deletedQueue
  | some mq => if mq.handle = q then .ok none else .error .deletedQueue

/-- The queue of a handle exists. -/
def Exists (queue : Option (MsgQueue α)) (q : Nat) : Prop := ∃ msgs, queue = some ⟨q, msgs⟩

theorem putMsg_of_not_exists (h : ¬ Exists queue q) :
    putMsg size queue q m = .error .deletedQueue := by
  cases queue with
  | none => rfl
  | some mq =>
    refine if_neg fun he => h ⟨mq.msgs, ?_⟩
    rw [← he]

theorem putMsg_some : putMsg size (some ⟨q, msgs⟩) q m =
    if msgs.length < size then .ok ⟨q, msgs ++ [m]⟩ else .error .waits := if_pos rfl

@[simp] theorem getMsg_nil : getMsg (some ⟨q, ([] : List α)⟩) q = .ok none := if_pos rfl

@[simp] theorem getMsg_cons : getMsg (some ⟨q, m :: msgs⟩) q = .ok (some (m, ⟨q, msgs⟩)) :=
  if_pos rfl

@[simp] theorem deleteQueue_some : deleteQueue (some ⟨q, msgs⟩) q = .ok none := if_pos rfl

end Support
