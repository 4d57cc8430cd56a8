import Mathlib.Tactic
import XY1100.Support.Calls

/-!
# Socket — the asynchronous socket layer

`xy_async_socket.c` keeps a table `xy_socket_list` of the sockets an application created, under one
mutex.  The TCP/IP thread raises the events of a connection: it looks the descriptor up, tests the
callback registered in its slot, and puts a message for the socket thread into a queue of two,
waiting for room with the mutex held.  The socket thread takes a message, looks the descriptor up
again and calls the callback it finds.  The application threads create, use and close sockets, and
so does a callback, on the socket thread.

A step of the system is one section of one thread: what a function does between taking and
releasing the mutex, or one call of the TCP/IP stack, or one operation on the queue.  The stack may
return for a new socket any descriptor that is not open.

Three things are not in the code.  A socket carries the number `sock` of the `socket()` call that
opened it, so that two sockets of one descriptor are told apart; an event carries the `sock` that
raised it and a `number`; and the state records which callbacks each socket registered and which
events were delivered to which callback.
-/

namespace XY1100.Socket

/-- The socket thread, the TCP/IP thread and the application's threads. -/
inductive Thread
  | skt
  | tcpip
  | app (n : Nat)
  deriving Repr, DecidableEq

/-- `MAX_SOCKET`, which is `MEMP_NUM_NETCONN`. -/
def maxSocket : Nat := 10

/-- The room of `skt_thd_msg_q`. -/
def msgQueueSize : Nat := 2

/-- `enum sock_type`. -/
inductive SockType
  | tcp
  | udp
  deriving Repr, DecidableEq

/-- `enum protocol_ver`. -/
inductive ProtocolVer
  | ipv4
  | ipv6
  deriving Repr, DecidableEq

/-- `enum socket_status_t`, without the value for no socket. -/
inductive Status
  | created
  | connecting
  | connected
  | closing
  | closed
  deriving Repr, DecidableEq

/-- The address of a callback function. -/
abbrev Callback := Nat

/-- `struct xy_socket_list_t`, with the socket the slot was made for. -/
structure Slot where
  sktFd : Int
  status : Status
  protocol : SockType
  afFamily : ProtocolVer
  eventCallback : Option Callback
  sendSize : Int
  ackedSize : Int
  sock : Nat
  deriving Repr, DecidableEq

/-- `enum socket_event_id`. -/
inductive EventId
  | connectRsp
  | sendRsp
  | recvDataInd
  | closeInd
  | errInd
  deriving Repr, DecidableEq

/-- `struct sock_event_type`, with the socket that raised the event and the event's number. -/
structure SockEvent where
  evId : EventId
  sktFd : Int
  err : Int
  dataLen : Int
  sock : Nat
  number : Nat
  deriving Repr, DecidableEq

/-- What the stack reports to `xy_async_socket_api_event`: data acknowledged, data to read
(`FIONREAD` bytes of it), the peer's close (a null `pbuf`), a connection made, an error, and the
events the function ignores. -/
inductive LwipEvent
  | sent (size : Nat)
  | recv (availsize : Int)
  | recvClosed
  | connected
  | err (code : Int)
  | other
  deriving Repr, DecidableEq

/-- The functions of the layer that look a descriptor up first. -/
inductive Use
  | register (pcallback : Option Callback)
  | bind
  | connect (status : Status)
  | send (ret : Nat)
  | getAckedSize
  | getSentSize
  | getStatus
  | close
  | apiEvent (event : LwipEvent) (sock number : Nat)
  | post (event : SockEvent)
  | deliver (event : SockEvent)
  deriving Repr, DecidableEq

/-- Where a thread is: between two sections of a function of the layer. -/
inductive Pc
  /-- In no function. -/
  | idle
  /-- `xy_socket_create`: `socket()` has returned. -/
  | opened (fd : Int) (type : SockType) (domain : ProtocolVer) (sock : Nat)
  /-- `xy_socket_create`: no slot was empty. -/
  | dropping (fd : Int) (sock : Nat)
  /-- `xy_socket_create`: an empty slot was found. -/
  | chosen (fd : Int) (type : SockType) (domain : ProtocolVer) (sock : Nat) (idx : Fin maxSocket)
  /-- About to look a descriptor up. -/
  | lookup (use : Use) (fd : Int)
  /-- The slot of the descriptor was found, and was the slot of `sock` then. -/
  | found (use : Use) (fd : Int) (sock : Nat) (idx : Fin maxSocket)
  /-- `xy_socket_close`: the stack has closed the descriptor. -/
  | closed (fd : Int) (sock : Nat) (idx : Fin maxSocket)
  /-- `send_msg_2_skt_thd`: about to take the mutex. -/
  | sending (event : SockEvent)
  /-- `send_msg_2_skt_thd`: the mutex taken, the message not yet in the queue. -/
  | putting (event : SockEvent)
  /-- `send_msg_2_skt_thd`: the message in the queue. -/
  | unlocking
  /-- `skt_proc_thread`: the callback was read. -/
  | calling (event : SockEvent) (cbFunc : Option Callback)
  deriving Repr, DecidableEq

/-- The state of the system. -/
structure Sys where
  /-- `xy_socket_list`. -/
  slots : Fin maxSocket → Option Slot
  /-- The descriptors open in the stack, each with its socket. -/
  sockets : Int → Option Nat
  pc : Thread → Pc
  /-- The thread that holds `xy_socket_mutux` between two sections. -/
  mutex : Option Thread
  /-- `skt_thd_msg_q`, the message to be taken first at the head. -/
  queue : List SockEvent
  /-- The socket thread is in a callback. -/
  inCallback : Bool
  /-- The sockets opened and the events raised so far. -/
  opens : Nat
  events : Nat
  registered : List (Nat × Callback)
  delivered : List (SockEvent × Callback)

/-- No socket created, no thread in the layer. -/
def start : Sys where
  slots := fun _ => none
  sockets := fun _ => none
  pc := fun _ => .idle
  mutex := none
  queue := []
  inCallback := false
  opens := 0
  events := 0
  registered := []
  delivered := []

/-- Why a section does not come to its end: it must wait, it goes through the pointer of an empty
slot, or it calls a null callback. -/
inductive Stop
  | waits
  | nullSlot
  | nullCallback
  deriving Repr, DecidableEq

/-- A thread goes on to `pc`. -/
def Sys.goto (s : Sys) (t : Thread) (pc : Pc) : Sys := { s with pc := Function.update s.pc t pc }

/-! ### Creating a socket -/

/-- `find_empty_socket_idx`. -/
def findEmptySocketIdx (slots : Fin maxSocket → Option Slot) : Option (Fin maxSocket) :=
  (List.finRange maxSocket).find? fun num => (slots num).isNone

/-- `xy_socket_create` up to the return of `socket()`. -/
def socketCall (t : Thread) (fd : Int) (type : SockType) (domain : ProtocolVer) (s : Sys) : Sys :=
  { s with sockets := Function.update s.sockets fd (some s.opens), opens := s.opens + 1 }.goto t
    (.opened fd type domain s.opens)

/-- The search for an empty slot. -/
def searchEmpty (t : Thread) (fd : Int) (type : SockType) (domain : ProtocolVer) (sock : Nat)
    (s : Sys) : Sys :=
  match findEmptySocketIdx s.slots with
  | none => s.goto t (.dropping fd sock)
  | some idx => s.goto t (.chosen fd type domain sock idx)

/-- The descriptor for which there was no slot is closed. -/
def dropFd (t : Thread) (fd : Int) (s : Sys) : Sys :=
  { s with sockets := Function.update s.sockets fd none }.goto t .idle

/-- The slot `xy_socket_create` makes. -/
def newSlot (fd : Int) (type : SockType) (domain : ProtocolVer) (sock : Nat) : Slot :=
  ⟨fd, .created, type, domain, none, 0, 0, sock⟩

/-- The slot found is filled. -/
def storeSlot (t : Thread) (fd : Int) (type : SockType) (domain : ProtocolVer) (sock : Nat)
    (idx : Fin maxSocket) (s : Sys) : Sys :=
  { s with slots := Function.update s.slots idx (some (newSlot fd type domain sock)) }.goto t .idle

/-! ### Looking a descriptor up -/

/-- `find_valid_socket_idx_by_fd`. -/
def findValidSocketIdxByFd (slots : Fin maxSocket → Option Slot) (fd : Int) :
    Option (Fin maxSocket) :=
  (List.finRange maxSocket).find? fun num => (slots num).any fun slot => slot.sktFd = fd

/-- What an event of the stack changes in the slot, for the events that change it. -/
def LwipEvent.onSlot : LwipEvent → Option (Slot → Slot)
  | .sent size => some fun slot => { slot with ackedSize := slot.ackedSize + size }
  | .recvClosed => some fun slot => { slot with status := .closing }
  | .connected => some fun slot => { slot with status := .connected }
  | .recv _ | .err _ | .other => none

/-- The event posted to the application for an event of the stack. -/
def LwipEvent.posted (fd : Int) (sock number : Nat) : LwipEvent → Option SockEvent
  | .sent size => some ⟨.sendRsp, fd, 0, size, sock, number⟩
  | .recv availsize =>
      if 0 < availsize then some ⟨.recvDataInd, fd, 0, availsize, sock, number⟩ else none
  | .recvClosed => some ⟨.closeInd, fd, 0, 0, sock, number⟩
  | .connected => some ⟨.connectRsp, fd, 0, 0, sock, number⟩
  | .err code => some ⟨.errInd, fd, code, 0, sock, number⟩
  | .other => none

/-- `xy_async_socket_api_event` goes on to `xy_post_event_to_app`, or returns. -/
def LwipEvent.toPost (fd : Int) (sock number : Nat) (event : LwipEvent) : Pc :=
  match event.posted fd sock number with
  | none => .idle
  | some ev => .lookup (.post ev) fd

/-- Where a function goes on with the slot it found.  An event of the stack that changes nothing
in the slot is posted at once. -/
def Use.afterFind (use : Use) (fd : Int) (sock : Nat) (idx : Fin maxSocket) : Pc :=
  match use with
  | .apiEvent event raiser number =>
      if event.onSlot.isSome then .found use fd sock idx else event.toPost fd raiser number
  | _ => .found use fd sock idx

/-- The lookup.  A function that finds no slot returns. -/
def searchFd (t : Thread) (use : Use) (fd : Int) (s : Sys) : Sys :=
  match findValidSocketIdxByFd s.slots fd with
  | none => s.goto t .idle
  | some idx =>
      match s.slots idx with
      | none => s.goto t .idle
      | some slot => s.goto t (use.afterFind fd slot.sock idx)

/-! ### Using the slot found -/

/-- What a function changes in the slot it found. -/
def Use.onSlot (use : Use) (slot : Slot) : Slot :=
  match use with
  | .register pcallback => { slot with eventCallback := pcallback }
  | .connect status => { slot with status := status }
  | .send ret => { slot with sendSize := slot.sendSize + ret }
  | .apiEvent event _ _ => (event.onSlot.getD id) slot
  | .bind | .getAckedSize | .getSentSize | .getStatus | .close | .post _ | .deliver _ => slot

/-- Where a function goes on after it used the slot.  `xy_post_event_to_app` sends the event if
there is a callback; `skt_proc_thread` calls what it read. -/
def Use.afterUse (use : Use) (fd : Int) (slot : Slot) : Pc :=
  match use with
  | .apiEvent event sock number => event.toPost fd sock number
  | .post event => if slot.eventCallback.isSome then .sending event else .idle
  | .deliver event => .calling event slot.eventCallback
  | .register _ | .bind | .connect _ | .send _ | .getAckedSize | .getSentSize | .getStatus
  | .close => .idle

/-- The registrations after a function used the slot it found for `sock`. -/
def Use.registers (use : Use) (sock : Nat) (registered : List (Nat × Callback)) :
    List (Nat × Callback) :=
  match use with
  | .register (some cb) => (sock, cb) :: registered
  | _ => registered

/-- The slot found is read and changed, through the pointer in the table. -/
def useSlot (t : Thread) (use : Use) (fd : Int) (sock : Nat) (idx : Fin maxSocket) :
    EStateM Stop Sys Unit := fun s =>
  match s.slots idx with
  | none => .error .nullSlot s
  | some slot =>
      .ok () ({ s with
        slots := Function.update s.slots idx (some (use.onSlot slot))
        registered := use.registers sock s.registered }.goto t (use.afterUse fd slot))

/-! ### Closing a socket -/

/-- The stack's `close`, which fails for a descriptor that is not open and may fail for one that
is. -/
def lwipClose (t : Thread) (fd : Int) (sock : Nat) (idx : Fin maxSocket) (succeeds : Bool)
    (s : Sys) : Sys :=
  if succeeds ∧ (s.sockets fd).isSome then
    { s with sockets := Function.update s.sockets fd none }.goto t (.closed fd sock idx)
  else s.goto t .idle

/-- The slot of the closed socket is freed, through the pointer in the table. -/
def freeSlot (t : Thread) (idx : Fin maxSocket) : EStateM Stop Sys Unit := fun s =>
  match s.slots idx with
  | none => .error .nullSlot s
  | some _ => .ok () ({ s with slots := Function.update s.slots idx none }.goto t .idle)

/-! ### The message queue -/

/-- `send_msg_2_skt_thd` takes the mutex. -/
def takeMutex (t : Thread) (event : SockEvent) (s : Sys) : Sys :=
  { s with mutex := some t }.goto t (.putting event)

/-- `osMessageQueuePut`, which waits for room. -/
def putMessage (t : Thread) (event : SockEvent) : EStateM Stop Sys Unit := fun s =>
  if s.queue.length < msgQueueSize then
    .ok () ({ s with queue := s.queue ++ [event] }.goto t .unlocking)
  else .error .waits s

/-- `send_msg_2_skt_thd` releases the mutex. -/
def releaseMutex (t : Thread) (s : Sys) : Sys := { s with mutex := none }.goto t .idle

/-- `osMessageQueueGet`, which waits for a message. -/
def getMessage : EStateM Stop Sys Unit := fun s =>
  match s.queue with
  | [] => .error .waits s
  | event :: queue =>
      .ok () ({ s with queue := queue }.goto .skt (.lookup (.deliver event) event.sktFd))

/-- The callback is called. -/
def callCallback (t : Thread) (event : SockEvent) (cbFunc : Option Callback) :
    EStateM Stop Sys Unit := fun s =>
  match cbFunc with
  | none => .error .nullCallback s
  | some cb =>
      .ok () ({ s with inCallback := true, delivered := s.delivered ++ [(event, cb)] }.goto t .idle)

/-! ### The steps of the system -/

/-- A section that needs the mutex. -/
def locked (body : EStateM Stop Sys Unit) : EStateM Stop Sys Unit := fun s =>
  if s.mutex.isSome then .error .waits s else body s

/-- A section that comes to its end. -/
def returns (body : Sys → Sys) : EStateM Stop Sys Unit := fun s => .ok () (body s)

/-- The next section of a thread that is in a function of the layer.  `succeeds` is the answer of
the stack where the section is a `close`. -/
def nextSection (t : Thread) (succeeds : Bool) : Pc → EStateM Stop Sys Unit
  | .idle => fun s => .error .waits s
  | .opened fd type domain sock => locked (returns (searchEmpty t fd type domain sock))
  | .dropping fd _ => returns (dropFd t fd)
  | .chosen fd type domain sock idx => locked (returns (storeSlot t fd type domain sock idx))
  | .lookup use fd => locked (returns (searchFd t use fd))
  | .found use fd sock idx =>
      if use = .close then returns (lwipClose t fd sock idx succeeds)
      else locked (useSlot t use fd sock idx)
  | .closed _ _ idx => locked (freeSlot t idx)
  | .sending event => locked (returns (takeMutex t event))
  | .putting event => putMessage t event
  | .unlocking => returns (releaseMutex t)
  | .calling event cbFunc => callCallback t event cbFunc

/-- The functions an application calls. -/
def Use.isApi : Use → Bool
  | .apiEvent _ _ _ | .post _ | .deliver _ => false
  | .register _ | .bind | .connect _ | .send _ | .getAckedSize | .getSentSize | .getStatus
  | .close => true

/-- A thread can call the layer: one of the application's in no function of it, or the socket
thread from a callback. -/
def Sys.mayCall (s : Sys) (t : Thread) : Prop :=
  t ≠ .tcpip ∧ s.pc t = .idle ∧ (t = .skt → s.inCallback = true)

instance (s : Sys) (t : Thread) : Decidable (s.mayCall t) :=
  inferInstanceAs (Decidable (_ ∧ _ ∧ _))

/-- A step of a thread. -/
inductive Act
  /-- `xy_socket_create`, for which the stack returns `fd`. -/
  | create (fd : Int) (type : SockType) (domain : ProtocolVer)
  /-- Another function of the layer, called for `fd`. -/
  | call (use : Use) (fd : Int)
  /-- The connection of an open descriptor has an event. -/
  | raise (event : LwipEvent) (fd : Int)
  /-- The next section of the function the thread is in. -/
  | next (succeeds : Bool)
  /-- The socket thread takes a message. -/
  | get
  /-- The callback returns. -/
  | ret
  deriving Repr, DecidableEq

/-- `xy_async_socket_api_event` is called for the connection of `fd`. -/
def raiseEvent (event : LwipEvent) (fd : Int) : EStateM Stop Sys Unit := fun s =>
  match s.sockets fd with
  | none => .error .waits s
  | some sock =>
      .ok () ({ s with events := s.events + 1 }.goto .tcpip
        (.lookup (.apiEvent event sock s.events) fd))

/-- A step of the system. -/
def exec (step : Thread × Act) : EStateM Stop Sys Unit := fun s =>
  match step with
  | (t, .create fd type domain) =>
      if s.mayCall t ∧ 0 ≤ fd ∧ s.sockets fd = none then
        returns (socketCall t fd type domain) s
      else .error .waits s
  | (t, .call use fd) =>
      if s.mayCall t ∧ use.isApi then returns (·.goto t (.lookup use fd)) s else .error .waits s
  | (t, .raise event fd) =>
      if t = .tcpip ∧ s.pc t = .idle then raiseEvent event fd s else .error .waits s
  | (t, .next succeeds) => nextSection t succeeds (s.pc t) s
  | (t, .get) =>
      if t = .skt ∧ s.pc t = .idle ∧ s.inCallback = false then getMessage s else .error .waits s
  | (t, .ret) =>
      if t = .skt ∧ s.pc t = .idle ∧ s.inCallback = true then
        .ok () { s with inCallback := false }
      else .error .waits s

end XY1100.Socket
