import Mathlib.Data.UInt
import XY1100.Coap.SendQueue

/-!
# Coap — retransmissions

Confirmable messages wait in the send queue of a context, and a timer of lwIP sends them again
(`net.c` with lwIP).  Events come in any order, and the clock shows any times.

* `messages_accounted`: in every run a message that waits has been sent once more than it was
  retransmitted, no message is sent more often than its session allows, one that is given up has
  been sent as often as that, and a timer is set as long as messages wait.
* `execute_delays`: the timer handler puts each message that stays off, by the sum of the times of
  those it handled.  `coap_pop_next` leaves the time of a node to the next one, and the handler takes
  the same time off `elapsed`.
-/

namespace XY1100.Coap
open Support (positions insertGap widen)

/-! ### The code -/

/-- What does not change: the clock, by the number of its reading, and `max_retransmit` of the
sessions. -/
structure Net where
  clock : Nat → UInt32
  maxRetransmit : Nat → UInt32

/-- A `coap_nack_reason_t`. -/
inductive NackReason
  | tooManyRetries | notDeliverable | rst | tlsFailed | icmpIssue
  deriving DecidableEq

/-- What leaves the library: a datagram of a message, or a call of the application's handler. -/
inductive Output
  | sent (session pdu : Nat)
  | nack (session pdu : Nat) (reason : NackReason)
  deriving DecidableEq

/-- The part of a `coap_context_t` that retransmission works on.  Each message gets the next number
as the name of its PDU. -/
structure CoapContext where
  sendqueue : List QueueNode := []
  sendqueueBasetime : UInt32 := 0
  /-- The delay the timer was set to, where `timer_configured`. -/
  timer : Option UInt32 := none
  reads : Nat := 0
  pdus : Nat := 0
  out : List Output := []

/-- `coap_ticks`. -/
def coapTicks (net : Net) (ctx : CoapContext) : UInt32 × CoapContext :=
  (net.clock ctx.reads, { ctx with reads := ctx.reads + 1 })

/-- `coap_retransmittimer_restart`. -/
def coapRetransmittimerRestart (net : Net) (ctx : CoapContext) : CoapContext :=
  match ctx.sendqueue with
  | [] => { ctx with timer := none }
  | q :: _ =>
    let (now, ctx) := coapTicks net ctx
    let elapsed := now - ctx.sendqueueBasetime
    { ctx with timer := some (if elapsed ≤ q.t then q.t - elapsed else 0) }

/-- How long a message waits for its acknowledgement. -/
def QueueNode.wait (node : QueueNode) : UInt32 := node.timeout <<< node.retransmitCnt.toUInt32

/-- The part of `coap_wait_ack` and `coap_retransmit` that puts a node into the queue. -/
def enqueue (net : Net) (ctx : CoapContext) (node : QueueNode) : CoapContext :=
  let (now, ctx) := coapTicks net ctx
  match ctx.sendqueue with
  | [] =>
    coapRetransmittimerRestart net
      { ctx with
        sendqueue := coapInsertNode [] { node with t := node.wait }, sendqueueBasetime := now }
  | q :: _ =>
    -- relative to `sendqueue_basetime`
    let node := { node with t := now - ctx.sendqueueBasetime + node.wait }
    let queued := { ctx with sendqueue := coapInsertNode ctx.sendqueue node }
    -- the timer is set for the first node
    if node.t < q.t then coapRetransmittimerRestart net queued else queued

/-- `coap_wait_ack`. -/
def coapWaitAck (net : Net) (ctx : CoapContext) (node : QueueNode) : CoapContext :=
  enqueue net ctx node

/-- `coap_send` over UDP: whether the message is confirmable, whether the socket takes it, and
whether there is memory for a node are given. -/
def coapSend (net : Net) (ctx : CoapContext) (session : Nat) (id : UInt16) (token : List UInt8)
    (timeout : UInt32) (con written memory : Bool) : CoapContext :=
  let pdu := ctx.pdus
  let ctx := { ctx with pdus := ctx.pdus + 1 }
  if written = false then ctx
  else
    let ctx := { ctx with out := ctx.out ++ [.sent session pdu] }
    if con = false ∨ memory = false then ctx
    else
      coapWaitAck net ctx
        { timeout := timeout, session := session, id := id, token := token, pdu := pdu }

/-- `coap_retransmit`. -/
def coapRetransmit (net : Net) (ctx : CoapContext) (node : QueueNode) : CoapContext :=
  if node.retransmitCnt.toUInt32 < net.maxRetransmit node.session then
    let node := { node with retransmitCnt := node.retransmitCnt + 1 }
    let ctx := enqueue net ctx node
    { ctx with out := ctx.out ++ [.sent node.session node.pdu] }
  else { ctx with out := ctx.out ++ [.nack node.session node.pdu .tooManyRetries] }

/-- The loop of `coap_retransmittimer_execute`. -/
def executeLoop (net : Net) : Nat → CoapContext → UInt32 → CoapContext
  | 0, ctx, _ => ctx
  | n + 1, ctx, elapsed =>
    match ctx.sendqueue with
    | [] => ctx
    | q :: rest =>
      if elapsed < q.t then { ctx with sendqueue := { q with t := q.t - elapsed } :: rest }
      else
        executeLoop net n
          (coapRetransmit net { ctx with sendqueue := addTime q.t rest } q) (elapsed - q.t)

/-- How often the nodes of a queue can be retransmitted, and given up. -/
def turns (net : Net) (queue : List QueueNode) : Nat :=
  (queue.map fun q => (net.maxRetransmit q.session).toNat - q.retransmitCnt.toNat + 1).sum

/-- `coap_retransmittimer_execute`. -/
def coapRetransmittimerExecute (net : Net) (ctx : CoapContext) : CoapContext :=
  let (now, ctx) := coapTicks net { ctx with timer := none }
  let ctx := executeLoop net (turns net ctx.sendqueue + 1) ctx (now - ctx.sendqueueBasetime)
  coapRetransmittimerRestart net { ctx with sendqueueBasetime := now }

/-- `coap_cancel_session_messages`; the times of the other nodes stay. -/
def coapCancelSessionMessages (ctx : CoapContext) (session : Nat) (reason : NackReason) :
    CoapContext :=
  { ctx with
    sendqueue := ctx.sendqueue.filter (·.session ≠ session),
    out := ctx.out ++
      (ctx.sendqueue.filter (·.session = session)).map fun q => .nack session q.pdu reason }

/-- `coap_cancel_all_messages`. -/
def coapCancelAllMessages (ctx : CoapContext) (session : Nat) (token : List UInt8) : CoapContext :=
  { ctx with
    sendqueue := ctx.sendqueue.filter fun q => ¬ (q.session = session ∧ q.token = token) }

/-- What happens to a context. -/
inductive NetEvent
  | send (session : Nat) (id : UInt16) (token : List UInt8) (timeout : UInt32)
      (con written memory : Bool)
  /-- An acknowledgement, without what it may carry. -/
  | ack (session : Nat) (id : UInt16)
  | rst (session : Nat) (id : UInt16)
  /-- A response, also one that an acknowledgement carries. -/
  | response (session : Nat) (token : List UInt8)
  /-- No caller says that the message was retransmitted too often. -/
  | disconnected (session : Nat) (reason : NackReason) (other : reason ≠ .tooManyRetries)
  | timeout

/-- What the library does: `coap_send`, `coap_dispatch` with `handle_response`,
`coap_session_disconnected`, and the timer handler, where a timer is set. -/
def netStep (net : Net) (ctx : CoapContext) : NetEvent → CoapContext
  | .send session id token timeout con written memory =>
    coapSend net ctx session id token timeout con written memory
  | .ack session id =>
    match coapRemoveFromQueue ctx.sendqueue session id with
    | none => ctx
    | some (_, queue) => { ctx with sendqueue := queue }
  | .rst session id =>
    match coapRemoveFromQueue ctx.sendqueue session id with
    | none => ctx
    | some (sent, queue) =>
      { ctx with sendqueue := queue, out := ctx.out ++ [.nack sent.session sent.pdu .rst] }
  | .response session token => coapCancelAllMessages ctx session token
  | .disconnected session reason _ =>
    if reason = .icmpIssue then ctx else coapCancelSessionMessages ctx session reason
  | .timeout =>
    match ctx.timer with
    | none => ctx
    | some _ => coapRetransmittimerExecute net ctx

def netRun (net : Net) (events : List NetEvent) : CoapContext := events.foldl (netStep net) {}

/-! ### Accounts -/

/-- The message an output is about. -/
def Output.pdu : Output → Nat
  | .sent _ pdu => pdu
  | .nack _ pdu _ => pdu

/-- The output tells the application that a message failed. -/
def Output.nacks (pdu : Nat) : Output → Bool
  | .sent _ _ => false
  | .nack _ p _ => p = pdu

theorem count_append_sent (out : List Output) (s p s' p' : Nat) :
    (out ++ [Output.sent s p]).count (.sent s' p') =
      out.count (.sent s' p') + if s' = s ∧ p' = p then 1 else 0 := by
  rw [List.count_append]
  by_cases h : s' = s ∧ p' = p
  · rw [if_pos h, h.1, h.2, List.count_singleton_self]
  · have hother : Output.sent s' p' ∉ [Output.sent s p] := by simpa using h
    rw [if_neg h, List.count_eq_zero.mpr hother]

theorem count_append_nack (out : List Output) (s p s' p' : Nat) (reason : NackReason) :
    (out ++ [Output.nack s p reason]).count (.sent s' p') = out.count (.sent s' p') := by
  simp [List.count_append]

theorem nacks_append_sent (out : List Output) (s p p' : Nat) :
    (out ++ [Output.sent s p]).countP (Output.nacks p') = out.countP (Output.nacks p') := by
  simp [List.countP_append, Output.nacks]

theorem nacks_append_nack (out : List Output) (s p p' : Nat) (reason : NackReason) :
    (out ++ [Output.nack s p reason]).countP (Output.nacks p') =
      out.countP (Output.nacks p') + if p = p' then 1 else 0 := by
  simp [List.countP_append, List.countP_singleton, Output.nacks]

/-- The accounts of the messages that wait and of what has left the library. -/
structure Ledger (net : Net) (items : List QueueNode) (pdus : Nat) (out : List Output) : Prop where
  named : ∀ q ∈ items, q.pdu < pdus
  namedOut : ∀ o ∈ out, o.pdu < pdus
  distinct : (items.map (·.pdu)).Nodup
  /-- A message that waits has been sent once more than it was retransmitted. -/
  waiting : ∀ q ∈ items, q.retransmitCnt.toNat ≤ (net.maxRetransmit q.session).toNat ∧
    out.count (.sent q.session q.pdu) = q.retransmitCnt.toNat + 1
  /-- No message is sent more often than its session allows. -/
  bounded : ∀ s p, out.count (.sent s p) ≤ (net.maxRetransmit s).toNat + 1
  /-- One that is given up has been sent as often as that. -/
  givenUp : ∀ s p, .nack s p .tooManyRetries ∈ out →
    out.count (.sent s p) = (net.maxRetransmit s).toNat + 1
  /-- The application is told at most once that a message failed, and then it does not wait. -/
  once : ∀ p, out.countP (Output.nacks p) ≤ 1
  failed : ∀ q ∈ items, out.countP (Output.nacks q.pdu) = 0

section
variable {net : Net} {items items' : List QueueNode} {pdus : Nat} {out : List Output}

theorem Ledger.of_perm (h : Ledger net items pdus out) (hperm : items'.Perm items) :
    Ledger net items' pdus out where
  named q hq := h.named q (hperm.mem_iff.mp hq)
  namedOut := h.namedOut
  distinct := (hperm.map _).nodup_iff.mpr h.distinct
  waiting q hq := h.waiting q (hperm.mem_iff.mp hq)
  bounded := h.bounded
  givenUp := h.givenUp
  once := h.once
  failed q hq := h.failed q (hperm.mem_iff.mp hq)

/-- Messages that no longer wait. -/
theorem Ledger.of_sublist (h : Ledger net items pdus out) (hsub : items'.Sublist items) :
    Ledger net items' pdus out where
  named q hq := h.named q (hsub.subset hq)
  namedOut := h.namedOut
  distinct := (hsub.map _).nodup h.distinct
  waiting q hq := h.waiting q (hsub.subset hq)
  bounded := h.bounded
  givenUp := h.givenUp
  once := h.once
  failed q hq := h.failed q (hsub.subset hq)

/-- Nothing is known of a message that was not made yet. -/
theorem Ledger.unsent (h : Ledger net items pdus out) (session : Nat) :
    out.count (.sent session pdus) = 0 ∧ out.countP (Output.nacks pdus) = 0 := by
  constructor
  · exact List.count_eq_zero.mpr fun hmem => Nat.lt_irrefl _ (h.namedOut _ hmem)
  · refine List.countP_eq_zero.mpr fun o ho => ?_
    have hlt := h.namedOut o ho
    cases o with
    | sent => exact Bool.false_ne_true
    | nack s p r =>
      simp only [Output.nacks, Output.pdu, decide_eq_true_eq] at hlt ⊢
      omega

/-- A new message, which waits or does not. -/
theorem Ledger.send (h : Ledger net items pdus out) (session : Nat) :
    Ledger net items (pdus + 1) (out ++ [.sent session pdus]) := by
  have hunsent := h.unsent session
  refine ⟨fun q hq => (h.named q hq).trans (Nat.lt_succ_self _), ?_, h.distinct, ?_, ?_, ?_, ?_, ?_⟩
  · intro o ho
    rcases List.mem_append.mp ho with ho | ho
    · exact (h.namedOut o ho).trans (Nat.lt_succ_self _)
    · rw [List.mem_singleton.mp ho]
      exact Nat.lt_succ_self _
  · intro q hq
    have hne : ¬ (q.session = session ∧ q.pdu = pdus) :=
      fun hsame => (h.named q hq).ne hsame.2
    rw [count_append_sent, if_neg hne]
    exact h.waiting q hq
  · intro s p
    rw [count_append_sent]
    split_ifs with hsame
    · rw [hsame.1, hsame.2, hunsent.1]
      omega
    · exact h.bounded s p
  · intro s p hmem
    have hin : .nack s p .tooManyRetries ∈ out := by simpa using hmem
    have hne : ¬ (s = session ∧ p = pdus) := fun hsame => (h.namedOut _ hin).ne hsame.2
    rw [count_append_sent, if_neg hne]
    exact h.givenUp s p hin
  · intro p
    rw [nacks_append_sent]
    exact h.once p
  · intro q hq
    rw [nacks_append_sent]
    exact h.failed q hq

/-- The message waits. -/
theorem Ledger.wait {session : Nat} {node : QueueNode} (h : Ledger net items pdus out)
    (hsession : node.session = session) (hpdu : node.pdu = pdus) (hcnt : node.retransmitCnt = 0) :
    Ledger net (node :: items) (pdus + 1) (out ++ [.sent session pdus]) := by
  have hsend := h.send session
  have hunsent := h.unsent session
  refine ⟨?_, hsend.namedOut, ?_, ?_, hsend.bounded, hsend.givenUp, hsend.once, ?_⟩
  · intro q hq
    rcases List.mem_cons.mp hq with rfl | hq
    · rw [hpdu]
      exact Nat.lt_succ_self _
    · exact hsend.named q hq
  · rw [List.map_cons, List.nodup_cons]
    refine ⟨fun hmem => ?_, h.distinct⟩
    obtain ⟨q, hq, heq⟩ := List.mem_map.mp hmem
    exact (h.named q hq).ne (heq.trans hpdu)
  · intro q hq
    rcases List.mem_cons.mp hq with rfl | hq
    · rw [hsession, hpdu, hcnt, List.count_append, hunsent.1, List.count_singleton_self]
      exact ⟨Nat.zero_le _, rfl⟩
    · exact hsend.waiting q hq
  · intro q hq
    rcases List.mem_cons.mp hq with rfl | hq
    · rw [hpdu, List.countP_append, hunsent.2]
      rfl
    · exact hsend.failed q hq

/-- The messages behind the first one are others. -/
theorem Ledger.others {q : QueueNode} (h : Ledger net (q :: items) pdus out) :
    ∀ r ∈ items, r.pdu ≠ q.pdu := by
  intro r hr heq
  exact (List.nodup_cons.mp h.distinct).1 (List.mem_map.mpr ⟨r, hr, heq⟩)

/-- A message is retransmitted. -/
theorem Ledger.retransmit {q : QueueNode} (h : Ledger net (q :: items) pdus out)
    (hmax : net.maxRetransmit q.session < 32)
    (hcnt : q.retransmitCnt.toUInt32 < net.maxRetransmit q.session) :
    Ledger net ({ q with retransmitCnt := q.retransmitCnt + 1 } :: items) pdus
      (out ++ [.sent q.session q.pdu]) := by
  rw [UInt32.lt_iff_toNat_lt] at hmax hcnt
  rw [show (32 : UInt32).toNat = 32 from rfl] at hmax
  rw [UInt8.toNat_toUInt32] at hcnt
  have hnext : (q.retransmitCnt + 1).toNat = q.retransmitCnt.toNat + 1 := by
    rw [UInt8.toNat_add, show (1 : UInt8).toNat = 1 from rfl]
    omega
  obtain ⟨-, hsent⟩ := h.waiting q List.mem_cons_self
  have hfailed := h.failed q List.mem_cons_self
  have hself : (out ++ [Output.sent q.session q.pdu]).count (.sent q.session q.pdu) =
      q.retransmitCnt.toNat + 2 := by
    rw [count_append_sent, hsent, if_pos ⟨rfl, rfl⟩]
  refine ⟨?_, ?_, h.distinct, ?_, ?_, ?_, ?_, ?_⟩
  · intro r hr
    rcases List.mem_cons.mp hr with rfl | hr
    · exact h.named q List.mem_cons_self
    · exact h.named r (List.mem_cons_of_mem _ hr)
  · intro o ho
    rcases List.mem_append.mp ho with ho | ho
    · exact h.namedOut o ho
    · rw [List.mem_singleton.mp ho]
      exact h.named q List.mem_cons_self
  · intro r hr
    rcases List.mem_cons.mp hr with rfl | hr
    · refine ⟨hnext.trans_le hcnt, ?_⟩
      rw [hnext]
      exact hself
    · rw [count_append_sent, if_neg fun hsame => h.others r hr hsame.2]
      exact h.waiting r (List.mem_cons_of_mem _ hr)
  · intro s p
    by_cases hsame : s = q.session ∧ p = q.pdu
    · rw [hsame.1, hsame.2, hself]
      exact Nat.succ_le_succ hcnt
    · rw [count_append_sent, if_neg hsame]
      exact h.bounded s p
  · intro s p hmem
    have hin : .nack s p .tooManyRetries ∈ out := by simpa using hmem
    have hne : ¬ (s = q.session ∧ p = q.pdu) := by
      rintro ⟨-, rfl⟩
      exact List.countP_eq_zero.mp hfailed _ hin (by simp [Output.nacks])
    rw [count_append_sent, if_neg hne]
    exact h.givenUp s p hin
  · intro p
    rw [nacks_append_sent]
    exact h.once p
  · intro r hr
    rw [nacks_append_sent]
    rcases List.mem_cons.mp hr with rfl | hr
    · exact hfailed
    · exact h.failed r (List.mem_cons_of_mem _ hr)

/-- The application is told that a message failed. -/
theorem Ledger.nack {q : QueueNode} (h : Ledger net (q :: items) pdus out) (reason : NackReason)
    (hreason : reason = .tooManyRetries →
      ¬ q.retransmitCnt.toUInt32 < net.maxRetransmit q.session) :
    Ledger net items pdus (out ++ [.nack q.session q.pdu reason]) := by
  obtain ⟨hle, hsent⟩ := h.waiting q List.mem_cons_self
  have hfailed := h.failed q List.mem_cons_self
  have hrest := h.of_sublist (List.sublist_cons_self q items)
  refine ⟨hrest.named, ?_, hrest.distinct, ?_, ?_, ?_, ?_, ?_⟩
  · intro o ho
    rcases List.mem_append.mp ho with ho | ho
    · exact h.namedOut o ho
    · rw [List.mem_singleton.mp ho]
      exact h.named q List.mem_cons_self
  · intro r hr
    rw [count_append_nack]
    exact hrest.waiting r hr
  · intro s p
    rw [count_append_nack]
    exact h.bounded s p
  · intro s p hmem
    rw [count_append_nack]
    rcases List.mem_append.mp hmem with hin | hin
    · exact h.givenUp s p hin
    · simp only [List.mem_singleton, Output.nack.injEq] at hin
      obtain ⟨rfl, rfl, hr⟩ := hin
      have hdone := hreason hr.symm
      rw [UInt32.lt_iff_toNat_lt, UInt8.toNat_toUInt32] at hdone
      omega
  · intro p
    rw [nacks_append_nack]
    by_cases hp : q.pdu = p
    · rw [← hp, hfailed, if_pos rfl]
    · rw [if_neg hp]
      exact h.once p
  · intro r hr
    rw [nacks_append_nack, if_neg (h.others r hr).symm]
    exact h.failed r (List.mem_cons_of_mem _ hr)

end

/-! ### The queue keeps its messages -/

@[simp] theorem item_item (node : QueueNode) : node.item.item = node.item := rfl

theorem insert_items (queue : List QueueNode) (node : QueueNode) :
    ((coapInsertNode queue node).map QueueNode.item).Perm
      (node.item :: queue.map QueueNode.item) := by
  rw [← map_snd_schedule, schedule_insert, ← map_snd_schedule]
  exact (List.perm_orderedInsert _ _ _).map Prod.snd

@[simp] theorem addTime_items (t : UInt32) (queue : List QueueNode) :
    (addTime t queue).map QueueNode.item = queue.map QueueNode.item := by
  cases queue <;> rfl

theorem removeBehind_items {session : Nat} {id : UInt16} {p q : QueueNode}
    {queue rest : List QueueNode} (h : removeBehind session id p queue = some (q, rest)) :
    ((p :: queue).map QueueNode.item).Perm (q.item :: rest.map QueueNode.item) := by
  induction queue generalizing p rest with
  | nil => cases h
  | cons r queue ih =>
    unfold removeBehind at h
    split_ifs at h
    · cases h
      simpa using List.Perm.swap ..
    · obtain ⟨⟨q', rest'⟩, hr, heq⟩ := Option.map_eq_some_iff.mp h
      cases heq
      simp only [List.map_cons] at ih ⊢
      exact ((ih hr).cons _).trans (.swap ..)

theorem coapRemoveFromQueue_items {session : Nat} {id : UInt16} {q : QueueNode}
    {queue rest : List QueueNode} (h : coapRemoveFromQueue queue session id = some (q, rest)) :
    (queue.map QueueNode.item).Perm (q.item :: rest.map QueueNode.item) := by
  unfold coapRemoveFromQueue at h
  split at h
  · cases h
  · split_ifs at h
    · cases h
      simp
    · exact removeBehind_items h

/-- The accounts of a context. -/
def Accounts (net : Net) (ctx : CoapContext) : Prop :=
  Ledger net (ctx.sendqueue.map QueueNode.item) ctx.pdus ctx.out

/-- A timer is set as long as messages wait. -/
def TimerSet (ctx : CoapContext) : Prop := ctx.sendqueue ≠ [] → ctx.timer.isSome = true

/-- Setting the timer changes nothing else. -/
theorem restart_spec (net : Net) (ctx : CoapContext) :
    (coapRetransmittimerRestart net ctx).sendqueue = ctx.sendqueue ∧
      (coapRetransmittimerRestart net ctx).sendqueueBasetime = ctx.sendqueueBasetime ∧
      (coapRetransmittimerRestart net ctx).pdus = ctx.pdus ∧
      (coapRetransmittimerRestart net ctx).out = ctx.out ∧
      TimerSet (coapRetransmittimerRestart net ctx) := by
  unfold coapRetransmittimerRestart TimerSet
  split
  · rename_i hnil
    exact ⟨rfl, rfl, rfl, rfl, fun h => absurd hnil h⟩
  · exact ⟨rfl, rfl, rfl, rfl, fun _ => rfl⟩

/-- What is put into the queue waits with the others, and a timer is set. -/
theorem enqueue_spec (net : Net) (ctx : CoapContext) (node : QueueNode) :
    ((enqueue net ctx node).sendqueue.map QueueNode.item).Perm
        (node.item :: ctx.sendqueue.map QueueNode.item) ∧
      (enqueue net ctx node).pdus = ctx.pdus ∧ (enqueue net ctx node).out = ctx.out ∧
      (TimerSet ctx → TimerSet (enqueue net ctx node)) := by
  unfold enqueue coapTicks
  dsimp only
  split
  · rename_i hnil
    obtain ⟨hqueue, -, hpdus, hout, htimer⟩ := restart_spec net
      { ctx with
        sendqueue := coapInsertNode [] { node with t := node.wait },
        sendqueueBasetime := net.clock ctx.reads, reads := ctx.reads + 1 }
    rw [hqueue, hpdus, hout, hnil]
    exact ⟨insert_items [] _, rfl, rfl, fun _ => htimer⟩
  · rename_i q rest hcons
    have hperm := insert_items ctx.sendqueue
      { node with t := net.clock ctx.reads - ctx.sendqueueBasetime + node.wait }
    split_ifs
    · obtain ⟨hqueue, -, hpdus, hout, htimer⟩ := restart_spec net
        { ctx with
          sendqueue := coapInsertNode ctx.sendqueue
            { node with t := net.clock ctx.reads - ctx.sendqueueBasetime + node.wait },
          reads := ctx.reads + 1 }
      rw [hqueue, hpdus, hout]
      exact ⟨hperm, rfl, rfl, fun _ => htimer⟩
    · exact ⟨hperm, rfl, rfl, fun htimer _ => htimer (by rw [hcons]; exact List.cons_ne_nil _ _)⟩

section
variable {net : Net} {ctx : CoapContext}

theorem coapSend_accounts (h : Accounts net ctx) (htimer : TimerSet ctx) (session : Nat)
    (id : UInt16) (token : List UInt8) (timeout : UInt32) (con written memory : Bool) :
    Accounts net (coapSend net ctx session id token timeout con written memory) ∧
      TimerSet (coapSend net ctx session id token timeout con written memory) := by
  unfold coapSend Accounts
  dsimp only
  split_ifs
  · refine ⟨⟨fun q hq => (h.named q hq).trans (Nat.lt_succ_self _),
      fun o ho => (h.namedOut o ho).trans (Nat.lt_succ_self _), h.distinct, h.waiting, h.bounded,
      h.givenUp, h.once, h.failed⟩, htimer⟩
  · exact ⟨h.send session, htimer⟩
  · obtain ⟨hperm, hpdus, hout, hset⟩ := enqueue_spec net
      { ctx with pdus := ctx.pdus + 1, out := ctx.out ++ [.sent session ctx.pdus] }
      { timeout := timeout, session := session, id := id, token := token, pdu := ctx.pdus }
    rw [coapWaitAck, hpdus, hout]
    refine ⟨(Ledger.wait h ?_ ?_ ?_).of_perm hperm, hset htimer⟩ <;> rfl

/-- A message that is taken out of the queue is retransmitted, or given up. -/
theorem coapRetransmit_accounts (hmax : ∀ s, net.maxRetransmit s < 32) {q : QueueNode}
    (h : Ledger net (q.item :: ctx.sendqueue.map QueueNode.item) ctx.pdus ctx.out) :
    Accounts net (coapRetransmit net ctx q) := by
  unfold coapRetransmit Accounts
  split_ifs with hcnt
  · obtain ⟨hperm, hpdus, hout, -⟩ := enqueue_spec net ctx
      { q with retransmitCnt := q.retransmitCnt + 1 }
    dsimp only
    rw [hpdus, hout]
    exact (h.retransmit (hmax _) hcnt).of_perm hperm
  · exact h.nack .tooManyRetries fun _ => hcnt

theorem executeLoop_accounts (hmax : ∀ s, net.maxRetransmit s < 32) (n : Nat) (elapsed : UInt32)
    (h : Accounts net ctx) : Accounts net (executeLoop net n ctx elapsed) := by
  induction n generalizing ctx elapsed with
  | zero => exact h
  | succ n ih =>
    unfold executeLoop
    split
    · exact h
    · rename_i q rest hcons
      rw [Accounts, hcons, List.map_cons] at h
      split_ifs
      · exact h
      · exact ih _ (coapRetransmit_accounts hmax (by rwa [addTime_items]))

/-- Messages that are no longer waited for. -/
theorem filter_accounts (h : Accounts net ctx) (p : QueueNode → Bool) :
    Ledger net ((ctx.sendqueue.filter p).map QueueNode.item) ctx.pdus ctx.out :=
  h.of_sublist (List.filter_sublist.map _)

/-- The application is told of the messages of a session one after the other. -/
theorem nacks_accounts {items failed : List QueueNode} {pdus : Nat} {out : List Output}
    {reason : NackReason} (other : reason ≠ .tooManyRetries) {session : Nat}
    (hsession : ∀ q ∈ failed, q.session = session) (h : Ledger net (failed ++ items) pdus out) :
    Ledger net items pdus (out ++ failed.map fun q => .nack session q.pdu reason) := by
  induction failed generalizing out with
  | nil => simpa using h
  | cons q failed ih =>
    have hnack := Ledger.nack h reason fun hr => absurd hr other
    rw [hsession q List.mem_cons_self] at hnack
    have hrest := ih (fun r hr => hsession r (List.mem_cons_of_mem _ hr)) hnack
    simpa using hrest

/-- The messages of a session are given up, for a reason of its own. -/
theorem cancelled_accounts (h : Accounts net ctx) {reason : NackReason}
    (other : reason ≠ .tooManyRetries) (session : Nat) :
    Accounts net (coapCancelSessionMessages ctx session reason) := by
  have hperm : ((ctx.sendqueue.filter (·.session = session)).map QueueNode.item ++
      (ctx.sendqueue.filter (·.session ≠ session)).map QueueNode.item).Perm
        (ctx.sendqueue.map QueueNode.item) := by
    rw [← List.map_append]
    refine List.Perm.map _ ?_
    simpa using List.filter_append_perm (fun q : QueueNode => decide (q.session = session))
      ctx.sendqueue
  have hnacks := @nacks_accounts net _ _ _ _ _ other session (fun q hq => by
    obtain ⟨r, hr, rfl⟩ := List.mem_map.mp hq
    simpa [QueueNode.item] using (List.mem_filter.mp hr).2) (h.of_perm hperm)
  rw [List.map_map] at hnacks
  exact hnacks

/-- A tick of the timer handles what is due, and sets the timer for what stays. -/
theorem execute_accounts (hmax : ∀ s, net.maxRetransmit s < 32) (h : Accounts net ctx) :
    Accounts net (coapRetransmittimerExecute net ctx) ∧
      TimerSet (coapRetransmittimerExecute net ctx) := by
  unfold coapRetransmittimerExecute
  simp only [coapTicks]
  obtain ⟨hqueue, -, hpdus, hout, hset⟩ := restart_spec net
    { executeLoop net (turns net ctx.sendqueue + 1)
        { ctx with timer := none, reads := ctx.reads + 1 }
        (net.clock ctx.reads - ctx.sendqueueBasetime) with
      sendqueueBasetime := net.clock ctx.reads }
  refine ⟨?_, hset⟩
  rw [Accounts, hqueue, hpdus, hout]
  exact executeLoop_accounts hmax _ _ h

/-- Every event keeps the accounts, and a timer set. -/
theorem netStep_accounts (hmax : ∀ s, net.maxRetransmit s < 32) (h : Accounts net ctx)
    (htimer : TimerSet ctx) (e : NetEvent) :
    Accounts net (netStep net ctx e) ∧ TimerSet (netStep net ctx e) := by
  have hset {queue : List QueueNode} (hsub : queue ≠ [] → ctx.sendqueue ≠ []) :
      queue ≠ [] → ctx.timer.isSome = true := fun hne => htimer (hsub hne)
  have hfilter (p : QueueNode → Bool) : ctx.sendqueue.filter p ≠ [] → ctx.sendqueue ≠ [] :=
    fun hne hnil => hne (by rw [hnil]; rfl)
  have hremoved {queue : List QueueNode} {q : QueueNode}
      (hperm : (ctx.sendqueue.map QueueNode.item).Perm (q.item :: queue.map QueueNode.item)) :
      ctx.sendqueue ≠ [] := by
    intro hnil
    rw [hnil] at hperm
    exact List.cons_ne_nil _ _ hperm.symm.eq_nil
  cases e with
  | send session id token timeout con written memory =>
    exact coapSend_accounts h htimer session id token timeout con written memory
  | ack session id =>
    simp only [netStep]
    cases hr : coapRemoveFromQueue ctx.sendqueue session id with
    | none => exact ⟨h, htimer⟩
    | some r =>
      obtain ⟨q, queue⟩ := r
      have hperm := coapRemoveFromQueue_items hr
      exact ⟨(h.of_perm hperm.symm).of_sublist (List.sublist_cons_self _ _),
        hset fun _ => hremoved hperm⟩
  | rst session id =>
    simp only [netStep]
    cases hr : coapRemoveFromQueue ctx.sendqueue session id with
    | none => exact ⟨h, htimer⟩
    | some r =>
      obtain ⟨q, queue⟩ := r
      have hperm := coapRemoveFromQueue_items hr
      exact ⟨(h.of_perm hperm.symm).nack .rst (fun hr => by cases hr),
        hset fun _ => hremoved hperm⟩
  | response session token =>
    exact ⟨filter_accounts h _, hset (hfilter _)⟩
  | disconnected session reason other =>
    simp only [netStep]
    split_ifs
    · exact ⟨h, htimer⟩
    · exact ⟨cancelled_accounts h other session, hset (hfilter _)⟩
  | timeout =>
    simp only [netStep]
    split
    · exact ⟨h, htimer⟩
    · exact execute_accounts hmax h

end

/-- **Every message is accounted for.**  In every run, whatever the clock shows, a message that waits
has been sent once more than it was retransmitted, none is sent more often than its session allows,
one that is given up has been sent as often as that, the application is told at most once that a
message failed, and a timer is set as long as messages wait. -/
theorem messages_accounted {net : Net} (hmax : ∀ s, net.maxRetransmit s < 32)
    (events : List NetEvent) : Accounts net (netRun net events) ∧ TimerSet (netRun net events) := by
  have hrun (ctx : CoapContext) (h : Accounts net ctx) (htimer : TimerSet ctx) :
      Accounts net (events.foldl (netStep net) ctx) ∧
        TimerSet (events.foldl (netStep net) ctx) := by
    induction events generalizing ctx with
    | nil => exact ⟨h, htimer⟩
    | cons e events ih =>
      obtain ⟨h', htimer'⟩ := netStep_accounts hmax h htimer e
      exact ih _ h' htimer'
  exact hrun {} ⟨by simp, by simp, by simp, by simp, by simp, by simp, by simp, by simp⟩
    fun hne => absurd rfl hne

theorem messages_accounted_send : Accounts ⟨fun n => UInt32.ofNat (1000 * n), fun _ => 4⟩
      (netRun ⟨fun n => UInt32.ofNat (1000 * n), fun _ => 4⟩
        [.send 0 7 [] 2000 true true true, .timeout, .timeout, .ack 0 7]) ∧
    TimerSet (netRun ⟨fun n => UInt32.ofNat (1000 * n), fun _ => 4⟩
        [.send 0 7 [] 2000 true true true, .timeout, .timeout, .ack 0 7]) :=
  messages_accounted (fun _ => show (4 : UInt32) < 32 by decide) _

/-! ### The timer -/

/-- The due times of a context. -/
def dues (ctx : CoapContext) : List (UInt32 × QueueNode) :=
  positions ctx.sendqueueBasetime (ctx.sendqueue.map fun q => (q.t, q.item))

/-- The nodes the loop of `coap_retransmittimer_execute` takes out of the queue. -/
def handledLoop (net : Net) : Nat → CoapContext → UInt32 → List QueueNode
  | 0, _, _ => []
  | n + 1, ctx, elapsed =>
    match ctx.sendqueue with
    | [] => []
    | q :: rest =>
      if elapsed < q.t then []
      else
        q :: handledLoop net n
          (coapRetransmit net { ctx with sendqueue := addTime q.t rest } q) (elapsed - q.t)

/-- The nodes `coap_retransmittimer_execute` takes out of the queue. -/
def handled (net : Net) (ctx : CoapContext) : List QueueNode :=
  handledLoop net (turns net ctx.sendqueue + 1) (coapTicks net { ctx with timer := none }).2
    ((coapTicks net { ctx with timer := none }).1 - ctx.sendqueueBasetime)

/-- What leaves the library for such a node. -/
def handledOutput (net : Net) (q : QueueNode) : Output :=
  if q.retransmitCnt.toUInt32 < net.maxRetransmit q.session then .sent q.session q.pdu
  else .nack q.session q.pdu .tooManyRetries

theorem insertBehind_words (node p : QueueNode) (queue : List QueueNode) :
    (insertBehind node p queue).map (fun q => (q.t, q.item)) =
      (p.t, p.item) :: insertGap (node.t - p.t) node.item
        (queue.map fun q => (q.t, q.item)) := by
  induction queue generalizing node p with
  | nil => rfl
  | cons q rest ih =>
    simp only [insertBehind, List.map_cons, insertGap]
    by_cases hle : q.t ≤ node.t - p.t
    · rw [if_pos hle, if_neg (UInt32.not_lt.mpr hle), List.map_cons, ih]
      rfl
    · rw [if_neg hle, if_pos (UInt32.not_le.mp hle)]
      rfl

/-- What is put into a queue is due at its time, and the others when they were. -/
theorem insert_words (base : UInt32) (queue : List QueueNode) (node : QueueNode) :
    (positions base ((coapInsertNode queue node).map fun q => (q.t, q.item))).Perm
      ((base + node.t, node.item) :: positions base (queue.map fun q => (q.t, q.item))) := by
  have hgap : (coapInsertNode queue node).map (fun q => (q.t, q.item)) =
      insertGap node.t node.item (queue.map fun q => (q.t, q.item)) := by
    cases queue with
    | nil => rfl
    | cons q rest =>
      simp only [coapInsertNode, List.map_cons, insertGap]
      split_ifs
      · rfl
      · exact insertBehind_words node q rest
  rw [hgap]
  exact Support.positions_insertGap_perm base node.t node.item _

section
variable {net : Net} {ctx : CoapContext}

theorem restart_dues : dues (coapRetransmittimerRestart net ctx) = dues ctx := by
  obtain ⟨hqueue, hbase, -⟩ := restart_spec net ctx
  rw [dues, dues, hqueue, hbase]

/-- The other messages stay due when they were. -/
theorem enqueue_dues {node : QueueNode} {x : UInt32 × QueueNode} (hx : x ∈ dues ctx) :
    x ∈ dues (enqueue net ctx node) ∧
      (enqueue net ctx node).sendqueueBasetime = ctx.sendqueueBasetime := by
  unfold enqueue coapTicks
  dsimp only
  split
  · rename_i hnil
    simp [dues, hnil] at hx
  · have hperm := insert_words ctx.sendqueueBasetime ctx.sendqueue
      { node with t := net.clock ctx.reads - ctx.sendqueueBasetime + node.wait }
    have hin := hperm.mem_iff.mpr (List.mem_cons_of_mem _ hx)
    split_ifs
    · rw [restart_dues]
      exact ⟨hin, (restart_spec net _).2.1⟩
    · exact ⟨hin, rfl⟩

theorem coapRetransmit_dues {q : QueueNode} {x : UInt32 × QueueNode} (hx : x ∈ dues ctx) :
    x ∈ dues (coapRetransmit net ctx q) ∧
      (coapRetransmit net ctx q).sendqueueBasetime = ctx.sendqueueBasetime := by
  unfold coapRetransmit
  split_ifs
  · exact enqueue_dues hx
  · exact ⟨hx, rfl⟩

/-- The turns of a queue are those of its messages. -/
theorem turns_perm {queue queue' : List QueueNode}
    (h : (queue.map QueueNode.item).Perm (queue'.map QueueNode.item)) :
    turns net queue = turns net queue' := by
  have hitems (queue : List QueueNode) :
      turns net queue = turns net (queue.map QueueNode.item) := by
    rw [turns, turns, List.map_map]
    rfl
  rw [hitems, hitems queue', turns, turns]
  exact (h.map _).sum_eq

/-- Each turn of the loop takes one. -/
theorem coapRetransmit_turns (hmax : ∀ s, net.maxRetransmit s < 32) {q : QueueNode}
    {rest : List QueueNode} :
    turns net (coapRetransmit net { ctx with sendqueue := addTime q.t rest } q).sendqueue <
      turns net (q :: rest) := by
  have hrest : turns net (addTime q.t rest) = turns net rest :=
    turns_perm (by rw [addTime_items])
  have hm := UInt32.lt_iff_toNat_lt.mp (hmax q.session)
  rw [show (32 : UInt32).toNat = 32 from rfl] at hm
  have hcons (q : QueueNode) : turns net (q :: rest) =
      (net.maxRetransmit q.session).toNat - q.retransmitCnt.toNat + 1 + turns net rest := rfl
  unfold coapRetransmit
  split_ifs with hcnt
  · obtain ⟨hperm, -⟩ := enqueue_spec net { ctx with sendqueue := addTime q.t rest }
      { q with retransmitCnt := q.retransmitCnt + 1 }
    rw [addTime_items] at hperm
    have hsame := @turns_perm net _
      ({ q with retransmitCnt := q.retransmitCnt + 1 } :: rest) hperm
    rw [UInt32.lt_iff_toNat_lt, UInt8.toNat_toUInt32] at hcnt
    have hnext : (q.retransmitCnt + 1).toNat = q.retransmitCnt.toNat + 1 := by
      rw [UInt8.toNat_add, show (1 : UInt8).toNat = 1 from rfl]
      omega
    dsimp only
    rw [hsame, hcons, hcons]
    simp only [hnext]
    omega
  · dsimp only
    rw [hrest, hcons]
    omega

/-- A message that stays is put off by what the loop has taken off `elapsed`. -/
theorem executeLoop_dues (hmax : ∀ s, net.maxRetransmit s < 32) {n : Nat} {elapsed : UInt32}
    (hn : turns net ctx.sendqueue < n) {due : UInt32} {node : QueueNode}
    (hx : (due, node) ∈ dues ctx)
    (hstays : node.pdu ∉ (handledLoop net n ctx elapsed).map (·.pdu)) :
    (executeLoop net n ctx elapsed).sendqueueBasetime = ctx.sendqueueBasetime ∧
      (due + ((handledLoop net n ctx elapsed).map (·.t)).sum - elapsed, node) ∈
        dues (executeLoop net n ctx elapsed) := by
  induction n generalizing ctx elapsed with
  | zero => exact absurd hn (Nat.not_lt_zero _)
  | succ n ih =>
    unfold executeLoop handledLoop
    unfold handledLoop at hstays
    cases hqueue : ctx.sendqueue with
    | nil => simp [dues, hqueue] at hx
    | cons q rest =>
      rw [hqueue] at hn hstays
      simp only [dues, hqueue, List.map_cons, positions] at hx
      dsimp only at hstays ⊢
      split_ifs at hstays ⊢ with hwaits
      · refine ⟨rfl, ?_⟩
        have hshift := Support.mem_positions_shift (-elapsed)
          (show (due, node) ∈ positions ctx.sendqueueBasetime
            ((q.t, q.item) :: rest.map fun q => (q.t, q.item)) from hx)
        have hhead : ctx.sendqueueBasetime + -elapsed + q.t =
            ctx.sendqueueBasetime + (q.t - elapsed) := by abel
        rw [positions, hhead] at hshift
        simpa [dues, positions, sub_eq_add_neg, QueueNode.item] using hshift
      · simp only [List.map_cons, List.mem_cons, not_or] at hstays
        have hother : (due, node) ∈ dues { ctx with sendqueue := addTime q.t rest } := by
          rcases List.mem_cons.mp hx with hx | hx
          · cases hx
            exact absurd rfl hstays.1
          · have hwiden : (addTime q.t rest).map (fun q => (q.t, q.item)) =
                widen q.t (rest.map fun q => (q.t, q.item)) := by
              cases rest <;> rfl
            rw [dues, hwiden, Support.positions_widen]
            exact hx
        obtain ⟨hdues, hbase⟩ := @coapRetransmit_dues net _ q _ hother
        have hless := @coapRetransmit_turns net ctx hmax q rest
        obtain ⟨hbase', hrest⟩ := ih (by omega) hdues hstays.2
        refine ⟨hbase'.trans hbase, ?_⟩
        rw [List.map_cons, List.sum_cons]
        have hsum (s : UInt32) : due + (q.t + s) - elapsed = due + s - (elapsed - q.t) := by abel
        rw [hsum]
        exact hrest

theorem executeLoop_out (n : Nat) (elapsed : UInt32) :
    (executeLoop net n ctx elapsed).out =
      ctx.out ++ (handledLoop net n ctx elapsed).map (handledOutput net) := by
  induction n generalizing ctx elapsed with
  | zero => simp [executeLoop, handledLoop]
  | succ n ih =>
    unfold executeLoop handledLoop
    split
    · simp
    · rename_i q rest hqueue
      split_ifs
      · simp
      · rw [ih, List.map_cons, ← List.singleton_append, ← List.append_assoc]
        congr 1
        unfold coapRetransmit handledOutput
        split_ifs
        · simp only [(enqueue_spec net _ _).2.2.1]
        · rfl

end

/-- **The timer handler.**  It sends the messages it takes out of the queue again, or gives them up,
and each message that stays is put off by the sum of their times. -/
theorem execute_delays {net : Net} (hmax : ∀ s, net.maxRetransmit s < 32) (ctx : CoapContext) :
    (coapRetransmittimerExecute net ctx).out =
        ctx.out ++ (handled net ctx).map (handledOutput net) ∧
      ∀ due node, (due, node) ∈ dues ctx → node.pdu ∉ (handled net ctx).map (·.pdu) →
        (due + ((handled net ctx).map (·.t)).sum, node) ∈
          dues (coapRetransmittimerExecute net ctx) := by
  unfold coapRetransmittimerExecute
  dsimp only
  refine ⟨?_, fun due node hx hstays => ?_⟩
  · exact (restart_spec net _).2.2.2.1.trans (executeLoop_out _ _)
  · obtain ⟨hsame, hdue⟩ := @executeLoop_dues net
      (coapTicks net { ctx with timer := none }).2 hmax _ _ (Nat.lt_succ_self _) _ _ hx hstays
    have hshift := Support.mem_positions_shift
      ((coapTicks net { ctx with timer := none }).1 - ctx.sendqueueBasetime) hdue
    rw [hsame] at hshift
    simp only [sub_add_cancel] at hshift
    have hnow : (coapTicks net { ctx with timer := none }).2.sendqueueBasetime +
        ((coapTicks net { ctx with timer := none }).1 - ctx.sendqueueBasetime) =
          (coapTicks net { ctx with timer := none }).1 := add_sub_cancel _ _
    rw [hnow] at hshift
    rw [restart_dues]
    exact hshift

/-- Both messages are due, and the second one is put off by the time of the first. -/
theorem execute_delays_two :
    let net : Net := ⟨fun _ => 3000, fun _ => 4⟩
    let second : QueueNode := ⟨1000, 0, 2000, 0, 8, [], 1⟩
    let ctx : CoapContext := { sendqueue := [⟨2000, 0, 2000, 0, 7, [], 0⟩, second], pdus := 2 }
    (3000, second.item) ∈ dues ctx ∧
      (5000, second.item) ∈ dues (coapRetransmittimerExecute net ctx) := by
  intro net second ctx
  have hdue : (3000, second.item) ∈ dues ctx := by decide +kernel
  have hhandled : (handled net ctx).map (·.t) = [2000] := by decide +kernel
  have hdelay := (execute_delays (fun _ => show (4 : UInt32) < 32 by decide) ctx).2 3000
    second.item hdue (by decide +kernel : _ ∉ (handled net ctx).map (·.pdu))
  rw [hhandled] at hdelay
  exact ⟨hdue, hdelay⟩

end XY1100.Coap
