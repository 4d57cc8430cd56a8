import XY1100.Support.Deltas

/-!
# Coap — the send queue

The queue of messages that wait for an acknowledgement (`net.c`).  The time of a node is relative
to the node before it, that of the first one to the base time of the context.

A queue is a list of due times, in order (`schedule`).  `coap_insert_node` puts a node behind those
that are due with it or before it, and the nodes `coap_pop_next` and `coap_remove_from_queue` take
out leave their times to the next one (`sendqueue_is_schedule`).  Times are machine words, and no
sum of them wraps: each due time is that of a node that was put in.
-/

namespace XY1100.Coap
open Support (positions insertGap eraseGap widen)

/-! ### The code -/

/-- A `coap_queue_t`.  Sessions and PDUs are named by numbers, `token` is that of the PDU. -/
structure QueueNode where
  t : UInt32 := 0
  retransmitCnt : UInt8 := 0
  timeout : UInt32
  session : Nat
  id : UInt16
  token : List UInt8
  pdu : Nat
  deriving DecidableEq

/-- The loop of `coap_insert_node`, from the node `p` on. -/
def insertBehind (node p : QueueNode) : List QueueNode → List QueueNode
  | [] => [p, { node with t := node.t - p.t }]
  | q :: rest =>
    let node := { node with t := node.t - p.t }
    if q.t ≤ node.t then p :: insertBehind node q rest
    else p :: node :: { q with t := q.t - node.t } :: rest

/-- `coap_insert_node`. -/
def coapInsertNode (queue : List QueueNode) (node : QueueNode) : List QueueNode :=
  match queue with
  | [] => [node]
  | q :: rest =>
    if node.t < q.t then node :: { q with t := q.t - node.t } :: rest
    else insertBehind node q rest

/-- The time of a node that is taken out is added to that of the next. -/
def addTime (t : UInt32) : List QueueNode → List QueueNode
  | [] => []
  | q :: rest => { q with t := q.t + t } :: rest

/-- `coap_pop_next`: the first node, and the queue without it. -/
def coapPopNext : List QueueNode → Option (QueueNode × List QueueNode)
  | [] => none
  | next :: rest => some (next, addTime next.t rest)

/-- A node waits for the acknowledgement of a message. -/
def QueueNode.waitsFor (session : Nat) (id : UInt16) (node : QueueNode) : Bool :=
  session = node.session ∧ id = node.id

/-- The loop of `coap_remove_from_queue`, from the node `p` on. -/
def removeBehind (session : Nat) (id : UInt16) (p : QueueNode) :
    List QueueNode → Option (QueueNode × List QueueNode)
  | [] => none
  | q :: rest =>
    if q.waitsFor session id then some (q, p :: addTime q.t rest)
    else (removeBehind session id q rest).map fun r => (r.1, p :: r.2)

/-- `coap_remove_from_queue`: the node that is found, and the queue without it. -/
def coapRemoveFromQueue (queue : List QueueNode) (session : Nat) (id : UInt16) :
    Option (QueueNode × List QueueNode) :=
  match queue with
  | [] => none
  | q :: rest =>
    if q.waitsFor session id then some (q, addTime q.t rest) else removeBehind session id q rest

/-! ### Due times -/

/-- A node apart from its time. -/
def QueueNode.item (node : QueueNode) : QueueNode := { node with t := 0 }

/-- A node as an item behind a gap. -/
def QueueNode.gap (node : QueueNode) : Nat × QueueNode := (node.t.toNat, node.item)

/-- The due times of a queue, relative to its base time. -/
def schedule (queue : List QueueNode) : List (Nat × QueueNode) :=
  positions 0 (queue.map QueueNode.gap)

@[simp] theorem item_waitsFor (session : Nat) (id : UInt16) (node : QueueNode) :
    node.item.waitsFor session id = node.waitsFor session id := rfl

/-- The loop puts a node into its gap. -/
theorem insertBehind_gaps (node p : QueueNode) (queue : List QueueNode) (h : ¬ node.t < p.t) :
    (insertBehind node p queue).map QueueNode.gap =
      p.gap :: insertGap (node.t.toNat - p.t.toNat) node.item (queue.map QueueNode.gap) := by
  have hsub : (node.t - p.t).toNat = node.t.toNat - p.t.toNat :=
    UInt32.toNat_sub_of_le _ _ (UInt32.not_lt.mp h)
  induction queue generalizing node p with
  | nil => simp [insertBehind, QueueNode.gap, QueueNode.item, insertGap, hsub]
  | cons q rest ih =>
    simp only [insertBehind, List.map_cons, insertGap, QueueNode.gap]
    rw [← hsub]
    by_cases hle : q.t ≤ node.t - p.t
    · have hlt : ¬ (node.t - p.t).toNat < q.t.toNat :=
        Nat.not_lt.mpr (UInt32.le_iff_toNat_le.mp hle)
      rw [if_pos hle, if_neg hlt, List.map_cons,
        ih _ q (UInt32.not_lt.mpr hle) (UInt32.toNat_sub_of_le _ _ hle)]
      rfl
    · have hlt := UInt32.not_le.mp hle
      rw [if_neg hle, if_pos (UInt32.lt_iff_toNat_lt.mp hlt)]
      simp only [List.map_cons, QueueNode.gap, QueueNode.item,
        UInt32.toNat_sub_of_le _ _ (UInt32.le_of_lt hlt)]

/-- `coap_insert_node` puts a node into its gap. -/
theorem coapInsertNode_gaps (queue : List QueueNode) (node : QueueNode) :
    (coapInsertNode queue node).map QueueNode.gap =
      insertGap node.t.toNat node.item (queue.map QueueNode.gap) := by
  cases queue with
  | nil => rfl
  | cons q rest =>
    simp only [coapInsertNode, List.map_cons, insertGap, QueueNode.gap]
    by_cases h : node.t < q.t
    · rw [if_pos h, if_pos (UInt32.lt_iff_toNat_lt.mp h)]
      simp only [List.map_cons, QueueNode.gap, QueueNode.item,
        UInt32.toNat_sub_of_le _ _ (UInt32.le_of_lt h)]
    · rw [if_neg h, if_neg (fun h' => h (UInt32.lt_iff_toNat_lt.mpr h')), insertBehind_gaps _ _ _ h]
      rfl

theorem schedule_insert (queue : List QueueNode) (node : QueueNode) :
    schedule (coapInsertNode queue node) =
      (schedule queue).orderedInsert (fun x y => x.1 < y.1) (node.t.toNat, node.item) := by
  rw [schedule, coapInsertNode_gaps, Support.positions_insertGap, Nat.zero_add]
  rfl

/-- The due times of a queue fit a machine word. -/
def Bounded (base : Nat) (queue : List QueueNode) : Prop :=
  ∀ x ∈ positions base (queue.map QueueNode.gap), x.1 < 2 ^ 32

theorem Bounded.cons {base : Nat} {q : QueueNode} {rest : List QueueNode}
    (h : Bounded base (q :: rest)) :
    base + q.t.toNat < 2 ^ 32 ∧ Bounded (base + q.t.toNat) rest := by
  simpa only [Bounded, List.map_cons, QueueNode.gap, positions, List.mem_cons,
    forall_eq_or_imp] using h

/-- Times that fit are added without a wrap. -/
theorem addTime_gaps {base : Nat} {t : UInt32} {queue : List QueueNode}
    (h : Bounded (base + t.toNat) queue) :
    (addTime t queue).map QueueNode.gap = widen t.toNat (queue.map QueueNode.gap) := by
  cases queue with
  | nil => rfl
  | cons q rest =>
    have hlt := h.cons.1
    have hadd : (q.t + t).toNat = q.t.toNat + t.toNat := by
      rw [UInt32.toNat_add]
      omega
    simp [addTime, widen, QueueNode.gap, QueueNode.item, hadd]

/-- The loop finds the first node that waits, and leaves its time to the next. -/
theorem removeBehind_gaps (session : Nat) (id : UInt16) {base : Nat} (p : QueueNode)
    {queue : List QueueNode} (h : Bounded base queue) :
    match removeBehind session id p queue with
    | none => ∀ q ∈ queue, q.waitsFor session id = false
    | some (q, rest) =>
      queue.find? (·.waitsFor session id) = some q ∧
        rest.map QueueNode.gap =
          p.gap :: eraseGap (·.waitsFor session id) (queue.map QueueNode.gap) := by
  induction queue generalizing p base with
  | nil => simp [removeBehind]
  | cons q queue ih =>
    obtain ⟨-, hrest⟩ := h.cons
    unfold removeBehind
    by_cases hq : q.waitsFor session id = true
    · rw [if_pos hq]
      simp only [List.find?_cons, hq, List.map_cons, addTime_gaps hrest, eraseGap, QueueNode.gap,
        item_waitsFor, if_true, and_self]
    · rw [if_neg hq]
      have ih := ih q hrest
      cases hr : removeBehind session id q queue with
      | none =>
        rw [hr] at ih
        simpa [hq] using ih
      | some r =>
        obtain ⟨n, rest⟩ := r
        rw [hr] at ih
        obtain ⟨hfind, hgaps⟩ := ih
        simp only [Option.map_some, List.map_cons, hgaps]
        exact ⟨by simpa [hq] using hfind, by simp [eraseGap, QueueNode.gap, hq]⟩

theorem coapRemoveFromQueue_gaps (session : Nat) (id : UInt16) {queue : List QueueNode}
    (h : Bounded 0 queue) :
    match coapRemoveFromQueue queue session id with
    | none => ∀ q ∈ queue, q.waitsFor session id = false
    | some (q, rest) =>
      queue.find? (·.waitsFor session id) = some q ∧
        rest.map QueueNode.gap = eraseGap (·.waitsFor session id) (queue.map QueueNode.gap) := by
  cases queue with
  | nil => simp [coapRemoveFromQueue]
  | cons q queue =>
    obtain ⟨-, hrest⟩ := h.cons
    unfold coapRemoveFromQueue
    by_cases hq : q.waitsFor session id = true
    · simp only [List.find?_cons, hq, List.map_cons, addTime_gaps hrest, eraseGap, QueueNode.gap,
        item_waitsFor, if_true, and_self]
    · simp only [if_neg hq]
      have hloop := removeBehind_gaps session id q hrest
      cases hr : removeBehind session id q queue with
      | none =>
        rw [hr] at hloop
        simpa [hq] using hloop
      | some r =>
        obtain ⟨n, rest⟩ := r
        rw [hr] at hloop
        obtain ⟨hfind, hgaps⟩ := hloop
        exact ⟨by simpa [hq] using hfind, by simp [hgaps, eraseGap, QueueNode.gap, hq]⟩

/-! ### Runs -/

inductive QueueOp
  | insert (node : QueueNode)
  | remove (session : Nat) (id : UInt16)
  | pop

/-- What an operation takes out, apart from its time, and the queue after it. -/
def queueStep (queue : List QueueNode) : QueueOp → Option QueueNode × List QueueNode
  | .insert node => (none, coapInsertNode queue node)
  | .remove session id =>
    match coapRemoveFromQueue queue session id with
    | none => (none, queue)
    | some (node, queue) => (some node.item, queue)
  | .pop =>
    match coapPopNext queue with
    | none => (none, queue)
    | some (node, queue) => (some node.item, queue)

/-- The same for a list of due times. -/
def scheduleStep (s : List (Nat × QueueNode)) : QueueOp → Option QueueNode × List (Nat × QueueNode)
  | .insert node => (none, s.orderedInsert (fun x y => x.1 < y.1) (node.t.toNat, node.item))
  | .remove session id =>
    ((s.find? (·.2.waitsFor session id)).map Prod.snd, s.eraseP (·.2.waitsFor session id))
  | .pop => (s.head?.map Prod.snd, s.tail)

/-- What a sequence of operations takes out, and the queue after it. -/
def queueRun (queue : List QueueNode) : List QueueOp → List (Option QueueNode) × List QueueNode
  | [] => ([], queue)
  | op :: ops =>
    ((queueStep queue op).1 :: (queueRun (queueStep queue op).2 ops).1,
      (queueRun (queueStep queue op).2 ops).2)

def scheduleRun (s : List (Nat × QueueNode)) :
    List QueueOp → List (Option QueueNode) × List (Nat × QueueNode)
  | [] => ([], s)
  | op :: ops =>
    ((scheduleStep s op).1 :: (scheduleRun (scheduleStep s op).2 ops).1,
      (scheduleRun (scheduleStep s op).2 ops).2)

theorem map_snd_schedule (queue : List QueueNode) :
    (schedule queue).map Prod.snd = queue.map QueueNode.item := by
  rw [schedule, Support.map_snd_positions, List.map_map]
  rfl

theorem find_schedule (queue : List QueueNode) (session : Nat) (id : UInt16) :
    ((schedule queue).find? (·.2.waitsFor session id)).map Prod.snd =
      (queue.find? (·.waitsFor session id)).map QueueNode.item := by
  have hleft : ((schedule queue).find? (·.2.waitsFor session id)).map Prod.snd =
      ((schedule queue).map Prod.snd).find? (·.waitsFor session id) := by
    rw [List.find?_map]
    rfl
  rw [hleft, map_snd_schedule, List.find?_map]
  rfl

/-- One operation on a queue is the operation on its due times. -/
theorem queueStep_schedule {queue : List QueueNode} (h : Bounded 0 queue) (op : QueueOp) :
    (queueStep queue op).1 = (scheduleStep (schedule queue) op).1 ∧
      schedule (queueStep queue op).2 = (scheduleStep (schedule queue) op).2 ∧
      Bounded 0 (queueStep queue op).2 := by
  cases op with
  | insert node =>
    have hs := schedule_insert queue node
    refine ⟨rfl, hs, fun x hx => ?_⟩
    have hx' : x ∈ schedule (coapInsertNode queue node) := hx
    rw [hs, List.mem_orderedInsert] at hx'
    rcases hx' with rfl | hx'
    · exact node.t.toNat_lt
    · exact h x hx'
  | remove session id =>
    have hgaps := coapRemoveFromQueue_gaps session id h
    simp only [queueStep, scheduleStep, find_schedule]
    cases hr : coapRemoveFromQueue queue session id with
    | none =>
      rw [hr] at hgaps
      have hnone : ∀ x ∈ schedule queue, ¬ x.2.waitsFor session id = true := by
        intro x hx
        obtain ⟨q, hq, hitem⟩ := List.mem_map.mp
          (map_snd_schedule queue ▸ List.mem_map.mpr ⟨x, hx, rfl⟩ : x.2 ∈ queue.map QueueNode.item)
        rw [← hitem, item_waitsFor, hgaps q hq]
        exact Bool.false_ne_true
      refine ⟨?_, (List.eraseP_of_forall_not hnone).symm, h⟩
      rw [List.find?_eq_none.mpr fun q hq => by rw [hgaps q hq]; exact Bool.false_ne_true]
      rfl
    | some r =>
      obtain ⟨node, rest⟩ := r
      rw [hr] at hgaps
      obtain ⟨hfind, hrest⟩ := hgaps
      have hs : schedule rest = (schedule queue).eraseP (·.2.waitsFor session id) := by
        rw [schedule, hrest, Support.positions_eraseGap]
        rfl
      refine ⟨by simp [hfind], hs, fun x hx => h x ?_⟩
      have hx' : x ∈ schedule rest := hx
      rw [hs] at hx'
      exact List.mem_of_mem_eraseP hx'
  | pop =>
    cases queue with
    | nil => exact ⟨rfl, rfl, h⟩
    | cons q rest =>
      obtain ⟨-, hrest⟩ := h.cons
      have hs :
          schedule (addTime q.t rest) = positions (0 + q.t.toNat) (rest.map QueueNode.gap) := by
        rw [schedule, addTime_gaps hrest, Support.positions_widen]
      refine ⟨rfl, hs, fun x hx => hrest x ?_⟩
      have hx' : x ∈ schedule (addTime q.t rest) := hx
      rwa [hs] at hx'

theorem queueRun_schedule {queue : List QueueNode} (h : Bounded 0 queue) (ops : List QueueOp) :
    (queueRun queue ops).1 = (scheduleRun (schedule queue) ops).1 ∧
      schedule (queueRun queue ops).2 = (scheduleRun (schedule queue) ops).2 := by
  induction ops generalizing queue with
  | nil => exact ⟨rfl, rfl⟩
  | cons op ops ih =>
    obtain ⟨hout, hs, hbounded⟩ := queueStep_schedule h op
    obtain ⟨houts, hrun⟩ := ih hbounded
    rw [hs] at houts hrun
    exact ⟨by simp only [queueRun, scheduleRun, hout, houts], hrun⟩

/-- **The send queue is a schedule.**  Any sequence of operations takes out of the queue what it
takes out of the list of due times, and leaves the due times the list has: the nodes in the order
they are due in, and each at the time it was put in for. -/
theorem sendqueue_is_schedule (ops : List QueueOp) :
    (queueRun [] ops).1 = (scheduleRun [] ops).1 ∧
      schedule (queueRun [] ops).2 = (scheduleRun [] ops).2 ∧
      (scheduleRun [] ops).2.Pairwise fun x y => x.1 ≤ y.1 := by
  have hempty : Bounded 0 [] := fun x hx => absurd hx List.not_mem_nil
  obtain ⟨houts, hrun⟩ := queueRun_schedule hempty ops
  refine ⟨houts, hrun, ?_⟩
  have hs : (scheduleRun [] ops).2 = schedule (queueRun [] ops).2 := hrun.symm
  rw [hs]
  exact (Support.positions_pairwise 0 _).2

end XY1100.Coap
