import Mathlib.Tactic
import XY1100.Socket.Events

/-!
# Socket — waiting for the mutex and the queue

`send_msg_2_skt_thd` waits for room in the queue with the mutex held, and the socket thread needs
the mutex for the message it has taken before it takes the next one.

* `WaitsFor`: the threads a thread waits for.
* `deadlock_iff`: a cycle of waiting threads is the TCP/IP thread waiting for room with the mutex
  held, and the socket thread waiting for the mutex.
* `deadlockFree_iff`: no state of a run has such a cycle, exactly when no step of the run takes the
  mutex for a message that has no room while the socket thread needs the mutex, or makes the socket
  thread need it while a message waits for room.
-/

namespace XY1100.Socket

variable {s s' : Sys} {t : Thread}

/-! ### Waiting -/

/-- The next section of the thread needs the mutex. -/
def Pc.needsMutex : Pc → Bool
  | .opened _ _ _ _ | .chosen _ _ _ _ _ | .lookup _ _ | .closed _ _ _ | .sending _ => true
  | .found use _ _ _ => use ≠ .close
  | .idle | .dropping _ _ | .putting _ | .unlocking | .calling _ _ => false

/-- The thread is between taking and releasing the mutex in `send_msg_2_skt_thd`. -/
def Pc.holdsMutex : Pc → Bool
  | .putting _ | .unlocking => true
  | _ => false

/-- `t` waits for `u`: to release the mutex, to take a message from the full queue, or, with the
queue empty, to post one. -/
def WaitsFor (s : Sys) (t u : Thread) : Prop :=
  ((s.pc t).needsMutex = true ∧ s.mutex = some u) ∨
    ((∃ ev, s.pc t = .putting ev) ∧ msgQueueSize ≤ s.queue.length ∧ u = .skt) ∨
    (t = .skt ∧ s.pc t = .idle ∧ s.inCallback = false ∧ s.queue = [] ∧ u = .tcpip)

/-- Some threads wait for each other in a cycle. -/
def Deadlock (s : Sys) : Prop := ∃ t, Relation.TransGen (WaitsFor s) t t

/-- A thread waits for room in the queue, with the mutex held. -/
def WaitsForRoom (s : Sys) : Prop :=
  ∃ u ev, s.mutex = some u ∧ s.pc u = .putting ev ∧ msgQueueSize ≤ s.queue.length

/-- A thread waits for room with the mutex held, and the socket thread needs the mutex. -/
def Stuck (s : Sys) : Prop := WaitsForRoom s ∧ (s.pc .skt).needsMutex = true

theorem deadlock_of_stuck (h : Stuck s) : Deadlock s := by
  obtain ⟨⟨u, ev, hmutex, hpc, hfull⟩, hskt⟩ := h
  have hroom : WaitsFor s u .skt := .inr (.inl ⟨⟨ev, hpc⟩, hfull, rfl⟩)
  have hwait : WaitsFor s .skt u := .inl ⟨hskt, hmutex⟩
  exact ⟨u, (Relation.TransGen.single hroom).tail hwait⟩

/-- The mutex is held by the thread that is in `send_msg_2_skt_thd`, and the queue has its size. -/
structure MutexInv (s : Sys) : Prop where
  holder : ∀ u, s.mutex = some u ↔ (s.pc u).holdsMutex = true
  queue : s.queue.length ≤ msgQueueSize

theorem mutexInv_start : MutexInv start where
  holder u := by constructor <;> rintro ⟨⟩
  queue := Nat.zero_le _

/-- Every thread of a cycle waits for a thread of the cycle. -/
theorem waitsFor_of_cycle (h : Relation.TransGen (WaitsFor s) t t) :
    ∃ u, WaitsFor s t u ∧ Relation.TransGen (WaitsFor s) u u := by
  obtain ⟨u, htu, hut⟩ := Relation.TransGen.head'_iff.mp h
  refine ⟨u, htu, ?_⟩
  rcases Relation.reflTransGen_iff_eq_or_transGen.mp hut with rfl | hut
  · exact h
  · exact hut.tail htu

theorem not_needsMutex_of_holds {p : Pc} (h : p.holdsMutex = true) : p.needsMutex = false := by
  cases p <;> first | rfl | cases h

/-- **The cycles of waiting threads.** -/
theorem deadlock_iff (hn : Numbered s) (hm : MutexInv s) : Deadlock s ↔ Stuck s := by
  refine ⟨?_, deadlock_of_stuck⟩
  rintro ⟨t, hcycle⟩
  obtain ⟨u, h₁, hcycle⟩ := waitsFor_of_cycle hcycle
  obtain ⟨v, h₂, hcycle⟩ := waitsFor_of_cycle hcycle
  obtain ⟨w, h₃, -⟩ := waitsFor_of_cycle hcycle
  -- who waits for the holder of the mutex waits, through it, for room in the full queue
  have hholder : ∀ {x y z}, (s.pc x).needsMutex = true → s.mutex = some y → WaitsFor s y z →
      (∃ ev, s.pc y = .putting ev) ∧ msgQueueSize ≤ s.queue.length ∧ z = .skt := by
    intro x y z _ hmutex h
    have hholds := (hm.holder y).mp hmutex
    rcases h with ⟨hneeds, -⟩ | h | ⟨-, hidle, -⟩
    · rw [not_needsMutex_of_holds hholds] at hneeds
      cases hneeds
    · exact h
    · rw [hidle] at hholds
      cases hholds
  -- the full queue is not empty, and the socket thread puts no message
  have hsocket : ∀ {x z}, (∃ ev, s.pc x = .putting ev) → msgQueueSize ≤ s.queue.length →
      WaitsFor s .skt z → Stuck s := by
    rintro x z ⟨ev, hpc⟩ hfull h
    rcases h with ⟨hneeds, -⟩ | ⟨⟨ev', hput⟩, -⟩ | ⟨-, -, -, hempty, -⟩
    · exact ⟨⟨x, ev, (hm.holder x).mpr (by rw [hpc]; rfl), hpc, hfull⟩, hneeds⟩
    · have hskt := hn.posting .skt (by rw [hput]; exact List.cons_ne_nil _ _)
      cases hskt
    · rw [hempty] at hfull
      cases hfull
  have hcases : ∀ {x y z w}, WaitsFor s x y → WaitsFor s y z → WaitsFor s z w →
      x ≠ .skt ∨ (s.pc x).needsMutex = true ∨ s.queue ≠ [] → Stuck s := by
    intro x y z w hxy hyz hzw hx
    rcases hxy with ⟨hneeds, hmutex⟩ | ⟨hput, hfull, rfl⟩ | ⟨rfl, hidle, -, hempty, -⟩
    · obtain ⟨hput, hfull, rfl⟩ := hholder hneeds hmutex hyz
      exact hsocket hput hfull hzw
    · exact hsocket hput hfull hyz
    · rcases hx with hx | hx | hx
      · exact absurd rfl hx
      · rw [hidle] at hx
        cases hx
      · exact absurd hempty hx
  rcases h₁ with h₁ | h₁ | ⟨rfl, hidle, hcb, hempty, rfl⟩
  · exact hcases (.inl h₁) h₂ h₃ (.inr (.inl h₁.1))
  · refine hcases (.inr (.inl h₁)) h₂ h₃ (.inr (.inr ?_))
    rintro hempty
    rw [hempty] at h₁
    cases h₁.2.1
  · -- with the queue empty the socket thread waits for the TCP/IP thread, which waits for nobody
    exfalso
    rcases h₂ with ⟨hneeds, hmutex⟩ | ⟨-, hfull, -⟩ | ⟨hskt, -⟩
    · obtain ⟨-, hfull, -⟩ := hholder hneeds hmutex h₃
      rw [hempty] at hfull
      cases hfull
    · rw [hempty] at hfull
      cases hfull
    · cases hskt

/-! ### The mutex in a run -/

theorem holdsMutex_toPost (event : LwipEvent) (fd : Int) (sock number : Nat) :
    (event.toPost fd sock number).holdsMutex = false := by
  rcases toPost_cases event fd sock number with h | ⟨ev, -, h⟩ <;> rw [h] <;> rfl

theorem holdsMutex_afterFind (use : Use) (fd : Int) (sock : Nat) (idx : Fin maxSocket) :
    (use.afterFind fd sock idx).holdsMutex = false := by
  rcases afterFind_cases use fd sock idx with h | ⟨event, raiser, number, -, h⟩ <;> rw [h]
  · rfl
  · exact holdsMutex_toPost _ _ _ _

theorem holdsMutex_afterUse (use : Use) (fd : Int) (slot : Slot) :
    (use.afterUse fd slot).holdsMutex = false := by
  rcases afterUse_cases use fd slot with h | ⟨event, sock, number, -, h⟩ | ⟨ev, -, -, h⟩ |
      ⟨ev, -, h⟩ <;> rw [h]
  · rfl
  · exact holdsMutex_toPost _ _ _ _
  · rfl
  · rfl

/-- A section that leaves the mutex and the queue alone.  If it needs the mutex it finds it free,
and only a close whose socket the stack has closed comes to need it. -/
structure LeavesMutex (t : Thread) (succeeds : Bool) (s s' : Sys) (p : Pc) : Prop where
  mutex : s'.mutex = s.mutex
  queue : s'.queue = s.queue
  free : (s.pc t).needsMutex = true → s.mutex = none
  outside : (s.pc t).holdsMutex = false
  pc : s'.pc = Function.update s.pc t p
  stays : p.holdsMutex = false
  comes : (s.pc t).needsMutex = false → p.needsMutex = true →
    ∃ fd k i, s.pc t = .found .close fd k i ∧ succeeds = true ∧ (s.sockets fd).isSome

/-- A section that needs the mutex leaves it alone. -/
theorem LeavesMutex.of_needs {succeeds : Bool} {p : Pc} (hneeds : (s.pc t).needsMutex = true)
    (hfree : s.mutex = none) (hp : p.holdsMutex = false) (hmutex : s'.mutex = s.mutex)
    (hqueue : s'.queue = s.queue) (hpc : s'.pc = Function.update s.pc t p) :
    LeavesMutex t succeeds s s' p := by
  refine ⟨hmutex, hqueue, fun _ => hfree, ?_, hpc, hp, ?_⟩
  · rw [← Bool.not_eq_true]
    intro hholds
    rw [not_needsMutex_of_holds hholds] at hneeds
    cases hneeds
  · intro h
    rw [hneeds] at h
    cases h

/-- A section that needs no mutex, and comes to a point that needs none. -/
theorem LeavesMutex.of_quiet {succeeds : Bool} {p : Pc} (hneeds : (s.pc t).needsMutex = false)
    (hout : (s.pc t).holdsMutex = false) (hp : p.holdsMutex = false) (hcomes : p.needsMutex = false)
    (hmutex : s'.mutex = s.mutex) (hqueue : s'.queue = s.queue)
    (hpc : s'.pc = Function.update s.pc t p) : LeavesMutex t succeeds s s' p := by
  refine ⟨hmutex, hqueue, ?_, hout, hpc, hp, ?_⟩
  · intro h
    rw [hneeds] at h
    cases h
  · intro _ h
    rw [hcomes] at h
    cases h

/-- What the next section of a thread does to the mutex: it takes it for a message, it puts the
message, it releases it, or it leaves it alone. -/
theorem mutex_section {succeeds : Bool} (h : Section t succeeds s s') :
    (∃ ev, s.pc t = .sending ev ∧ s.mutex = none ∧ s' = takeMutex t ev s) ∨
      (∃ ev, s.pc t = .putting ev ∧ s.queue.length < msgQueueSize ∧
        s' = { s with queue := s.queue ++ [ev] }.goto t .unlocking) ∨
      (s.pc t = .unlocking ∧ s' = releaseMutex t s) ∨
      ∃ p, LeavesMutex t succeeds s s' p := by
  cases h with
  | locked hpc hfree => exact .inl ⟨_, hpc, hfree, rfl⟩
  | put hpc hroom => exact .inr (.inl ⟨_, hpc, hroom, rfl⟩)
  | unlocked hpc => exact .inr (.inr (.inl ⟨hpc, rfl⟩))
  | full hpc hfree | chosen hpc hfree | stored hpc hfree | missed hpc hfree | freed hpc hfree =>
    exact .inr (.inr (.inr ⟨_, LeavesMutex.of_needs (by rw [hpc]; rfl) hfree rfl rfl rfl rfl⟩))
  | found hpc hfree =>
    exact .inr (.inr (.inr ⟨_, LeavesMutex.of_needs (by rw [hpc]; rfl) hfree
      (holdsMutex_afterFind _ _ _ _) rfl rfl rfl⟩))
  | used hpc huse hfree =>
    exact .inr (.inr (.inr ⟨_, LeavesMutex.of_needs (by rw [hpc]; exact decide_eq_true huse) hfree
      (holdsMutex_afterUse _ _ _) rfl rfl rfl⟩))
  | dropped hpc | refused hpc | called hpc =>
    exact .inr (.inr (.inr ⟨_, LeavesMutex.of_quiet (by rw [hpc]; rfl) (by rw [hpc]; rfl)
      rfl rfl rfl rfl rfl⟩))
  | @shut fd k i hpc hsucceeds hopen =>
    refine .inr (.inr (.inr ⟨_, rfl, rfl, ?_, by rw [hpc]; rfl, rfl, rfl,
      fun _ _ => ⟨fd, k, i, hpc, hsucceeds, hopen⟩⟩))
    rw [hpc]
    rintro ⟨⟩

/-- A thread that did not hold the mutex goes on and does not hold it. -/
theorem MutexInv.goto (hm : MutexInv s) {p : Pc} (hmutex : s'.mutex = s.mutex)
    (hqueue : s'.queue.length ≤ s.queue.length) (hpc : s'.pc = Function.update s.pc t p)
    (ht : (s.pc t).holdsMutex = false) (hp : p.holdsMutex = false) : MutexInv s' := by
  refine ⟨?_, hqueue.trans hm.queue⟩
  intro u
  rw [hmutex, hm.holder, hpc]
  by_cases hu : u = t
  · subst hu
    rw [Function.update_self, ht, hp]
  · rw [Function.update_of_ne hu]

/-- A thread takes the free mutex for a message. -/
theorem MutexInv.take (hm : MutexInv s) (hfree : s.mutex = none) (t : Thread) (ev : SockEvent) :
    MutexInv (takeMutex t ev s) := by
  refine ⟨?_, hm.queue⟩
  intro u
  by_cases hu : u = t
  · subst hu
    simp [takeMutex, Pc.holdsMutex]
  · have hnot : (s.pc u).holdsMutex = false := by
      rw [← Bool.not_eq_true, ← hm.holder, hfree]
      rintro ⟨⟩
    simp [takeMutex, Function.update_of_ne hu, hnot, Ne.symm hu]

/-- The holder of the mutex puts its message into a queue with room. -/
theorem MutexInv.put (hm : MutexInv s) {ev : SockEvent} (hpc : s.pc t = .putting ev)
    (hroom : s.queue.length < msgQueueSize) :
    MutexInv (Sys.goto { s with queue := s.queue ++ [ev] } t .unlocking) := by
  refine ⟨?_, ?_⟩
  · intro u
    show s.mutex = some u ↔ _
    rw [hm.holder, goto_pc]
    by_cases hu : u = t
    · subst hu
      rw [Function.update_self, hpc]
      exact Iff.rfl
    · rw [Function.update_of_ne hu]
  · show (s.queue ++ [ev]).length ≤ msgQueueSize
    rw [List.length_append, List.length_singleton]
    exact hroom

/-- The holder of the mutex releases it. -/
theorem MutexInv.release (hm : MutexInv s) (hpc : s.pc t = .unlocking) :
    MutexInv (releaseMutex t s) := by
  refine ⟨?_, hm.queue⟩
  intro u
  have hown : s.mutex = some t := (hm.holder t).mpr (by rw [hpc]; rfl)
  by_cases hu : u = t
  · subst hu
    simp [releaseMutex, Pc.holdsMutex]
  · have hnot : (s.pc u).holdsMutex = false := by
      rw [← Bool.not_eq_true, ← hm.holder, hown, Option.some.injEq]
      exact Ne.symm hu
    simp [releaseMutex, Function.update_of_ne hu, hnot]

/-- Every step keeps the mutex with its holder. -/
theorem mutexInv_exec {step : Thread × Act} (hm : MutexInv s) (h : exec step s = .ok () s') :
    MutexInv s' := by
  cases exec_cases h with
  | create hcall => exact hm.goto rfl le_rfl rfl (by rw [hcall.2.1]; rfl) rfl
  | call hcall => exact hm.goto rfl le_rfl rfl (by rw [hcall.2.1]; rfl) rfl
  | raise hidle => exact hm.goto rfl le_rfl rfl (by rw [hidle]; rfl) rfl
  | next hsection =>
    rcases mutex_section hsection with ⟨ev, -, hfree, rfl⟩ | ⟨ev, hpc, hroom, rfl⟩ | ⟨hpc, rfl⟩ |
        ⟨p, hleaves⟩
    · exact hm.take hfree _ ev
    · exact hm.put hpc hroom
    · exact hm.release hpc
    · exact hm.goto hleaves.mutex (le_of_eq (congrArg List.length hleaves.queue)) hleaves.pc
        hleaves.outside hleaves.stays
  | get hidle hqueue =>
    refine hm.goto rfl ?_ rfl (by rw [hidle]; rfl) rfl
    rw [hqueue]
    exact Nat.le_succ _
  | ret => exact ⟨hm.holder, hm.queue⟩

/-! ### The steps that close a cycle -/

/-- The step takes the mutex for a message without room while the socket thread needs the mutex, or
brings the socket thread, in a callback, to where it needs the mutex while a message waits for
room. -/
def Blocks (s : Sys) : Thread × Act → Prop
  | (t, .next succeeds) =>
      match s.pc t with
      | .sending _ =>
          s.mutex = none ∧ msgQueueSize ≤ s.queue.length ∧ (s.pc .skt).needsMutex = true
      | .found .close fd _ _ =>
          t = .skt ∧ succeeds = true ∧ (s.sockets fd).isSome = true ∧ WaitsForRoom s
      | _ => False
  | (t, .create fd _ _) =>
      t = .skt ∧ (s.mayCall t ∧ 0 ≤ fd ∧ s.sockets fd = none) ∧ WaitsForRoom s
  | (t, .call use _) => t = .skt ∧ (s.mayCall t ∧ use.isApi = true) ∧ WaitsForRoom s
  | _ => False

/-- The step leads to no cycle of waiting threads. -/
def DeadlockFree (s : Sys) (step : Thread × Act) : Prop :=
  ∀ s', exec step s = .ok () s' → ¬ Deadlock s'

/-- A stuck state, one step after a thread went on to a point where it waits for no room. -/
theorem stuck_goto {p : Pc} (h : Stuck s') (hmutex : s'.mutex = s.mutex)
    (hqueue : s'.queue = s.queue) (hpc : s'.pc = Function.update s.pc t p)
    (hp : p.holdsMutex = false) : WaitsForRoom s ∧ (t ≠ .skt → Stuck s) ∧
      (t = .skt → p.needsMutex = true) := by
  obtain ⟨⟨u, ev, hu, hput, hfull⟩, hneeds⟩ := h
  rw [hpc] at hput hneeds
  have hut : u ≠ t := by
    rintro rfl
    rw [Function.update_self] at hput
    rw [hput] at hp
    cases hp
  rw [Function.update_of_ne hut] at hput
  have hroom : WaitsForRoom s := ⟨u, ev, hmutex ▸ hu, hput, hqueue ▸ hfull⟩
  refine ⟨hroom, ?_, ?_⟩
  · intro ht
    rw [Function.update_of_ne ht.symm] at hneeds
    exact ⟨hroom, hneeds⟩
  · rintro rfl
    rwa [Function.update_self] at hneeds

/-- The socket thread goes on to where it needs the mutex, while a message waits for room. -/
theorem stuck_of_waitsForRoom {p : Pc} (hmutex : s'.mutex = s.mutex) (hqueue : s'.queue = s.queue)
    (hpc : s'.pc = Function.update s.pc .skt p) (hskt : (s.pc .skt).holdsMutex = false)
    (hp : p.needsMutex = true) (h : WaitsForRoom s) : Stuck s' := by
  obtain ⟨u, ev, hu, hput, hfull⟩ := h
  have hne : u ≠ .skt := by
    rintro rfl
    rw [hput] at hskt
    cases hskt
  refine ⟨⟨u, ev, hmutex ▸ hu, ?_, hqueue ▸ hfull⟩, ?_⟩
  · rw [hpc, Function.update_of_ne hne, hput]
  · rw [hpc, Function.update_self, hp]

/-- A section of a thread to a stuck state, from one that was not, is a step that blocks. -/
theorem blocks_of_section {succeeds : Bool} (hm : MutexInv s) (hfree : ¬ Stuck s)
    (h : Section t succeeds s s') (hstuck : Stuck s') : Blocks s (t, .next succeeds) := by
  rcases mutex_section h with ⟨ev, hpc, hnone, rfl⟩ | ⟨ev, hpc, -, rfl⟩ | ⟨-, rfl⟩ | ⟨p, hleaves⟩
  · obtain ⟨⟨u, ev', -, -, hfull⟩, hneeds⟩ := hstuck
    have ht : Thread.skt ≠ t := by
      rintro rfl
      rw [takeMutex, goto_pc, Function.update_self] at hneeds
      cases hneeds
    rw [takeMutex, goto_pc, Function.update_of_ne ht] at hneeds
    simp only [Blocks, hpc]
    exact ⟨hnone, hfull, hneeds⟩
  · -- the thread that put the message holds the mutex and waits for no room
    obtain ⟨⟨u, ev', hu, hput, -⟩, -⟩ := hstuck
    have hown : s.mutex = some t := (hm.holder t).mpr (by rw [hpc]; rfl)
    have hut : u = t := Option.some.inj (hu.symm.trans hown)
    rw [hut, goto_pc, Function.update_self] at hput
    cases hput
  · obtain ⟨⟨u, ev', hu, -⟩, -⟩ := hstuck
    cases hu
  · obtain ⟨hroom, hother, hskt⟩ :=
      stuck_goto hstuck hleaves.mutex hleaves.queue hleaves.pc hleaves.stays
    have ht : t = .skt := by_contra fun ht => hfree (hother ht)
    obtain ⟨u, ev, hu, -⟩ := id hroom
    have hneeds : (s.pc t).needsMutex = false := by
      rw [← Bool.not_eq_true]
      intro hneeds
      rw [hleaves.free hneeds] at hu
      cases hu
    obtain ⟨fd, k, i, hpc, hs, hopen⟩ := hleaves.comes hneeds (hskt ht)
    simp only [Blocks, hpc]
    exact ⟨ht, hs, hopen, hroom⟩

/-- A step to a stuck state, from one that was not, is a step that blocks. -/
theorem blocks_of_stuck {step : Thread × Act} (hm : MutexInv s) (hfree : ¬ Stuck s)
    (h : exec step s = .ok () s') (hstuck : Stuck s') : Blocks s step := by
  cases exec_cases h with
  | @create t fd type domain hcall hfd hclosed =>
    obtain ⟨hroom, hother, -⟩ :=
      stuck_goto (s := s) (t := t) (p := .opened fd type domain s.opens) hstuck rfl rfl rfl rfl
    exact ⟨by_contra fun ht => hfree (hother ht), ⟨hcall, hfd, hclosed⟩, hroom⟩
  | @call t use fd hcall hapi =>
    obtain ⟨hroom, hother, -⟩ :=
      stuck_goto (s := s) (t := t) (p := .lookup use fd) hstuck rfl rfl rfl rfl
    exact ⟨by_contra fun ht => hfree (hother ht), ⟨hcall, hapi⟩, hroom⟩
  | @raise event fd sock =>
    obtain ⟨-, hother, -⟩ := stuck_goto (s := s) (t := .tcpip)
      (p := .lookup (.apiEvent event sock s.events) fd) hstuck rfl rfl rfl rfl
    exact absurd (hother (by rintro ⟨⟩)) hfree
  | next hsection => exact blocks_of_section hm hfree hsection hstuck
  | get _ hqueue =>
    -- a message taken leaves room in the queue
    obtain ⟨⟨u, ev', -, -, hfull⟩, -⟩ := hstuck
    have hle := hm.queue
    rw [hqueue, List.length_cons] at hle
    exact absurd (hfull.trans_lt (Nat.lt_of_succ_le hle)) (Nat.lt_irrefl _)
  | ret => exact absurd hstuck hfree

/-- A step that blocks leads to a stuck state. -/
theorem stuck_of_blocks {step : Thread × Act} (hn : Numbered s) (h : Blocks s step) :
    ∃ s', exec step s = .ok () s' ∧ Stuck s' := by
  obtain ⟨t, act⟩ := step
  cases act with
  | create fd type domain =>
    obtain ⟨rfl, hc, hroom⟩ := h
    refine ⟨_, if_pos hc, stuck_of_waitsForRoom (s := s)
      (p := .opened fd type domain s.opens) rfl rfl rfl ?_ rfl hroom⟩
    rw [hc.1.2.1]
    rfl
  | call use fd =>
    obtain ⟨rfl, hc, hroom⟩ := h
    refine ⟨_, if_pos hc, stuck_of_waitsForRoom (s := s)
      (p := .lookup use fd) rfl rfl rfl ?_ rfl hroom⟩
    rw [hc.1.2.1]
    rfl
  | next succeeds =>
    simp only [Blocks] at h
    split at h
    · rename_i ev hpc
      obtain ⟨hnone, hfull, hneeds⟩ := h
      refine ⟨takeMutex t ev s, ?_, ⟨t, ev, rfl, ?_, hfull⟩, ?_⟩
      · simp only [exec, hpc, nextSection, locked, hnone]
        rfl
      · rw [takeMutex, goto_pc, Function.update_self]
      · have ht : t = .tcpip := hn.posting t (by rw [hpc]; exact List.cons_ne_nil _ _)
        subst ht
        rw [takeMutex, goto_pc, Function.update_of_ne (by rintro ⟨⟩)]
        exact hneeds
    · rename_i fd k i hpc
      obtain ⟨rfl, rfl, hopen, hroom⟩ := h
      refine ⟨lwipClose .skt fd k i true s, ?_, ?_⟩
      · simp only [exec, hpc, nextSection, if_true]
        rfl
      · unfold lwipClose
        rw [if_pos ⟨rfl, hopen⟩]
        refine stuck_of_waitsForRoom (s := s) (p := .closed fd k i) rfl rfl rfl ?_ rfl hroom
        rw [hpc]
        rfl
    · exact h.elim
  | raise event fd => exact h.elim
  | get => exact h.elim
  | ret => exact h.elim

/-! ### Runs -/

/-- What the runs without a deadlock keep. -/
structure NoDeadlock (s : Sys) : Prop where
  numbered : Numbered s
  mutex : MutexInv s
  free : ¬ Stuck s

theorem deadlockFree_of_not_blocks {step : Thread × Act} (hi : NoDeadlock s)
    (hok : ¬ Blocks s step) : DeadlockFree s step := by
  intro s' h hdead
  exact hok (blocks_of_stuck hi.mutex hi.free h
    ((deadlock_iff (numbered_exec hi.numbered h) (mutexInv_exec hi.mutex h)).mp hdead))

theorem noDeadlock_exec {step : Thread × Act} (hi : NoDeadlock s) (hok : ¬ Blocks s step)
    (h : exec step s = .ok () s') : NoDeadlock s' :=
  ⟨numbered_exec hi.numbered h, mutexInv_exec hi.mutex h,
    fun hstuck => deadlockFree_of_not_blocks hi hok s' h (deadlock_of_stuck hstuck)⟩

/-- **The layer is free of deadlock** in every state of a run, exactly when no step of it takes
the mutex for a message without room while the socket thread needs the mutex, or brings the socket
thread to where it needs the mutex while a message waits for room. -/
theorem deadlockFree_iff (steps : List (Thread × Act)) :
    Support.Along exec (fun s step => ¬ Blocks s step) steps start ↔
      Support.Along exec DeadlockFree steps start := by
  refine Support.along_iff_of_invariant NoDeadlock (fun s step hi =>
      ⟨deadlockFree_of_not_blocks hi, ?_⟩)
    (fun s step _ s' hi hok h => noDeadlock_exec hi hok h)
    ⟨numbered_start, mutexInv_start, (fun h => by cases h.2)⟩
  intro hfree hblocks
  obtain ⟨s', h, hstuck⟩ := stuck_of_blocks hi.numbered hblocks
  exact hfree s' h (deadlock_of_stuck hstuck)

/-- A socket of descriptor 0 with a callback. -/
def createAndRegister : List (Thread × Act) :=
  [(.app 0, .create 0 .tcp .ipv4), (.app 0, .next true), (.app 0, .next true),
    (.app 0, .call (.register (some 7)) 0), (.app 0, .next true), (.app 0, .next true)]

/-- An error of the socket, up to the mutex taken for its message. -/
def raiseError : List (Thread × Act) :=
  [(.tcpip, .raise (.err 1) 0), (.tcpip, .next true), (.tcpip, .next true), (.tcpip, .next true),
    (.tcpip, .next true)]

/-- The message put into the queue, and the mutex released. -/
def putError : List (Thread × Act) := [(.tcpip, .next true), (.tcpip, .next true)]

/-- Four events of one socket: the socket thread takes the first, two are in the queue, and the
TCP/IP thread takes the mutex for the last. -/
def fourEvents : List (Thread × Act) :=
  createAndRegister ++ raiseError ++ putError ++ (.skt, .get) ::
    (raiseError ++ putError ++ raiseError ++ putError ++ raiseError)

/-- The TCP/IP thread waits for room in the queue with the mutex held, and the socket thread waits
for the mutex. -/
theorem not_deadlockFree :
    ¬ ∀ steps : List (Thread × Act), Support.Along exec DeadlockFree steps start := by
  intro h
  have hrun : Support.returnsIn (fun s => s.mutex = some .tcpip ∧
      s.pc .tcpip = .putting ⟨.errInd, 0, 1, 0, 0, 3⟩ ∧ s.queue.length = msgQueueSize ∧
      (s.pc .skt).needsMutex = true) (fourEvents.mapM exec start) := by decide +kernel
  obtain ⟨_, s, hs, hend⟩ := Support.exists_of_returnsIn hrun
  obtain ⟨hmutex, hput, hfull, hneeds⟩ := of_decide_eq_true hend
  have hstart : ¬ Deadlock start := by
    rw [deadlock_iff numbered_start mutexInv_start]
    exact fun h => by cases h.2
  have hfree : ¬ Deadlock s := Support.mapM_invariant (fun s => ¬ Deadlock s)
    (fun _ _ _ _ _ hok hs => hok _ hs) hstart (h fourEvents) hs
  exact hfree (deadlock_of_stuck ⟨⟨.tcpip, _, hmutex, hput, hfull.ge⟩, hneeds⟩)

end XY1100.Socket
