import Mathlib.Tactic
import XY1100.Socket.System

/-!
# Socket — what a step can do

The sections of a thread that come to their end (`Section`), and the steps of the system that do
(`Stepped`), each with what it found and the state it leaves.

* `nextSection_cases`, `exec_cases`: there are no others.
-/

namespace XY1100.Socket

variable {slots : Fin maxSocket → Option Slot} {s s' : Sys} {t : Thread}

/-! ### Parts of a section -/

theorem locked_ok {body : EStateM Stop Sys Unit} (h : locked body s = .ok () s') :
    s.mutex = none ∧ body s = .ok () s' := by
  unfold locked at h
  split_ifs at h with hm
  exact ⟨by simpa using hm, h⟩

theorem returns_ok {body : Sys → Sys} (h : returns body s = .ok () s') : s' = body s := by
  cases h
  rfl

@[simp] theorem goto_pc (s : Sys) (t : Thread) (p : Pc) :
    (s.goto t p).pc = Function.update s.pc t p := rfl

@[simp] theorem goto_slots (s : Sys) (t : Thread) (p : Pc) : (s.goto t p).slots = s.slots := rfl

@[simp] theorem goto_sockets (s : Sys) (t : Thread) (p : Pc) :
    (s.goto t p).sockets = s.sockets := rfl

@[simp] theorem goto_mutex (s : Sys) (t : Thread) (p : Pc) : (s.goto t p).mutex = s.mutex := rfl

@[simp] theorem goto_queue (s : Sys) (t : Thread) (p : Pc) : (s.goto t p).queue = s.queue := rfl

/-- The lookup returns a slot of the descriptor. -/
theorem findValidSocketIdxByFd_some {fd : Int} {idx : Fin maxSocket}
    (h : findValidSocketIdxByFd slots fd = some idx) :
    ∃ slot, slots idx = some slot ∧ slot.sktFd = fd := by
  have hidx := List.find?_some h
  simpa [Option.any_eq_true] using hidx

/-- The search for an empty slot returns one. -/
theorem findEmptySocketIdx_some {idx : Fin maxSocket} (h : findEmptySocketIdx slots = some idx) :
    slots idx = none := by
  have hidx := List.find?_some h
  simpa using hidx

/-- `xy_async_socket_api_event` returns or posts. -/
theorem toPost_cases (event : LwipEvent) (fd : Int) (sock number : Nat) :
    event.toPost fd sock number = .idle ∨
      ∃ ev, event.posted fd sock number = some ev ∧
        event.toPost fd sock number = .lookup (.post ev) fd := by
  unfold LwipEvent.toPost
  cases event.posted fd sock number with
  | none => exact .inl rfl
  | some ev => exact .inr ⟨ev, rfl, rfl⟩

/-- A function goes on to use the slot it found, or is an event that changes nothing there. -/
theorem afterFind_cases (use : Use) (fd : Int) (sock : Nat) (idx : Fin maxSocket) :
    use.afterFind fd sock idx = .found use fd sock idx ∨
      ∃ event raiser number, use = .apiEvent event raiser number ∧
        use.afterFind fd sock idx = event.toPost fd raiser number := by
  cases use with
  | apiEvent event raiser number =>
    by_cases ho : event.onSlot.isSome
    · exact .inl (if_pos ho)
    · exact .inr ⟨event, raiser, number, rfl, if_neg ho⟩
  | _ => exact .inl rfl

/-- A function that used the slot it found returns, posts, sends or calls. -/
theorem afterUse_cases (use : Use) (fd : Int) (slot : Slot) :
    use.afterUse fd slot = .idle ∨
      (∃ event sock number, use = .apiEvent event sock number ∧
        use.afterUse fd slot = event.toPost fd sock number) ∨
      (∃ ev, use = .post ev ∧ slot.eventCallback.isSome ∧ use.afterUse fd slot = .sending ev) ∨
      ∃ ev, use = .deliver ev ∧ use.afterUse fd slot = .calling ev slot.eventCallback := by
  cases use with
  | apiEvent event sock number => exact .inr (.inl ⟨event, sock, number, rfl, rfl⟩)
  | post ev =>
    by_cases hcb : slot.eventCallback.isSome
    · exact .inr (.inr (.inl ⟨ev, rfl, hcb, if_pos hcb⟩))
    · exact .inl (if_neg hcb)
  | deliver ev => exact .inr (.inr (.inr ⟨ev, rfl, rfl⟩))
  | _ => exact .inl rfl

theorem onSlot_sktFd (use : Use) (slot : Slot) : (use.onSlot slot).sktFd = slot.sktFd := by
  cases use with
  | apiEvent event sock number => cases event <;> rfl
  | _ => rfl

theorem onSlot_sock (use : Use) (slot : Slot) : (use.onSlot slot).sock = slot.sock := by
  cases use with
  | apiEvent event sock number => cases event <;> rfl
  | _ => rfl

/-! ### Sections -/

/-- A section of a thread that comes to its end. -/
inductive Section (t : Thread) (succeeds : Bool) (s : Sys) : Sys → Prop
  /-- A creation finds no empty slot. -/
  | full {fd type domain sock} (hpc : s.pc t = .opened fd type domain sock)
      (hfree : s.mutex = none) (hnone : findEmptySocketIdx s.slots = none) :
      Section t succeeds s (s.goto t (.dropping fd sock))
  | chosen {fd type domain sock idx} (hpc : s.pc t = .opened fd type domain sock)
      (hfree : s.mutex = none) (hempty : s.slots idx = none) :
      Section t succeeds s (s.goto t (.chosen fd type domain sock idx))
  | dropped {fd sock} (hpc : s.pc t = .dropping fd sock) : Section t succeeds s (dropFd t fd s)
  | stored {fd type domain sock idx} (hpc : s.pc t = .chosen fd type domain sock idx)
      (hfree : s.mutex = none) : Section t succeeds s (storeSlot t fd type domain sock idx s)
  /-- A lookup finds no slot. -/
  | missed {use fd} (hpc : s.pc t = .lookup use fd) (hfree : s.mutex = none)
      (hnone : findValidSocketIdxByFd s.slots fd = none) : Section t succeeds s (s.goto t .idle)
  | found {use fd idx slot} (hpc : s.pc t = .lookup use fd) (hfree : s.mutex = none)
      (hslot : s.slots idx = some slot) (hfd : slot.sktFd = fd) :
      Section t succeeds s (s.goto t (use.afterFind fd slot.sock idx))
  | shut {fd sock idx} (hpc : s.pc t = .found .close fd sock idx) (hsucceeds : succeeds = true)
      (hopen : (s.sockets fd).isSome = true) :
      Section t succeeds s
        ({ s with sockets := Function.update s.sockets fd none }.goto t (.closed fd sock idx))
  /-- The stack's `close` fails. -/
  | refused {fd sock idx} (hpc : s.pc t = .found .close fd sock idx)
      (hfails : ¬ (succeeds = true ∧ (s.sockets fd).isSome = true)) :
      Section t succeeds s (s.goto t .idle)
  | used {use fd sock idx slot} (hpc : s.pc t = .found use fd sock idx) (huse : use ≠ .close)
      (hfree : s.mutex = none) (hslot : s.slots idx = some slot) :
      Section t succeeds s ({ s with
        slots := Function.update s.slots idx (some (use.onSlot slot))
        registered := use.registers sock s.registered }.goto t (use.afterUse fd slot))
  | freed {fd sock idx} (hpc : s.pc t = .closed fd sock idx) (hfree : s.mutex = none) :
      Section t succeeds s ({ s with slots := Function.update s.slots idx none }.goto t .idle)
  | locked {ev} (hpc : s.pc t = .sending ev) (hfree : s.mutex = none) :
      Section t succeeds s (takeMutex t ev s)
  | put {ev} (hpc : s.pc t = .putting ev) (hroom : s.queue.length < msgQueueSize) :
      Section t succeeds s ({ s with queue := s.queue ++ [ev] }.goto t .unlocking)
  | unlocked (hpc : s.pc t = .unlocking) : Section t succeeds s (releaseMutex t s)
  | called {ev cb} (hpc : s.pc t = .calling ev (some cb)) :
      Section t succeeds s
        ({ s with inCallback := true, delivered := s.delivered ++ [(ev, cb)] }.goto t .idle)

/-- A lookup that returns found the slot of the descriptor, or none. -/
theorem searchFd_cases (t : Thread) (use : Use) (fd : Int) (s : Sys) :
    (findValidSocketIdxByFd s.slots fd = none ∧ searchFd t use fd s = s.goto t .idle) ∨
      ∃ idx slot, s.slots idx = some slot ∧ slot.sktFd = fd ∧
        searchFd t use fd s = s.goto t (use.afterFind fd slot.sock idx) := by
  unfold searchFd
  cases hf : findValidSocketIdxByFd s.slots fd with
  | none => exact .inl ⟨rfl, rfl⟩
  | some idx =>
    obtain ⟨slot, hslot, hfd⟩ := findValidSocketIdxByFd_some hf
    refine .inr ⟨idx, slot, hslot, hfd, ?_⟩
    simp only [hslot]

theorem useSlot_ok {use : Use} {fd : Int} {sock : Nat} {idx : Fin maxSocket}
    (h : useSlot t use fd sock idx s = .ok () s') :
    ∃ slot, s.slots idx = some slot ∧ s' = { s with
      slots := Function.update s.slots idx (some (use.onSlot slot))
      registered := use.registers sock s.registered }.goto t (use.afterUse fd slot) := by
  unfold useSlot at h
  cases hslot : s.slots idx with
  | none => simp [hslot] at h
  | some slot =>
    simp only [hslot] at h
    cases h
    exact ⟨slot, rfl, rfl⟩

theorem freeSlot_ok {idx : Fin maxSocket} (h : freeSlot t idx s = .ok () s') :
    s' = { s with slots := Function.update s.slots idx none }.goto t .idle := by
  unfold freeSlot at h
  cases hslot : s.slots idx with
  | none => simp [hslot] at h
  | some slot =>
    simp only [hslot] at h
    cases h
    rfl

/-- **What the next section of a thread can do.** -/
theorem nextSection_cases {succeeds : Bool} (h : nextSection t succeeds (s.pc t) s = .ok () s') :
    Section t succeeds s s' := by
  cases hpc : s.pc t with
  | idle =>
    rw [hpc] at h
    cases h
  | opened fd type domain sock =>
    rw [hpc] at h
    obtain ⟨hfree, h⟩ := locked_ok h
    cases returns_ok h
    unfold searchEmpty
    cases hf : findEmptySocketIdx s.slots with
    | none => exact .full hpc hfree hf
    | some idx => exact .chosen hpc hfree (findEmptySocketIdx_some hf)
  | dropping fd sock =>
    rw [hpc] at h
    cases returns_ok h
    exact .dropped hpc
  | chosen fd type domain sock idx =>
    rw [hpc] at h
    obtain ⟨hfree, h⟩ := locked_ok h
    cases returns_ok h
    exact .stored hpc hfree
  | lookup use fd =>
    rw [hpc] at h
    obtain ⟨hfree, h⟩ := locked_ok h
    cases returns_ok h
    rcases searchFd_cases t use fd s with ⟨hnone, hs⟩ | ⟨idx, slot, hslot, hfd, hs⟩ <;>
      rw [hs]
    · exact .missed hpc hfree hnone
    · exact .found hpc hfree hslot hfd
  | found use fd sock idx =>
    rw [hpc] at h
    simp only [nextSection] at h
    split_ifs at h with hclose
    · subst hclose
      cases returns_ok h
      unfold lwipClose
      split_ifs with hs
      · exact .shut hpc hs.1 hs.2
      · exact .refused hpc hs
    · obtain ⟨hfree, h⟩ := locked_ok h
      obtain ⟨slot, hslot, rfl⟩ := useSlot_ok h
      exact .used hpc hclose hfree hslot
  | closed fd sock idx =>
    rw [hpc] at h
    obtain ⟨hfree, h⟩ := locked_ok h
    rw [freeSlot_ok h]
    exact .freed hpc hfree
  | sending event =>
    rw [hpc] at h
    obtain ⟨hfree, h⟩ := locked_ok h
    cases returns_ok h
    exact .locked hpc hfree
  | putting event =>
    rw [hpc] at h
    simp only [nextSection, putMessage] at h
    split_ifs at h with hroom
    cases h
    exact .put hpc hroom
  | unlocking =>
    rw [hpc] at h
    cases returns_ok h
    exact .unlocked hpc
  | calling event cbFunc =>
    rw [hpc] at h
    cases cbFunc with
    | none => cases h
    | some cb =>
      cases h
      exact .called hpc

/-! ### Steps -/

/-- A step of the system that comes to its end. -/
inductive Stepped (s : Sys) : Thread × Act → Sys → Prop
  | create {t fd type domain} (hcall : s.mayCall t) (hfd : 0 ≤ fd) (hclosed : s.sockets fd = none) :
      Stepped s (t, .create fd type domain) (socketCall t fd type domain s)
  | call {t use fd} (hcall : s.mayCall t) (hapi : use.isApi = true) :
      Stepped s (t, .call use fd) (s.goto t (.lookup use fd))
  | raise {event fd sock} (hidle : s.pc .tcpip = .idle) (hopen : s.sockets fd = some sock) :
      Stepped s (.tcpip, .raise event fd) ({ s with events := s.events + 1 }.goto .tcpip
        (.lookup (.apiEvent event sock s.events) fd))
  | next {t succeeds s'} (h : Section t succeeds s s') : Stepped s (t, .next succeeds) s'
  | get {ev queue} (hidle : s.pc .skt = .idle) (hqueue : s.queue = ev :: queue)
      (hreturned : s.inCallback = false) :
      Stepped s (.skt, .get)
        ({ s with queue := queue }.goto .skt (.lookup (.deliver ev) ev.sktFd))
  | ret (hidle : s.pc .skt = .idle) (hcalled : s.inCallback = true) :
      Stepped s (.skt, .ret) { s with inCallback := false }

theorem raiseEvent_ok {event : LwipEvent} {fd : Int} (h : raiseEvent event fd s = .ok () s') :
    ∃ sock, s.sockets fd = some sock ∧ s' = { s with events := s.events + 1 }.goto .tcpip
      (.lookup (.apiEvent event sock s.events) fd) := by
  unfold raiseEvent at h
  cases hs : s.sockets fd with
  | none => simp [hs] at h
  | some sock =>
    simp only [hs] at h
    cases h
    exact ⟨sock, rfl, rfl⟩

theorem getMessage_ok (h : getMessage s = .ok () s') :
    ∃ ev queue, s.queue = ev :: queue ∧
      s' = { s with queue := queue }.goto .skt (.lookup (.deliver ev) ev.sktFd) := by
  unfold getMessage at h
  cases hq : s.queue with
  | nil => simp [hq] at h
  | cons ev queue =>
    simp only [hq] at h
    cases h
    exact ⟨ev, queue, rfl, rfl⟩

/-- **What a step can do.** -/
theorem exec_cases {step : Thread × Act} (h : exec step s = .ok () s') : Stepped s step s' := by
  obtain ⟨t, act⟩ := step
  cases act with
  | create fd type domain =>
    simp only [exec] at h
    split_ifs at h with hc
    cases returns_ok h
    exact .create hc.1 hc.2.1 hc.2.2
  | call use fd =>
    simp only [exec] at h
    split_ifs at h with hc
    cases returns_ok h
    exact .call hc.1 hc.2
  | raise event fd =>
    simp only [exec] at h
    split_ifs at h with hc
    obtain ⟨rfl, hidle⟩ := hc
    obtain ⟨sock, hopen, rfl⟩ := raiseEvent_ok h
    exact .raise hidle hopen
  | next succeeds => exact .next (nextSection_cases h)
  | get =>
    simp only [exec] at h
    split_ifs at h with hc
    obtain ⟨rfl, hidle, hreturned⟩ := hc
    obtain ⟨ev, queue, hqueue, rfl⟩ := getMessage_ok h
    exact .get hidle hqueue hreturned
  | ret =>
    simp only [exec] at h
    split_ifs at h with hc
    obtain ⟨rfl, hidle, hcalled⟩ := hc
    cases h
    exact .ret hidle hcalled

end XY1100.Socket
