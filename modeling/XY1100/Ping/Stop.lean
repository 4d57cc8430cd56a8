import Mathlib.Tactic
import XY1100.Support.Calls

/-!
# Ping — the request to stop

`stop_ping` asks the ping thread to stop in the global `g_ping_stop`, which the thread tests before
each echo request.  The initialisation of a run clears it too, and so do the status callbacks of a
run: that for the netif up in an IPv4 ping, and that for an IPv6 address in an IPv6 ping.

A step is one access to what the threads share, or one section of the ping thread between two.
`pending` is set when `stop_ping` has stored its request, until the next run; `late` marks an
iteration whose test was passed while a request was pending.

* `stopPing_stops`: in every run in which no pending request is cleared, no request is sent in an iteration
  whose test came after `stop_ping` had returned 1.
-/

namespace XY1100.PingStop
open Support

/-! ### The code -/

/-- `AF_INET` or `AF_INET6`. -/
inductive Kind
  | ipv4
  | ipv6
  deriving DecidableEq

/-- The events a callback can be registered for. -/
inductive NetifEvent
  | up
  | down
  | ipv6
  deriving DecidableEq

/-- A store of the ping thread before or after its loop. -/
inductive Action
  /-- `g_ping_stop = 0`. -/
  | clear
  /-- The callback that clears the flag is registered. -/
  | addClearing
  /-- The callback for the netif down is registered. -/
  | addDown
  | delClearing
  | delDown
  deriving DecidableEq

/-- The stores before the loop, in order. -/
def Kind.setup : Kind → List Action
  | .ipv4 => [.addClearing, .addDown, .clear]
  | .ipv6 => [.clear, .addClearing, .addDown]

/-- The stores after the loop, in order. -/
def Kind.cleanup : Kind → List Action
  | .ipv4 => [.delClearing, .delDown]
  | .ipv6 => [.delDown, .delClearing]

/-- The event that clears the flag. -/
def Kind.clearingEvent : Kind → NetifEvent
  | .ipv4 => .up
  | .ipv6 => .ipv6

/-- Where the ping thread is. -/
inductive Pc
  /-- There is none. -/
  | none
  | starting (rest : List Action)
  /-- Before the test of `g_ping_stop`. -/
  | testing
  | passed (late : Bool)
  /-- Waiting for `g_out_OOS_sem`. -/
  | outOfService (late : Bool)
  /-- Before the request is sent. -/
  | sending (late : Bool)
  /-- Waiting for the reply, and for the next iteration. -/
  | sent
  | leaving (rest : List Action)
  deriving DecidableEq

/-- The state. -/
structure Sys where
  gPingStop : Bool
  /-- `at_ping_thread_id` is not null. -/
  atPingThreadId : Bool
  /-- `start_ping` has made a thread and not yet stored its id. -/
  creating : Bool
  /-- `stop_ping` has found an id. -/
  stopping : Bool
  kind : Kind
  pingNum : Nat
  clearingCallback : Bool
  downCallback : Bool
  pc : Pc
  pending : Bool
  deriving DecidableEq

/-- No ping so far. -/
def start : Sys where
  gPingStop := false
  atPingThreadId := false
  creating := false
  stopping := false
  kind := .ipv4
  pingNum := 0
  clearingCallback := false
  downCallback := false
  pc := .none
  pending := false

/-- What the ping thread meets. -/
inductive Choice
  | goes
  /-- Out of service, before an IPv4 request. -/
  | outOfService
  /-- No address, or `sendto` fails. -/
  | fails
  deriving DecidableEq

/-- A step. -/
inductive Event
  | startPing (kind : Kind) (pingNum : Nat)
  /-- `osThreadNew` returns in `start_ping`. -/
  | created
  /-- `stop_ping` looks at `at_ping_thread_id`. -/
  | stopPing
  /-- `stop_ping` stores its request and returns. -/
  | stopStore
  | status (event : NetifEvent)
  | thread (choice : Choice)
  deriving DecidableEq

/-- A store of the ping thread. -/
def Action.perform (s : Sys) : Action → Sys
  | .clear => { s with gPingStop := false }
  | .addClearing => { s with clearingCallback := true }
  | .addDown => { s with downCallback := true }
  | .delClearing => { s with clearingCallback := false }
  | .delDown => { s with downCallback := false }

/-- The thread leaves its loop. -/
def Sys.leave (s : Sys) : Sys := { s with pc := .leaving s.kind.cleanup }

/-- The test of `g_ping_stop` and `ping_num`. -/
def Sys.test (s : Sys) : Sys :=
  if s.gPingStop = true ∨ s.pingNum = 0 then s.leave
  else { s with pingNum := s.pingNum - 1, pc := .passed s.pending }

/-- The next section of the ping thread. -/
def threadNext (choice : Choice) : EStateM Unit Sys (Option Int) := fun s =>
  match s.pc, choice with
  | .starting (a :: rest), .goes => .ok none { a.perform s with pc := .starting rest }
  | .starting [], .goes => .ok none { s with pc := .testing }
  | .starting [], .fails => .ok none s.leave
  | .testing, .goes => .ok none s.test
  | .passed late, .goes => .ok none { s with pc := .sending late }
  | .passed late, .outOfService =>
      match s.kind with
      | .ipv4 => .ok none { s with pc := .outOfService late }
      | .ipv6 => .error () s
  | .outOfService late, .goes =>
      if s.gPingStop = true then .ok none s.leave else .ok none { s with pc := .sending late }
  | .sending _, .goes => .ok none { s with pc := .sent }
  | .sending _, .fails =>
      match s.kind with
      | .ipv4 => .ok none s.leave
      | .ipv6 => .ok none { s with pc := .testing }
  | .sent, .goes =>
      if s.kind = .ipv4 ∧ s.pingNum = 0 then .ok none s.leave
      else .ok none { s with pc := .testing }
  | .leaving (a :: rest), .goes => .ok none { a.perform s with pc := .leaving rest }
  | .leaving [], .goes => .ok none { s with pc := .none, atPingThreadId := false }
  | _, _ => .error () s

/-- A status callback. -/
def status (event : NetifEvent) (s : Sys) : Sys :=
  if event = s.kind.clearingEvent ∧ s.clearingCallback = true then { s with gPingStop := false }
  else if event = .down ∧ s.downCallback = true then { s with gPingStop := true }
  else s

/-- A step, and what a function returns in it. -/
def step (e : Event) : EStateM Unit Sys (Option Int) := fun s =>
  match e with
  | .startPing kind pingNum =>
      if s.creating = true then .error () s
      else if s.atPingThreadId = true then .ok (some (-1)) s
      else
        .ok none { s with
          creating := true
          kind := kind
          pingNum := pingNum
          pc := .starting kind.setup
          pending := false }
  | .created =>
      if s.creating = true then .ok (some 0) { s with creating := false, atPingThreadId := true }
      else .error () s
  | .stopPing =>
      if s.stopping = true then .error () s
      else if s.atPingThreadId = true then .ok none { s with stopping := true }
      else .ok (some 0) s
  | .stopStore =>
      if s.stopping = true then
        .ok (some 1) { s with stopping := false, gPingStop := true, pending := true }
      else .error () s
  | .status event => .ok none (status event s)
  | .thread choice => threadNext choice s

/-! ### The request -/

/-- The run can still send a request. -/
def Pc.inRun : Pc → Bool
  | .none | .leaving _ => false
  | _ => true

/-- The thread is about to clear `g_ping_stop`. -/
def Pc.clears : Pc → Bool
  | .starting (.clear :: _) => true
  | _ => false

/-- The step clears `g_ping_stop`. -/
def clears (s : Sys) : Event → Bool
  | .status event => event = s.kind.clearingEvent && s.clearingCallback
  | .thread choice => choice = .goes && s.pc.clears
  | _ => false

/-- No pending request of the run is cleared. -/
def KeepsRequest (s : Sys) (e : Event) : Prop :=
  s.pending = true → s.pc.inRun = true → clears s e = false

/-- No echo request is sent in an iteration whose test was passed after the request to stop. -/
def Stops (s : Sys) (e : Event) : Prop :=
  ∀ late, s.pc = .sending late → e = .thread .goes → late = false

instance (s : Sys) (e : Event) : Decidable (KeepsRequest s e) := inferInstanceAs (Decidable (_ → _))

instance (s : Sys) (e : Event) : Decidable (Stops s e) :=
  inferInstanceAs (Decidable (∀ _ : Bool, _ → _))

/-! ### One step -/

/-- A pending request is in the flag, and no iteration was late. -/
structure Inv (s : Sys) : Prop where
  flag : s.pending = true → s.pc.inRun = true → s.gPingStop = true
  onTime : ∀ late, s.pc = .passed late ∨ s.pc = .outOfService late ∨ s.pc = .sending late →
    late = false

variable {s s' : Sys}

theorem inv_start : Inv start where
  flag h := Bool.noConfusion h
  onTime _ h := by rcases h with h | h | h <;> cases h

/-- A step of the thread to a place where no iteration is under way keeps the invariant, when it
leaves the flag and the request. -/
theorem Inv.moved (h : Inv s) (hflag : s'.gPingStop = s.gPingStop) (hpending : s'.pending = s.pending)
    (hrun : s'.pc.inRun = true → s.pc.inRun = true)
    (hlate : ∀ late, s'.pc = .passed late ∨ s'.pc = .outOfService late ∨ s'.pc = .sending late →
      late = false) : Inv s' where
  flag hp hr := by
    rw [hflag]
    exact h.flag (hpending ▸ hp) (hrun hr)
  onTime := hlate

theorem Inv.leave (h : Inv s) : Inv s.leave :=
  h.moved rfl rfl (fun hr => Bool.noConfusion hr) fun _ hl => by
    rcases hl with hl | hl | hl <;> cases hl

/-- The test passes only without a pending request. -/
theorem Inv.test (h : Inv s) (hrun : s.pc.inRun = true) : Inv s.test := by
  unfold Sys.test
  split_ifs with hstop
  · exact h.leave
  · -- a pending request is in the flag, so a test that passes meets none
    have hclear : s.gPingStop ≠ true := fun hno => hstop (.inl hno)
    refine h.moved rfl rfl (fun _ => hrun) fun late hl => ?_
    rcases hl with hl | hl | hl
    · cases hl
      rw [← Bool.not_eq_true]
      exact fun hp => hclear (h.flag hp hrun)
    · cases hl
    · cases hl

theorem perform_pending (a : Action) (s : Sys) : (a.perform s).pending = s.pending := by
  cases a <;> rfl

theorem perform_gPingStop {a : Action} (ha : a ≠ .clear) (s : Sys) :
    (a.perform s).gPingStop = s.gPingStop := by
  cases a with
  | clear => exact absurd rfl ha
  | addClearing | addDown | delClearing | delDown => rfl

/-- The thread goes on in its run. -/
theorem Inv.goto (h : Inv s) (hrun : s.pc.inRun = true) (pc : Pc)
    (hlate : ∀ late, pc = .passed late ∨ pc = .outOfService late ∨ pc = .sending late →
      late = false) : Inv { s with pc := pc } :=
  h.moved rfl rfl (fun _ => hrun) hlate

theorem not_late {pc : Pc} (hpc : pc = .testing ∨ pc = .sent ∨ pc = .none ∨
    (∃ rest, pc = .starting rest) ∨ ∃ rest, pc = .leaving rest) (late : Bool)
    (hl : pc = .passed late ∨ pc = .outOfService late ∨ pc = .sending late) : late = false := by
  rcases hpc with rfl | rfl | rfl | ⟨rest, rfl⟩ | ⟨rest, rfl⟩ <;> rcases hl with hl | hl | hl <;>
    cases hl

/-- An iteration goes on, and is not late. -/
theorem Inv.passes (h : Inv s) (hrun : s.pc.inRun = true) {late : Bool} (hlate : late = false)
    {pc : Pc} (hpc : pc = .outOfService late ∨ pc = .sending late) : Inv { s with pc := pc } :=
  h.goto hrun pc fun late' hl => by
    rcases hpc with rfl | rfl <;> rcases hl with hl | hl | hl <;> cases hl <;> exact hlate

/-- A store before the loop, which is not that of a pending request. -/
theorem Inv.performs (h : Inv s) {a : Action} {rest : List Action}
    (hpc : s.pc = .starting (a :: rest)) (hkeep : KeepsRequest s (.thread .goes)) :
    Inv { a.perform s with pc := .starting rest } := by
  have hrun : s.pc.inRun = true := by rw [hpc]; rfl
  refine ⟨fun hp _ => ?_, not_late (.inr (.inr (.inr (.inl ⟨rest, rfl⟩))))⟩
  rw [show ({ a.perform s with pc := .starting rest } : Sys).pending = s.pending from
    perform_pending a s] at hp
  -- the store that clears the flag is excluded while a request is pending
  have hclear : a ≠ .clear := by
    rintro rfl
    have hno := hkeep hp hrun
    simp [clears, Pc.clears, hpc] at hno
  exact (perform_gPingStop hclear s).trans (h.flag hp hrun)

/-- **The ping thread** keeps the invariant. -/
theorem Inv.threadNext (h : Inv s) {choice : Choice} {o : Option Int}
    (hkeep : KeepsRequest s (.thread choice)) (hstep : threadNext choice s = .ok o s') : Inv s' := by
  have hrun : ∀ {pc : Pc}, s.pc = pc → pc.inRun = true → s.pc.inRun = true :=
    fun hpc hin => hpc ▸ hin
  unfold PingStop.threadNext at hstep
  split at hstep
  next a rest hpc =>
    cases hstep
    exact h.performs hpc hkeep
  next hpc =>
    cases hstep
    exact h.goto (hrun hpc rfl) .testing (not_late (.inl rfl))
  next hpc =>
    cases hstep
    exact h.leave
  next hpc =>
    cases hstep
    exact h.test (hrun hpc rfl)
  next late hpc =>
    cases hstep
    exact h.passes (hrun hpc rfl) (h.onTime late (.inl hpc)) (.inr rfl)
  next late hpc =>
    split at hstep <;> cases hstep
    exact h.passes (hrun hpc rfl) (h.onTime late (.inl hpc)) (.inl rfl)
  next late hpc =>
    split_ifs at hstep <;> cases hstep
    · exact h.leave
    · exact h.passes (hrun hpc rfl) (h.onTime late (.inr (.inl hpc))) (.inr rfl)
  next late hpc =>
    cases hstep
    exact h.goto (hrun hpc rfl) .sent (not_late (.inr (.inl rfl)))
  next late hpc =>
    -- an IPv4 ping ends where `sendto` fails, an IPv6 ping goes on
    split at hstep <;> cases hstep
    · exact h.leave
    · exact h.goto (hrun hpc rfl) .testing (not_late (.inl rfl))
  next hpc =>
    split_ifs at hstep <;> cases hstep
    · exact h.leave
    · exact h.goto (hrun hpc rfl) .testing (not_late (.inl rfl))
  next a rest hpc =>
    -- a run that leaves its loop sends no more
    cases hstep
    exact ⟨fun _ hr => Bool.noConfusion hr, not_late (.inr (.inr (.inr (.inr ⟨rest, rfl⟩))))⟩
  next hpc =>
    cases hstep
    exact ⟨fun _ hr => Bool.noConfusion hr, not_late (.inr (.inr (.inl rfl)))⟩
  next => cases hstep

/-- The status callbacks keep the invariant. -/
theorem Inv.status (h : Inv s) {event : NetifEvent} (hkeep : KeepsRequest s (.status event)) :
    Inv (status event s) := by
  unfold PingStop.status
  split_ifs with hclear hdown
  · refine ⟨fun hp hr => ?_, h.onTime⟩
    have hno := hkeep hp hr
    simp [clears, hclear] at hno
  · exact ⟨fun _ _ => rfl, h.onTime⟩
  · exact h

/-- **One step.** -/
theorem Inv.step (h : Inv s) {e : Event} {o : Option Int} (hkeep : KeepsRequest s e)
    (hstep : step e s = .ok o s') : Inv s' := by
  unfold PingStop.step at hstep
  cases e with
  | startPing kind pingNum =>
      dsimp only at hstep
      split_ifs at hstep <;> cases hstep
      · exact h
      · exact ⟨fun hp => Bool.noConfusion hp, not_late (.inr (.inr (.inr (.inl ⟨_, rfl⟩))))⟩
  | created =>
      dsimp only at hstep
      split_ifs at hstep
      cases hstep
      exact ⟨h.flag, h.onTime⟩
  | stopPing =>
      dsimp only at hstep
      split_ifs at hstep <;> cases hstep
      · exact ⟨h.flag, h.onTime⟩
      · exact h
  | stopStore =>
      dsimp only at hstep
      split_ifs at hstep
      cases hstep
      exact ⟨fun _ _ => rfl, h.onTime⟩
  | status event =>
      cases hstep
      exact h.status hkeep
  | thread choice => exact h.threadNext hkeep hstep

/-- **The request to stop.**  In every run in which no pending request is cleared, no echo request is
sent in an iteration whose test came after it. -/
theorem stopPing_stops {es : List Event} (hkeep : Along step KeepsRequest es start) :
    Along step Stops es start :=
  Along.of_invariant Inv
    (fun _ _ h hok => ⟨fun late hpc _ => h.onTime late (.inr (.inr hpc)),
      fun _ _ hstep => h.step hok hstep⟩) inv_start hkeep

/-- The thread takes so many steps. -/
def threadGoes (n : Nat) : List Event := List.replicate n (.thread .goes)

/-- An IPv4 ping of two requests that is stopped after the first. -/
def stoppedRun : List Event :=
  [.startPing .ipv4 2, .created] ++ threadGoes 7 ++ [.stopPing, .stopStore] ++ threadGoes 2

theorem stops_stopped : Along step Stops stoppedRun start := stopPing_stops (by decide)

/-- An IPv4 ping that is stopped before its thread has run. -/
def earlyStop : List Event :=
  [.startPing .ipv4 1, .created, .stopPing, .stopStore] ++ threadGoes 7

/-- The initialisation clears the request, and the echo request is sent. -/
theorem not_stops_early : ¬ ∀ es, Along step Stops es start := by
  intro h
  exact absurd (h earlyStop) (by decide)

end XY1100.PingStop
