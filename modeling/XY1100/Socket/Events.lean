import Mathlib.Tactic
import XY1100.Socket.Descriptors

/-!
# Socket — the delivery of events

An event carries the descriptor it was raised on.  The descriptor is looked up when the TCP/IP
thread posts the event, and again when the socket thread delivers it; in between, the socket can be
closed and its descriptor given to another.  A callback is tested when an event is posted and is
called as it is found when the event is delivered.

* `numbered_exec`: no event is delivered twice, in any run.
* `Misdirects`: a step that gives away the descriptor of an event in flight, the slot that a
  registration, a post or a delivery has found, or the callback an event in the queue awaits.
* `events_delivered`: in the runs without such a step an event is delivered only to a callback that
  its socket registered, and no null callback is called.
-/

namespace XY1100.Socket

variable {sockets sockets' : Int → Option Nat} {slots slots' : Fin maxSocket → Option Slot}
  {pc : Thread → Pc} {s s' : Sys} {t : Thread}

/-! ### Events in flight -/

/-- A raised event: its descriptor, its socket and its number. -/
structure Raised where
  fd : Int
  sock : Nat
  number : Nat
  deriving Repr, DecidableEq

def SockEvent.raised (ev : SockEvent) : Raised := ⟨ev.sktFd, ev.sock, ev.number⟩

/-- The event a thread at this point is posting. -/
def Pc.posting : Pc → List Raised
  | .lookup (.apiEvent _ sock number) fd | .found (.apiEvent _ sock number) fd _ _ =>
      [⟨fd, sock, number⟩]
  | .lookup (.post ev) _ | .found (.post ev) _ _ _ | .sending ev | .putting ev => [ev.raised]
  | _ => []

/-- The event a thread at this point is posting, with its callback tested. -/
def Pc.sent : Pc → List Raised
  | .sending ev | .putting ev => [ev.raised]
  | _ => []

/-- The event a thread at this point has taken from the queue, with its callback not yet read. -/
def Pc.looking : Pc → List Raised
  | .lookup (.deliver ev) _ | .found (.deliver ev) _ _ _ => [ev.raised]
  | _ => []

/-- The event a thread at this point has taken from the queue. -/
def Pc.taken : Pc → List Raised
  | .lookup (.deliver ev) _ | .found (.deliver ev) _ _ _ | .calling ev _ => [ev.raised]
  | _ => []

/-- The events raised whose callback has not been read for delivery. -/
def Sys.inFlight (s : Sys) : List Raised :=
  (s.pc .skt).looking ++ s.queue.map SockEvent.raised ++ (s.pc .tcpip).posting

/-- The events in flight whose callback was tested. -/
def Sys.posted (s : Sys) : List Raised :=
  (s.pc .skt).looking ++ s.queue.map SockEvent.raised ++ (s.pc .tcpip).sent

/-- The numbers of the events delivered, taken, in the queue and being posted. -/
def Sys.numbers (s : Sys) : List Nat :=
  s.delivered.map (fun d => d.1.number) ++
    ((s.pc .skt).taken ++ s.queue.map SockEvent.raised ++ (s.pc .tcpip).posting).map Raised.number

/-! ### No event is delivered twice -/

/-- Only the TCP/IP thread posts, only the socket thread delivers, and no number is used twice. -/
structure Numbered (s : Sys) : Prop where
  posting : ∀ t, (s.pc t).posting ≠ [] → t = .tcpip
  taken : ∀ t, (s.pc t).taken ≠ [] → t = .skt
  lt : ∀ n ∈ s.numbers, n < s.events
  nodup : s.numbers.Nodup

theorem numbered_start : Numbered start where
  posting _ h := absurd rfl h
  taken _ h := absurd rfl h
  lt n h := by cases h
  nodup := List.nodup_nil

/-- The message posted for an event carries its descriptor, its socket and its number. -/
theorem raised_of_posted {event : LwipEvent} {fd : Int} {sock number : Nat} {ev : SockEvent}
    (h : event.posted fd sock number = some ev) : ev.raised = ⟨fd, sock, number⟩ := by
  cases event with
  | recv availsize =>
    simp only [LwipEvent.posted] at h
    split_ifs at h
    cases h
    rfl
  | other => cases h
  | _ => cases h; rfl

theorem posting_toPost (event : LwipEvent) (fd : Int) (sock number : Nat) :
    (event.toPost fd sock number).posting.Sublist [⟨fd, sock, number⟩] := by
  rcases toPost_cases event fd sock number with h | ⟨ev, hev, h⟩ <;> rw [h]
  · exact List.nil_sublist _
  · show [ev.raised].Sublist _
    rw [raised_of_posted hev]

theorem taken_toPost (event : LwipEvent) (fd : Int) (sock number : Nat) :
    (event.toPost fd sock number).taken = [] := by
  rcases toPost_cases event fd sock number with h | ⟨ev, -, h⟩ <;> rw [h] <;> rfl

/-- The step from a lookup to the slot found takes no event, and posts none but the one it was
posting. -/
theorem events_afterFind (use : Use) (fd : Int) (sock : Nat) (idx : Fin maxSocket) :
    (use.afterFind fd sock idx).posting.Sublist (Pc.lookup use fd).posting ∧
      (use.afterFind fd sock idx).taken.Sublist (Pc.lookup use fd).taken := by
  rcases afterFind_cases use fd sock idx with h | ⟨event, raiser, number, rfl, h⟩ <;> rw [h]
  · cases use <;> exact ⟨List.Sublist.refl _, List.Sublist.refl _⟩
  · rw [taken_toPost]
    exact ⟨posting_toPost _ _ _ _, List.nil_sublist _⟩

theorem events_afterUse (use : Use) (fd : Int) (sock : Nat) (idx : Fin maxSocket) (slot : Slot) :
    (use.afterUse fd slot).posting.Sublist (Pc.found use fd sock idx).posting ∧
      (use.afterUse fd slot).taken.Sublist (Pc.found use fd sock idx).taken := by
  rcases afterUse_cases use fd slot with h | ⟨event, raiser, number, rfl, h⟩ | ⟨ev, rfl, -, h⟩ |
      ⟨ev, rfl, h⟩ <;> rw [h]
  · exact ⟨List.nil_sublist _, List.nil_sublist _⟩
  · rw [taken_toPost]
    exact ⟨posting_toPost _ _ _ _, List.nil_sublist _⟩
  · exact ⟨List.Sublist.refl _, List.nil_sublist _⟩
  · exact ⟨List.nil_sublist _, List.Sublist.refl _⟩

/-- What the next section of a thread does to the events: it puts the event it is posting into the
queue, it delivers the event it has taken, or it keeps or drops the event it has. -/
theorem events_section {succeeds : Bool} (h : Section t succeeds s s') :
    (∃ ev, s.pc t = .putting ev ∧ s' = { s with queue := s.queue ++ [ev] }.goto t .unlocking) ∨
      (∃ ev cb, s.pc t = .calling ev (some cb) ∧
        s' = { s with inCallback := true, delivered := s.delivered ++ [(ev, cb)] }.goto t .idle) ∨
      s'.queue = s.queue ∧ s'.delivered = s.delivered ∧ s'.events = s.events ∧
        ∃ p, s'.pc = Function.update s.pc t p ∧ p.posting.Sublist (s.pc t).posting ∧
          p.taken.Sublist (s.pc t).taken := by
  cases h with
  | @put ev hpc => exact .inl ⟨ev, hpc, rfl⟩
  | @called ev cb hpc => exact .inr (.inl ⟨ev, cb, hpc, rfl⟩)
  | @found use fd idx slot hpc =>
    refine .inr (.inr ⟨rfl, rfl, rfl, _, rfl, ?_⟩)
    rw [hpc]
    exact events_afterFind use fd slot.sock idx
  | @used use fd sock idx slot hpc =>
    refine .inr (.inr ⟨rfl, rfl, rfl, _, rfl, ?_⟩)
    rw [hpc]
    exact events_afterUse use fd sock idx slot
  | locked hpc =>
    refine .inr (.inr ⟨rfl, rfl, rfl, _, rfl, ?_, List.nil_sublist _⟩)
    rw [hpc]
    exact List.Sublist.refl _
  -- the other sections leave the thread with no event
  | _ => exact .inr (.inr ⟨rfl, rfl, rfl, _, rfl, List.nil_sublist _, List.nil_sublist _⟩)

/-- A view of the threads' points, after one thread went on to a point with a smaller view. -/
theorem sublist_update (view : Pc → List Raised) {p : Pc} (t u : Thread)
    (h : (view p).Sublist (view (pc t))) :
    (view (Function.update pc t p u)).Sublist (view (pc u)) := by
  by_cases hu : u = t
  · subst hu
    rwa [Function.update_self]
  · rw [Function.update_of_ne hu]

theorem ne_nil_of_sublist {l l' : List Raised} (h : l.Sublist l') (hl : l ≠ []) : l' ≠ [] := by
  rintro rfl
  exact hl (List.sublist_nil.mp h)

/-- A thread goes on and keeps or drops the event it has. -/
theorem Numbered.shrink (hn : Numbered s) {p : Pc} (hqueue : s'.queue = s.queue)
    (hdelivered : s'.delivered = s.delivered) (hevents : s'.events = s.events)
    (hpc : s'.pc = Function.update s.pc t p) (hposting : p.posting.Sublist (s.pc t).posting)
    (htaken : p.taken.Sublist (s.pc t).taken) : Numbered s' := by
  have hp : ∀ u, (s'.pc u).posting.Sublist (s.pc u).posting := by
    intro u
    rw [hpc]
    exact sublist_update Pc.posting t u hposting
  have htk : ∀ u, (s'.pc u).taken.Sublist (s.pc u).taken := by
    intro u
    rw [hpc]
    exact sublist_update Pc.taken t u htaken
  have hnum : s'.numbers.Sublist s.numbers := by
    unfold Sys.numbers
    rw [hqueue, hdelivered]
    exact (List.Sublist.refl _).append
      ((((htk _).append (List.Sublist.refl _)).append (hp _)).map _)
  exact ⟨fun u hu => hn.posting u (ne_nil_of_sublist (hp u) hu),
    fun u hu => hn.taken u (ne_nil_of_sublist (htk u) hu),
    fun n h => by rw [hevents]; exact hn.lt n (hnum.subset h), hn.nodup.sublist hnum⟩

/-- The TCP/IP thread begins to post an event with a new number. -/
theorem Numbered.raise (hn : Numbered s) (hidle : s.pc .tcpip = .idle) (event : LwipEvent)
    (fd : Int) (sock : Nat) : Numbered (Sys.goto { s with events := s.events + 1 } .tcpip
      (.lookup (.apiEvent event sock s.events) fd)) := by
  have hnum : (Sys.goto { s with events := s.events + 1 } .tcpip
      (.lookup (.apiEvent event sock s.events) fd)).numbers = s.numbers ++ [s.events] := by
    simp [Sys.numbers, Sys.goto, hidle, Pc.posting]
  refine ⟨?_, ?_, ?_, ?_⟩
  · intro u hu
    by_cases hut : u = .tcpip
    · exact hut
    · rw [goto_pc, Function.update_of_ne hut] at hu
      exact hn.posting u hu
  · intro u hu
    refine hn.taken u (ne_nil_of_sublist ?_ hu)
    exact sublist_update Pc.taken .tcpip u (List.nil_sublist _)
  · intro n hmem
    rw [hnum] at hmem
    rcases List.mem_append.mp hmem with hmem | hmem
    · exact Nat.lt_succ_of_lt (hn.lt n hmem)
    · rw [List.mem_singleton.mp hmem]
      exact Nat.lt_succ_self _
  · rw [hnum]
    refine hn.nodup.append (List.nodup_singleton _) ?_
    intro n hmem hnew
    rw [List.mem_singleton.mp hnew] at hmem
    exact absurd (hn.lt _ hmem) (Nat.lt_irrefl _)

/-- An event moves on between the threads and the queue, with the numbers where they were. -/
theorem Numbered.move (hn : Numbered s) (hnum : s'.numbers = s.numbers)
    (hevents : s'.events = s.events) (hposting : ∀ u, (s'.pc u).posting ≠ [] → u = .tcpip)
    (htaken : ∀ u, (s'.pc u).taken ≠ [] → u = .skt) : Numbered s' :=
  ⟨hposting, htaken, by rw [hnum, hevents]; exact hn.lt, by rw [hnum]; exact hn.nodup⟩

/-- A thread goes on to a point with no event. -/
theorem Numbered.goto_posting (hn : Numbered s) {p : Pc} (hp : p.posting = []) (t u : Thread)
    (h : (Function.update s.pc t p u).posting ≠ []) : u = .tcpip :=
  hn.posting u (ne_nil_of_sublist (sublist_update Pc.posting t u (hp ▸ List.nil_sublist _)) h)

theorem Numbered.goto_taken (hn : Numbered s) {p : Pc} (hp : p.taken = []) (t u : Thread)
    (h : (Function.update s.pc t p u).taken ≠ []) : u = .skt :=
  hn.taken u (ne_nil_of_sublist (sublist_update Pc.taken t u (hp ▸ List.nil_sublist _)) h)

/-- The next section of a thread keeps the numbers apart. -/
theorem numbered_section {succeeds : Bool} (hn : Numbered s) (h : Section t succeeds s s') :
    Numbered s' := by
  rcases events_section h with ⟨ev, hpc, rfl⟩ | ⟨ev, cb, hpc, rfl⟩ |
      ⟨hqueue, hdelivered, hevents, p, hp, hposting, htaken⟩
  · have ht : t = .tcpip := hn.posting t (by rw [hpc]; exact List.cons_ne_nil _ _)
    subst ht
    exact hn.move (by simp [Sys.numbers, Sys.goto, hpc, Pc.posting]) rfl
      (hn.goto_posting rfl .tcpip) (hn.goto_taken rfl .tcpip)
  · have ht : t = .skt := hn.taken t (by rw [hpc]; exact List.cons_ne_nil _ _)
    subst ht
    exact hn.move (by simp [Sys.numbers, Sys.goto, hpc, Pc.taken, SockEvent.raised]) rfl
      (hn.goto_posting rfl .skt) (hn.goto_taken rfl .skt)
  · exact hn.shrink hqueue hdelivered hevents hp hposting htaken

/-- **At most once.**  Every step keeps the numbers apart. -/
theorem numbered_exec {step : Thread × Act} (hn : Numbered s) (h : exec step s = .ok () s') :
    Numbered s' := by
  cases exec_cases h with
  | create => exact hn.shrink rfl rfl rfl rfl (List.nil_sublist _) (List.nil_sublist _)
  | @call t use fd _ hapi =>
    refine hn.shrink rfl rfl rfl rfl ?_ ?_
    · cases use <;> first | exact List.nil_sublist _ | cases hapi
    · cases use <;> first | exact List.nil_sublist _ | cases hapi
  | raise hidle => exact hn.raise hidle _ _ _
  | next hsection => exact numbered_section hn hsection
  | get hidle hqueue =>
    refine hn.move (by simp [Sys.numbers, Sys.goto, hidle, hqueue, Pc.taken]) rfl
      (hn.goto_posting rfl .skt) ?_
    intro u hu
    by_cases hut : u = .skt
    · exact hut
    · rw [goto_pc, Function.update_of_ne hut] at hu
      exact hn.taken u hu
  | ret => exact ⟨hn.posting, hn.taken, hn.lt, hn.nodup⟩

/-! ### Events reach the callbacks of their sockets -/

/-- The functions that read or write the callback of the slot they found. -/
def Use.watches : Use → Prop
  | .register _ | .post _ | .deliver _ => True
  | _ => False

/-- The step reissues a descriptor or gives away the descriptor of an event in flight, it fills or
frees a slot that a registration, a post or a delivery has found, or it takes back the callback of
a socket with a posted event. -/
def Misdirects (s : Sys) (step : Thread × Act) : Prop :=
  Reissues s step ∨
    match step with
    | (_, .create fd _ _) => ∃ r ∈ s.inFlight, r.fd = fd
    | (t, .next _) =>
        match s.pc t with
        | .chosen _ _ _ _ idx | .closed _ _ idx =>
            ∃ u use fd sock, use.watches ∧ s.pc u = .found use fd sock idx
        | .found (.register none) fd _ _ => ∃ r ∈ s.posted, r.fd = fd
        | _ => False
    | _ => False

/-- The descriptor of a raised event still stands for the socket that raised it. -/
def Tracks (sockets : Int → Option Nat) (slots : Fin maxSocket → Option Slot) (r : Raised) : Prop :=
  (∀ k, sockets r.fd = some k → k = r.sock) ∧
    ∀ i a, slots i = some a → a.sktFd = r.fd → a.sock = r.sock

/-- The slot of a posted event, if there still is one, has a callback, and there will be no new
one. -/
def Awaited (slots : Fin maxSocket → Option Slot) (pc : Thread → Pc) (r : Raised) : Prop :=
  (∀ i a, slots i = some a → a.sktFd = r.fd → a.eventCallback.isSome) ∧
    ∀ t k, (pc t).creates ≠ some (r.fd, k)

/-- What a thread that posts, delivers or registers has found still holds, and a callback that was
read for an event was registered by the event's socket. -/
def EventSound (slots : Fin maxSocket → Option Slot) (registered : List (Nat × Callback)) :
    Pc → Prop
  | .lookup (.post ev) fd | .lookup (.deliver ev) fd => ev.sktFd = fd
  | .found (.register _) fd sock idx => Holds slots idx fd sock
  | .found (.post ev) fd sock idx | .found (.deliver ev) fd sock idx =>
      ev.sktFd = fd ∧ Holds slots idx fd sock
  | .calling ev cbFunc => ∃ cb, cbFunc = some cb ∧ (ev.sock, cb) ∈ registered
  | _ => True

/-- Every event in flight leads to the callback of its socket. -/
structure Directed (s : Sys) : Prop where
  tracks : ∀ r ∈ s.inFlight, Tracks s.sockets s.slots r
  awaited : ∀ r ∈ s.posted, Awaited s.slots s.pc r
  sound : ∀ t, EventSound s.slots s.registered (s.pc t)
  registered : ∀ i a cb, s.slots i = some a → a.eventCallback = some cb →
    (a.sock, cb) ∈ s.registered
  delivered : ∀ d ∈ s.delivered, (d.1.sock, d.2) ∈ s.registered

theorem directed_start : Directed start where
  tracks r h := by cases h
  awaited r h := by cases h
  sound _ := trivial
  registered i a cb h := by cases h
  delivered d h := by cases h

theorem EventSound.mono {registered registered' : List (Nat × Callback)} {p : Pc}
    (h : EventSound slots registered p)
    (hholds : ∀ use fd k i, use.watches → p = .found use fd k i → Holds slots i fd k →
      Holds slots' i fd k)
    (hreg : ∀ d ∈ registered, d ∈ registered') : EventSound slots' registered' p := by
  cases p with
  | lookup use fd => cases use <;> exact h
  | found use fd k i =>
    cases use with
    | register cb => exact hholds (.register cb) fd k i trivial rfl h
    | post ev => exact ⟨h.1, hholds (.post ev) fd k i trivial rfl h.2⟩
    | deliver ev => exact ⟨h.1, hholds (.deliver ev) fd k i trivial rfl h.2⟩
    | _ => trivial
  | calling ev cbFunc =>
    obtain ⟨cb, hcb, hmem⟩ := h
    exact ⟨cb, hcb, hreg _ hmem⟩
  | _ => trivial

theorem Tracks.within {r : Raised} (h : Tracks sockets slots r) (hw : Within slots' slots) :
    Tracks sockets slots' r := by
  refine ⟨h.1, ?_⟩
  intro i a ha hfd
  obtain ⟨b, hb, hbfd, hbsock⟩ := hw i a ha
  rw [← hbsock]
  exact h.2 i b hb (hbfd.trans hfd)

theorem Tracks.close {r : Raised} (h : Tracks sockets slots r) (fd : Int) :
    Tracks (Function.update sockets fd none) slots r := by
  refine ⟨?_, h.2⟩
  intro k hk
  by_cases hne : r.fd = fd
  · rw [hne, Function.update_self] at hk
    cases hk
  · rw [Function.update_of_ne hne] at hk
    exact h.1 k hk

theorem Tracks.opened {r : Raised} (h : Tracks sockets slots r) {fd : Int} (hne : r.fd ≠ fd)
    (k : Nat) : Tracks (Function.update sockets fd (some k)) slots r := by
  refine ⟨?_, h.2⟩
  intro k' hk
  rw [Function.update_of_ne hne] at hk
  exact h.1 k' hk

theorem Awaited.update {r : Raised} (h : Awaited slots pc r) (t : Thread) {p : Pc}
    (hp : ∀ k, p.creates ≠ some (r.fd, k)) : Awaited slots (Function.update pc t p) r :=
  ⟨h.1, forall_update (P := fun q => ∀ k, q.creates ≠ some (r.fd, k)) hp fun u _ => h.2 u⟩

theorem sent_subset_posting (p : Pc) : p.sent ⊆ p.posting := by
  cases p <;> first | exact List.Subset.refl _ | exact List.nil_subset _

theorem posted_subset_inFlight (s : Sys) : s.posted ⊆ s.inFlight := by
  intro r hr
  rcases List.mem_append.mp hr with hr | hr
  · exact List.mem_append_left _ hr
  · exact List.mem_append_right _ (sent_subset_posting _ hr)

/-- The stack closes a descriptor. -/
theorem Directed.close (hd : Directed s) (fd : Int) :
    Directed { s with sockets := Function.update s.sockets fd none } :=
  ⟨fun r hr => (hd.tracks r hr).close fd, hd.awaited, hd.sound, hd.registered, hd.delivered⟩

/-- A thread goes on.  It keeps or drops the event it has, it tests the callback of the event
before the event is posted, and it begins no creation of a descriptor that a posted event has. -/
theorem Directed.goto {p : Pc} (hd : Directed s) (t : Thread)
    (hlooking : p.looking.Sublist (s.pc t).looking) (hposting : p.posting.Sublist (s.pc t).posting)
    (hsent : ∀ r ∈ p.sent, r ∈ (s.pc t).sent ∨ Awaited s.slots s.pc r)
    (hcreates : ∀ fd k, p.creates = some (fd, k) →
      (s.pc t).creates = some (fd, k) ∨ (p.sent = [] ∧ ∀ r ∈ s.posted, r.fd ≠ fd))
    (hsound : EventSound s.slots s.registered p) : Directed (s.goto t p) := by
  have hflight : ∀ r ∈ (s.goto t p).inFlight, r ∈ s.inFlight :=
    fun r hr => (((sublist_update Pc.looking t .skt hlooking).append
      (List.Sublist.refl _)).append (sublist_update Pc.posting t .tcpip hposting)).subset hr
  have hposted : ∀ r ∈ (s.goto t p).posted,
      r ∈ s.posted ∨ (r ∈ p.sent ∧ Awaited s.slots s.pc r) := by
    intro r hr
    simp only [Sys.posted, List.mem_append] at hr ⊢
    rcases hr with (hr | hr) | hr
    · exact .inl (.inl (.inl
        ((sublist_update Pc.looking t .skt hlooking).subset hr)))
    · exact .inl (.inl (.inr hr))
    · rw [goto_pc] at hr
      by_cases ht : Thread.tcpip = t
      · subst ht
        rw [Function.update_self] at hr
        exact (hsent r hr).imp .inr fun h => ⟨hr, h⟩
      · rw [Function.update_of_ne ht] at hr
        exact .inl (.inr hr)
  refine ⟨fun r hr => hd.tracks r (hflight r hr), ?_,
    forall_update hsound fun u _ => hd.sound u, hd.registered, hd.delivered⟩
  intro r hr
  have haw : Awaited s.slots s.pc r := (hposted r hr).elim (hd.awaited r) And.right
  refine haw.update t ?_
  intro k hk
  rcases hcreates _ _ hk with hold | ⟨hnil, hne⟩
  · exact haw.2 t k hold
  · rcases hposted r hr with hr | ⟨hr, -⟩
    · exact hne r hr rfl
    · rw [hnil] at hr
      cases hr

/-- A thread goes on to a point with no event, in no creation and before no registration. -/
theorem Directed.goto_none {p : Pc} (hd : Directed s) (t : Thread)
    (hlooking : p.looking = []) (hposting : p.posting = []) (hsent : p.sent = [])
    (hcreates : ∀ fd k, p.creates = some (fd, k) → (s.pc t).creates = some (fd, k))
    (hsound : EventSound s.slots s.registered p) : Directed (s.goto t p) :=
  hd.goto t (hlooking ▸ List.nil_sublist _) (hposting ▸ List.nil_sublist _)
    (fun r hr => by rw [hsent] at hr; cases hr) (fun fd k h => .inl (hcreates fd k h)) hsound

theorem Directed.goto_idle (hd : Directed s) (t : Thread) : Directed (s.goto t .idle) :=
  hd.goto_none t rfl rfl rfl (fun _ _ h => by cases h) trivial

/-- A function uses the slot it found.  It takes no callback from a posted event. -/
theorem Directed.onSlot (hd : Directed s) {use : Use} {fd : Int} {k : Nat} {idx : Fin maxSocket}
    {slot : Slot} (hpc : s.pc t = .found use fd k idx) (hslot : s.slots idx = some slot)
    (hnull : use = .register none → ∀ r ∈ s.posted, r.fd ≠ fd) :
    Directed { s with
      slots := Function.update s.slots idx (some (use.onSlot slot))
      registered := use.registers k s.registered } := by
  have hmono : ∀ d ∈ s.registered, d ∈ use.registers k s.registered := by
    intro d hmem
    cases use with
    | register pcallback =>
      cases pcallback with
      | none => exact hmem
      | some cb => exact List.mem_cons_of_mem _ hmem
    | _ => exact hmem
  have hholds : ∀ pcallback, use = .register pcallback → slot.sktFd = fd ∧ slot.sock = k := by
    rintro pcallback rfl
    have h := hd.sound t
    rw [hpc] at h
    obtain ⟨a, ha, hfd, hk⟩ := h
    rw [hslot] at ha
    cases ha
    exact ⟨hfd, hk⟩
  refine ⟨fun r hr => (hd.tracks r hr).within (within_onSlot use hslot), ?_, ?_, ?_,
    fun d hmem => hmono _ (hd.delivered d hmem)⟩
  · rintro r hr
    obtain ⟨hcb, hc⟩ := hd.awaited r hr
    refine ⟨?_, hc⟩
    intro i a ha hfd
    rcases slot_of_update ha with ⟨rfl, rfl⟩ | ⟨-, ha⟩
    · rw [onSlot_sktFd] at hfd
      cases use with
      | register pcallback =>
        cases pcallback with
        | none => exact absurd (hfd.symm.trans (hholds none rfl).1) (hnull rfl r hr)
        | some cb => rfl
      | apiEvent event sock number => cases event <;> exact hcb i slot hslot hfd
      | _ => exact hcb i slot hslot hfd
    · exact hcb i a ha hfd
  · intro u
    exact (hd.sound u).mono (fun _ _ _ _ _ _ h => h.onSlot use hslot) hmono
  · intro i a cb ha hcb
    rcases slot_of_update ha with ⟨rfl, rfl⟩ | ⟨-, ha⟩
    · rw [onSlot_sock]
      cases use with
      | register pcallback =>
        cases hcb
        rw [(hholds _ rfl).2]
        exact List.mem_cons_self
      | apiEvent event sock number => cases event <;> exact hd.registered i slot cb hslot hcb
      | _ => exact hd.registered i slot cb hslot hcb
    · exact hmono _ (hd.registered i a cb ha hcb)

/-- A slot is freed that no registration, post or delivery has found. -/
theorem Directed.freed (hd : Directed s) {idx : Fin maxSocket}
    (hother : ∀ u use fd k, use.watches → s.pc u ≠ .found use fd k idx) :
    Directed { s with slots := Function.update s.slots idx none } := by
  refine ⟨fun r hr => (hd.tracks r hr).within (within_free s.slots idx), ?_, ?_,
    fun i a cb ha hcb => hd.registered i a cb (slot_of_update_none ha) hcb, hd.delivered⟩
  · intro r hr
    obtain ⟨hcb, hc⟩ := hd.awaited r hr
    exact ⟨fun i a ha hfd => hcb i a (slot_of_update_none ha) hfd, hc⟩
  · intro u
    refine (hd.sound u).mono ?_ fun _ h => h
    intro use fd k i hw hpc h
    refine h.update_ne ?_ _
    rintro rfl
    exact hother u use fd k hw hpc

/-- A creation fills a slot that no registration, post or delivery has found. -/
theorem Directed.stored (hd : Directed s) (hdesc : Descriptors s.sockets s.slots s.pc) {fd : Int}
    {type : SockType} {domain : ProtocolVer} {k : Nat} {idx : Fin maxSocket}
    (hc : (s.pc t).creates = some (fd, k))
    (hother : ∀ u use fd k, use.watches → s.pc u ≠ .found use fd k idx) :
    Directed { s with
      slots := Function.update s.slots idx (some (newSlot fd type domain k)) } := by
  refine ⟨?_, ?_, ?_, ?_, hd.delivered⟩
  · intro r hr
    obtain ⟨hopen, hold⟩ := hd.tracks r hr
    refine ⟨hopen, ?_⟩
    intro i a ha hfd
    rcases slot_of_update ha with ⟨-, rfl⟩ | ⟨-, ha⟩
    · -- the socket of the new slot is the one its descriptor is open for
      exact hopen k (hfd ▸ hdesc.creating_open hc)
    · exact hold i a ha hfd
  · intro r hr
    obtain ⟨hcb, hcr⟩ := hd.awaited r hr
    refine ⟨?_, hcr⟩
    intro i a ha hfd
    rcases slot_of_update ha with ⟨-, rfl⟩ | ⟨-, ha⟩
    · exact absurd (hfd ▸ hc) (hcr t k)
    · exact hcb i a ha hfd
  · intro u
    refine (hd.sound u).mono ?_ fun _ h => h
    intro use fd' k' i hw hpc h
    refine h.update_ne ?_ _
    rintro rfl
    exact hother u use fd' k' hw hpc
  · intro i a cb ha hcb
    rcases slot_of_update ha with ⟨-, rfl⟩ | ⟨-, ha⟩
    · cases hcb
    · exact hd.registered i a cb ha hcb

/-! ### Steps -/

theorem eventSound_toPost (event : LwipEvent) (fd : Int) (sock number : Nat)
    (registered : List (Nat × Callback)) :
    EventSound slots registered (event.toPost fd sock number) := by
  rcases toPost_cases event fd sock number with h | ⟨ev, hev, h⟩ <;> rw [h]
  · trivial
  · exact congrArg Raised.fd (raised_of_posted hev)

theorem toPost_quiet (event : LwipEvent) (fd : Int) (sock number : Nat) :
    (event.toPost fd sock number).looking = [] ∧ (event.toPost fd sock number).sent = [] := by
  rcases toPost_cases event fd sock number with h | ⟨ev, -, h⟩ <;> rw [h] <;> exact ⟨rfl, rfl⟩

/-- A thread finds the slot of the descriptor it looks up. -/
theorem Directed.search (hd : Directed s) {use : Use} {fd : Int} {idx : Fin maxSocket} {slot : Slot}
    (hpc : s.pc t = .lookup use fd) (hslot : s.slots idx = some slot) (hfd : slot.sktFd = fd) :
    Directed (s.goto t (use.afterFind fd slot.sock idx)) := by
  have hsound := hd.sound t
  rw [hpc] at hsound
  have hcreates : ∀ fd' k, (use.afterFind fd slot.sock idx).creates = some (fd', k) →
      (s.pc t).creates = some (fd', k) ∨
        ((use.afterFind fd slot.sock idx).sent = [] ∧ ∀ r ∈ s.posted, r.fd ≠ fd') := by
    intro fd' k h
    rw [creates_afterFind] at h
    cases h
  have hholds : Holds s.slots idx fd slot.sock := ⟨slot, hslot, hfd, rfl⟩
  refine hd.goto t ?_ (by rw [hpc]; exact (events_afterFind use fd slot.sock idx).1) ?_ hcreates ?_
  · rw [hpc]
    rcases afterFind_cases use fd slot.sock idx with h | ⟨event, raiser, number, -, h⟩ <;> rw [h]
    · cases use <;> exact List.Sublist.refl _
    · rw [(toPost_quiet _ _ _ _).1]
      exact List.nil_sublist _
  · intro r hr
    rcases afterFind_cases use fd slot.sock idx with h | ⟨event, raiser, number, -, h⟩ <;>
      rw [h] at hr
    · cases hr
    · rw [(toPost_quiet _ _ _ _).2] at hr
      cases hr
  · rcases afterFind_cases use fd slot.sock idx with h | ⟨event, raiser, number, -, h⟩ <;> rw [h]
    · cases use with
      | register cb => exact hholds
      | post ev => exact ⟨hsound, hholds⟩
      | deliver ev => exact ⟨hsound, hholds⟩
      | _ => trivial
    · exact eventSound_toPost _ _ _ _ _

/-- A thread uses the slot it found, and goes on. -/
theorem Directed.used (hd : Directed s) (hn : Numbered s)
    (hdesc : Descriptors s.sockets s.slots s.pc) {use : Use} {fd : Int} {k : Nat}
    {idx : Fin maxSocket} {slot : Slot} (hpc : s.pc t = .found use fd k idx)
    (hslot : s.slots idx = some slot) (hnull : use = .register none → ∀ r ∈ s.posted, r.fd ≠ fd) :
    Directed (Sys.goto { s with
      slots := Function.update s.slots idx (some (use.onSlot slot))
      registered := use.registers k s.registered } t (use.afterUse fd slot)) := by
  have hsound := hd.sound t
  rw [hpc] at hsound
  have hfound : ∀ {ev : SockEvent}, ev.sktFd = fd ∧ Holds s.slots idx fd k →
      ev.sktFd = slot.sktFd := by
    rintro ev ⟨hev, a, ha, hafd, -⟩
    rw [hslot] at ha
    cases ha
    exact hev.trans hafd.symm
  have hcreates : ∀ fd' k', (use.afterUse fd slot).creates = some (fd', k') →
      (s.pc t).creates = some (fd', k') ∨
        ((use.afterUse fd slot).sent = [] ∧ ∀ r ∈ s.posted, r.fd ≠ fd') := by
    intro fd' k' h
    rw [(quiet_afterUse use fd slot).1] at h
    cases h
  refine (hd.onSlot hpc hslot hnull).goto t ?_ ?_ ?_ hcreates ?_
  · rcases afterUse_cases use fd slot with h | ⟨event, sock, number, -, h⟩ | ⟨ev, -, -, h⟩ |
        ⟨ev, -, h⟩ <;> rw [h]
    · exact List.nil_sublist _
    · rw [(toPost_quiet _ _ _ _).1]
      exact List.nil_sublist _
    · exact List.nil_sublist _
    · exact List.nil_sublist _
  · show (use.afterUse fd slot).posting.Sublist (s.pc t).posting
    rw [hpc]
    exact (events_afterUse use fd k idx slot).1
  · intro r hr
    rcases afterUse_cases use fd slot with h | ⟨event, sock, number, -, h⟩ | ⟨ev, rfl, hcb, h⟩ |
        ⟨ev, -, h⟩ <;> rw [h] at hr
    · cases hr
    · rw [(toPost_quiet _ _ _ _).2] at hr
      cases hr
    · -- the callback has just been tested, in the only slot of the descriptor
      rw [List.mem_singleton.mp hr]
      refine .inr ⟨?_, ?_⟩
      · intro i a ha hafd
        rcases slot_of_update ha with ⟨-, rfl⟩ | ⟨hi, ha⟩
        · exact hcb
        · exact absurd (hdesc.slot_inj ha hslot (hafd.trans (hfound hsound))) hi
      · intro u k' hu
        exact hdesc.creating_slot hu hslot (hfound hsound).symm
    · cases hr
  · rcases afterUse_cases use fd slot with h | ⟨event, sock, number, -, h⟩ | ⟨ev, -, -, h⟩ |
        ⟨ev, rfl, h⟩ <;> rw [h]
    · trivial
    · exact eventSound_toPost _ _ _ _ _
    · trivial
    · have htaken : t = .skt := hn.taken t (by rw [hpc]; exact List.cons_ne_nil _ _)
      have hposted : ev.raised ∈ s.posted := by
        refine List.mem_append_left _ (List.mem_append_left _ ?_)
        rw [← htaken, hpc]
        exact List.mem_singleton_self _
      obtain ⟨cb, hcb⟩ := Option.isSome_iff_exists.mp
        ((hd.awaited _ hposted).1 idx slot hslot (hfound hsound).symm)
      have hsock : slot.sock = ev.sock :=
        (hd.tracks _ (posted_subset_inFlight s hposted)).2 idx slot hslot (hfound hsound).symm
      refine ⟨cb, hcb, ?_⟩
      show (ev.sock, cb) ∈ s.registered
      rw [← hsock]
      exact hd.registered idx slot cb hslot hcb

/-- The TCP/IP thread puts the event it is posting into the queue. -/
theorem Directed.enqueue (hd : Directed s) {ev : SockEvent} (hpc : s.pc .tcpip = .putting ev) :
    Directed { s with queue := s.queue ++ [ev] } := by
  have hposted : ev.raised ∈ s.posted := by
    refine List.mem_append_right _ ?_
    rw [hpc]
    exact List.mem_singleton_self _
  refine ⟨?_, ?_, hd.sound, hd.registered, hd.delivered⟩
  · intro r hr
    simp only [Sys.inFlight, List.map_append, List.mem_append, List.map_cons, List.map_nil,
      List.mem_singleton] at hr
    rcases hr with (hr | hr | rfl) | hr
    · exact hd.tracks r (List.mem_append_left _ (List.mem_append_left _ hr))
    · exact hd.tracks r (List.mem_append_left _ (List.mem_append_right _ hr))
    · exact hd.tracks _ (posted_subset_inFlight s hposted)
    · exact hd.tracks r (List.mem_append_right _ hr)
  · intro r hr
    simp only [Sys.posted, List.map_append, List.mem_append, List.map_cons, List.map_nil,
      List.mem_singleton] at hr
    rcases hr with (hr | hr | rfl) | hr
    · exact hd.awaited r (List.mem_append_left _ (List.mem_append_left _ hr))
    · exact hd.awaited r (List.mem_append_left _ (List.mem_append_right _ hr))
    · exact hd.awaited _ hposted
    · exact hd.awaited r (List.mem_append_right _ hr)

/-- The mutex has no part in where the events lead. -/
theorem Directed.mutex (hd : Directed s) (mutex : Option Thread) :
    Directed { s with mutex := mutex } :=
  ⟨hd.tracks, hd.awaited, hd.sound, hd.registered, hd.delivered⟩

/-- A callback is called for an event of the socket that registered it. -/
theorem Directed.called (hd : Directed s) {ev : SockEvent} {cb : Callback}
    (hpc : s.pc t = .calling ev (some cb)) : Directed { s with
      inCallback := true, delivered := s.delivered ++ [(ev, cb)] } := by
  have hsound := hd.sound t
  rw [hpc] at hsound
  obtain ⟨cb', hcb, hmem⟩ := hsound
  cases hcb
  refine ⟨hd.tracks, hd.awaited, hd.sound, hd.registered, ?_⟩
  intro d hd'
  rcases List.mem_append.mp hd' with hd' | hd'
  · exact hd.delivered d hd'
  · rw [List.mem_singleton.mp hd']
    exact hmem

/-- The next section of a thread that misdirects no event. -/
theorem directed_section {succeeds : Bool} (hd : Directed s) (hn : Numbered s)
    (hdesc : Descriptors s.sockets s.slots s.pc) (hok : ¬ Misdirects s (t, .next succeeds))
    (h : Section t succeeds s s') : Directed s' := by
  cases h with
  | full hpc | chosen hpc =>
    exact hd.goto_none t rfl rfl rfl (fun _ _ hc => by rw [hpc]; exact hc) trivial
  | dropped => exact (hd.close _).goto_idle t
  | stored hpc =>
    refine (hd.stored (t := t) hdesc (by rw [hpc]; rfl) ?_).goto_idle t
    intro u use fd k hw hu
    exact hok (.inr (by simp only [hpc]; exact ⟨u, use, fd, k, hw, hu⟩))
  | missed | refused => exact hd.goto_idle t
  | found hpc _ hslot hfd => exact hd.search hpc hslot hfd
  | shut => exact (hd.close _).goto_none t rfl rfl rfl (fun _ _ hc => by cases hc) trivial
  | used hpc _ _ hslot =>
    refine hd.used hn hdesc hpc hslot ?_
    rintro rfl r hr hfd
    exact hok (.inr (by simp only [hpc]; exact ⟨r, hr, hfd⟩))
  | freed hpc =>
    refine (hd.freed ?_).goto_idle t
    intro u use fd k hw hu
    exact hok (.inr (by simp only [hpc]; exact ⟨u, use, fd, k, hw, hu⟩))
  | locked hpc =>
    refine (hd.mutex (some t)).goto t (List.nil_sublist _) ?_ ?_ (fun _ _ hc => by cases hc) trivial
    · rw [hpc]
      exact List.Sublist.refl _
    · intro r hr
      rw [hpc]
      exact .inl hr
  | put hpc =>
    have ht : t = .tcpip := hn.posting t (by rw [hpc]; exact List.cons_ne_nil _ _)
    subst ht
    exact (hd.enqueue hpc).goto_none .tcpip rfl rfl rfl (fun _ _ hc => by cases hc) trivial
  | unlocked => exact (hd.mutex none).goto_idle t
  | called hpc => exact (hd.called hpc).goto_idle t

/-- A creation gets a descriptor that no event in flight has. -/
theorem Directed.create (hd : Directed s) {fd : Int} (hflight : ∀ r ∈ s.inFlight, r.fd ≠ fd)
    (t : Thread) (type : SockType) (domain : ProtocolVer) :
    Directed (socketCall t fd type domain s) := by
  have hopen : Directed { s with
      sockets := Function.update s.sockets fd (some s.opens), opens := s.opens + 1 } := by
    exact ⟨fun r hr => (hd.tracks r hr).opened (hflight r hr) s.opens, hd.awaited, hd.sound,
      hd.registered, hd.delivered⟩
  refine hopen.goto t (List.nil_sublist _) (List.nil_sublist _) (fun r hr => by cases hr) ?_
    trivial
  intro fd' k hc
  cases hc
  exact .inr ⟨rfl, fun r hr => hflight r (posted_subset_inFlight s hr)⟩

/-- The TCP/IP thread begins to post an event of an open socket. -/
theorem Directed.raise (hd : Directed s) (hdesc : Descriptors s.sockets s.slots s.pc)
    (hidle : s.pc .tcpip = .idle) {fd : Int} {sock : Nat} (hopen : s.sockets fd = some sock)
    (event : LwipEvent) : Directed (Sys.goto { s with events := s.events + 1 } .tcpip
      (.lookup (.apiEvent event sock s.events) fd)) := by
  have hinFlight : (Sys.goto { s with events := s.events + 1 } .tcpip
      (.lookup (.apiEvent event sock s.events) fd)).inFlight =
      s.inFlight ++ [⟨fd, sock, s.events⟩] := by
    simp [Sys.inFlight, Sys.goto, hidle, Pc.posting]
  have hposted : (Sys.goto { s with events := s.events + 1 } .tcpip
      (.lookup (.apiEvent event sock s.events) fd)).posted = s.posted := by
    simp [Sys.posted, Sys.goto, hidle, Pc.sent]
  refine ⟨?_, ?_, forall_update trivial fun u _ => hd.sound u, hd.registered, hd.delivered⟩
  · intro r hr
    rw [hinFlight] at hr
    rcases List.mem_append.mp hr with hr | hr
    · exact hd.tracks r hr
    · rw [List.mem_singleton.mp hr]
      refine ⟨fun k hk => Option.some.inj (hk.symm.trans hopen), ?_⟩
      intro i a ha hafd
      exact hdesc.slot_open ha (by rw [hafd]; exact hopen)
  · intro r hr
    rw [hposted] at hr
    exact (hd.awaited r hr).update .tcpip fun k hk => by cases hk

/-- The socket thread takes the first event of the queue. -/
theorem Directed.get (hd : Directed s) (hidle : s.pc .skt = .idle) {ev : SockEvent}
    {queue : List SockEvent} (hqueue : s.queue = ev :: queue) :
    Directed (Sys.goto { s with queue := queue } .skt (.lookup (.deliver ev) ev.sktFd)) := by
  have hinFlight : (Sys.goto { s with queue := queue } .skt
      (.lookup (.deliver ev) ev.sktFd)).inFlight = s.inFlight := by
    simp [Sys.inFlight, Sys.goto, hidle, hqueue, Pc.looking]
  have hposted : (Sys.goto { s with queue := queue } .skt
      (.lookup (.deliver ev) ev.sktFd)).posted = s.posted := by
    simp [Sys.posted, Sys.goto, hidle, hqueue, Pc.looking]
  refine ⟨?_, ?_, forall_update rfl fun u _ => hd.sound u, hd.registered, hd.delivered⟩
  · rw [hinFlight]
    exact hd.tracks
  · intro r hr
    rw [hposted] at hr
    exact (hd.awaited r hr).update .skt fun k hk => by cases hk

/-- What the runs keep in which no step misdirects an event. -/
structure EventsInv (s : Sys) : Prop where
  descriptors : Descriptors s.sockets s.slots s.pc
  numbered : Numbered s
  directed : Directed s

theorem directed_exec {step : Thread × Act} (hi : EventsInv s) (hok : ¬ Misdirects s step)
    (h : exec step s = .ok () s') : Directed s' := by
  obtain ⟨hdesc, hn, hd⟩ := hi
  cases exec_cases h with
  | create => exact hd.create (fun r hr hfd => hok (.inr ⟨r, hr, hfd⟩)) _ _ _
  | @call t use fd _ hapi =>
    refine hd.goto_none t ?_ ?_ rfl (fun _ _ hc => by cases hc) ?_
    · cases use <;> first | rfl | cases hapi
    · cases use <;> first | rfl | cases hapi
    · cases use <;> trivial
  | raise hidle hopen => exact hd.raise hdesc hidle hopen _
  | next hsection => exact directed_section hd hn hdesc hok hsection
  | get hidle hqueue => exact hd.get hidle hqueue
  | ret => exact ⟨hd.tracks, hd.awaited, hd.sound, hd.registered, hd.delivered⟩

theorem eventsInv_exec {step : Thread × Act} (hi : EventsInv s) (hok : ¬ Misdirects s step)
    (h : exec step s = .ok () s') : EventsInv s' :=
  ⟨descriptors_exec hi.descriptors (fun hr => hok (.inl hr)) h, numbered_exec hi.numbered h,
    directed_exec hi hok h⟩

/-! ### Runs -/

/-- Every event was delivered to a callback that its socket had registered, and none twice. -/
def Delivers (s : Sys) : Prop :=
  (∀ d ∈ s.delivered, (d.1.sock, d.2) ∈ s.registered) ∧
    (s.delivered.map fun d => d.1.number).Nodup

/-- The step delivers as it should, it calls no null callback, and the socket thread reads no
callback through an empty slot. -/
def DeliversRight (s : Sys) (step : Thread × Act) : Prop :=
  (∀ s', exec step s = .ok () s' → Delivers s') ∧
    (∀ s', exec step s ≠ .error .nullCallback s') ∧
    ∀ ev fd sock idx, s.pc step.1 = .found (.deliver ev) fd sock idx →
      ∀ s', exec step s ≠ .error .nullSlot s'

theorem EventsInv.delivers (hi : EventsInv s) : Delivers s := by
  refine ⟨hi.directed.delivered, ?_⟩
  have h := hi.numbered.nodup
  unfold Sys.numbers at h
  exact (List.nodup_append.mp h).1

theorem locked_error {body : EStateM Stop Sys Unit} {e : Stop}
    (h : locked body s = .error e s') : e = .waits ∨ body s = .error e s' := by
  unfold locked at h
  split_ifs at h
  · cases h
    exact .inl rfl
  · exact .inr h

theorem useSlot_error {use : Use} {fd : Int} {sock : Nat} {idx : Fin maxSocket} {e : Stop}
    (h : useSlot t use fd sock idx s = .error e s') : e = .nullSlot ∧ s.slots idx = none := by
  unfold useSlot at h
  cases hslot : s.slots idx with
  | none =>
    simp only [hslot] at h
    cases h
    exact ⟨rfl, rfl⟩
  | some slot =>
    simp only [hslot] at h
    cases h

theorem freeSlot_error {idx : Fin maxSocket} {e : Stop} (h : freeSlot t idx s = .error e s') :
    e = .nullSlot := by
  unfold freeSlot at h
  cases hslot : s.slots idx <;> simp only [hslot] at h <;> cases h
  rfl

/-- A null callback is called only as it was read. -/
theorem nextSection_error {succeeds : Bool} {p : Pc} {e : Stop}
    (h : nextSection t succeeds p s = .error e s') :
    e = .waits ∨ e = .nullSlot ∨ ∃ ev, p = .calling ev none := by
  cases p with
  | idle =>
    cases h
    exact .inl rfl
  | found use fd sock idx =>
    simp only [nextSection] at h
    split_ifs at h
    · cases h
    · exact (locked_error h).imp_right fun h => .inl (useSlot_error h).1
  | closed fd sock idx => exact (locked_error h).imp_right fun h => .inl (freeSlot_error h)
  | putting ev =>
    simp only [nextSection, putMessage] at h
    split_ifs at h
    cases h
    exact .inl rfl
  | calling ev cbFunc =>
    cases cbFunc with
    | none => exact .inr (.inr ⟨ev, rfl⟩)
    | some cb => cases h
  | opened fd type domain sock => exact .inl ((locked_error h).resolve_right fun h => by cases h)
  | chosen fd type domain sock idx =>
      exact .inl ((locked_error h).resolve_right fun h => by cases h)
  | lookup use fd => exact .inl ((locked_error h).resolve_right fun h => by cases h)
  | sending ev => exact .inl ((locked_error h).resolve_right fun h => by cases h)
  | dropping fd sock => cases h
  | unlocking => cases h

/-- Outside the next section of a function a thread can only have to wait. -/
theorem exec_error {act : Act} {e : Stop} (h : exec (t, act) s = .error e s') :
    e = .waits ∨ ∃ succeeds, act = .next succeeds := by
  cases act with
  | next succeeds => exact .inr ⟨succeeds, rfl⟩
  | raise event fd =>
    simp only [exec, raiseEvent] at h
    split_ifs at h
    · cases hs : s.sockets fd <;> simp only [hs] at h <;> cases h
      exact .inl rfl
    · cases h
      exact .inl rfl
  | get =>
    simp only [exec, getMessage] at h
    split_ifs at h
    · cases hq : s.queue <;> simp only [hq] at h <;> cases h
      exact .inl rfl
    · cases h
      exact .inl rfl
  | _ =>
    simp only [exec] at h
    split_ifs at h <;> cases h
    exact .inl rfl

theorem deliversRight_of_eventsInv {step : Thread × Act} (hi : EventsInv s)
    (hok : ¬ Misdirects s step) : DeliversRight s step := by
  refine ⟨fun s' h => (eventsInv_exec hi hok h).delivers, ?_, ?_⟩
  · intro s' h
    obtain ⟨t, act⟩ := step
    rcases exec_error h with he | ⟨succeeds, rfl⟩
    · cases he
    rcases nextSection_error h with he | he | ⟨ev, hpc⟩
    · cases he
    · cases he
    · have hsound := hi.directed.sound t
      rw [hpc] at hsound
      obtain ⟨cb, hcb, -⟩ := hsound
      cases hcb
  · intro ev fd sock idx hpc s' h
    have hsound := hi.directed.sound step.1
    rw [hpc] at hsound
    obtain ⟨-, slot, hslot, -⟩ := hsound
    obtain ⟨t, act⟩ := step
    rcases exec_error h with he | ⟨succeeds, rfl⟩
    · cases he
    have hpc : s.pc t = .found (.deliver ev) fd sock idx := hpc
    simp only [exec] at h
    rw [hpc] at h
    rcases locked_error h with he | h
    · cases he
    · rw [(useSlot_error h).2] at hslot
      cases hslot

/-- **Events are delivered to their sockets** in the runs in which no step misdirects one. -/
theorem events_delivered {steps : List (Thread × Act)}
    (h : Support.Along exec (fun s step => ¬ Misdirects s step) steps start) :
    Support.Along exec DeliversRight steps start :=
  h.of_invariant EventsInv
    (fun _ _ hi hok => ⟨deliversRight_of_eventsInv hi hok, fun _ _ hs => eventsInv_exec hi hok hs⟩)
    ⟨descriptors_start, numbered_start, directed_start⟩

/-- An application creates a socket and registers a callback, the socket raises an event, and the
event is delivered. -/
theorem events_delivered_once : Support.Along exec DeliversRight
    [(.app 0, .create 0 .tcp .ipv4), (.app 0, .next true), (.app 0, .next true),
      (.app 0, .call (.register (some 7)) 0), (.app 0, .next true), (.app 0, .next true),
      (.tcpip, .raise (.err 1) 0), (.tcpip, .next true), (.tcpip, .next true),
      (.tcpip, .next true), (.tcpip, .next true), (.tcpip, .next true), (.tcpip, .next true),
      (.skt, .get), (.skt, .next true), (.skt, .next true), (.skt, .next true)] start := by
  refine events_delivered (.cons ?_ rfl (.cons (fun h => h.elim id id) rfl (.cons ?_ rfl
    (.cons (fun h => h.elim id id) rfl (.cons (fun h => h.elim id id) rfl
    (.cons (fun h => h.elim id id) rfl (.cons (fun h => h.elim id id) rfl
    (.cons (fun h => h.elim id id) rfl (.cons (fun h => h.elim id id) rfl
    (.cons (fun h => h.elim id id) rfl (.cons (fun h => h.elim id id) rfl
    (.cons (fun h => h.elim id id) rfl (.cons (fun h => h.elim id id) rfl
    (.cons (fun h => h.elim id id) rfl (.cons (fun h => h.elim id id) rfl
    (.cons (fun h => h.elim id id) rfl (.cons (fun h => h.elim id id) rfl
    trivial)))))))))))))))))
  · rintro ((⟨i, a, h, -⟩ | ⟨u, sock, idx, h⟩) | ⟨r, h, -⟩) <;> cases h
  · rintro (h | ⟨u, use, fd, sock, hw, h⟩)
    · exact h
    · -- the only thread in the layer is the one that creates
      change Function.update (Function.update start.pc (.app 0) _) (.app 0) _ u = _ at h
      by_cases hu : u = .app 0
      · subst hu
        rw [Function.update_self] at h
        cases h
      · rw [Function.update_of_ne hu, Function.update_of_ne hu] at h
        cases h

/-- A descriptor is reused while an event of its first socket is in the queue. -/
def reusedDescriptor : List (Thread × Act) :=
  [(.app 0, .create 0 .tcp .ipv4), (.app 0, .next true), (.app 0, .next true),
    (.app 0, .call (.register (some 7)) 0), (.app 0, .next true), (.app 0, .next true),
    (.tcpip, .raise (.err 1) 0), (.tcpip, .next true), (.tcpip, .next true), (.tcpip, .next true),
    (.tcpip, .next true), (.tcpip, .next true), (.tcpip, .next true),
    (.app 0, .call .close 0), (.app 0, .next true), (.app 0, .next true), (.app 0, .next true),
    (.app 0, .create 0 .tcp .ipv4), (.app 0, .next true), (.app 0, .next true),
    (.app 0, .call (.register (some 8)) 0), (.app 0, .next true), (.app 0, .next true),
    (.skt, .get), (.skt, .next true), (.skt, .next true), (.skt, .next true)]

/-- The socket of descriptor 0 raises an event and is closed before the event is taken.  The
descriptor goes to another socket, and the event to the callback 8 of that one. -/
theorem not_events_delivered :
    ¬ ∀ steps : List (Thread × Act), Support.Along exec DeliversRight steps start := by
  intro h
  have hrun : Support.returnsIn (fun s => s.delivered.map (fun d => (d.1.sock, d.2)) = [(0, 8)] ∧
      s.registered = [(1, 8), (0, 7)]) (reusedDescriptor.mapM exec start) := by decide +kernel
  obtain ⟨_, s, hs, hend⟩ := Support.exists_of_returnsIn hrun
  obtain ⟨hdelivered, hregistered⟩ := of_decide_eq_true hend
  have hstart : Delivers start := ⟨fun _ hd => (by cases hd), List.nodup_nil⟩
  have hdelivers : Delivers s := Support.mapM_invariant Delivers
    (fun _ _ _ _ _ hok hs => hok.1 _ hs) hstart (h reusedDescriptor) hs
  have hmem : (0, 8) ∈ s.delivered.map fun d => (d.1.sock, d.2) := by
    rw [hdelivered]
    exact List.mem_singleton_self _
  obtain ⟨d, hd, hd08⟩ := List.mem_map.mp hmem
  have hreg := hdelivers.1 d hd
  rw [hd08, hregistered] at hreg
  exact absurd hreg (by decide)

end XY1100.Socket
