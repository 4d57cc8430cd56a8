import Mathlib.Tactic
import XY1100.Socket.Descriptors

/-!
# Socket — the slot table

A function of the layer searches the table in one section and uses the slot it found in a later
one, and other threads may run in between.  A creation fills the slot it found empty, and a close
frees the slot it found, without looking at the slot again.

* `Interferes`: a step of one thread that takes away what another thread has found.
* `Tidy`: in the runs without such a step, what a thread has found still holds, and every open
  socket has its slot.
* `slots_kept`: in these runs every open descriptor is in exactly one slot, no creation overwrites
  the slot of an open socket, and every thread acts on the slot it found.
-/

namespace XY1100.Socket

variable {sockets sockets' : Int → Option Nat} {slots slots' : Fin maxSocket → Option Slot}
  {pc : Thread → Pc}
  {s s' : Sys} {t : Thread}

/-! ### What the runs are to keep -/

/-- Every descriptor that is open, and not being created, is in exactly one slot. -/
def Held (s : Sys) : Prop :=
  ∀ fd sock, s.sockets fd = some sock → (∀ t, (s.pc t).creates ≠ some (fd, sock)) →
    ∃ idx, Holds s.slots idx fd sock ∧ ∀ j b, s.slots j = some b → b.sktFd = fd → j = idx

/-- The next section of the thread overwrites no slot of an open socket, and acts on the slot that
the thread has found. -/
def ActsOnOwn (s : Sys) (t : Thread) : Prop :=
  match s.pc t with
  | .chosen _ _ _ _ idx => ∀ a, s.slots idx = some a → s.sockets a.sktFd ≠ some a.sock
  | .found use fd sock idx => use ≠ .close → Holds s.slots idx fd sock
  | .closed fd sock idx => Holds s.slots idx fd sock
  | _ => True

/-- The step acts on the thread's own slot, and leaves every open descriptor in exactly one. -/
def KeepsSlots (s : Sys) (step : Thread × Act) : Prop :=
  (∀ succeeds, step.2 = .next succeeds → ActsOnOwn s step.1) ∧
    ∀ s', exec step s = .ok () s' → Held s'

/-- The step reissues a descriptor, fills a slot that another creation has found empty, or frees a
slot that another thread has found and not yet used. -/
def Interferes (s : Sys) (step : Thread × Act) : Prop :=
  Reissues s step ∨
    match step with
    | (t, .next _) =>
        match s.pc t with
        | .chosen _ _ _ _ idx =>
            ∃ u fd type domain sock, u ≠ t ∧ s.pc u = .chosen fd type domain sock idx
        | .closed _ _ idx => ∃ u use fd sock, use ≠ .close ∧ s.pc u = .found use fd sock idx
        | _ => False
    | _ => False

/-! ### The invariant -/

/-- What a thread at this point has found in the table still holds.  A close whose descriptor is
not open any more fails in the stack, before it comes to the slot. -/
def Sound (sockets : Int → Option Nat) (slots : Fin maxSocket → Option Slot) : Pc → Prop
  | .chosen _ _ _ _ idx => slots idx = none
  | .found use fd sock idx => (use = .close ∧ sockets fd = none) ∨ Holds slots idx fd sock
  | .closed fd sock idx => sockets fd = none ∧ Holds slots idx fd sock
  | _ => True

/-- What the threads have found in the table still holds, and every open socket has its slot. -/
structure Tidy (sockets : Int → Option Nat) (slots : Fin maxSocket → Option Slot)
    (pc : Thread → Pc) : Prop where
  sound : ∀ t, Sound sockets slots (pc t)
  /-- No two closes are to free one slot. -/
  closed_inj : ∀ {t u fd fd' k k' i}, pc t = .closed fd k i → pc u = .closed fd' k' i → t = u
  held : ∀ {fd k}, sockets fd = some k →
    (∃ t, (pc t).creates = some (fd, k)) ∨ ∃ i, Holds slots i fd k

theorem tidy_start : Tidy start.sockets start.slots start.pc where
  sound _ := trivial
  closed_inj h := by cases h
  held h := by cases h

theorem Sound.mono {p : Pc} (h : Sound sockets slots p)
    (hshut : ∀ {fd}, sockets fd = none → sockets' fd = none)
    (hempty : ∀ {i}, slots i = none → slots' i = none)
    (hholds : ∀ {i fd k}, Holds slots i fd k → Holds slots' i fd k) : Sound sockets' slots' p := by
  cases p with
  | chosen fd type domain sock idx => exact hempty h
  | found use fd sock idx => exact h.imp (fun hc => ⟨hc.1, hshut hc.2⟩) hholds
  | closed fd sock idx => exact ⟨hshut h.1, hholds h.2⟩
  | _ => trivial

/-- A creation in progress is still in progress after a thread that was not in it, or stays in it,
went on. -/
theorem creates_update {p : Pc} {c : Int × Nat} (t : Thread)
    (hcreates : (pc t).creates = some c → p.creates = some c) (h : ∃ u, (pc u).creates = some c) :
    ∃ u, (Function.update pc t p u).creates = some c := by
  obtain ⟨u, hu⟩ := h
  refine ⟨u, ?_⟩
  by_cases hut : u = t
  · subst hut
    rw [Function.update_self]
    exact hcreates hu
  · rwa [Function.update_of_ne hut]

/-- The closes after a thread went on to a point that is none. -/
theorem closed_inj_update {p : Pc} {t : Thread} (hp : ∀ fd k i, p ≠ .closed fd k i)
    (h : ∀ {t u fd fd' k k' i}, pc t = .closed fd k i → pc u = .closed fd' k' i → t = u)
    {u v : Thread} {fd fd' : Int} {k k' : Nat} {i : Fin maxSocket}
    (hu : Function.update pc t p u = .closed fd k i)
    (hv : Function.update pc t p v = .closed fd' k' i) : u = v := by
  have hne : ∀ {w fd k}, Function.update pc t p w = .closed fd k i → pc w = .closed fd k i := by
    intro w fd k hw
    by_cases hwt : w = t
    · subst hwt
      rw [Function.update_self] at hw
      exact absurd hw (hp _ _ _)
    · rwa [Function.update_of_ne hwt] at hw
  exact h (hne hu) (hne hv)

/-- A thread goes on, to a point that is sound. -/
theorem Tidy.goto {p : Pc} (ht : Tidy sockets slots pc) (t : Thread)
    (hsound : Sound sockets slots p) (hclosed : ∀ fd k i, p ≠ .closed fd k i)
    (hcreates : ∀ c, (pc t).creates = some c → p.creates = some c) :
    Tidy sockets slots (Function.update pc t p) where
  sound := forall_update hsound fun u _ => ht.sound u
  closed_inj hu hv := closed_inj_update hclosed ht.closed_inj hu hv
  held h := (ht.held h).imp_left (creates_update t (hcreates _))

/-- A point of a thread with no slot in hand and in no creation. -/
def Pc.Free : Pc → Prop
  | .idle | .lookup _ _ | .sending _ | .putting _ | .unlocking | .calling _ _ => True
  | .opened _ _ _ _ | .dropping _ _ | .chosen _ _ _ _ _ | .found _ _ _ _ | .closed _ _ _ => False

theorem Pc.Free.sound {p : Pc} (h : p.Free) : Sound sockets slots p := by
  cases p <;> first | exact h.elim | trivial

theorem Pc.Free.ne_closed {p : Pc} (h : p.Free) (fd : Int) (k : Nat) (i : Fin maxSocket) :
    p ≠ .closed fd k i := by
  rintro rfl
  exact h

/-- A thread that was in no creation goes on to a point with no slot in hand. -/
theorem Tidy.goto_free {p : Pc} (ht : Tidy sockets slots pc) (t : Thread)
    (hc : (pc t).creates = none) (hp : p.Free) : Tidy sockets slots (Function.update pc t p) :=
  ht.goto t hp.sound hp.ne_closed fun c h => by rw [hc] at h; cases h

theorem free_toPost (event : LwipEvent) (fd : Int) (sock number : Nat) :
    (event.toPost fd sock number).Free := by
  rcases toPost_cases event fd sock number with h | ⟨ev, -, h⟩ <;> rw [h] <;> trivial

theorem free_afterUse (use : Use) (fd : Int) (slot : Slot) : (use.afterUse fd slot).Free := by
  rcases afterUse_cases use fd slot with h | ⟨event, sock, number, -, h⟩ | ⟨ev, -, -, h⟩ |
      ⟨ev, -, h⟩ <;> rw [h]
  · trivial
  · exact free_toPost _ _ _ _
  · trivial
  · trivial

/-- A slot changes, but not its descriptor nor its socket. -/
theorem Tidy.onSlot (ht : Tidy sockets slots pc) (use : Use) {idx : Fin maxSocket} {slot : Slot}
    (hslot : slots idx = some slot) :
    Tidy sockets (Function.update slots idx (some (use.onSlot slot))) pc := by
  have hholds : ∀ {i fd k}, Holds slots i fd k →
      Holds (Function.update slots idx (some (use.onSlot slot))) i fd k :=
    fun h => h.onSlot use hslot
  have hempty : ∀ {i}, slots i = none →
      Function.update slots idx (some (use.onSlot slot)) i = none := by
    intro i h
    have hi : i ≠ idx := by
      rintro rfl
      rw [hslot] at h
      cases h
    rwa [Function.update_of_ne hi]
  exact ⟨fun t => (ht.sound t).mono (fun h => h) hempty hholds, ht.closed_inj,
    fun h => (ht.held h).imp_right fun ⟨i, hi⟩ => ⟨i, hholds hi⟩⟩

/-! ### The steps that open, close, fill and free -/

theorem shut_update {fd fd' : Int} (h : sockets fd' = none) :
    Function.update sockets fd none fd' = none := by
  by_cases hne : fd' = fd
  · rw [hne, Function.update_self]
  · rwa [Function.update_of_ne hne]

theorem open_of_update {fd fd' : Int} {k : Nat}
    (h : Function.update sockets fd none fd' = some k) : fd' ≠ fd ∧ sockets fd' = some k := by
  by_cases hne : fd' = fd
  · rw [hne, Function.update_self] at h
    cases h
  · rw [Function.update_of_ne hne] at h
    exact ⟨hne, h⟩

/-- The stack opens a descriptor that is in no slot and that no thread is about to close. -/
theorem Tidy.opened (ht : Tidy sockets slots pc) {fd : Int} (type : SockType) (domain : ProtocolVer)
    (k : Nat) (hidle : (pc t).creates = none) (hslot : ∀ i a, slots i = some a → a.sktFd ≠ fd)
    (hcloses : ∀ u, ¬ (pc u).closes fd) :
    Tidy (Function.update sockets fd (some k)) slots
      (Function.update pc t (.opened fd type domain k)) := by
  refine ⟨forall_update trivial fun u _ => ?_,
    closed_inj_update (fun _ _ _ => by rintro ⟨⟩) ht.closed_inj, ?_⟩
  · have hu := ht.sound u
    cases hpc : pc u with
    | chosen fd' type' domain' k' i =>
      rw [hpc] at hu
      exact hu
    | found use fd' k' i =>
      rw [hpc] at hu
      refine hu.imp_left ?_
      rintro ⟨rfl, hnone⟩
      have hne : fd' ≠ fd := by
        rintro rfl
        exact hcloses u ⟨k', i, hpc⟩
      exact ⟨rfl, by rwa [Function.update_of_ne hne]⟩
    | closed fd' k' i =>
      rw [hpc] at hu
      obtain ⟨hnone, a, ha, hfd, hk⟩ := hu
      have hne : fd' ≠ fd := hfd ▸ hslot i a ha
      exact ⟨by rwa [Function.update_of_ne hne], a, ha, hfd, hk⟩
    | _ => trivial
  · intro fd' k' h
    by_cases hne : fd' = fd
    · subst hne
      rw [Function.update_self] at h
      cases h
      exact .inl ⟨t, by rw [Function.update_self]; rfl⟩
    · rw [Function.update_of_ne hne] at h
      exact (ht.held h).imp_left
        (creates_update t fun hc => by rw [hidle] at hc; cases hc)

/-- A creation that has found no slot closes its socket. -/
theorem Tidy.dropped (ht : Tidy sockets slots pc) {fd : Int} {k : Nat}
    (hpc : pc t = .dropping fd k) :
    Tidy (Function.update sockets fd none) slots (Function.update pc t .idle) := by
  refine ⟨forall_update trivial fun u _ =>
      (ht.sound u).mono shut_update (fun h => h) (fun h => h),
    closed_inj_update (fun _ _ _ => by rintro ⟨⟩) ht.closed_inj, ?_⟩
  intro fd' k' h
  obtain ⟨hne, hopen⟩ := open_of_update h
  refine (ht.held hopen).imp_left (creates_update t fun hc => ?_)
  rw [hpc] at hc
  cases hc
  exact absurd rfl hne

/-- A creation fills the slot it has found, and no other creation has found it. -/
theorem Tidy.stored (ht : Tidy sockets slots pc) {fd : Int} {type : SockType} {domain : ProtocolVer}
    {k : Nat} {idx : Fin maxSocket} (hpc : pc t = .chosen fd type domain k idx)
    (hother : ∀ u fd' type' domain' k', u ≠ t → pc u ≠ .chosen fd' type' domain' k' idx) :
    Tidy sockets (Function.update slots idx (some (newSlot fd type domain k)))
      (Function.update pc t .idle) := by
  have hempty : slots idx = none := by
    have h := ht.sound t
    rwa [hpc] at h
  have hholds : ∀ {i fd' k'}, Holds slots i fd' k' →
      Holds (Function.update slots idx (some (newSlot fd type domain k))) i fd' k' := by
    intro i fd' k' h
    refine h.update_ne ?_ _
    rintro rfl
    obtain ⟨a, ha, -⟩ := h
    rw [hempty] at ha
    cases ha
  refine ⟨forall_update trivial fun u hut => ?_,
    closed_inj_update (fun _ _ _ => by rintro ⟨⟩) ht.closed_inj, ?_⟩
  · have hu := ht.sound u
    cases hpc' : pc u with
    | chosen fd' type' domain' k' i =>
      rw [hpc'] at hu
      have hi : i ≠ idx := by
        rintro rfl
        exact hother u _ _ _ _ hut hpc'
      show Function.update slots idx _ i = none
      rw [Function.update_of_ne hi]
      exact hu
    | found use fd' k' i =>
      rw [hpc'] at hu
      exact hu.imp_right hholds
    | closed fd' k' i =>
      rw [hpc'] at hu
      exact ⟨hu.1, hholds hu.2⟩
    | _ => trivial
  · intro fd' k' h
    rcases ht.held h with ⟨u, hu⟩ | ⟨i, hi⟩
    · by_cases hut : u = t
      · -- the socket just stored
        subst hut
        rw [hpc] at hu
        cases hu
        exact .inr ⟨idx, newSlot fd type domain k, Function.update_self .., rfl, rfl⟩
      · exact .inl ⟨u, by rwa [Function.update_of_ne hut]⟩
    · exact .inr ⟨i, hholds hi⟩

/-- The stack closes the descriptor whose slot a close has found. -/
theorem Tidy.shut (ht : Tidy sockets slots pc) {fd : Int} {k : Nat} {idx : Fin maxSocket}
    (hpc : pc t = .found .close fd k idx) (hopen : (sockets fd).isSome) :
    Tidy (Function.update sockets fd none) slots (Function.update pc t (.closed fd k idx)) := by
  have hholds : Holds slots idx fd k := by
    have h := ht.sound t
    rw [hpc] at h
    rcases h with ⟨-, hnone⟩ | h
    · rw [hnone] at hopen
      cases hopen
    · exact h
  -- the slot of another close is of a descriptor that is not open
  have hne : ∀ {u fd' k'}, pc u ≠ .closed fd' k' idx := by
    intro u fd' k' hu
    have h := ht.sound u
    rw [hu] at h
    have hshut := h.1
    rw [h.2.sktFd_eq hholds] at hshut
    rw [hshut] at hopen
    cases hopen
  refine ⟨forall_update ⟨Function.update_self .., hholds⟩ fun u _ =>
      (ht.sound u).mono shut_update (fun h => h) (fun h => h), ?_, ?_⟩
  · intro u v fd₁ fd₂ k₁ k₂ i hu hv
    by_cases hut : u = t <;> by_cases hvt : v = t
    · exact hut.trans hvt.symm
    · subst hut
      rw [Function.update_self] at hu
      rw [Function.update_of_ne hvt] at hv
      cases hu
      exact absurd hv hne
    · subst hvt
      rw [Function.update_self] at hv
      rw [Function.update_of_ne hut] at hu
      cases hv
      exact absurd hu hne
    · rw [Function.update_of_ne hut] at hu
      rw [Function.update_of_ne hvt] at hv
      exact ht.closed_inj hu hv
  · intro fd' k' h
    exact (ht.held (open_of_update h).2).imp_left
      (creates_update t fun hc => by rw [hpc] at hc; cases hc)

/-- A close frees the slot of the socket it has closed, and no other thread is to use it. -/
theorem Tidy.freed (ht : Tidy sockets slots pc) {fd : Int} {k : Nat} {idx : Fin maxSocket}
    (hpc : pc t = .closed fd k idx)
    (hother : ∀ u use fd' k', use ≠ .close → pc u ≠ .found use fd' k' idx) :
    Tidy sockets (Function.update slots idx none) (Function.update pc t .idle) := by
  have hown : sockets fd = none ∧ Holds slots idx fd k := by
    have h := ht.sound t
    rwa [hpc] at h
  -- the slot freed is of a descriptor that is not open
  have hshut : ∀ {fd' k'}, Holds slots idx fd' k' → sockets fd' = none := by
    intro fd' k' h
    rw [h.sktFd_eq hown.2]
    exact hown.1
  refine ⟨forall_update trivial fun u hut => ?_,
    closed_inj_update (fun _ _ _ => by rintro ⟨⟩) ht.closed_inj, ?_⟩
  · have hu := ht.sound u
    cases hpc' : pc u with
    | chosen fd' type' domain' k' i =>
      rw [hpc'] at hu
      show Function.update slots idx none i = none
      by_cases hi : i = idx
      · rw [hi, Function.update_self]
      · rw [Function.update_of_ne hi]
        exact hu
    | found use fd' k' i =>
      rw [hpc'] at hu
      rcases hu with hu | hu
      · exact .inl hu
      · by_cases hi : i = idx
        · subst hi
          have huse : use = .close := by
            by_contra huse
            exact hother u use fd' k' huse hpc'
          exact .inl ⟨huse, hshut hu⟩
        · exact .inr (hu.update_ne hi _)
    | closed fd' k' i =>
      rw [hpc'] at hu
      have hi : i ≠ idx := by
        rintro rfl
        exact hut (ht.closed_inj hpc' hpc)
      exact ⟨hu.1, hu.2.update_ne hi _⟩
    | _ => trivial
  · intro fd' k' h
    rcases ht.held h with hc | ⟨i, hi⟩
    · exact .inl (creates_update t (fun hc => by rw [hpc] at hc; cases hc) hc)
    · have hne : i ≠ idx := by
        rintro rfl
        rw [hshut hi] at h
        cases h
      exact .inr ⟨i, hi.update_ne hne _⟩

/-! ### Steps -/

/-- A thread in no creation goes on with the slot of the descriptor it looked up. -/
theorem Tidy.search (ht : Tidy sockets slots pc) {use : Use} {fd : Int} {idx : Fin maxSocket}
    {slot : Slot} (hpc : pc t = .lookup use fd) (hslot : slots idx = some slot)
    (hfd : slot.sktFd = fd) :
    Tidy sockets slots (Function.update pc t (use.afterFind fd slot.sock idx)) := by
  have hcreates : (pc t).creates = none := by rw [hpc]; rfl
  rcases afterFind_cases use fd slot.sock idx with hp | ⟨event, raiser, number, -, hp⟩ <;> rw [hp]
  · exact ht.goto t (.inr ⟨slot, hslot, hfd, rfl⟩) (fun _ _ _ => by rintro ⟨⟩)
      fun c hc => by rw [hcreates] at hc; cases hc
  · exact ht.goto_free t hcreates (free_toPost _ _ _ _)

/-- The next section of a thread that interferes with no other keeps the table tidy. -/
theorem tidy_section {succeeds : Bool} (ht : Tidy s.sockets s.slots s.pc)
    (hok : ¬ Interferes s (t, .next succeeds)) (h : Section t succeeds s s') :
    Tidy s'.sockets s'.slots s'.pc := by
  cases h with
  | full hpc =>
    exact ht.goto t trivial (fun _ _ _ => by rintro ⟨⟩) fun c hc => by rw [hpc] at hc; exact hc
  | chosen hpc _ hempty =>
    exact ht.goto t hempty (fun _ _ _ => by rintro ⟨⟩) fun c hc => by rw [hpc] at hc; exact hc
  | dropped hpc => exact ht.dropped hpc
  | stored hpc =>
    refine ht.stored hpc ?_
    intro u fd type domain k hut hu
    exact hok (.inr (by simp only [hpc]; exact ⟨u, fd, type, domain, k, hut, hu⟩))
  | found hpc _ hslot hfd => exact ht.search hpc hslot hfd
  | shut hpc _ hopen => exact ht.shut hpc hopen
  | used hpc _ _ hslot =>
    exact (ht.onSlot _ hslot).goto_free t (by rw [hpc]; rfl) (free_afterUse _ _ _)
  | freed hpc =>
    refine ht.freed hpc ?_
    intro u use fd k huse hu
    exact hok (.inr (by simp only [hpc]; exact ⟨u, use, fd, k, huse, hu⟩))
  -- the other sections are of threads in no creation, and leave them with no slot
  | missed hpc | refused hpc | locked hpc | put hpc | unlocked hpc | called hpc =>
    exact ht.goto_free t (by rw [hpc]; rfl) trivial

/-- A step that interferes with no other thread keeps the table tidy. -/
theorem tidy_exec {step : Thread × Act} (ht : Tidy s.sockets s.slots s.pc)
    (hok : ¬ Interferes s step) (h : exec step s = .ok () s') :
    Tidy s'.sockets s'.slots s'.pc := by
  cases exec_cases h with
  | create hcall =>
    exact ht.opened _ _ s.opens (by rw [hcall.2.1]; rfl)
      (fun i a ha hfd => hok (.inl (.inl ⟨i, a, ha, hfd⟩))) fun u hu => hok (.inl (.inr ⟨u, hu⟩))
  | @call t _ _ hcall => exact ht.goto_free t (by rw [hcall.2.1]; rfl) trivial
  | raise hidle => exact ht.goto_free .tcpip (by rw [hidle]; rfl) trivial
  | next hsection => exact tidy_section ht hok hsection
  | get hidle => exact ht.goto_free .skt (by rw [hidle]; rfl) trivial
  | ret => exact ht

/-- The table is tidy and the descriptors are apart. -/
def SlotsInv (s : Sys) : Prop :=
  Descriptors s.sockets s.slots s.pc ∧ Tidy s.sockets s.slots s.pc

theorem slotsInv_exec {step : Thread × Act} (hi : SlotsInv s) (hok : ¬ Interferes s step)
    (h : exec step s = .ok () s') : SlotsInv s' :=
  ⟨descriptors_exec hi.1 (fun hr => hok (.inl hr)) h, tidy_exec hi.2 hok h⟩

theorem SlotsInv.held (hi : SlotsInv s) : Held s := by
  intro fd sock hopen hcreated
  rcases hi.2.held hopen with ⟨t, ht⟩ | ⟨idx, hidx⟩
  · exact absurd ht (hcreated t)
  · have hidx' := hidx
    obtain ⟨a, ha, hfd, -⟩ := hidx'
    exact ⟨idx, hidx, fun j b hb hbfd => hi.1.slot_inj hb ha (hbfd.trans hfd.symm)⟩

theorem SlotsInv.actsOnOwn (hi : SlotsInv s) (t : Thread) : ActsOnOwn s t := by
  have hsound := hi.2.sound t
  unfold ActsOnOwn
  cases hpc : s.pc t with
  | chosen fd type domain sock idx =>
    intro a ha
    rw [hpc] at hsound
    rw [show s.slots idx = none from hsound] at ha
    cases ha
  | found use fd sock idx =>
    intro huse
    rw [hpc] at hsound
    exact hsound.resolve_left fun hc => huse hc.1
  | closed fd sock idx =>
    rw [hpc] at hsound
    exact hsound.2
  | _ => trivial

/-! ### Runs of a few threads -/

/-- A step moves no other thread. -/
theorem pc_exec {step : Thread × Act} {u : Thread} (hu : u ≠ step.1)
    (h : exec step s = .ok () s') : s'.pc u = s.pc u := by
  cases exec_cases h with
  | next hsection => cases hsection <;> exact Function.update_of_ne hu _ _
  | ret => rfl
  | _ => exact Function.update_of_ne hu _ _

/-- A close of the descriptor is under way. -/
def Pc.closing (fd : Int) : Pc → Bool
  | .found .close fd' _ _ => fd' = fd
  | _ => false

/-- The slot is about to be filled. -/
def Pc.filling (idx : Fin maxSocket) : Pc → Bool
  | .chosen _ _ _ _ i => i = idx
  | _ => false

/-- The slot was found, and not by a close. -/
def Pc.using (idx : Fin maxSocket) : Pc → Bool
  | .found use _ _ i => use ≠ .close ∧ i = idx
  | _ => false

/-- The step interferes with none of these threads. -/
def leavesAlone (threads : List Thread) (s : Sys) : Thread × Act → Bool
  | (_, .create fd _ _) =>
      (List.finRange maxSocket).all (fun i => (s.slots i).all (·.sktFd ≠ fd)) &&
        threads.all fun u => !(s.pc u).closing fd
  | (t, .next _) =>
      match s.pc t with
      | .chosen _ _ _ _ idx => threads.all fun u => u = t || !(s.pc u).filling idx
      | .closed _ _ idx => threads.all fun u => !(s.pc u).using idx
      | _ => true
  | _ => true

theorem not_interferes {threads : List Thread} {step : Thread × Act}
    (hidle : ∀ u, u ∉ threads → s.pc u = .idle) (h : leavesAlone threads s step = true) :
    ¬ Interferes s step := by
  obtain ⟨t, act⟩ := step
  have hmem : ∀ {u p}, s.pc u = p → p ≠ .idle → u ∈ threads := by
    intro u p hp hne
    by_contra hu
    exact hne (hp.symm.trans (hidle u hu))
  rintro (hreissue | hother)
  · cases act with
    | create fd type domain =>
      rw [leavesAlone, Bool.and_eq_true, List.all_eq_true, List.all_eq_true] at h
      rcases hreissue with ⟨i, a, ha, hfd⟩ | ⟨u, sock, idx, hu⟩
      · have hslot := h.1 i (List.mem_finRange i)
        rw [ha] at hslot
        simp [hfd] at hslot
      · have hclosing := h.2 u (hmem hu nofun)
        rw [hu] at hclosing
        simp [Pc.closing] at hclosing
    | _ => exact hreissue
  · cases act with
    | next succeeds =>
      cases hpc : s.pc t with
      | chosen fd type domain sock idx =>
        simp only [hpc] at hother
        obtain ⟨u, fd', type', domain', sock', hut, hu⟩ := hother
        simp only [leavesAlone, hpc, List.all_eq_true] at h
        have hfilling := h u (hmem hu nofun)
        rw [hu] at hfilling
        simp [Pc.filling, hut] at hfilling
      | closed fd sock idx =>
        simp only [hpc] at hother
        obtain ⟨u, use, fd', sock', huse, hu⟩ := hother
        simp only [leavesAlone, hpc, List.all_eq_true] at h
        have husing := h u (hmem hu nofun)
        rw [hu] at husing
        simp [Pc.using, huse] at husing
      | _ =>
        simp only [hpc] at hother
    | _ => exact hother

/-- Where only a few threads are in the layer, a run can be checked. -/
theorem along_not_interferes (threads : List Thread) {steps : List (Thread × Act)}
    (hsteps : ∀ step ∈ steps, step.1 ∈ threads)
    (h : Support.Along exec (fun s step => leavesAlone threads s step = true) steps start) :
    Support.Along exec (fun s step => ¬ Interferes s step) steps start := by
  have hrun : ∀ {s : Sys}, (∀ u, u ∉ threads → s.pc u = .idle) →
      Support.Along exec (fun s step => leavesAlone threads s step = true) steps s →
      Support.Along exec (fun s step => ¬ Interferes s step) steps s := by
    clear h
    induction steps with
    | nil => exact fun _ _ => trivial
    | cons step steps ih =>
      intro s hidle h
      refine ⟨not_interferes hidle h.1, fun o s' hs => ?_⟩
      refine ih (fun step' hstep => hsteps step' (List.mem_cons_of_mem _ hstep)) (fun u hu => ?_)
        (h.2 o s' hs)
      have hne : u ≠ step.1 := fun heq => hu (heq ▸ hsteps step List.mem_cons_self)
      exact (pc_exec hne hs).trans (hidle u hu)
  exact hrun (fun _ _ => rfl) h

/-- **The slot table** in the runs in which no step interferes with another thread. -/
theorem slots_kept {steps : List (Thread × Act)}
    (h : Support.Along exec (fun s step => ¬ Interferes s step) steps start) :
    Support.Along exec KeepsSlots steps start :=
  h.of_invariant SlotsInv
    (fun _ _ hi hok => ⟨⟨fun _ _ => hi.actsOnOwn _, fun _ hs => (slotsInv_exec hi hok hs).held⟩,
      fun _ _ hs => slotsInv_exec hi hok hs⟩)
    ⟨descriptors_start, tidy_start⟩

/-- One thread creates a socket and closes it, while another creates a second one. -/
theorem slots_kept_closing : Support.Along exec KeepsSlots
    [(.app 0, .create 0 .tcp .ipv4), (.app 0, .next true), (.app 0, .next true),
      (.app 1, .create 1 .udp .ipv4), (.app 0, .call .close 0), (.app 1, .next true),
      (.app 0, .next true), (.app 0, .next true), (.app 1, .next true), (.app 0, .next true)]
    start :=
  slots_kept (along_not_interferes [.app 0, .app 1] (by decide) (by decide +kernel))

/-- Two threads create a socket each, and both find the first slot empty.  The second fills it over
the first. -/
theorem not_slots_kept :
    ¬ ∀ steps : List (Thread × Act), Support.Along exec KeepsSlots steps start := by
  intro h
  have hlast := Support.Along.of_append (h ([(.app 0, .create 0 .tcp .ipv4),
    (.app 1, .create 1 .tcp .ipv4), (.app 0, .next true), (.app 1, .next true),
    (.app 0, .next true)] ++ [(.app 1, .next true)])) rfl
  exact hlast.1.1 true rfl _ rfl rfl

end XY1100.Socket
