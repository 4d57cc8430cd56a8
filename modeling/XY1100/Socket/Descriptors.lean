import Mathlib.Tactic
import XY1100.Socket.Steps

/-!
# Socket — descriptors, slots and sockets

Where the stack reissues no descriptor too early, a descriptor names one socket: no two slots have
the same descriptor, a slot of an open descriptor is the slot of the socket it is open for, and the
descriptor of a socket that is being created is in no slot.

* `Reissues`: a step that opens a descriptor still in use in the layer.
* `Descriptors`: the invariant.
* `descriptors_exec`: every other step keeps it.
-/

namespace XY1100.Socket

variable {sockets : Int → Option Nat} {slots slots' : Fin maxSocket → Option Slot}
  {pc : Thread → Pc}
  {s s' : Sys} {t : Thread}

/-! ### Slots and points -/

/-- A slot of a table with one slot filled is the new slot or an old one. -/
theorem slot_of_update {idx i : Fin maxSocket} {a b : Slot}
    (h : Function.update slots idx (some b) i = some a) :
    (i = idx ∧ a = b) ∨ (i ≠ idx ∧ slots i = some a) := by
  by_cases hi : i = idx
  · subst hi
    rw [Function.update_self] at h
    cases h
    exact .inl ⟨rfl, rfl⟩
  · rw [Function.update_of_ne hi] at h
    exact .inr ⟨hi, h⟩

/-- A slot of a table with one slot emptied is an old one. -/
theorem slot_of_update_none {idx i : Fin maxSocket} {a : Slot}
    (h : Function.update slots idx none i = some a) : slots i = some a := by
  by_cases hi : i = idx
  · rw [hi, Function.update_self] at h
    cases h
  · rwa [Function.update_of_ne hi] at h

/-- The slot `idx` is the slot of the socket `sock`, of the descriptor `fd`. -/
def Holds (slots : Fin maxSocket → Option Slot) (idx : Fin maxSocket) (fd : Int) (sock : Nat) :
    Prop :=
  ∃ slot, slots idx = some slot ∧ slot.sktFd = fd ∧ slot.sock = sock

theorem Holds.sktFd_eq {i : Fin maxSocket} {fd fd' : Int} {k k' : Nat} (h : Holds slots i fd k)
    (h' : Holds slots i fd' k') : fd = fd' := by
  obtain ⟨a, ha, rfl, -⟩ := h
  obtain ⟨b, hb, rfl, -⟩ := h'
  rw [ha] at hb
  cases hb
  rfl

theorem Holds.update_ne {i idx : Fin maxSocket} {fd : Int} {k : Nat} (h : Holds slots i fd k)
    (hi : i ≠ idx) (slot : Option Slot) : Holds (Function.update slots idx slot) i fd k := by
  obtain ⟨a, ha, hfd, hk⟩ := h
  exact ⟨a, by rwa [Function.update_of_ne hi], hfd, hk⟩

theorem Holds.onSlot {i idx : Fin maxSocket} {fd : Int} {k : Nat} {slot : Slot}
    (h : Holds slots i fd k) (use : Use) (hslot : slots idx = some slot) :
    Holds (Function.update slots idx (some (use.onSlot slot))) i fd k := by
  by_cases hi : i = idx
  · subst hi
    obtain ⟨a, ha, hfd, hk⟩ := h
    rw [hslot] at ha
    cases ha
    exact ⟨use.onSlot slot, Function.update_self .., (onSlot_sktFd use slot).trans hfd,
      (onSlot_sock use slot).trans hk⟩
  · exact h.update_ne hi _

/-- A property of all threads' points, after one thread went on. -/
theorem forall_update {P : Pc → Prop} {p : Pc} {t : Thread} (hp : P p) (h : ∀ u, u ≠ t → P (pc u)) :
    ∀ u, P (Function.update pc t p u) := by
  intro u
  by_cases hu : u = t
  · subst hu
    rwa [Function.update_self]
  · rw [Function.update_of_ne hu]
    exact h u hu

/-! ### Threads that create or close a socket -/

/-- The descriptor and the socket of a creation in progress. -/
def Pc.creates : Pc → Option (Int × Nat)
  | .opened fd _ _ sock => some (fd, sock)
  | .dropping fd sock => some (fd, sock)
  | .chosen fd _ _ sock _ => some (fd, sock)
  | _ => none

/-- The thread has looked the descriptor up to close it, and has not closed it yet. -/
def Pc.closes (p : Pc) (fd : Int) : Prop := ∃ sock idx, p = .found .close fd sock idx

/-- A point of a thread in no creation and before no close. -/
def Pc.Quiet (p : Pc) : Prop := p.creates = none ∧ ∀ fd, ¬ p.closes fd

/-- A creation in progress after a thread went on to a point in no creation is another thread's. -/
theorem creates_of_update {p : Pc} {u : Thread} {c : Int × Nat} (hp : p.creates = none)
    (h : (Function.update pc t p u).creates = some c) : u ≠ t ∧ (pc u).creates = some c := by
  by_cases hu : u = t
  · subst hu
    rw [Function.update_self, hp] at h
    cases h
  · rw [Function.update_of_ne hu] at h
    exact ⟨hu, h⟩

theorem quiet_idle : Pc.idle.Quiet := by
  refine ⟨rfl, ?_⟩
  rintro fd ⟨_, _, h⟩
  cases h

theorem quiet_lookup (use : Use) (fd : Int) : (Pc.lookup use fd).Quiet := by
  refine ⟨rfl, ?_⟩
  rintro _ ⟨_, _, h⟩
  cases h

theorem quiet_closed (fd : Int) (sock : Nat) (idx : Fin maxSocket) :
    (Pc.closed fd sock idx).Quiet := by
  refine ⟨rfl, ?_⟩
  rintro _ ⟨_, _, h⟩
  cases h

theorem quiet_toPost (event : LwipEvent) (fd : Int) (sock number : Nat) :
    (event.toPost fd sock number).Quiet := by
  rcases toPost_cases event fd sock number with h | ⟨ev, -, h⟩ <;> rw [h]
  · exact quiet_idle
  · exact quiet_lookup _ _

theorem quiet_afterUse (use : Use) (fd : Int) (slot : Slot) : (use.afterUse fd slot).Quiet := by
  rcases afterUse_cases use fd slot with h | ⟨event, sock, number, -, h⟩ | ⟨ev, -, -, h⟩ |
      ⟨ev, -, h⟩ <;> rw [h]
  · exact quiet_idle
  · exact quiet_toPost _ _ _ _
  · exact ⟨rfl, by rintro _ ⟨_, _, hp⟩; cases hp⟩
  · exact ⟨rfl, by rintro _ ⟨_, _, hp⟩; cases hp⟩

/-- With the slot it found a function is in no creation, and if it goes on to close, it closes the
descriptor it looked up. -/
theorem creates_afterFind (use : Use) (fd : Int) (sock : Nat) (idx : Fin maxSocket) :
    (use.afterFind fd sock idx).creates = none := by
  rcases afterFind_cases use fd sock idx with h | ⟨event, raiser, number, -, h⟩ <;> rw [h]
  · rfl
  · exact (quiet_toPost _ _ _ _).1

theorem closes_afterFind {use : Use} {fd fd' : Int} {sock : Nat} {idx : Fin maxSocket}
    (hcl : (use.afterFind fd sock idx).closes fd') : fd' = fd := by
  rcases afterFind_cases use fd sock idx with h | ⟨event, raiser, number, -, h⟩ <;> rw [h] at hcl
  · obtain ⟨_, _, hp⟩ := hcl
    cases hp
    rfl
  · exact absurd hcl ((quiet_toPost _ _ _ _).2 fd')

/-! ### The invariant -/

/-- A descriptor names one socket. -/
structure Descriptors (sockets : Int → Option Nat) (slots : Fin maxSocket → Option Slot)
    (pc : Thread → Pc) : Prop where
  /-- The slot of an open descriptor is the slot of the socket it is open for. -/
  slot_open : ∀ {i a k}, slots i = some a → sockets a.sktFd = some k → a.sock = k
  /-- No two slots have the same descriptor. -/
  slot_inj : ∀ {i j a b}, slots i = some a → slots j = some b → a.sktFd = b.sktFd → i = j
  /-- A socket being created is open. -/
  creating_open : ∀ {t fd k}, (pc t).creates = some (fd, k) → sockets fd = some k
  /-- Its descriptor is in no slot. -/
  creating_slot : ∀ {t fd k i a}, (pc t).creates = some (fd, k) → slots i = some a → a.sktFd ≠ fd
  /-- No thread is about to close it. -/
  creating_closes : ∀ {t u fd k}, (pc t).creates = some (fd, k) → ¬ (pc u).closes fd
  /-- No other thread is creating it. -/
  creating_inj : ∀ {t u fd k k'}, (pc t).creates = some (fd, k) →
    (pc u).creates = some (fd, k') → t = u

theorem descriptors_start : Descriptors start.sockets start.slots start.pc where
  slot_open h := by cases h
  slot_inj h := by cases h
  creating_open h := by cases h
  creating_slot h := by cases h
  creating_closes h := by cases h
  creating_inj h := by cases h

/-- A thread goes on.  If it is in a creation afterwards it was in it before, and if it is about
to close a descriptor afterwards a slot has that descriptor. -/
theorem Descriptors.goto {p : Pc} (hd : Descriptors sockets slots pc) (t : Thread)
    (hcreates : ∀ c, p.creates = some c → (pc t).creates = some c)
    (hcloses : ∀ fd, p.closes fd → ∃ i a, slots i = some a ∧ a.sktFd = fd) :
    Descriptors sockets slots (Function.update pc t p) := by
  have hback : ∀ {u c}, (Function.update pc t p u).creates = some c →
      (pc u).creates = some c := by
    intro u c h
    by_cases hu : u = t
    · subst hu
      exact hcreates c (by rwa [Function.update_self] at h)
    · rwa [Function.update_of_ne hu] at h
  refine ⟨hd.slot_open, hd.slot_inj, fun h => hd.creating_open (hback h),
    fun h => hd.creating_slot (hback h), ?_, fun h h' => hd.creating_inj (hback h) (hback h')⟩
  intro v u fd k h hcl
  by_cases hu : u = t
  · subst hu
    rw [Function.update_self] at hcl
    obtain ⟨i, a, ha, hfd⟩ := hcloses fd hcl
    exact hd.creating_slot (hback h) ha hfd
  · rw [Function.update_of_ne hu] at hcl
    exact hd.creating_closes (hback h) hcl

/-- A thread goes on to a point in no creation and before no close. -/
theorem Descriptors.goto_quiet {p : Pc} (hd : Descriptors sockets slots pc) (t : Thread)
    (hp : p.Quiet) : Descriptors sockets slots (Function.update pc t p) :=
  hd.goto t (fun c h => by rw [hp.1] at h; cases h) fun fd h => absurd h (hp.2 fd)

/-- Every slot of `slots'` is a slot of `slots` with the same descriptor and socket. -/
def Within (slots' slots : Fin maxSocket → Option Slot) : Prop :=
  ∀ i a, slots' i = some a → ∃ b, slots i = some b ∧ b.sktFd = a.sktFd ∧ b.sock = a.sock

theorem Descriptors.within (hd : Descriptors sockets slots pc) (h : Within slots' slots) :
    Descriptors sockets slots' pc := by
  refine ⟨?_, ?_, hd.creating_open, ?_, hd.creating_closes, hd.creating_inj⟩
  · intro i a k ha hk
    obtain ⟨b, hb, hfd, hsock⟩ := h i a ha
    rw [← hsock]
    exact hd.slot_open hb (by rwa [hfd])
  · intro i j a b ha hb hab
    obtain ⟨a', ha', hafd, -⟩ := h i a ha
    obtain ⟨b', hb', hbfd, -⟩ := h j b hb
    exact hd.slot_inj ha' hb' (by rw [hafd, hbfd, hab])
  · intro t fd k i a hc ha
    obtain ⟨b, hb, hfd, -⟩ := h i a ha
    rw [← hfd]
    exact hd.creating_slot hc hb

theorem within_onSlot (use : Use) {idx : Fin maxSocket} {slot : Slot} (h : slots idx = some slot) :
    Within (Function.update slots idx (some (use.onSlot slot))) slots := by
  intro i a ha
  rcases slot_of_update ha with ⟨rfl, rfl⟩ | ⟨-, ha⟩
  · exact ⟨slot, h, (onSlot_sktFd use slot).symm, (onSlot_sock use slot).symm⟩
  · exact ⟨a, ha, rfl, rfl⟩

theorem within_free (slots : Fin maxSocket → Option Slot) (idx : Fin maxSocket) :
    Within (Function.update slots idx none) slots :=
  fun _ a ha => ⟨a, slot_of_update_none ha, rfl, rfl⟩

/-- The stack closes a descriptor that no thread is creating. -/
theorem Descriptors.close (hd : Descriptors sockets slots pc) {fd : Int}
    (hfd : ∀ t k, (pc t).creates ≠ some (fd, k)) :
    Descriptors (Function.update sockets fd none) slots pc := by
  refine ⟨?_, hd.slot_inj, ?_, hd.creating_slot, hd.creating_closes, hd.creating_inj⟩
  · intro i a k ha hk
    by_cases hne : a.sktFd = fd
    · rw [hne, Function.update_self] at hk
      cases hk
    · rw [Function.update_of_ne hne] at hk
      exact hd.slot_open ha hk
  · intro t fd' k hc
    have hne : fd' ≠ fd := by
      rintro rfl
      exact hfd t k hc
    rw [Function.update_of_ne hne]
    exact hd.creating_open hc

/-- The stack opens a descriptor that is in no slot and that no thread is about to close. -/
theorem Descriptors.opened (hd : Descriptors sockets slots pc) {fd : Int} (type : SockType)
    (domain : ProtocolVer) (k : Nat) (hclosed : sockets fd = none)
    (hidle : (pc t).creates = none) (hslot : ∀ i a, slots i = some a → a.sktFd ≠ fd)
    (hcloses : ∀ u, ¬ (pc u).closes fd) :
    Descriptors (Function.update sockets fd (some k)) slots
      (Function.update pc t (.opened fd type domain k)) := by
  -- the descriptors of the other creations are open, so none of them is `fd`
  have hother : ∀ {u fd' k'}, u ≠ t →
      (Function.update pc t (.opened fd type domain k) u).creates = some (fd', k') →
      (pc u).creates = some (fd', k') ∧ fd' ≠ fd := by
    intro u fd' k' hu h
    rw [Function.update_of_ne hu] at h
    refine ⟨h, ?_⟩
    rintro rfl
    rw [hd.creating_open h] at hclosed
    cases hclosed
  have hself : ∀ {fd' k'},
      (Function.update pc t (.opened fd type domain k) t).creates = some (fd', k') →
      fd' = fd ∧ k' = k := by
    intro fd' k' h
    rw [Function.update_self] at h
    cases h
    exact ⟨rfl, rfl⟩
  refine ⟨?_, hd.slot_inj, ?_, ?_, ?_, ?_⟩
  · intro i a k' ha hk
    rw [Function.update_of_ne (hslot i a ha)] at hk
    exact hd.slot_open ha hk
  · intro u fd' k' h
    by_cases hu : u = t
    · subst hu
      obtain ⟨rfl, rfl⟩ := hself h
      exact Function.update_self ..
    · obtain ⟨h', hne⟩ := hother hu h
      rw [Function.update_of_ne hne]
      exact hd.creating_open h'
  · intro u fd' k' i a h ha
    by_cases hu : u = t
    · subst hu
      obtain ⟨rfl, -⟩ := hself h
      exact hslot i a ha
    · exact hd.creating_slot (hother hu h).1 ha
  · rintro u v fd' k' h ⟨sock, idx, hv⟩
    have hvt : v ≠ t := by
      rintro rfl
      rw [Function.update_self] at hv
      cases hv
    rw [Function.update_of_ne hvt] at hv
    by_cases hu : u = t
    · subst hu
      obtain ⟨rfl, -⟩ := hself h
      exact hcloses v ⟨sock, idx, hv⟩
    · exact hd.creating_closes (hother hu h).1 ⟨sock, idx, hv⟩
  · intro u v fd' k₁ k₂ h₁ h₂
    by_cases hu : u = t <;> by_cases hv : v = t
    · exact hu.trans hv.symm
    · subst hu
      exact absurd (hself h₁).1 (hother hv h₂).2
    · subst hv
      exact absurd (hself h₂).1 (hother hu h₁).2
    · exact hd.creating_inj (hother hu h₁).1 (hother hv h₂).1

/-- A socket that was being created gets its slot. -/
theorem Descriptors.stored (hd : Descriptors sockets slots pc) {fd : Int} {type : SockType}
    {domain : ProtocolVer} {k : Nat} {idx : Fin maxSocket}
    (hc : (pc t).creates = some (fd, k)) :
    Descriptors sockets (Function.update slots idx (some (newSlot fd type domain k)))
      (Function.update pc t .idle) := by
  have hother : ∀ {u fd' k'}, (Function.update pc t .idle u).creates = some (fd', k') →
      (pc u).creates = some (fd', k') ∧ fd' ≠ fd := by
    intro u fd' k' h
    obtain ⟨hu, h⟩ := creates_of_update rfl h
    refine ⟨h, ?_⟩
    rintro rfl
    exact hu (hd.creating_inj h hc)
  refine ⟨?_, ?_, fun h => hd.creating_open (hother h).1, ?_, ?_,
    fun h h' => hd.creating_inj (hother h).1 (hother h').1⟩
  · intro i a k' ha hk
    rcases slot_of_update ha with ⟨-, rfl⟩ | ⟨-, ha⟩
    · exact Option.some.inj ((hd.creating_open hc).symm.trans hk)
    · exact hd.slot_open ha hk
  · intro i j a b ha hb hab
    rcases slot_of_update ha with ⟨hi, rfl⟩ | ⟨-, ha'⟩ <;>
      rcases slot_of_update hb with ⟨hj, rfl⟩ | ⟨-, hb'⟩
    · exact hi.trans hj.symm
    · exact absurd hab.symm (hd.creating_slot hc hb')
    · exact absurd hab (hd.creating_slot hc ha')
    · exact hd.slot_inj ha' hb' hab
  · intro u fd' k' i a h ha
    rcases slot_of_update ha with ⟨-, rfl⟩ | ⟨-, ha⟩
    · exact (hother h).2.symm
    · exact hd.creating_slot (hother h).1 ha
  · rintro u v fd' k' h ⟨sock, j, hv⟩
    by_cases hvt : v = t
    · subst hvt
      rw [Function.update_self] at hv
      cases hv
    · rw [Function.update_of_ne hvt] at hv
      exact hd.creating_closes (hother h).1 ⟨sock, j, hv⟩

/-! ### Steps -/

/-- The step opens a descriptor that a slot still has, or that a thread has looked up to close and
has not closed yet. -/
def Reissues (s : Sys) : Thread × Act → Prop
  | (_, .create fd _ _) =>
      (∃ i a, s.slots i = some a ∧ a.sktFd = fd) ∨ ∃ u, (s.pc u).closes fd
  | _ => False

/-- The next section of a thread keeps the descriptors apart. -/
theorem descriptors_section {succeeds : Bool} (hd : Descriptors s.sockets s.slots s.pc)
    (h : Section t succeeds s s') : Descriptors s'.sockets s'.slots s'.pc := by
  cases h with
  | full hpc =>
    refine hd.goto t (fun c hc => by rw [hpc]; exact hc) ?_
    rintro _ ⟨_, _, hp⟩
    cases hp
  | chosen hpc =>
    refine hd.goto t (fun c hc => by rw [hpc]; exact hc) ?_
    rintro _ ⟨_, _, hp⟩
    cases hp
  | dropped hpc =>
    refine (hd.goto_quiet t quiet_idle).close ?_
    intro u k hu
    obtain ⟨hut, hu⟩ := creates_of_update rfl hu
    exact hut (hd.creating_inj hu (by rw [hpc]; rfl))
  | stored hpc => exact hd.stored (by rw [hpc]; rfl)
  | missed => exact hd.goto_quiet t quiet_idle
  | @found use fd idx slot _ _ hslot hfd =>
    refine hd.goto t (fun c hc => by rw [creates_afterFind] at hc; cases hc) ?_
    intro fd' hcl
    exact ⟨idx, slot, hslot, hfd.trans (closes_afterFind hcl).symm⟩
  | @shut fd sock idx hpc =>
    refine (hd.goto_quiet t (quiet_closed fd sock idx)).close ?_
    intro u k hu
    exact hd.creating_closes (u := t) (creates_of_update rfl hu).2 ⟨sock, idx, hpc⟩
  | refused => exact hd.goto_quiet t quiet_idle
  | @used use fd _ _ slot _ _ _ hslot =>
    exact (hd.within (within_onSlot use hslot)).goto_quiet t (quiet_afterUse use fd slot)
  | freed => exact (hd.within (within_free s.slots _)).goto_quiet t quiet_idle
  | locked => exact hd.goto_quiet t ⟨rfl, by rintro _ ⟨_, _, hp⟩; cases hp⟩
  | put => exact hd.goto_quiet t ⟨rfl, by rintro _ ⟨_, _, hp⟩; cases hp⟩
  | unlocked => exact hd.goto_quiet t quiet_idle
  | called => exact hd.goto_quiet t quiet_idle

/-- A step that reissues no descriptor keeps the descriptors apart. -/
theorem descriptors_exec {step : Thread × Act} (hd : Descriptors s.sockets s.slots s.pc)
    (hok : ¬ Reissues s step) (h : exec step s = .ok () s') :
    Descriptors s'.sockets s'.slots s'.pc := by
  cases exec_cases h with
  | @create t fd type domain hcall _ hclosed =>
    exact hd.opened type domain s.opens hclosed (by rw [hcall.2.1]; rfl)
      (fun i a ha hfd => hok (.inl ⟨i, a, ha, hfd⟩)) fun u hu => hok (.inr ⟨u, hu⟩)
  | call => exact hd.goto_quiet _ (quiet_lookup _ _)
  | raise => exact hd.goto_quiet .tcpip (quiet_lookup _ _)
  | next hsection => exact descriptors_section hd hsection
  | get => exact hd.goto_quiet .skt (quiet_lookup _ _)
  | ret => exact hd

end XY1100.Socket
