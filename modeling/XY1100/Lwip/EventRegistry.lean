import Mathlib.Tactic
import XY1100.Support.Calls
import XY1100.Support.LinkedList

/-!
# Lwip — the registry of netif callbacks

`netif_mgmt.c` keeps the callbacks that are told of a netif going up or down in a linked list under
one mutex.  A callback is put behind the last one, the first registration of it is taken out, and a
change of the netif's status goes through the list.  The deletion looks whether the list is empty
before it takes the mutex, and goes through the head of the list after it has.

A step is a section of one thread: one iteration of a loop, or what a function does up to its first
loop.  Before the kernel runs there is one thread and no mutex.  What is registered, in order, is
recorded beside the list: a registration is made where its node is linked, and a deletion where it
ends takes the first registration of its callback.

* `Inv`: the list is the registrations, whichever thread is in the middle of what.
* `registry_kept_iff`: a run keeps the registry exactly when no deletion that has found the list
  not empty finds it empty once it has the mutex.
-/

namespace XY1100.NetifMgmt
open Support

/-! ### Callbacks and events -/

/-- `netif_mgmt_event`. -/
inductive Event
  | up
  | down
  | ipv6
  deriving Repr, DecidableEq

/-- The value of an event. -/
def Event.toNat : Event → Nat
  | .up => 0
  | .down => 1
  | .ipv6 => 2

/-- `netif_mgmt_event_callback_t`, the bytes of its name, and the function by its address. -/
structure EventCallback where
  netifName : List UInt8
  callback : Nat
  netifMgmtEventBitmap : UInt32
  deriving Repr, DecidableEq

/-- What a status change reads of a netif: `flags`, the state of its IPv6 address, and the bytes
from `name` on.  The name is two characters that no zero need follow: `num` and what lies behind it
are compared with it. -/
structure Netif where
  flags : UInt8
  ip6Preferred : Bool
  name : List UInt8
  deriving Repr, DecidableEq

/-- `NETIF_FLAG_UP`. -/
def netifFlagUp : UInt8 := 0x01

/-- The event `netif_mgmt_status_callback_proc` reports. -/
def Netif.event (netif : Netif) : Event :=
  if netif.flags &&& netifFlagUp ≠ 0 then if netif.ip6Preferred then .ipv6 else .up else .down

/-- The string that starts with these bytes. -/
def cString (bytes : List UInt8) : List UInt8 := bytes.takeWhile (· ≠ 0)

/-- The test before a callback is called: its event bit, and an empty name or the netif's. -/
def EventCallback.Matches (cb : EventCallback) (netif : Netif) : Prop :=
  cb.netifMgmtEventBitmap &&& (1 <<< netif.event.toNat.toUInt32) ≠ 0 ∧
    (cString cb.netifName = [] ∨ cString cb.netifName = cString netif.name)

instance (cb : EventCallback) (netif : Netif) : Decidable (cb.Matches netif) :=
  inferInstanceAs (Decidable (_ ∧ _))

/-! ### The system -/

/-- A thread; thread 0 is the one that runs before the kernel does. -/
abbrev Thread := Nat

/-- Where a thread is, between two sections.  A callback is named by its address. -/
inductive Pc
  /-- In no function. -/
  | idle
  /-- `netif_mgmt_add_event_callback`: the node is allocated. -/
  | adding (cb node : Nat)
  /-- `netif_mgmt_add_event_callback_to_list`: on the way to the last node. -/
  | walking (cb node tmp : Nat)
  /-- `netif_mgmt_del_event_callback`: the list was not empty. -/
  | deleting (cb : Nat)
  /-- `netif_mgmt_del_event_callback`: `prev` is not the node searched for. -/
  | searching (cb prev : Nat) (cur : Option Nat)
  /-- `netif_mgmt_status_callback_proc`: about to take the mutex. -/
  | reporting (netif : Netif)
  /-- `netif_mgmt_status_callback_proc`: on the way through the list, with what was registered when
  it took the mutex and what it has called. -/
  | calling (netif : Netif) (before : List Nat) (cur : Option Nat) (called : List Nat)
  /-- About to release the mutex. -/
  | unlocking
  deriving Repr, DecidableEq

/-- The state of the system. -/
structure Sys where
  /-- `netif_mgmt_event_callback_list`. -/
  list : Option Nat
  /-- The nodes that are allocated. -/
  nodes : Nat → Option (Node Nat Nat)
  /-- `g_netif_mgmt_mutex`. -/
  mutex : Option Thread
  pc : Thread → Pc
  /-- The kernel runs. -/
  kernel : Bool
  /-- The registrations not yet deleted, in the order in which they were made. -/
  registered : List Nat

/-- Before the kernel runs. -/
def start : Sys where
  list := none
  nodes := fun _ => none
  mutex := none
  pc := fun _ => .idle
  kernel := false
  registered := []

/-- Why a section does not come to its end: it must wait, or it goes through a pointer to no
node. -/
inductive Stop
  | waits
  | nullPointer
  deriving Repr, DecidableEq

/-- A thread goes on to `pc`. -/
def Sys.goto (s : Sys) (t : Thread) (pc : Pc) : Sys := { s with pc := Function.update s.pc t pc }

/-- `osMutexAcquire`, once the kernel runs, before a section. -/
def locked (t : Thread) (body : EStateM Stop Sys Unit) : EStateM Stop Sys Unit := fun s =>
  if s.kernel then
    if s.mutex.isSome then .error .waits s else body { s with mutex := some t }
  else body s

/-- `osMutexRelease`. -/
def unlock (t : Thread) (s : Sys) : Sys :=
  { s with mutex := if s.kernel then none else s.mutex }.goto t .idle

/-! ### The operations -/

/-- `netif_mgmt_add_event_callback_to_list` up to its loop. -/
def addToList (t : Thread) (cb node : Nat) : EStateM Stop Sys Unit := fun s =>
  match s.list with
  | none => .ok () ({ s with
      list := some node
      registered := s.registered ++ [cb] }.goto t .unlocking)
  | some tmp => .ok () (s.goto t (.walking cb node tmp))

/-- The loop of `netif_mgmt_add_event_callback_to_list`, and the node linked at its end. -/
def walkList (t : Thread) (cb node tmp : Nat) : EStateM Stop Sys Unit := fun s =>
  match s.nodes tmp with
  | none => .error .nullPointer s
  | some ⟨x, none⟩ => .ok () ({ s with
      nodes := Function.update s.nodes tmp (some ⟨x, some node⟩)
      registered := s.registered ++ [cb] }.goto t .unlocking)
  | some ⟨_, some next⟩ => .ok () (s.goto t (.walking cb node next))

/-- `netif_mgmt_del_event_callback` up to its loop. -/
def delHead (t : Thread) (cb : Nat) : EStateM Stop Sys Unit := fun s =>
  match s.list with
  | none => .error .nullPointer s
  | some temp =>
      match s.nodes temp with
      | none => .error .nullPointer s
      | some ⟨x, next⟩ =>
          if x = cb then .ok () ({ s with
            list := next
            nodes := Function.update s.nodes temp none
            registered := s.registered.erase cb }.goto t .unlocking)
          else .ok () (s.goto t (.searching cb temp next))

/-- The loop of `netif_mgmt_del_event_callback`. -/
def delNext (t : Thread) (cb prev : Nat) (cur : Option Nat) : EStateM Stop Sys Unit := fun s =>
  match cur with
  | none => .ok () ({ s with registered := s.registered.erase cb }.goto t .unlocking)
  | some temp =>
      match s.nodes temp with
      | none => .error .nullPointer s
      | some ⟨x, next⟩ =>
          if x = cb then
            match s.nodes prev with
            | none => .error .nullPointer s
            | some ⟨y, _⟩ => .ok () ({ s with
                nodes := Function.update (Function.update s.nodes prev (some ⟨y, next⟩)) temp none
                registered := s.registered.erase cb }.goto t .unlocking)
          else .ok () (s.goto t (.searching cb temp next))

section Registry
variable (callbacks : Nat → EventCallback)

/-- The loop of `netif_mgmt_status_callback_proc`. -/
def callNext (t : Thread) (netif : Netif) (before : List Nat) (cur : Option Nat)
    (called : List Nat) : EStateM Stop Sys Unit := fun s =>
  match cur with
  | none => .ok () (s.goto t .unlocking)
  | some node =>
      match s.nodes node with
      | none => .error .nullPointer s
      | some ⟨cb, next⟩ =>
          let called := if (callbacks cb).Matches netif then called ++ [cb] else called
          .ok () (s.goto t (.calling netif before next called))

/-- `netif_mgmt_status_callback_proc` up to its loops. -/
def statusCallbackProc (t : Thread) (netif : Netif) : EStateM Stop Sys Unit := fun s =>
  .ok () (s.goto t (.calling netif s.registered s.list []))

/-! ### The steps of the system -/

/-- The next section of a thread that is in a function of the registry. -/
def nextSection (t : Thread) : Pc → EStateM Stop Sys Unit
  | .idle => fun s => .error .waits s
  | .adding cb node => locked t (addToList t cb node)
  | .walking cb node tmp => walkList t cb node tmp
  | .deleting cb => locked t (delHead t cb)
  | .searching cb prev cur => delNext t cb prev cur
  | .reporting netif => locked t (statusCallbackProc t netif)
  | .calling netif before cur called => callNext callbacks t netif before cur called
  | .unlocking => fun s => .ok () (unlock t s)

/-- A step of a thread. -/
inductive Act
  /-- The kernel starts. -/
  | startKernel
  /-- `netif_mgmt_add_event_callback`, for which `xy_zalloc` returns `node`. -/
  | add (cb node : Nat)
  /-- `netif_mgmt_del_event_callback`, up to the mutex. -/
  | del (cb : Nat)
  /-- The status of a netif changes. -/
  | status (netif : Netif)
  /-- The next section of the function the thread is in. -/
  | next
  deriving Repr, DecidableEq

/-- `netif_mgmt_del_event_callback` up to the mutex. -/
def delCall (t : Thread) (cb : Nat) (s : Sys) : Sys :=
  if s.list = none then { s with registered := s.registered.erase cb } else s.goto t (.deleting cb)

/-- A step of the system. -/
def exec (step : Thread × Act) : EStateM Stop Sys Unit := fun s =>
  match step with
  | (t, .startKernel) =>
      if t = 0 ∧ s.pc t = .idle then .ok () { s with kernel := true } else .error .waits s
  | (t, .add cb node) =>
      if (s.kernel ∨ t = 0) ∧ s.pc t = .idle ∧ s.nodes node = none then
        .ok () ({ s with nodes := Function.update s.nodes node (some ⟨cb, none⟩) }.goto t
          (.adding cb node))
      else .error .waits s
  | (t, .del cb) =>
      if s.kernel ∧ s.pc t = .idle then .ok () (delCall t cb s) else .error .waits s
  | (t, .status netif) =>
      if s.kernel ∧ s.pc t = .idle then .ok () (s.goto t (.reporting netif)) else .error .waits s
  | (t, .next) => nextSection callbacks t (s.pc t) s

/-! ### What the runs are to keep -/

/-- The list is the registrations. -/
def Lists (s : Sys) : Prop :=
  ∃ l, Chain s.nodes s.list l ∧ l.map Prod.snd = s.registered

/-- A status change that has come to the end of the list has called the callbacks registered that
match, once each and in order. -/
def Reports (s : Sys) (t : Thread) : Prop :=
  ∀ netif before called, s.pc t = .calling netif before none called →
    before = s.registered ∧ called = s.registered.filter fun cb => (callbacks cb).Matches netif

/-- The list is the registrations, the step goes through no null pointer, and a status change at
its end has told whom it should. -/
structure KeepsRegistry (s : Sys) (step : Thread × Act) : Prop where
  lists : Lists s
  returns : ∀ s', exec callbacks step s ≠ .error .nullPointer s'
  reports : Reports callbacks s step.1

/-- A deletion that has found the list not empty takes the mutex, and the list is empty. -/
def FindsEmpty (s : Sys) (step : Thread × Act) : Prop :=
  (∃ cb, step.2 = .next ∧ s.pc step.1 = .deleting cb) ∧ s.list = none ∧ s.mutex = none

/-! ### The invariant -/

/-- The node a registration in progress has yet to link, and its callback. -/
def Pc.pending : Pc → Option (Nat × Nat)
  | .adding cb node | .walking cb node _ => some (node, cb)
  | .idle | .deleting _ | .searching _ _ _ | .reporting _ | .calling _ _ _ _ | .unlocking => none

/-- Between taking and releasing the mutex. -/
def Pc.Inside : Pc → Prop
  | .walking _ _ _ | .searching _ _ _ | .calling _ _ _ _ | .unlocking => True
  | .idle | .adding _ _ | .deleting _ | .reporting _ => False

/-- The thread may be between taking and releasing the mutex. -/
def Sys.Holds (s : Sys) (t : Thread) : Prop := if s.kernel then s.mutex = some t else t = 0

/-- What a thread on its way through the list has come by. -/
def Sound (nodes : Nat → Option (Node Nat Nat)) (l : List (Nat × Nat)) : Pc → Prop
  | .walking _ _ tmp => ∃ before x rest, l = before ++ (tmp, x) :: rest
  | .searching cb prev cur => ∃ before x rest, l = before ++ (prev, x) :: rest ∧
      Chain nodes cur rest ∧ cb ∉ (before ++ [(prev, x)]).map Prod.snd
  | .calling netif regs cur called => regs = l.map Prod.snd ∧ ∃ before rest, l = before ++ rest ∧
      Chain nodes cur rest ∧
      called = (before.map Prod.snd).filter fun cb => (callbacks cb).Matches netif
  | .idle | .adding _ _ | .deleting _ | .reporting _ | .unlocking => True

/-- The list is `l`, and so are the registrations; every thread knows where in it it is, and the
nodes not yet linked are outside. -/
structure Inv (s : Sys) (l : List (Nat × Nat)) : Prop where
  chain : Chain s.nodes s.list l
  nodup : (l.map Prod.fst).Nodup
  registered : l.map Prod.snd = s.registered
  sound : ∀ t, Sound callbacks s.nodes l (s.pc t)
  pending : ∀ {t node cb}, (s.pc t).pending = some (node, cb) →
    s.nodes node = some ⟨cb, none⟩ ∧ node ∉ l.map Prod.fst
  pending_inj : ∀ {t u node cb cb'}, (s.pc t).pending = some (node, cb) →
    (s.pc u).pending = some (node, cb') → t = u
  holds : ∀ {t}, (s.pc t).Inside → s.Holds t
  boot : s.kernel = false → s.mutex = none ∧ ∀ t, t ≠ 0 → s.pc t = .idle

/-- A step keeps the invariant, or does not come to its end because it has to wait. -/
def Keeps : EStateM.Result Stop Sys Unit → Prop
  | .ok _ s => ∃ l, Inv callbacks s l
  | .error .waits _ => True
  | .error .nullPointer _ => False

variable {callbacks} {s s' : Sys} {l l' : List (Nat × Nat)} {t : Thread} {p : Pc}

theorem inv_start : Inv callbacks start [] where
  chain := rfl
  nodup := List.nodup_nil
  registered := rfl
  sound _ := trivial
  pending h := by cases h
  pending_inj h := by cases h
  holds h := h.elim
  boot _ := ⟨rfl, fun _ _ => rfl⟩

theorem Sys.Holds.unique {u : Thread} (ht : s.Holds t) (hu : s.Holds u) : t = u := by
  unfold Sys.Holds at ht hu
  split_ifs at ht hu
  · exact Option.some.inj (ht.symm.trans hu)
  · rw [ht, hu]

theorem Sys.Holds.eq_zero (ht : s.Holds t) (hk : s.kernel = false) : t = 0 := by
  rwa [Sys.Holds, hk, if_neg (by decide)] at ht

/-- No thread but this one is between taking and releasing the mutex. -/
theorem Inv.alone (hi : Inv callbacks s l) (ht : s.Holds t) {u : Thread} (hu : u ≠ t) :
    ¬ (s.pc u).Inside := fun h => hu ((hi.holds h).unique ht)

/-- A thread outside the mutex knows nothing of the list. -/
theorem sound_of_not_inside {nodes : Nat → Option (Node Nat Nat)} (h : ¬ p.Inside) :
    Sound callbacks nodes l p := by
  cases p with
  | walking | searching | calling => exact absurd trivial h
  | idle | adding | deleting | reporting | unlocking => trivial

theorem Sound.congr {nodes nodes' : Nat → Option (Node Nat Nat)} (h : Sound callbacks nodes l p)
    (heq : ∀ a ∈ l.map Prod.fst, nodes' a = nodes a) : Sound callbacks nodes' l p := by
  have hrest : ∀ {before rest cur}, l = before ++ rest → Chain nodes cur rest →
      Chain nodes' cur rest := by
    rintro before rest cur rfl hc
    refine hc.congr fun a ha => heq a ?_
    rw [List.map_append]
    exact List.mem_append_right _ ha
  cases p with
  | walking cb node tmp => exact h
  | searching cb prev cur =>
    obtain ⟨before, x, rest, hl, hc, hb⟩ := h
    exact ⟨before, x, rest, hl, hrest (show l = before ++ [(prev, x)] ++ rest by simp [hl]) hc, hb⟩
  | calling netif regs cur called =>
    obtain ⟨hregs, before, rest, hl, hc, hcalled⟩ := h
    exact ⟨hregs, before, rest, hl, hrest hl hc, hcalled⟩
  | idle | adding | deleting | reporting | unlocking => trivial

/-! ### Threads that go on -/

theorem goto_pc_self : (s.goto t p).pc t = p := Function.update_self ..

theorem goto_pc_of_ne {u : Thread} (h : u ≠ t) : (s.goto t p).pc u = s.pc u :=
  Function.update_of_ne h ..

/-- A thread goes on through a list that does not change. -/
theorem Inv.goto (hi : Inv callbacks s l) (hsound : Sound callbacks s.nodes l p)
    (hpend : ∀ c, p.pending = some c → (s.pc t).pending = some c) (hin : p.Inside → s.Holds t)
    (hboot : s.kernel = false → t ≠ 0 → p = .idle) : Inv callbacks (s.goto t p) l := by
  have hback : ∀ {u c}, ((s.goto t p).pc u).pending = some c → (s.pc u).pending = some c := by
    intro u c h
    by_cases hu : u = t
    · subst hu
      rw [goto_pc_self] at h
      exact hpend c h
    · rwa [goto_pc_of_ne hu] at h
  refine ⟨hi.chain, hi.nodup, hi.registered, fun u => ?_, fun h => hi.pending (hback h),
    fun h h' => hi.pending_inj (hback h) (hback h'), fun {u} h => ?_,
    fun hk => ⟨(hi.boot hk).1, fun u h₀ => ?_⟩⟩
  · by_cases hu : u = t
    · subst hu
      rw [goto_pc_self]
      exact hsound
    · rw [goto_pc_of_ne hu]
      exact hi.sound u
  · by_cases hu : u = t
    · subst hu
      rw [goto_pc_self] at h
      exact hin h
    · rw [goto_pc_of_ne hu] at h
      exact hi.holds h
  · by_cases hu : u = t
    · subst hu
      rw [goto_pc_self]
      exact hboot hk h₀
    · rw [goto_pc_of_ne hu]
      exact (hi.boot hk).2 u h₀

/-- A thread that holds the mutex has changed the list, and is about to release it. -/
theorem Inv.relink (hi : Inv callbacks s l) (ht : s.Holds t) {list : Option Nat}
    {nodes : Nat → Option (Node Nat Nat)} {registered : List Nat} (hchain : Chain nodes list l')
    (hnodup : (l'.map Prod.fst).Nodup) (hreg : l'.map Prod.snd = registered)
    (hpend : ∀ {u node cb}, u ≠ t → (s.pc u).pending = some (node, cb) →
      nodes node = s.nodes node ∧ node ∉ l'.map Prod.fst) :
    Inv callbacks
      ({ s with list := list, nodes := nodes, registered := registered }.goto t .unlocking) l' := by
  set s' :=
    ({ s with list := list, nodes := nodes, registered := registered } : Sys).goto t .unlocking
  have hself : s'.pc t = .unlocking := goto_pc_self
  have hother : ∀ {u}, u ≠ t → s'.pc u = s.pc u := fun hu => goto_pc_of_ne hu
  have hne : ∀ {u c}, (s'.pc u).pending = some c → u ≠ t ∧ (s.pc u).pending = some c := by
    intro u c h
    by_cases hu : u = t
    · subst hu
      rw [hself] at h
      cases h
    · rw [hother hu] at h
      exact ⟨hu, h⟩
  refine ⟨hchain, hnodup, hreg, fun u => ?_, fun h => ?_, fun h h' => ?_, fun {u} h => ?_,
    fun hk => ⟨(hi.boot hk).1, fun u h₀ => ?_⟩⟩
  · by_cases hu : u = t
    · subst hu
      rw [hself]
      trivial
    · rw [hother hu]
      exact sound_of_not_inside (hi.alone ht hu)
  · obtain ⟨hu, h⟩ := hne h
    exact ⟨(hpend hu h).1.trans (hi.pending h).1, (hpend hu h).2⟩
  · exact hi.pending_inj (hne h).2 (hne h').2
  · by_cases hu : u = t
    · subst hu
      exact ht
    · rw [hother hu] at h
      exact hi.holds h
  · rw [hother (ht.eq_zero hk ▸ h₀)]
    exact (hi.boot hk).2 u h₀

/-- A section that takes the mutex, if it does not have to wait. -/
theorem Inv.locked (hi : Inv callbacks s l) (hne : s.pc t ≠ .idle)
    (body : EStateM Stop Sys Unit) : NetifMgmt.locked t body s = .error .waits s ∨
      ∃ s₁, NetifMgmt.locked t body s = body s₁ ∧ Inv callbacks s₁ l ∧ s₁.Holds t ∧
        s₁.pc = s.pc ∧ s₁.list = s.list ∧ s.mutex = none := by
  unfold NetifMgmt.locked
  cases hk : s.kernel with
  | false =>
    have ht : t = 0 := by
      by_contra h₀
      exact hne ((hi.boot hk).2 t h₀)
    refine .inr ⟨s, by rw [if_neg (by decide)], hi, ?_, rfl, rfl, (hi.boot hk).1⟩
    rw [Sys.Holds, hk, if_neg (by decide), ht]
  | true =>
    rw [if_pos rfl]
    cases hm : s.mutex with
    | some u => exact .inl rfl
    | none =>
      have hnone : ∀ u, ¬ (s.pc u).Inside := by
        intro u hu
        have h := hi.holds hu
        rw [Sys.Holds, hk, if_pos rfl, hm] at h
        cases h
      exact .inr ⟨{ s with mutex := some t, kernel := true }, rfl, ⟨hi.chain, hi.nodup,
        hi.registered, hi.sound, hi.pending, hi.pending_inj, fun hu => absurd hu (hnone _),
        fun hk' => by cases hk'⟩, rfl, rfl, rfl, rfl⟩

/-! ### Registration -/

theorem Inv.pending_of_ne (hi : Inv callbacks s l) {u : Thread} {node node' cb cb' : Nat}
    (ht : (s.pc t).pending = some (node, cb)) (hu : (s.pc u).pending = some (node', cb'))
    (hne : u ≠ t) : node' ≠ node := by
  rintro rfl
  exact hne (hi.pending_inj hu ht)

theorem Inv.addToList {cb node : Nat} (hi : Inv callbacks s l) (ht : s.Holds t)
    (hpc : s.pc t = .adding cb node) : Keeps callbacks (addToList t cb node s) := by
  have hpend : (s.pc t).pending = some (node, cb) := by rw [hpc]; rfl
  obtain ⟨hnode, -⟩ := hi.pending hpend
  unfold NetifMgmt.addToList
  have hchain := hi.chain
  cases hlist : s.list with
  | none =>
    rw [hlist, chain_none_iff] at hchain
    subst hchain
    refine ⟨[(node, cb)], hi.relink ht ⟨rfl, none, hnode, rfl⟩ (List.nodup_singleton _) ?_ ?_⟩
    · rw [← hi.registered]
      rfl
    · intro u node' cb' hu hp
      refine ⟨rfl, ?_⟩
      rw [List.map_singleton, List.mem_singleton]
      exact hi.pending_of_ne hpend hp hu
  | some tmp =>
    rw [hlist] at hchain
    obtain ⟨x, next, rest, rfl, -, -⟩ := hchain.some
    refine ⟨_, hi.goto ⟨[], x, rest, rfl⟩ (fun c hc => ?_) (fun _ => ht) fun hk h₀ => ?_⟩
    · rw [hpend]
      exact hc
    · exact absurd (ht.eq_zero hk) h₀

theorem Inv.walkList {cb node tmp : Nat} (hi : Inv callbacks s l)
    (hpc : s.pc t = .walking cb node tmp) : Keeps callbacks (walkList t cb node tmp s) := by
  have hpend : (s.pc t).pending = some (node, cb) := by rw [hpc]; rfl
  have ht : s.Holds t := hi.holds (by rw [hpc]; trivial)
  obtain ⟨hnode, hout⟩ := hi.pending hpend
  have hsound := hi.sound t
  rw [hpc] at hsound
  obtain ⟨before, x, rest, rfl⟩ := hsound
  obtain ⟨next, hmem, hrest⟩ := hi.chain.of_append
  unfold NetifMgmt.walkList
  rw [hmem]
  cases next with
  | none =>
    obtain rfl := chain_none_iff.mp hrest
    refine ⟨_, hi.relink ht (hi.chain.push hi.nodup hnode hout) ?_ ?_ ?_⟩
    · rw [List.map_append, List.map_singleton]
      refine List.nodup_append.mpr ⟨hi.nodup, List.nodup_singleton _, fun a ha b hb he => ?_⟩
      rw [he, List.mem_singleton.mp hb] at ha
      exact hout ha
    · rw [List.map_append, hi.registered]
      rfl
    · intro u node' cb' hu hp
      obtain ⟨-, hout'⟩ := hi.pending hp
      constructor
      · refine Function.update_of_ne (fun he => hout' ?_) _ _
        rw [he, List.map_append]
        exact List.mem_append_right _ (List.mem_cons_self ..)
      · rw [List.map_append, List.mem_append]
        rintro (h | h)
        · exact hout' h
        · exact hi.pending_of_ne hpend hp hu (List.mem_singleton.mp h)
  | some a =>
    obtain ⟨y, next', rest', rfl, -, -⟩ := hrest.some
    refine ⟨_, hi.goto ⟨before ++ [(tmp, x)], y, rest', by simp⟩ (fun c hc => ?_) (fun _ => ht)
      fun hk h₀ => absurd (ht.eq_zero hk) h₀⟩
    rw [hpend]
    exact hc

/-! ### Deletion -/

theorem Inv.delHead {cb : Nat} (hi : Inv callbacks s l) (ht : s.Holds t) (hne : s.list ≠ none) :
    Keeps callbacks (delHead t cb s) := by
  have hchain := hi.chain
  have hnodup := hi.nodup
  unfold NetifMgmt.delHead
  cases hlist : s.list with
  | none => exact absurd hlist hne
  | some temp =>
    rw [hlist] at hchain
    obtain ⟨x, next, rest, rfl, hmem, hrest⟩ := hchain.some
    simp only [hmem]
    split_ifs with hx
    · subst hx
      obtain ⟨next', hmem', hpop⟩ := hchain.pop hnodup
      obtain rfl : next = next' := by
        rw [hmem] at hmem'
        cases hmem'
        rfl
      refine ⟨rest, hi.relink ht hpop (List.nodup_cons.mp hnodup).2 ?_ ?_⟩
      · rw [← hi.registered, List.map_cons, List.erase_cons_head]
      · intro u node cb' hu hp
        obtain ⟨-, hout⟩ := hi.pending hp
        rw [List.map_cons, List.mem_cons, not_or] at hout
        exact ⟨Function.update_of_ne hout.1 _ _, hout.2⟩
    · refine ⟨_, hi.goto ⟨[], x, rest, rfl, hrest, ?_⟩ (fun c hc => by cases hc) (fun _ => ht)
        fun hk h₀ => absurd (ht.eq_zero hk) h₀⟩
      rw [List.nil_append, List.map_singleton, List.mem_singleton]
      exact fun he => hx he.symm

theorem Inv.delNext {cb prev : Nat} {cur : Option Nat} (hi : Inv callbacks s l)
    (hpc : s.pc t = .searching cb prev cur) : Keeps callbacks (delNext t cb prev cur s) := by
  have ht : s.Holds t := hi.holds (by rw [hpc]; trivial)
  have hsound := hi.sound t
  rw [hpc] at hsound
  obtain ⟨before, x, rest, rfl, hrest, hbefore⟩ := hsound
  unfold NetifMgmt.delNext
  cases cur with
  | none =>
    obtain rfl := chain_none_iff.mp hrest
    refine ⟨_, hi.relink ht hi.chain hi.nodup ?_ fun _ hp => ⟨rfl, (hi.pending hp).2⟩⟩
    rw [← hi.registered, List.erase_of_not_mem hbefore]
  | some temp =>
    obtain ⟨y, next, rest', rfl, hmem, hrest'⟩ := hrest.some
    simp only [hmem]
    split_ifs with hy
    · subst hy
      obtain ⟨next₀, hprev, -⟩ := hi.chain.of_append
      obtain ⟨next', hmem', hchain⟩ := hi.chain.unlink hi.nodup
      obtain rfl : next = next' := by
        rw [hmem] at hmem'
        cases hmem'
        rfl
      simp only [hprev]
      refine ⟨_, hi.relink ht hchain ?_ ?_ ?_⟩
      · have hd := hi.nodup
        refine hd.sublist (List.Sublist.map _ ?_)
        exact List.Sublist.append_left (List.Sublist.cons_cons _ (List.sublist_cons_self _ _)) _
      · have hsplit : ∀ r, before ++ (prev, x) :: r = before ++ [(prev, x)] ++ r := by simp
        have herase : (List.map Prod.snd (before ++ [(prev, x)] ++ (temp, y) :: rest')).erase y =
            List.map Prod.snd (before ++ [(prev, x)]) ++ List.map Prod.snd rest' := by
          rw [List.map_append, List.erase_append_right _ hbefore, List.map_cons,
            List.erase_cons_head]
        rw [← hi.registered, hsplit, hsplit ((temp, y) :: rest'), herase, List.map_append]
      · intro u node cb' hu hp
        obtain ⟨-, hout⟩ := hi.pending hp
        simp only [List.map_append, List.map_cons, List.mem_append, List.mem_cons, not_or] at hout ⊢
        refine ⟨?_, hout.1, hout.2.1, hout.2.2.2⟩
        rw [Function.update_of_ne hout.2.2.1, Function.update_of_ne hout.2.1]
    · refine ⟨_, hi.goto ⟨before ++ [(prev, x)], y, rest', by simp, hrest', ?_⟩
        (fun c hc => by cases hc) (fun _ => ht) fun hk h₀ => absurd (ht.eq_zero hk) h₀⟩
      rw [List.map_append, List.mem_append, not_or]
      refine ⟨hbefore, ?_⟩
      rw [List.map_singleton, List.mem_singleton]
      exact fun he => hy he.symm

/-! ### Status changes -/

theorem Inv.statusCallbackProc {netif : Netif} (hi : Inv callbacks s l) (ht : s.Holds t) :
    Keeps callbacks (statusCallbackProc t netif s) :=
  ⟨l, hi.goto ⟨hi.registered.symm, [], l, rfl, hi.chain, rfl⟩
    (fun c hc => by cases hc) (fun _ => ht)
    fun hk h₀ => absurd (ht.eq_zero hk) h₀⟩

theorem Inv.callNext {netif : Netif} {regs called : List Nat} {cur : Option Nat}
    (hi : Inv callbacks s l) (hpc : s.pc t = .calling netif regs cur called) :
    Keeps callbacks (callNext callbacks t netif regs cur called s) := by
  have ht : s.Holds t := hi.holds (by rw [hpc]; trivial)
  have hsound := hi.sound t
  rw [hpc] at hsound
  obtain ⟨hregs, before, rest, rfl, hrest, hcalled⟩ := hsound
  unfold NetifMgmt.callNext
  cases cur with
  | none =>
    exact ⟨_, hi.goto trivial (fun c hc => by cases hc) (fun _ => ht)
      fun hk h₀ => absurd (ht.eq_zero hk) h₀⟩
  | some node =>
    obtain ⟨cb, next, rest', rfl, hmem, hrest'⟩ := hrest.some
    simp only [hmem]
    refine ⟨_, hi.goto ⟨hregs, before ++ [(node, cb)], rest', by simp, hrest', ?_⟩
      (fun c hc => by cases hc) (fun _ => ht) fun hk h₀ => absurd (ht.eq_zero hk) h₀⟩
    rw [List.map_append, List.filter_append, ← hcalled, List.map_singleton, List.filter_singleton]
    by_cases hm : (callbacks cb).Matches netif <;> simp [hm]

theorem Inv.lists (hi : Inv callbacks s l) : Lists s := ⟨l, hi.chain, hi.registered⟩

theorem Inv.reports (hi : Inv callbacks s l) (t : Thread) : Reports callbacks s t := by
  intro netif regs called hpc
  have hsound := hi.sound t
  rw [hpc] at hsound
  obtain ⟨hregs, before, rest, rfl, hrest, hcalled⟩ := hsound
  obtain rfl := chain_none_iff.mp hrest
  rw [List.append_nil] at hregs
  rw [← hi.registered, List.append_nil]
  exact ⟨hregs, hcalled⟩

/-! ### Steps -/

/-- The kernel starts while the first thread is in no function. -/
theorem Inv.startKernel (hi : Inv callbacks s l) (hidle : s.pc 0 = .idle) :
    Inv callbacks { s with kernel := true } l := by
  refine ⟨hi.chain, hi.nodup, hi.registered, hi.sound, hi.pending, hi.pending_inj, fun {u} hu => ?_,
    fun hk => by cases hk⟩
  have hmutex : s.mutex = some u := by
    have h := hi.holds hu
    unfold Sys.Holds at h
    split_ifs at h with hk
    · exact h
    · rw [show s.pc u = .idle from h ▸ hidle] at hu
      exact hu.elim
  exact hmutex

/-- A node is allocated. -/
theorem Inv.add {cb node : Nat} (hi : Inv callbacks s l) (hrun : s.kernel ∨ t = 0)
    (hidle : s.pc t = .idle) (hfree : s.nodes node = none) : Inv callbacks
      ({ s with nodes := Function.update s.nodes node (some ⟨cb, none⟩) }.goto t (.adding cb node))
      l := by
  have hout := hi.chain.not_mem_of_none hfree
  have hkept : ∀ a ∈ l.map Prod.fst,
      Function.update s.nodes node (some ⟨cb, none⟩) a = s.nodes a :=
    fun a ha => Function.update_of_ne (fun he : a = node => hout (he ▸ ha)) _ _
  set s' := ({ s with nodes := Function.update s.nodes node (some ⟨cb, none⟩) } : Sys).goto t
    (.adding cb node)
  have hself : s'.pc t = .adding cb node := goto_pc_self
  have hother : ∀ {u}, u ≠ t → s'.pc u = s.pc u := fun hu => goto_pc_of_ne hu
  -- a node that another thread has allocated is another one
  have hpend : ∀ {u node' cb'}, (s'.pc u).pending = some (node', cb') →
      (u = t ∧ node' = node ∧ cb' = cb) ∨
        (u ≠ t ∧ node' ≠ node ∧ (s.pc u).pending = some (node', cb')) := by
    intro u node' cb' h
    by_cases hu : u = t
    · subst hu
      rw [hself] at h
      cases h
      exact .inl ⟨rfl, rfl, rfl⟩
    · rw [hother hu] at h
      refine .inr ⟨hu, ?_, h⟩
      rintro rfl
      rw [(hi.pending h).1] at hfree
      cases hfree
  refine ⟨hi.chain.congr hkept, hi.nodup, hi.registered, fun u => ?_, fun {u node' cb'} h => ?_,
    fun {u v node' cb' cb''} h h' => ?_, fun {u} h => ?_,
    fun hk => ⟨(hi.boot hk).1, fun u h₀ => ?_⟩⟩
  · by_cases hu : u = t
    · subst hu
      rw [hself]
      trivial
    · rw [hother hu]
      exact (hi.sound u).congr hkept
  · rcases hpend h with ⟨-, rfl, rfl⟩ | ⟨-, hne, h⟩
    · exact ⟨Function.update_self .., hout⟩
    · exact ⟨(Function.update_of_ne hne _ _).trans (hi.pending h).1, (hi.pending h).2⟩
  · rcases hpend h with ⟨rfl, rfl, -⟩ | ⟨-, hne, h⟩ <;>
      rcases hpend h' with ⟨rfl, heq, -⟩ | ⟨-, hne', h'⟩
    · rfl
    · exact absurd rfl hne'
    · exact absurd heq hne
    · exact hi.pending_inj h h'
  · by_cases hu : u = t
    · subst hu
      rw [hself] at h
      exact h.elim
    · rw [hother hu] at h
      exact hi.holds h
  · have hk' : s.kernel = false := hk
    rw [hk'] at hrun
    rw [hother (hrun.resolve_left (by decide) ▸ h₀)]
    exact (hi.boot hk).2 u h₀

theorem Inv.unlock (hi : Inv callbacks s l) (hpc : s.pc t = .unlocking) :
    Inv callbacks (unlock t s) l := by
  have ht : s.Holds t := hi.holds (by rw [hpc]; trivial)
  have hgoto : Inv callbacks (s.goto t .idle) l :=
    hi.goto trivial (fun c hc => by cases hc) (fun h => h.elim) fun _ _ => rfl
  refine ⟨hgoto.chain, hgoto.nodup, hgoto.registered, hgoto.sound, hgoto.pending,
    hgoto.pending_inj, fun {u} hu => ?_, fun hk => ⟨?_, (hgoto.boot hk).2⟩⟩
  · by_cases hut : u = t
    · subst hut
      rw [NetifMgmt.unlock, goto_pc_self] at hu
      exact hu.elim
    · rw [NetifMgmt.unlock, goto_pc_of_ne hut] at hu
      exact absurd hu (hi.alone ht hut)
  · show (if s.kernel then none else s.mutex) = none
    rw [if_neg (by rw [show s.kernel = false from hk]; decide)]
    exact (hi.boot hk).1

/-- A deletion that finds the list empty. -/
theorem Inv.delCall {cb : Nat} (hi : Inv callbacks s l) (hk : s.kernel) :
    Inv callbacks (delCall t cb s) l := by
  unfold NetifMgmt.delCall
  split_ifs with hnone
  · have hchain := hi.chain
    rw [hnone, chain_none_iff] at hchain
    subst hchain
    have hreg : s.registered.erase cb = s.registered := by
      rw [← hi.registered]
      rfl
    rw [hreg]
    exact hi
  · exact hi.goto trivial (fun c hc => by cases hc) (fun h => h.elim)
      fun hk' => by rw [hk] at hk'; cases hk'

theorem Inv.exec {step : Thread × Act} (hi : Inv callbacks s l) (hok : ¬ FindsEmpty s step) :
    Keeps callbacks (exec callbacks step s) := by
  obtain ⟨t, act⟩ := step
  cases act with
  | startKernel =>
    simp only [NetifMgmt.exec]
    split_ifs with h
    · obtain ⟨rfl, hidle⟩ := h
      exact ⟨l, hi.startKernel hidle⟩
    · trivial
  | add cb node =>
    simp only [NetifMgmt.exec]
    split_ifs with h
    · exact ⟨l, hi.add h.1 h.2.1 h.2.2⟩
    · trivial
  | del cb =>
    simp only [NetifMgmt.exec]
    split_ifs with h
    · exact ⟨l, hi.delCall h.1⟩
    · trivial
  | status netif =>
    simp only [NetifMgmt.exec]
    split_ifs with h
    · refine ⟨l, hi.goto trivial (fun c hc => by cases hc) (fun h => h.elim) fun hk => ?_⟩
      rw [h.1] at hk
      cases hk
    · trivial
  | next =>
    show Keeps callbacks (nextSection callbacks t (s.pc t) s)
    cases hpc : s.pc t with
    | idle => exact trivial
    | adding cb node =>
      rcases hi.locked (by rw [hpc]; exact fun h => by cases h) (NetifMgmt.addToList t cb node) with
        hw | ⟨s₁, heq, hi₁, ht, hpc₁, -, -⟩
      · rw [nextSection, hw]
        trivial
      · rw [nextSection, heq]
        exact hi₁.addToList ht (by rw [hpc₁, hpc])
    | walking cb node tmp => exact hi.walkList hpc
    | deleting cb =>
      rcases hi.locked (by rw [hpc]; exact fun h => by cases h) (NetifMgmt.delHead t cb) with
        hw | ⟨s₁, heq, hi₁, ht, -, hlist, hmutex⟩
      · rw [nextSection, hw]
        trivial
      · rw [nextSection, heq]
        exact hi₁.delHead ht fun hnone => hok ⟨⟨cb, rfl, hpc⟩, hlist.symm.trans hnone, hmutex⟩
    | searching cb prev cur => exact hi.delNext hpc
    | reporting netif =>
      rcases hi.locked (by rw [hpc]; exact fun h => by cases h)
        (NetifMgmt.statusCallbackProc t netif) with hw | ⟨s₁, heq, hi₁, ht, -, -, -⟩
      · rw [nextSection, hw]
        trivial
      · rw [nextSection, heq]
        exact hi₁.statusCallbackProc ht
    | calling netif before cur called => exact hi.callNext hpc
    | unlocking => exact ⟨l, hi.unlock hpc⟩

/-- A deletion that finds the list empty goes through the null pointer. -/
theorem exec_of_findsEmpty {step : Thread × Act} (h : FindsEmpty s step) :
    ∃ s', exec callbacks step s = .error .nullPointer s' := by
  obtain ⟨t, act⟩ := step
  obtain ⟨⟨cb, rfl, hpc⟩, hlist, hmutex⟩ := h
  have hnull : ∀ s₁ : Sys, s₁.list = none → delHead t cb s₁ = .error .nullPointer s₁ := by
    intro s₁ h₁
    simp only [delHead, h₁]
  have hpc' : s.pc t = .deleting cb := hpc
  simp only [NetifMgmt.exec, hpc', nextSection, NetifMgmt.locked, hmutex]
  cases s.kernel with
  | false => exact ⟨_, hnull s hlist⟩
  | true => exact ⟨_, hnull _ hlist⟩

theorem keepsRegistry_iff {step : Thread × Act} (hi : Inv callbacks s l) :
    ¬ FindsEmpty s step ↔ KeepsRegistry callbacks s step := by
  constructor
  · intro hok
    refine ⟨hi.lists, fun s' h => ?_, hi.reports _⟩
    have hkeeps := hi.exec hok
    rw [h] at hkeeps
    exact hkeeps
  · intro h hempty
    obtain ⟨s', hnull⟩ : ∃ s', exec callbacks step s = .error .nullPointer s' :=
      exec_of_findsEmpty hempty
    exact h.returns s' hnull

variable (callbacks)

/-- **When a run keeps the registry.** -/
theorem registry_kept_iff (steps : List (Thread × Act)) :
    Along (exec callbacks) (KeepsRegistry callbacks) steps start ↔
      Along (exec callbacks) (fun s step => ¬ FindsEmpty s step) steps start := by
  refine (along_iff_of_invariant (fun s => ∃ l, Inv callbacks s l)
    (fun s step ⟨l, hi⟩ => keepsRegistry_iff hi) (fun s step _ s' ⟨l, hi⟩ hok h => ?_)
    ⟨[], inv_start⟩).symm
  have hkeeps := hi.exec hok
  rw [h] at hkeeps
  exact hkeeps

/-- A callback is registered and the kernel starts; two threads delete the callback, and both find
the list not empty.  The second has the mutex when the list is empty. -/
theorem not_registry_kept : ¬ ∀ steps : List (Thread × Act),
    Along (exec fun _ => ⟨[], 0, 1⟩) (KeepsRegistry fun _ => ⟨[], 0, 1⟩) steps start := by
  intro h
  have hlast := Along.of_append (h ([(0, .add 5 0), (0, .next), (0, .next), (0, .startKernel),
    (1, .del 5), (2, .del 5), (1, .next), (1, .next)] ++ [(2, .next)])) rfl
  exact hlast.1.returns _ rfl

end Registry

end XY1100.NetifMgmt
