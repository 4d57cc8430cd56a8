import Mathlib.Tactic

/-!
# Support — calls on a machine that may stop

A call takes a state and either returns a result in a new state or stops the machine in one
(`EStateM`).  A run is a list of calls made one after the other, each returning
(`List.mapM`).

* `mapM_invariant`: what every call that returns preserves, every run that returns preserves.
* `mapM_simulates`: calls that each answer as a specification does, from related states, answer
  as it does over a run.  The calls need only do so where a condition on the state before the
  call holds; `Along` says that it holds at every call of the run.
-/

namespace Support

variable {ε σ ι ο α : Type}

/-! ### One call after another -/

theorem bind_ok {β : Type} {x : EStateM ε σ α} {f : α → EStateM ε σ β} {s s' : σ} {a : α}
    (h : x s = .ok a s') : (x >>= f) s = f a s' := by
  show EStateM.bind x f s = _
  simp only [EStateM.bind, h]

theorem bind_error {β : Type} {x : EStateM ε σ α} {f : α → EStateM ε σ β} {s s' : σ} {e : ε}
    (h : x s = .error e s') : (x >>= f) s = .error e s' := by
  show EStateM.bind x f s = _
  simp only [EStateM.bind, h]

/-- Two first computations that end alike in a state. -/
theorem bind_congr_at {β : Type} {x y : EStateM ε σ α} {f : α → EStateM ε σ β} {s : σ}
    (h : x s = y s) : (x >>= f) s = (y >>= f) s := by
  show EStateM.bind x f s = EStateM.bind y f s
  simp only [EStateM.bind, h]

/-- A sequence of two computations returns only through a return of the first. -/
theorem bind_eq_ok {β : Type} {x : EStateM ε σ α} {f : α → EStateM ε σ β} {s s' : σ} {b : β}
    (h : (x >>= f) s = .ok b s') : ∃ a t, x s = .ok a t ∧ f a t = .ok b s' := by
  rcases hx : x s with ⟨a, t⟩ | ⟨e, t⟩
  · exact ⟨a, t, rfl, by rwa [bind_ok hx] at h⟩
  · rw [bind_error hx] at h; cases h

theorem map_ok {β : Type} {x : EStateM ε σ α} {g : α → β} {s s' : σ} {a : α}
    (h : x s = .ok a s') : (g <$> x) s = .ok (g a) s' := by
  show EStateM.map g x s = _
  simp only [EStateM.map, h]

theorem map_eq_ok {β : Type} {x : EStateM ε σ α} {g : α → β} {s s' : σ} {b : β}
    (h : (g <$> x) s = .ok b s') : ∃ a, x s = .ok a s' ∧ b = g a := by
  have h' : EStateM.map g x s = .ok b s' := h
  rcases hx : x s with ⟨a, t⟩ | ⟨e, t⟩ <;> simp only [EStateM.map, hx] at h'
  · cases h'; exact ⟨a, rfl, rfl⟩
  · cases h'

theorem mapM_nil (f : ι → EStateM ε σ ο) (s : σ) : ([] : List ι).mapM f s = .ok [] s := rfl

theorem mapM_cons_ok {f : ι → EStateM ε σ ο} {i : ι} {is : List ι} {s s₁ s' : σ} {o : ο}
    {os : List ο} (h : f i s = .ok o s₁) (h' : is.mapM f s₁ = .ok os s') :
    (i :: is).mapM f s = .ok (o :: os) s' := by
  rw [List.mapM_cons, bind_ok h, bind_ok h']
  rfl

/-- The first call of a run that returns. -/
theorem mapM_cons_inv {f : ι → EStateM ε σ ο} {i : ι} {is : List ι} {s s' : σ} {os : List ο}
    (h : (i :: is).mapM f s = .ok os s') :
    ∃ o os' s₁, os = o :: os' ∧ f i s = .ok o s₁ ∧ is.mapM f s₁ = .ok os' s' := by
  rw [List.mapM_cons] at h
  obtain ⟨o, s₁, h₁, h⟩ := bind_eq_ok h
  obtain ⟨os', s₂, h₂, h⟩ := bind_eq_ok h
  cases h
  exact ⟨o, os', s₁, rfl, h₁, h₂⟩

/-- The state a computation returned or stopped in. -/
def finalState : EStateM.Result ε σ α → σ
  | .ok _ s => s
  | .error _ s => s

/-- The computation returned, in a state with a property. -/
def returnsIn (p : σ → Bool) : EStateM.Result ε σ α → Bool
  | .ok _ s => p s
  | .error _ _ => false

theorem exists_of_returnsIn {p : σ → Bool} {r : EStateM.Result ε σ α} (h : returnsIn p r = true) :
    ∃ a s, r = .ok a s ∧ p s = true := by
  cases r with
  | ok a s => exact ⟨a, s, rfl, h⟩
  | error e s => cases h

/-! ### Runs -/

/-- `Ok` holds of every call of the run and of the state it is made in. -/
def Along (f : ι → EStateM ε σ ο) (Ok : σ → ι → Prop) : List ι → σ → Prop
  | [], _ => True
  | i :: is, s => Ok s i ∧ ∀ o s', f i s = .ok o s' → Along f Ok is s'

theorem along_true {f : ι → EStateM ε σ ο} :
    ∀ (is : List ι) (s : σ), Along f (fun _ _ => True) is s
  | [], _ => trivial
  | _ :: is, _ => ⟨trivial, fun _ s' _ => along_true is s'⟩

theorem Along.mono {f : ι → EStateM ε σ ο} {Ok Ok' : σ → ι → Prop} (h : ∀ s i, Ok s i → Ok' s i) :
    ∀ {is : List ι} {s : σ}, Along f Ok is s → Along f Ok' is s
  | [], _, _ => trivial
  | i :: _, s, ha => ⟨h s i ha.1, fun o s' hs => Along.mono h (ha.2 o s' hs)⟩

/-- A call that returns, before a run that the property holds along. -/
theorem Along.cons {f : ι → EStateM ε σ ο} {Ok : σ → ι → Prop} {i : ι} {is : List ι} {s s' : σ}
    {o : ο} (hok : Ok s i) (h : f i s = .ok o s') (ha : Along f Ok is s') :
    Along f Ok (i :: is) s := by
  refine ⟨hok, ?_⟩
  intro o₁ s₁ h₁
  rw [h] at h₁
  cases h₁
  exact ha

/-- A run can be checked call by call. -/
instance Along.decidable {f : ι → EStateM ε σ ο} {Ok : σ → ι → Prop} [∀ s i, Decidable (Ok s i)] :
    ∀ (is : List ι) (s : σ), Decidable (Along f Ok is s)
  | [], _ => isTrue trivial
  | i :: is, s =>
      match h : f i s with
      | .ok o s' =>
          have : Decidable (Along f Ok is s') := Along.decidable is s'
          decidable_of_iff (Ok s i ∧ Along f Ok is s')
            ⟨fun ha => Along.cons ha.1 h ha.2, fun ha => ⟨ha.1, ha.2 o s' h⟩⟩
      | .error e s' =>
          decidable_of_iff (Ok s i)
            ⟨fun hok => ⟨hok, fun o s₁ hs => by rw [h] at hs; cases hs⟩, And.left⟩

/-- What holds along a run holds along its rest, after a first part that returns. -/
theorem Along.of_append {f : ι → EStateM ε σ ο} {Ok : σ → ι → Prop} {js : List ι} :
    ∀ {is : List ι} {s s' : σ} {os : List ο}, Along f Ok (is ++ js) s →
      is.mapM f s = .ok os s' → Along f Ok js s'
  | [], _, _, _, ha, h => by cases h; exact ha
  | i :: is, s, s', os, ha, h => by
      obtain ⟨o, os', s₁, -, h₁, h₂⟩ := mapM_cons_inv h
      exact Along.of_append (ha.2 o s₁ h₁) h₂

/-- An invariant carries a property of single calls along a run. -/
theorem Along.of_invariant {f : ι → EStateM ε σ ο} (Inv : σ → Prop) {Ok Good : σ → ι → Prop}
    (step : ∀ s i, Inv s → Ok s i → Good s i ∧ ∀ o s', f i s = .ok o s' → Inv s') :
    ∀ {is : List ι} {s : σ}, Inv s → Along f Ok is s → Along f Good is s
  | [], _, _, _ => trivial
  | i :: _, s, hi, ha => ⟨(step s i hi ha.1).1, fun o s' hs =>
      Along.of_invariant Inv step ((step s i hi ha.1).2 o s' hs) (ha.2 o s' hs)⟩

/-- An invariant under which two properties of single calls are equivalent makes them equivalent
along runs. -/
theorem along_iff_of_invariant {f : ι → EStateM ε σ ο} (Inv : σ → Prop) {Ok Good : σ → ι → Prop}
    (iff : ∀ s i, Inv s → (Ok s i ↔ Good s i))
    (step : ∀ s i o s', Inv s → Ok s i → f i s = .ok o s' → Inv s') :
    ∀ {is : List ι} {s : σ}, Inv s → (Along f Ok is s ↔ Along f Good is s) := by
  intro is
  induction is with
  | nil => exact fun _ => Iff.rfl
  | cons i is ih =>
    intro s hi
    constructor
    · rintro ⟨hok, ha⟩
      exact ⟨(iff s i hi).mp hok, fun o s' h => (ih (step s i o s' hi hok h)).mp (ha o s' h)⟩
    · rintro ⟨hgood, ha⟩
      have hok := (iff s i hi).mpr hgood
      exact ⟨hok, fun o s' h => (ih (step s i o s' hi hok h)).mpr (ha o s' h)⟩

/-- **Invariants of runs.** -/
theorem mapM_invariant {f : ι → EStateM ε σ ο} (Inv : σ → Prop) {Ok : σ → ι → Prop}
    (step : ∀ s i o s', Inv s → Ok s i → f i s = .ok o s' → Inv s') :
    ∀ {is : List ι} {s s' : σ} {os : List ο}, Inv s → Along f Ok is s →
      is.mapM f s = .ok os s' → Inv s'
  | [], _, _, _, hi, _, h => by cases h; exact hi
  | i :: is, s, s', os, hi, ha, h => by
      obtain ⟨o, os', s₁, -, h₁, h₂⟩ := mapM_cons_inv h
      exact mapM_invariant Inv step (step s i o s₁ hi ha.1 h₁) (ha.2 o s₁ h₁) h₂

/-- A machine whose returning calls are those of another on a part of its state has its runs. -/
theorem mapM_projects {κ τ : Type} {f : ι → EStateM ε σ ο} {g : κ → EStateM ε τ ο} {p : σ → τ}
    {q : ι → κ} (step : ∀ s i o s', f i s = .ok o s' → g (q i) (p s) = .ok o (p s')) :
    ∀ {is : List ι} {s s' : σ} {os : List ο}, is.mapM f s = .ok os s' →
      (is.map q).mapM g (p s) = .ok os (p s')
  | [], _, _, _, h => by cases h; rfl
  | i :: is, s, s', os, h => by
      obtain ⟨o, os', s₁, rfl, h₁, h₂⟩ := mapM_cons_inv h
      exact mapM_cons_ok (step s i o s₁ h₁) (mapM_projects step h₂)

/-- The answers of a specification to a list of calls, and the state it ends in. -/
def specRun (spec : α → ι → ο × α) : α → List ι → List ο × α
  | a, [] => ([], a)
  | a, i :: is =>
      let r := specRun spec (spec a i).2 is
      ((spec a i).1 :: r.1, r.2)

/-- **Simulation over runs.**  The machine answers every call as the specification does. -/
theorem mapM_simulates {f : ι → EStateM ε σ ο} {spec : α → ι → ο × α} {R : σ → α → Prop}
    {Ok : σ → ι → Prop}
    (step : ∀ s a i, R s a → Ok s i → ∃ s', f i s = .ok (spec a i).1 s' ∧ R s' (spec a i).2) :
    ∀ {is : List ι} {s : σ} {a : α}, R s a → Along f Ok is s →
      ∃ s', is.mapM f s = .ok (specRun spec a is).1 s' ∧ R s' (specRun spec a is).2
  | [], s, _, hR, _ => ⟨s, rfl, hR⟩
  | i :: is, s, a, hR, ha => by
      obtain ⟨s₁, h₁, hR₁⟩ := step s a i hR ha.1
      obtain ⟨s', h₂, hR'⟩ := mapM_simulates step hR₁ (ha.2 _ _ h₁)
      exact ⟨s', mapM_cons_ok h₁ h₂, hR'⟩

end Support
