import CMinusMinus.Outcome

/-!
# Sequencing of passes

What a sequence of steps says about its parts.  A step that may fail came to its end exactly if
both parts did (`bind_eq_ok`).  A pass is *silent* if it came to its end and reported nothing;
`silent_andThen` and `silent_map` take a silent pass over a node apart into silent passes over
its parts.
-/

namespace CMinusMinus

theorem bind_eq_ok {ε α β : Type} {x : Except ε α} {f : α → Except ε β} {b : β} :
    x >>= f = .ok b ↔ ∃ a, x = .ok a ∧ f a = .ok b := by
  cases x with
  | error e =>
    constructor
    · intro h
      cases h
    · rintro ⟨a, h, _⟩
      cases h
  | ok a =>
    constructor
    · intro h
      exact ⟨a, rfl, h⟩
    · rintro ⟨a', h, hf⟩
      cases h
      exact hf

/-- A sequence comes to its end if both parts do. -/
theorem exists_bind {ε α β : Type} {x : Except ε α} {f : α → Except ε β} {a : α}
    (hx : x = .ok a) (hf : ∃ b, f a = .ok b) : ∃ b, x >>= f = .ok b := by
  rw [hx]
  exact hf

theorem exists_of_isOk {ε α : Type} {x : Except ε α} (h : x.isOk = true) : ∃ a, x = .ok a := by
  cases x with
  | error e => cases h
  | ok a => exact ⟨a, rfl⟩

namespace Outcome

variable {ρ φ α β : Type}

@[simp] theorem fault_pure (a : α) : (pure a : Outcome ρ φ α).fault = none := rfl

@[simp] theorem value_pure (a : α) : (pure a : Outcome ρ φ α).value = a := rfl

@[simp] theorem reports_pure (a : α) : (pure a : Outcome ρ φ α).reports = [] := rfl

@[simp] theorem fault_reporting (a : α) (rs : List ρ) :
    (reporting a rs : Outcome ρ φ α).fault = none := rfl

@[simp] theorem value_reporting (a : α) (rs : List ρ) :
    (reporting a rs : Outcome ρ φ α).value = a := rfl

@[simp] theorem reports_reporting (a : α) (rs : List ρ) :
    (reporting a rs : Outcome ρ φ α).reports = rs := rfl

@[simp] theorem fault_stop (a : α) (fault : φ) :
    (stop a fault : Outcome ρ φ α).fault = some fault := rfl

/-- A sequence came to its end exactly if both parts did. -/
theorem fault_andThen {o : Outcome ρ φ α} {stopped : α → β} {next : α → Outcome ρ φ β} :
    (o.andThen stopped next).fault = none ↔ o.fault = none ∧ (next o.value).fault = none := by
  unfold andThen
  cases h : o.fault <;> simp

/-- What a sequence leaves after its first part came to its end. -/
theorem value_andThen {o : Outcome ρ φ α} (h : o.fault = none) (stopped : α → β)
    (next : α → Outcome ρ φ β) : (o.andThen stopped next).value = (next o.value).value := by
  rw [andThen_of_fault_none h]

/-- What a sequence reports whose first part came to its end. -/
theorem reports_andThen {o : Outcome ρ φ α} (h : o.fault = none) (stopped : α → β)
    (next : α → Outcome ρ φ β) :
    (o.andThen stopped next).reports = o.reports ++ (next o.value).reports := by
  rw [andThen_of_fault_none h]

theorem map_andThen {γ : Type} (o : Outcome ρ φ α) (f : α → β) (stopped : β → γ)
    (next : β → Outcome ρ φ γ) :
    (o.map f).andThen stopped next = o.andThen (fun a => stopped (f a)) fun a => next (f a) := by
  unfold andThen
  rw [fault_map]
  rfl

theorem andThen_assoc {γ : Type} (o : Outcome ρ φ α) (stopped : α → β)
    (next : α → Outcome ρ φ β) (stopped' : β → γ) (next' : β → Outcome ρ φ γ) :
    (o.andThen stopped next).andThen stopped' next' =
      o.andThen (fun a => stopped' (stopped a)) fun a => (next a).andThen stopped' next' := by
  unfold andThen
  cases o.fault with
  | some fault => rfl
  | none =>
    dsimp only
    cases (next o.value).fault with
    | some fault => rfl
    | none => simp only [List.append_assoc]

/-! ## Passes that agree -/

/-- Two passes stop alike and report the same, and leave the same if they come to their end. -/
structure Agree (o o' : Outcome ρ φ α) : Prop where
  fault : o.fault = o'.fault
  reports : o.reports = o'.reports
  value : o.fault = none → o.value = o'.value

namespace Agree

variable {o o' : Outcome ρ φ α}

theorem refl (o : Outcome ρ φ α) : Agree o o := ⟨rfl, rfl, fun _ => rfl⟩

theorem of_eq (h : o = o') : Agree o o' := h ▸ refl o

/-- Passes that agree are the same if one comes to its end. -/
theorem eq (h : Agree o o') (hfault : o.fault = none) : o = o' := by
  obtain ⟨value, reports, fault⟩ := o
  obtain ⟨value', reports', fault'⟩ := o'
  cases h.fault
  cases h.reports
  cases h.value hfault
  rfl

theorem map (h : Agree o o') (f : α → β) : Agree (o.map f) (o'.map f) :=
  ⟨h.fault, h.reports, fun hfault => congrArg f (h.value hfault)⟩

theorem andThen (h : Agree o o') {stopped stopped' : α → β} {next next' : α → Outcome ρ φ β}
    (hnext : Agree (next o.value) (next' o.value)) :
    Agree (o.andThen stopped next) (o'.andThen stopped' next') := by
  cases hfault : o.fault with
  | none =>
    cases h.eq hfault
    rw [andThen_of_fault_none hfault, andThen_of_fault_none hfault]
    exact ⟨hnext.fault, congrArg (o.reports ++ ·) hnext.reports, hnext.value⟩
  | some fault =>
    have hfault' := h.fault.symm.trans hfault
    unfold Outcome.andThen
    rw [hfault, hfault']
    exact ⟨rfl, h.reports, nofun⟩

end Agree

/-! ## Silent passes -/

/-- A pass that came to its end and reported nothing. -/
structure Silent (o : Outcome ρ φ α) : Prop where
  fault : o.fault = none
  reports : o.reports = []

@[simp] theorem silent_pure (a : α) : (pure a : Outcome ρ φ α).Silent := ⟨rfl, rfl⟩

@[simp] theorem silent_reporting {a : α} {rs : List ρ} :
    (reporting a rs : Outcome ρ φ α).Silent ↔ rs = [] :=
  ⟨fun h => h.reports, fun h => ⟨rfl, h⟩⟩

@[simp] theorem not_silent_stop (a : α) (fault : φ) :
    ¬ (stop a fault : Outcome ρ φ α).Silent := by
  intro h
  cases h.fault

@[simp] theorem silent_map {f : α → β} {o : Outcome ρ φ α} : (o.map f).Silent ↔ o.Silent :=
  ⟨fun h => ⟨h.fault, h.reports⟩, fun h => ⟨h.fault, h.reports⟩⟩

theorem silent_andThen {o : Outcome ρ φ α} {stopped : α → β} {next : α → Outcome ρ φ β} :
    (o.andThen stopped next).Silent ↔ o.Silent ∧ (next o.value).Silent := by
  constructor
  · intro h
    obtain ⟨ho, hn⟩ := fault_andThen.mp h.fault
    have hr := h.reports
    rw [andThen_of_fault_none ho, List.append_eq_nil_iff] at hr
    exact ⟨⟨ho, hr.1⟩, hn, hr.2⟩
  · rintro ⟨ho, hn⟩
    refine ⟨fault_andThen.mpr ⟨ho.fault, hn.fault⟩, ?_⟩
    rw [andThen_of_fault_none ho.fault, List.append_eq_nil_iff]
    exact ⟨ho.reports, hn.reports⟩

end Outcome

end CMinusMinus
