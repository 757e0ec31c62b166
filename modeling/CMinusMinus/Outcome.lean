/-!
# Outcomes of passes

A pass over a tree leaves the tree annotated as far as it came, the reports it made, and the
fault that stopped it, if one did.  Passes over the parts of a node are put together with
`andThen`: where the first part stopped, the second is left as it was.
-/

namespace CMinusMinus

/-- What a pass leaves, with reports of type `ρ` and faults of type `φ`. -/
structure Outcome (ρ φ α : Type) where
  value : α
  reports : List ρ := []
  fault : Option φ := none

namespace Outcome

variable {ρ φ α β : Type}

/-- Nothing to report. -/
def pure (a : α) : Outcome ρ φ α := { value := a }

/-- A value with reports. -/
def reporting (a : α) (reports : List ρ) : Outcome ρ φ α := { value := a, reports }

/-- A stop at a fault. -/
def stop (a : α) (fault : φ) : Outcome ρ φ α := { value := a, fault := some fault }

/-- The same outcome for a larger part of the tree. -/
def map (f : α → β) (o : Outcome ρ φ α) : Outcome ρ φ β :=
  { value := f o.value, reports := o.reports, fault := o.fault }

/-- One pass after another.  If the first stopped, `stopped` says what is left. -/
def andThen (o : Outcome ρ φ α) (stopped : α → β) (next : α → Outcome ρ φ β) : Outcome ρ φ β :=
  match o.fault with
  | some fault => { value := stopped o.value, reports := o.reports, fault := some fault }
  | none =>
    let o' := next o.value
    { value := o'.value, reports := o.reports ++ o'.reports, fault := o'.fault }

@[simp] theorem map_pure (f : α → β) (a : α) :
    (pure a : Outcome ρ φ α).map f = pure (f a) := rfl

@[simp] theorem pure_andThen (a : α) (stopped : α → β) (next : α → Outcome ρ φ β) :
    (pure a : Outcome ρ φ α).andThen stopped next = next a := by
  simp [pure, andThen]

@[simp] theorem fault_map (f : α → β) (o : Outcome ρ φ α) : (o.map f).fault = o.fault := rfl

@[simp] theorem reports_map (f : α → β) (o : Outcome ρ φ α) :
    (o.map f).reports = o.reports := rfl

@[simp] theorem value_map (f : α → β) (o : Outcome ρ φ α) : (o.map f).value = f o.value := rfl

/-- After a pass that came through, the next one decides. -/
theorem andThen_of_fault_none {o : Outcome ρ φ α} (h : o.fault = none) (stopped : α → β)
    (next : α → Outcome ρ φ β) :
    o.andThen stopped next =
      { value := (next o.value).value, reports := o.reports ++ (next o.value).reports,
        fault := (next o.value).fault } := by
  simp [andThen, h]

end Outcome

end CMinusMinus
