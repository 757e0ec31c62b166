import CMinusMinus.Proofs.Machine.Observing
import CMinusMinus.Proofs.Meaning.Interpretation

/-!
# Courses of the machine

The machine *meets* the course of a piece of a program if it does what the course says: it comes to
a state as the piece asks for where the course leads on, and it ends as the course does, with the
same to be seen (`Course.Meets`).  Where the fuel ran out it goes on for as many steps as there was
fuel, so with more fuel every state of the machine is passed by.  Where the course is undefined
nothing is asked of the machine.

Courses are put together like the pieces of code that they are of (`Course.Meets.andThen`).
-/

namespace CMinusMinus

open Machine

/-! ## Ends -/

namespace Machine

/-- The machine comes to such an end from the state, with so much to be seen.  If that is for lack
of fuel, it has not come to an end at all, but made so many steps. -/
def Ends (items : List Item) (n : Nat) (s : State) : Halt → List Event → Prop
  | .exited, events => ∃ s', Reaches items s s' ∧ Halted items s' ∧ s'.events = events
  | .stuck, events => ∃ s', Reaches items s s' ∧ Stuck items s' ∧ s'.events = events
  | .cut, events => ∃ m s', n ≤ m ∧ run? items m s = some s' ∧ s'.events = events

variable {items : List Item} {n : Nat} {s s' : State} {h : Halt} {events : List Event}

theorem Ends.of_reaches (hreaches : Reaches items s s') (hends : Ends items n s' h events) :
    Ends items n s h events := by
  cases h with
  | exited | stuck =>
    obtain ⟨s'', hrest, hend⟩ := hends
    exact ⟨s'', hreaches.trans hrest, hend⟩
  | cut =>
    obtain ⟨k, hk⟩ := hreaches.exists_run?
    obtain ⟨m, s'', hm, hrest, hevents⟩ := hends
    refine ⟨k + m, s'', by omega, ?_, hevents⟩
    rw [run?_add, hk, Option.bind_some, hrest]

theorem Ends.of_step (hstep : step? items s = some s') (hends : Ends items n s' h events) :
    Ends items (n + 1) s h events := by
  cases h with
  | exited | stuck => exact hends.of_reaches (.single hstep)
  | cut =>
    obtain ⟨m, s'', hm, hrest, hevents⟩ := hends
    refine ⟨m + 1, s'', by omega, ?_, hevents⟩
    rw [run?, hstep, Option.bind_some, hrest]

theorem Ends.of_le {m : Nat} (hle : m ≤ n) (hends : Ends items n s h events) :
    Ends items m s h events := by
  cases h with
  | exited | stuck => exact hends
  | cut =>
    obtain ⟨k, s', hk, hrun⟩ := hends
    exact ⟨k, s', Nat.le_trans hle hk, hrun⟩

theorem Ends.shows (hends : Ends items n s h events) : Shows items s events := by
  cases h with
  | exited | stuck =>
    obtain ⟨s', hreaches, -, hevents⟩ := hends
    exact ⟨s', hreaches, hevents⟩
  | cut =>
    obtain ⟨m, s', -, hrun, hevents⟩ := hends
    exact ⟨s', reaches_of_run? hrun, hevents⟩

/-- What is to be seen after no more steps than there was fuel is a beginning of what is to be seen
in the end. -/
theorem Ends.isPrefix {k : Nat} (hends : Ends items n s h events)
    (hrun : run? items k s = some s') (hle : k ≤ n) : s'.events <+: events := by
  have hreaches := reaches_of_run? hrun
  cases h with
  | exited =>
    obtain ⟨t, ht, hhalted, rfl⟩ := hends
    exact (hreaches.of_last ht hhalted.step?).isPrefix
  | stuck =>
    obtain ⟨t, ht, hstuck, rfl⟩ := hends
    exact (hreaches.of_last ht hstuck.1).isPrefix
  | cut =>
    obtain ⟨m, t, hm, ht, rfl⟩ := hends
    exact (Reaches.of_run? hrun ht (Nat.le_trans hle hm)).isPrefix

/-- If there was enough fuel for the steps to a state without a next one, that is the end. -/
theorem Ends.eq_of_last {k : Nat} (hends : Ends items n s h events)
    (hrun : run? items k s = some s') (hlast : step? items s' = none) (hlt : k < n) :
    s'.events = events ∧ (h = .exited ∧ Halted items s' ∨ h = .stuck ∧ Stuck items s') := by
  have hreaches := reaches_of_run? hrun
  cases h with
  | exited =>
    obtain ⟨t, ht, hhalted, rfl⟩ := hends
    cases hreaches.last_unique ht hlast hhalted.step?
    exact ⟨rfl, .inl ⟨rfl, hhalted⟩⟩
  | stuck =>
    obtain ⟨t, ht, hstuck, rfl⟩ := hends
    cases hreaches.last_unique ht hlast hstuck.1
    exact ⟨rfl, .inr ⟨rfl, hstuck⟩⟩
  | cut =>
    obtain ⟨m, t, hm, ht, -⟩ := hends
    obtain ⟨j, rfl⟩ := Nat.exists_eq_add_of_lt (Nat.lt_of_lt_of_le hlt hm)
    rw [Nat.add_assoc, run?_add, hrun, Option.bind_some, run?, hlast] at ht
    cases ht

/-! ## Machines that do the same -/

/-- The same is to be seen of the two machines, and they come to the same ends or to none. -/
structure Alike (items items' : List Item) (s s' : State) : Prop where
  shows : ∀ events, Shows items s events ↔ Shows items' s' events
  exits : ∀ events, (∃ t, Reaches items s t ∧ Halted items t ∧ t.events = events) ↔
    ∃ t, Reaches items' s' t ∧ Halted items' t ∧ t.events = events
  stuck : ∀ events, (∃ t, Reaches items s t ∧ Stuck items t ∧ t.events = events) ↔
    ∃ t, Reaches items' s' t ∧ Stuck items' t ∧ t.events = events

/-- However much fuel there is, the two machines end in one way, and nothing was to be seen of them
before. -/
structure Together (items items' : List Item) (s s' : State) : Prop where
  start : s.events = []
  start' : s'.events = []
  ends : ∀ n, ∃ h events, Ends items n s h events ∧ Ends items' n s' h events

namespace Together

variable {items' : List Item}

theorem symm (ht : Together items items' s s') : Together items' items s' s where
  start := ht.start'
  start' := ht.start
  ends n := by
    obtain ⟨h, events, hends, hends'⟩ := ht.ends n
    exact ⟨h, events, hends', hends⟩

theorem shows (ht : Together items items' s s') (hs : Shows items s events) :
    Shows items' s' events := by
  obtain ⟨t, hreaches, rfl⟩ := hs
  obtain ⟨k, hk⟩ := hreaches.exists_run?
  obtain ⟨h, events, hends, hends'⟩ := ht.ends k
  obtain ⟨t', hreaches', rfl⟩ := hends'.shows
  exact hreaches'.shows (ht.start' ▸ List.nil_prefix) (hends.isPrefix hk (Nat.le_refl k))

theorem exits (ht : Together items items' s s') (hends : Ends items n s .exited events) :
    Ends items' n s' .exited events := by
  obtain ⟨t, hreaches, hhalted, rfl⟩ := hends
  obtain ⟨k, hk⟩ := hreaches.exists_run?
  obtain ⟨h, events, hends, hends'⟩ := ht.ends (k + 1)
  obtain ⟨rfl, ⟨rfl, -⟩ | ⟨-, hstuck⟩⟩ := hends.eq_of_last hk hhalted.step? (Nat.lt_succ_self k)
  · exact hends'
  · exact absurd hhalted hstuck.2

theorem stuck (ht : Together items items' s s') (hends : Ends items n s .stuck events) :
    Ends items' n s' .stuck events := by
  obtain ⟨t, hreaches, hstuck, rfl⟩ := hends
  obtain ⟨k, hk⟩ := hreaches.exists_run?
  obtain ⟨h, events, hends, hends'⟩ := ht.ends (k + 1)
  obtain ⟨rfl, ⟨-, hhalted⟩ | ⟨rfl, -⟩⟩ := hends.eq_of_last hk hstuck.1 (Nat.lt_succ_self k)
  · exact absurd hhalted hstuck.2
  · exact hends'

theorem alike (ht : Together items items' s s') : Alike items items' s s' where
  shows _ := ⟨ht.shows, ht.symm.shows⟩
  exits _ := ⟨ht.exits (n := 0), ht.symm.exits (n := 0)⟩
  stuck _ := ⟨ht.stuck (n := 0), ht.symm.stuck (n := 0)⟩

end Together

end Machine

/-! ## Courses -/

namespace Course

variable {α β : Type} {items : List Item} {m n : Nat} {s s' : State}
  {post : α → Situation → Prop}

/-- From the state the machine does what the course says. -/
def Meets (items : List Item) (n : Nat) (s : State) (post : α → Situation → Prop)
    (c : Course α) : Prop :=
  match c with
  | done a σ => post a σ
  | halted h events => Ends items n s h events
  | undefined => True

variable {c : Course α}

theorem Meets.andThen {post' : β → Situation → Prop} {f : α → Situation → Course β}
    (h : c.Meets items n s post) (hf : ∀ a σ, post a σ → (f a σ).Meets items n s post') :
    (c.andThen f).Meets items n s post' := by
  cases c with
  | done a σ => exact hf a σ h
  | halted | undefined => exact h

theorem Meets.imp {post' : α → Situation → Prop} (h : c.Meets items n s post)
    (hpost : ∀ a σ, post a σ → post' a σ) : c.Meets items n s post' := by
  cases c with
  | done a σ => exact hpost a σ h
  | halted | undefined => exact h

theorem Meets.word {c : Course Value} {post : Value → Situation → Prop}
    (h : c.Meets items n s post) : c.word.Meets items n s fun w σ => post (.word w) σ := by
  refine h.andThen fun v σ hv => ?_
  cases v with
  | word w => exact hv
  | text => exact trivial

theorem Meets.of_reaches (hreaches : Reaches items s s') (h : c.Meets items n s' post) :
    c.Meets items n s post := by
  cases c with
  | done | undefined => exact h
  | halted => exact Ends.of_reaches hreaches h

theorem Meets.of_step (hstep : step? items s = some s') (h : c.Meets items n s' post) :
    c.Meets items (n + 1) s post := by
  cases c with
  | done | undefined => exact h
  | halted => exact Ends.of_step hstep h

theorem Meets.of_le (hle : m ≤ n) (h : c.Meets items n s post) : c.Meets items m s post := by
  cases c with
  | done | undefined => exact h
  | halted => exact Ends.of_le hle h

end Course

end CMinusMinus
