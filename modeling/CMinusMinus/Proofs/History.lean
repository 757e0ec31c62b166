import CMinusMinus.Scopes
import Mathlib

/-!
# Histories of scopes

Operations on the stack of open scopes, one after another, beginning with no scope open.  An
operation with its answer is a *record*, and the records so far are the *history* of the scopes.

What an operation has to answer can be told from the history, without the scopes themselves
(`Answers`).  A scope is open if it was entered and, ever since, no more scopes were exited than
were entered (`Open`).  It is known by what happened since it was entered, so the innermost open
scope is the one with the shortest past and the outermost the one with the longest.  A declaration
belongs to the scope if as many scopes were entered as were exited between its entry and the
declaration (`successes`).

An operation that is refused is in the history as well, but neither enters or exits a scope nor
declares anything.
-/

namespace CMinusMinus.Scopes

/-! ## Operations -/

/-- The operations on the open scopes. -/
inductive Operation (σ : Type) where
  | enter
  | exit
  | declare (name : String) (x : σ)
  | resolveLocal (name : String)
  | resolveLexical (name : String)
  | resolveGlobal (name : String)
  | items

/-- What operations return. -/
inductive Reply (σ : Type) where
  | entered
  | scope (declarations : Scope σ)
  | declared (d : Declared)
  | found (x : Option σ)

/-- An operation with its answer. -/
abbrev Record (σ : Type) := Operation σ × Except Fault (Reply σ)

/-- The operations so far with their answers. -/
abbrev History (σ : Type) := List (Record σ)

variable {σ : Type}

/-- What an operation returns, and the scopes that are open after it. -/
def perform (s : Scopes σ) : Operation σ → Except Fault (Reply σ × Scopes σ)
  | .enter => .ok (.entered, s.enter)
  | .exit => s.exit.map fun (scope, outer) => (.scope scope, outer)
  | .declare name x => (s.declare name x).map fun (d, s) => (.declared d, s)
  | .resolveLocal name => (s.resolveLocal name).map fun x => (.found x, s)
  | .resolveLexical name => (s.resolveLexical name).map fun x => (.found x, s)
  | .resolveGlobal name => (s.resolveGlobal name).map fun x => (.found x, s)
  | .items => s.items.map fun scope => (.scope scope, s)

/-- The answer to an operation. -/
def answer (s : Scopes σ) (op : Operation σ) : Except Fault (Reply σ) := (s.perform op).map (·.1)

/-- The open scopes after an operation.  One that is refused leaves them as they are. -/
def next (s : Scopes σ) (op : Operation σ) : Scopes σ :=
  match s.perform op with
  | .ok (_, s') => s'
  | .error _ => s

/-- The open scopes after operations. -/
def run (s : Scopes σ) (ops : List (Operation σ)) : Scopes σ := ops.foldl next s

/-- The operations with the answers to them. -/
def transcript (s : Scopes σ) : List (Operation σ) → History σ
  | [] => []
  | op :: ops => (op, s.answer op) :: (s.next op).transcript ops

namespace Operation

/-- How many more scopes are open after the operation. -/
def change : Operation σ → Int
  | enter => 1
  | exit => -1
  | _ => 0

/-- Why the operation is refused if no scope is open. -/
def refusal : Operation σ → Option FaultCause
  | enter => none
  | exit => some .scopeUnderflow
  | declare _ _ => some (.noScope "declare")
  | resolveLocal _ => some (.noScope "resolve_local")
  | resolveLexical _ => some (.noScope "resolve_lexical")
  | resolveGlobal _ => some (.noScope "resolve_global")
  | items => some (.noScope "innermost_items")

/-- The operations exit the scopes that they enter and no others. -/
structure Balanced (ops : List (Operation σ)) : Prop where
  kept : ∀ p, p <+: ops → 0 ≤ (p.map change).sum
  level : (ops.map change).sum = 0

end Operation

/-! ## Histories -/

namespace Record

/-- How many more scopes are open after the operation. -/
def change : Record σ → Int
  | (op, .ok _) => op.change
  | (_, .error _) => 0

/-- The declaration that succeeded. -/
def success : Record σ → Option (String × σ)
  | (.declare name x, .ok (.declared .accepted)) => some (name, x)
  | _ => none

end Record

namespace History

/-- How many more scopes were entered than exited. -/
def balance (h : History σ) : Int := (h.map Record.change).sum

/-- A scope was entered that is still open, and `after` happened since then. -/
structure Open (h after : History σ) : Prop where
  entered : ∃ before reply, h = before ++ (.enter, .ok reply) :: after
  kept : ∀ p, p <+: after → 0 ≤ balance p

/-- The open scope that was entered last, and what happened since then. -/
def Innermost (h after : History σ) : Prop :=
  Open h after ∧ ∀ after', Open h after' → after.length ≤ after'.length

/-- The open scope that was entered first, and what happened since then. -/
def Outermost (h after : History σ) : Prop :=
  Open h after ∧ ∀ after', Open h after' → after'.length ≤ after.length

/-- The declarations that succeeded in a scope, but not in those within it, in order. -/
def successes (after : History σ) : Scope σ :=
  after.zipIdx.filterMap fun p => if balance (after.take p.2) = 0 then p.1.success else none

/-- What a name was declared as in a scope, if it was. -/
def Means (after : History σ) (name : String) : Option σ → Prop
  | some x => (name, x) ∈ successes after
  | none => ∀ x, (name, x) ∉ successes after

/-- What the history says the answer to an operation is. -/
inductive Answers (h : History σ) : Operation σ → Except Fault (Reply σ) → Prop
  | enter : Answers h .enter (.ok .entered)
  /-- No scope is open. -/
  | refused {op cause} : op.refusal = some cause → (∀ after, ¬ Open h after) →
    Answers h op (.error ⟨cause, none⟩)
  | exit {after} : Innermost h after → Answers h .exit (.ok (.scope (successes after)))
  | duplicate {after name x y} : Innermost h after → Means after name (some y) →
    Answers h (.declare name x) (.ok (.declared .duplicate))
  | accepted {after name x} : Innermost h after → Means after name none →
    Answers h (.declare name x) (.ok (.declared .accepted))
  | resolveLocal {after name x} : Innermost h after → Means after name x →
    Answers h (.resolveLocal name) (.ok (.found x))
  /-- The innermost open scope that has the name. -/
  | resolveLexical {after name x} : Open h after → Means after name (some x) →
    (∀ after', Open h after' → after'.length < after.length → Means after' name none) →
    Answers h (.resolveLexical name) (.ok (.found (some x)))
  /-- Some scope is open, and none has the name. -/
  | unresolved {after name} : Open h after → (∀ after', Open h after' → Means after' name none) →
    Answers h (.resolveLexical name) (.ok (.found none))
  | resolveGlobal {after name x} : Outermost h after → Means after name x →
    Answers h (.resolveGlobal name) (.ok (.found x))
  | items {after} : Innermost h after → Answers h .items (.ok (.scope (successes after)))

end History

end CMinusMinus.Scopes
