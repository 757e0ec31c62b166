import CMinusMinus.Fault

/-!
# Scopes

A *scope* is the declarations of one block in order, each name at most once.  The scopes that are
open at a place form a stack, the innermost first.  Looking up a name searches the innermost
scope that has it, and so finds what shadows all outer declarations of the name.

Each operation comes in two forms: as a function on the list of scopes, for code that knows that
some scope is open, and as a checked one that refuses to work on no scope at all.
-/

namespace CMinusMinus

/-- The declarations of one block, in order. -/
abbrev Scope (σ : Type) := List (String × σ)

namespace Scope

variable {σ : Type}

/-- What a scope declares a name as. -/
def find? (scope : Scope σ) (name : String) : Option σ := List.lookup name scope

@[simp] theorem find?_nil (name : String) : find? ([] : Scope σ) name = none := rfl

theorem find?_append (s t : Scope σ) (name : String) :
    find? (s ++ t) name = (find? s name).or (find? t name) := by
  induction s with
  | nil => rfl
  | cons d s ih =>
    obtain ⟨n, x⟩ := d
    simp only [find?, List.cons_append, List.lookup_cons] at ih ⊢
    split
    · rfl
    · exact ih

end Scope

/-- The open scopes, the innermost first. -/
abbrev Scopes (σ : Type) := List (Scope σ)

namespace Scopes

variable {σ : Type}

/-! ## On open scopes -/

/-- What the innermost scope declares a name as. -/
def inner? (s : Scopes σ) (name : String) : Option σ := s.head?.bind (·.find? name)

/-- What the outermost scope declares a name as. -/
def outer? (s : Scopes σ) (name : String) : Option σ := s.getLast?.bind (·.find? name)

/-- What the innermost scope that has a name declares it as. -/
def find? (s : Scopes σ) (name : String) : Option σ := s.findSome? (·.find? name)

/-- One more declaration in the innermost scope. -/
def insert (s : Scopes σ) (name : String) (x : σ) : Scopes σ :=
  match s with
  | [] => []
  | scope :: outer => (scope ++ [(name, x)]) :: outer

/-- The stack with a new innermost scope. -/
def enter (s : Scopes σ) : Scopes σ := [] :: s

theorem length_insert (s : Scopes σ) (name : String) (x : σ) :
    (s.insert name x).length = s.length := by
  cases s <;> rfl

theorem find?_enter (s : Scopes σ) (name : String) : s.enter.find? name = s.find? name := rfl

theorem find?_cons (scope : Scope σ) (s : Scopes σ) (name : String) :
    find? (scope :: s) name = (scope.find? name).or (find? s name) := by
  simp only [find?, List.findSome?_cons]
  cases scope.find? name <;> rfl

theorem outer?_cons {s : Scopes σ} (hs : s ≠ []) (scope : Scope σ) (name : String) :
    outer? (scope :: s) name = s.outer? name := by
  cases s with
  | nil => exact absurd rfl hs
  | cons scope' outer => rw [outer?, outer?, List.getLast?_cons_cons]

/-! ## Checked -/

/-- The answer of an operation that takes the given name in reports, unless no scope is open. -/
def checked {α : Type} (s : Scopes σ) (operation : String) (answer : α) : Except Fault α :=
  match s with
  | [] => .error ⟨.noScope operation, none⟩
  | _ :: _ => .ok answer

/-- Closes the innermost scope and returns its declarations. -/
def exit : Scopes σ → Except Fault (Scope σ × Scopes σ)
  | [] => .error ⟨.scopeUnderflow, none⟩
  | scope :: outer => .ok (scope, outer)

/-- How a declaration ends. -/
inductive Declared where
  | accepted
  /-- The innermost scope has the name already. -/
  | duplicate
  deriving DecidableEq, Repr

/-- Declares a name in the innermost scope, unless that scope has it. -/
def declare (s : Scopes σ) (name : String) (x : σ) : Except Fault (Declared × Scopes σ) :=
  s.checked "declare" <|
    match s.inner? name with
    | some _ => (.duplicate, s)
    | none => (.accepted, s.insert name x)

/-- Looks a name up in the innermost scope. -/
def resolveLocal (s : Scopes σ) (name : String) : Except Fault (Option σ) :=
  s.checked "resolve_local" (s.inner? name)

/-- Looks a name up from the innermost scope outwards. -/
def resolveLexical (s : Scopes σ) (name : String) : Except Fault (Option σ) :=
  s.checked "resolve_lexical" (s.find? name)

/-- Looks a name up in the outermost scope. -/
def resolveGlobal (s : Scopes σ) (name : String) : Except Fault (Option σ) :=
  s.checked "resolve_global" (s.outer? name)

/-- The declarations of the innermost scope, in order. -/
def items (s : Scopes σ) : Except Fault (Scope σ) :=
  s.checked "innermost_items" (s.headD [])

end Scopes

end CMinusMinus
