import CMinusMinus.Asm.Emit
import CMinusMinus.Proofs.Meaning

/-!
# Interpretation

What a program does, computed from the tree as far as there is fuel: a call of a function takes a
unit of it, and so does each round of a loop.  With more and more fuel this tells what is to be
seen of a run that never comes to its end.

The interpretation goes on where the meaning of programs leaves off.  It ends at the end of the
main function, wherever that was called from, and gets stuck at a division by zero and where there
is no more input.  A function that ends without a result leaves its caller what the last call of a
function or of the system has left (`Situation.result`), and `!`, `&&` and `||` apply to all words,
bit by bit.  Only reading a local that holds nothing and comparing texts are undefined.

To interpret a phrase of a program is to interpret others: the operands of an expression, the body
of a function that is called, the block that a condition chooses, and a loop again after each of
its rounds (`Phrase.Enters`).  The phrases that a phrase *visits* are those that it comes to in any
number of such steps (`Phrase.Visits`), whether it comes to an end itself or not.  So what the call
of the main function visits is all that there is to a run.  How often a loop is gone through and how
deep calls are nested is not bounded there: what comes before a phrase has come to its end with some
fuel (`Finishes`).
-/

namespace CMinusMinus

/-! ## Courses -/

/-- The store, and what the last call of a function or of the system left for its caller. -/
structure Situation where
  store : Store
  result : Word

/-- How a run ends. -/
inductive Halt where
  /-- At the end of the main function. -/
  | exited
  /-- At a division by zero, or where there is no more input. -/
  | stuck
  /-- For lack of fuel. -/
  | cut
  deriving DecidableEq, Repr

/-- The course of a piece of a program. -/
inductive Course (α : Type) where
  | done (a : α) (σ : Situation)
  /-- The run ends, with so much to be seen. -/
  | halted (h : Halt) (events : List Event)
  | undefined

namespace Course

variable {α β : Type}

/-- The course of a piece and the one after it. -/
def andThen (c : Course α) (f : α → Situation → Course β) : Course β :=
  match c with
  | done a σ => f a σ
  | halted h events => halted h events
  | undefined => undefined

/-- The value as a word. -/
def word (c : Course Value) : Course Word :=
  c.andThen fun v σ =>
    match v with
    | .word w => done w σ
    | .text _ => undefined

end Course

/-- The service that prints the value. -/
def Value.service : Value → Asm.Service
  | .word _ => .printInt
  | .text _ => .printString

namespace Situation

/-- The situation with another word at a location. -/
def write (σ : Situation) (loc : Exp) (w : Word) : Situation :=
  { σ with store := σ.store.write loc w }

/-- The situation with other local scopes. -/
def within (σ : Situation) (locals : Scopes Contents) : Situation :=
  { σ with store := σ.store.within locals }

/-- Declares locals in the innermost scope. -/
def declare (σ : Situation) (ds : List VarDecl) : Situation :=
  { σ with store := σ.store.declare ds }

/-- The situation after the system has read a word. -/
def take (σ : Situation) (w : Word) : Situation := ⟨σ.store.take w, w⟩

/-- The situation after the system has printed a value, which leaves the number of the service. -/
def print (σ : Situation) (v : Value) : Situation :=
  ⟨σ.store.print v, BitVec.ofNat 32 v.service.number⟩

end Situation

/-- What the code of an operator makes of its left and its right operand. -/
def BinOp.compute? : BinOp → Word → Word → Option Word
  | .and, a, b => some (a &&& b)
  | .or, a, b => some (if a = 0 then b else a)
  | op, a, b => op.combine? a b

namespace Run

/-! ## Expressions -/

/-- What a location holds. -/
def fetch (e : Exp) (σ : Situation) : Course Value :=
  match σ.store.read? e with
  | some w => .done (.word w) σ
  | none => .undefined

/-- What an operator makes of its left and its right operand. -/
def operate (op : BinOp) (a b : Word) (σ : Situation) : Course Value :=
  match op.compute? a b with
  | some w => .done (.word w) σ
  | none => .halted .stuck σ.store.events

section

variable (call : String → List Word → Situation → Course Unit)

mutual

/-- The value of an expression, given what the functions do. -/
def exp : Exp → Situation → Course Value
  | .int _ v, σ => .done (.word (BitVec.ofInt 32 v)) σ
  | .bool _ b, σ => .done (.word (Word.ofBool b)) σ
  | .string _ text, σ => .done (.text text) σ
  | .ident x, σ => fetch (.ident x) σ
  | .access i link loc f, σ => fetch (.access i link loc f) σ
  | .assign _ l r, σ =>
    (exp r σ).word.andThen fun w σ => .done (.word w) (σ.write l w)
  | .call _ f _ args, σ =>
    (exps args σ).andThen fun ws σ => (call f.name ws σ).andThen fun _ σ =>
      .done (.word σ.result) σ
  | .neg _ e, σ => (exp e σ).word.andThen fun w σ => .done (.word (-w)) σ
  | .not _ e, σ => (exp e σ).word.andThen fun w σ => .done (.word (w ^^^ 1)) σ
  | .binary _ op l r, σ =>
    (exp r σ).word.andThen fun b σ => (exp l σ).word.andThen fun a σ => operate op a b σ
  | .unknown _, _ => .undefined
termination_by structural e => e

/-- The words of expressions, from left to right. -/
def exps : List Exp → Situation → Course (List Word)
  | [], σ => .done [] σ
  | e :: es, σ =>
    (exp e σ).word.andThen fun w σ => (exps es σ).andThen fun ws σ => .done (w :: ws) σ
termination_by structural es => es

end

theorem exp_of_isLocation {e : Exp} (h : e.isLocation = true) (σ : Situation) :
    exp call e σ = fetch e σ := by
  cases e with
  | ident | access => rfl
  | _ => cases h

/-! ## Statements -/

/-- Changes the word at a location. -/
def step (f : Word → Word) (e : Exp) (σ : Situation) : Course Flow :=
  (fetch e σ).word.andThen fun w σ => .done .next (σ.write e (f w))

/-- Reads a word into a location. -/
def read (e : Exp) (σ : Situation) : Course Flow :=
  match σ.store.input.head? with
  | some w => .done .next ((σ.take w).write e w)
  | none => .halted .stuck σ.store.events

/-- Does something if the condition holds, and something else if not. -/
def test (cond : Situation → Course Value) (yes no : Situation → Course Flow) (σ : Situation) :
    Course Flow :=
  (cond σ).word.andThen fun w σ => if w = 0 then no σ else yes σ

/-- Goes on with something, unless the function has returned. -/
def unlessReturned (next : Situation → Course Flow) (flow : Flow) (σ : Situation) : Course Flow :=
  match flow with
  | .next => next σ
  | .return result => .done (.return result) σ

/-- Does something in a scope of its own. -/
def inner (body : Situation → Course Flow) (σ : Situation) : Course Flow :=
  (body (σ.within σ.store.locals.enter)).andThen fun flow σ =>
    .done flow (σ.within σ.store.locals.tail)

/-- Does something as long as the condition holds, with so much fuel. -/
def loop (cond : Situation → Course Value) (body : Situation → Course Flow) :
    Nat → Situation → Course Flow
  | 0, σ => .halted .cut σ.store.events
  | n + 1, σ => test cond (fun σ => (inner body σ).andThen (unlessReturned (loop cond body n)))
      (fun σ => .done .next σ) σ

variable (n : Nat)

mutual

/-- What a statement does, with so much fuel for each of its loops. -/
def stmt : Stmt → Situation → Course Flow
  | .assign _ e, σ => (exp call e σ).andThen fun _ σ => .done .next σ
  | .increment _ e, σ => step (· + 1) e σ
  | .decrement _ e, σ => step (· - 1) e σ
  | .read _ e, σ => read e σ
  | .write _ e, σ => (exp call e σ).andThen fun v σ => .done .next (σ.print v)
  | .ifThen _ e b, σ => test (exp call e) (inner (block b)) (fun σ => .done .next σ) σ
  | .ifElse _ e b₁ b₂, σ => test (exp call e) (inner (block b₁)) (inner (block b₂)) σ
  | .while _ e b, σ => loop (exp call e) (block b) n σ
  | .call _ e, σ => (exp call e σ).andThen fun _ σ => .done .next σ
  | .return _ none, σ => .done (.return none) σ
  | .return _ (some e), σ =>
    (exp call e σ).word.andThen fun w σ => .done (.return (some w)) { σ with result := w }
  | .unknown _, _ => .undefined
termination_by structural s => s

/-- What a block does whose scope is open. -/
def block : Block Stmt → Situation → Course Flow
  | ⟨vs, _, ss⟩, σ => stmts ss (σ.declare vs.items)
termination_by structural b => b

/-- What statements do, one after another. -/
def stmts : List Stmt → Situation → Course Flow
  | [], σ => .done .next σ
  | s :: ss, σ => (stmt s σ).andThen (unlessReturned (stmts ss))
termination_by structural ss => ss

end

end

/-! ## Functions -/

/-- What a function does that is called with words, with so much fuel. -/
def invoke (ds : List Decl) : Nat → String → List Word → Situation → Course Unit
  | 0, _, _, σ => .halted .cut σ.store.events
  | n + 1, name, ws, σ =>
    match (Decl.functions ds).find? (·.name.name = name) with
    | none => .undefined
    | some d =>
      (block (invoke ds n) n d.body (σ.within [d.formals.bind ws])).andThen fun _ σ' =>
        if name = "main" then .halted .exited σ'.store.events
        else .done () (σ'.within σ.store.locals)

end Run

/-! ## Programs -/

/-- What the program does on the input with so much fuel, if the main function is called with the
words, and the result register holds the given one. -/
def Program.run (p : Program) (n : Nat) (ws : List Word) (result : Word) (input : List Word) :
    Course Unit :=
  Run.invoke p.decls n "main" ws ⟨p.start input, result⟩

/-! ## Phrases that are visited -/

/-- With some fuel the course comes to its end. -/
def Finishes {α : Type} (c : Nat → Course α) (a : α) (σ : Situation) : Prop :=
  ∃ n, c n = .done a σ

/-- A phrase of a program that is interpreted. -/
inductive Phrase where
  | exp (e : Exp)
  | exps (es : List Exp)
  /-- A function that is called with words. -/
  | call (name : String) (ws : List Word)
  | stmt (s : Stmt)
  /-- A block whose scope is open. -/
  | block (b : Block Stmt)
  | stmts (ss : List Stmt)

section

variable (ds : List Decl)

/-! ## Values -/

/-- The evaluation of the expression comes to an end, with the value. -/
def Exp.Gives (e : Exp) (σ : Situation) (v : Value) (σ' : Situation) : Prop :=
  Finishes (fun n => Run.exp (Run.invoke ds n) e σ) v σ'

/-- The function that is called, if that comes to the end of its body, returns a word. -/
def FnDecl.ReturnsWord (d : FnDecl) (ws : List Word) (σ : Situation) : Prop :=
  ∀ flow σ', Finishes (fun n => Run.block (Run.invoke ds n) n d.body
    (σ.within [d.formals.bind ws])) flow σ' → ∃ w, flow = .return (some w)

/-- A statement that reads into a location for a truth value reads one, and a function that is
called for its value returns one. -/
def Phrase.Decent : Phrase → Situation → Prop
  | .stmt (.read _ e), σ =>
    e.info.type = some .bool → ∀ w, σ.store.input.head? = some w → w = 0 ∨ w = 1
  | .exp (.call _ f _ args), σ =>
    ∀ ws σ', Finishes (fun n => Run.exps (Run.invoke ds n) args σ) ws σ' →
      ∀ d ∈ Decl.functions ds, d.name.name = f.name → d.ReturnsWord ds ws σ'
  | _, _ => True

/-! ## Steps -/

/-- The expression that a statement evaluates for its value, before all else. -/
def Stmt.operand? : Stmt → Option Exp
  | .assign _ e | .write _ e | .ifThen _ e _ | .ifElse _ e _ _ | .while _ e _
  | .return _ (some e) => some e
  | _ => none

/-- The block that a statement executes if its condition has the word. -/
def Stmt.chosen? : Stmt → Word → Option (Block Stmt)
  | .ifThen _ _ b, w | .while _ _ b, w => if w = 0 then none else some b
  | .ifElse _ _ yes no, w => if w = 0 then some no else some yes
  | _, _ => none

/-- To evaluate an expression is to interpret the phrase at some time. -/
inductive Exp.Enters : Exp → Situation → Phrase → Situation → Prop where
  | assign {σ : Situation} {i : Info} {l r : Exp} : Enters (.assign i l r) σ (.exp r) σ
  | neg {σ : Situation} {i : Info} {e : Exp} : Enters (.neg i e) σ (.exp e) σ
  | not {σ : Situation} {i : Info} {e : Exp} : Enters (.not i e) σ (.exp e) σ
  | right {σ : Situation} {i : Info} {op : BinOp} {l r : Exp} :
    Enters (.binary i op l r) σ (.exp r) σ
  | left {σ σ' : Situation} {i : Info} {op : BinOp} {l r : Exp} {w : Word} :
    r.Gives ds σ (.word w) σ' → Enters (.binary i op l r) σ (.exp l) σ'
  | args {σ : Situation} {i : Info} {f : Ident} {sp : Option Span} {args : List Exp} :
    Enters (.call i f sp args) σ (.exps args) σ
  | call {σ σ' : Situation} {i : Info} {f : Ident} {sp : Option Span} {args : List Exp}
    {ws : List Word} : Finishes (fun n => Run.exps (Run.invoke ds n) args σ) ws σ' →
    Enters (.call i f sp args) σ (.call f.name ws) σ'

/-- To interpret a phrase is to interpret the other one at some time.  A call that is a statement is
evaluated for its value only if there is one. -/
inductive Phrase.Enters : Phrase → Situation → Phrase → Situation → Prop where
  | exp {σ σ' : Situation} {e : Exp} {p : Phrase} :
    e.Enters ds σ p σ' → Enters (.exp e) σ p σ'
  | head {σ : Situation} {e : Exp} {es : List Exp} : Enters (.exps (e :: es)) σ (.exp e) σ
  | tail {σ σ' : Situation} {e : Exp} {es : List Exp} {w : Word} :
    e.Gives ds σ (.word w) σ' → Enters (.exps (e :: es)) σ (.exps es) σ'
  | body {σ : Situation} {d : FnDecl} {name : String} {ws : List Word} :
    d ∈ Decl.functions ds → d.name.name = name →
    Enters (.call name ws) σ (.block d.body) (σ.within [d.formals.bind ws])
  | operand {σ : Situation} {s : Stmt} {e : Exp} :
    s.operand? = some e → Enters (.stmt s) σ (.exp e) σ
  | chosen {σ σ' : Situation} {s : Stmt} {e : Exp} {w : Word} {b : Block Stmt} :
    s.operand? = some e → e.Gives ds σ (.word w) σ' → s.chosen? w = some b →
    Enters (.stmt s) σ (.block b) (σ'.within σ'.store.locals.enter)
  | again {σ σ₁ σ₂ : Situation} {sp : Option Span} {e : Exp} {b : Block Stmt} {w : Word} :
    e.Gives ds σ (.word w) σ₁ → w ≠ 0 →
    Finishes (fun n => Run.inner (Run.block (Run.invoke ds n) n b) σ₁) .next σ₂ →
    Enters (.stmt (.while sp e b)) σ (.stmt (.while sp e b)) σ₂
  | call {σ σ' : Situation} {sp : Option Span} {e : Exp} {p : Phrase} :
    e.Enters ds σ p σ' → Enters (.stmt (.call sp e)) σ p σ'
  | value {σ : Situation} {sp : Option Span} {e : Exp} :
    (Phrase.exp e).Decent ds σ → Enters (.stmt (.call sp e)) σ (.exp e) σ
  | block {σ : Situation} {vs : VarDecls} {sp : Option Span} {ss : List Stmt} :
    Enters (.block ⟨vs, sp, ss⟩) σ (.stmts ss) (σ.declare vs.items)
  | first {σ : Situation} {s : Stmt} {ss : List Stmt} : Enters (.stmts (s :: ss)) σ (.stmt s) σ
  | rest {σ σ' : Situation} {s : Stmt} {ss : List Stmt} :
    Finishes (fun n => Run.stmt (Run.invoke ds n) n s σ) .next σ' →
    Enters (.stmts (s :: ss)) σ (.stmts ss) σ'

/-- To interpret a phrase is to interpret the other one some steps later. -/
inductive Phrase.Visits : Phrase → Situation → Phrase → Situation → Prop where
  | refl {p : Phrase} {σ : Situation} : Visits p σ p σ
  | step {p p₁ p₂ : Phrase} {σ σ₁ σ₂ : Situation} :
    Enters ds p σ p₁ σ₁ → Visits p₁ σ₁ p₂ σ₂ → Visits p σ p₂ σ₂

/-! ## Fair runs -/

/-- All phrases that are visited are decent. -/
def Phrase.Fair (p : Phrase) (σ : Situation) : Prop :=
  ∀ ⦃p' σ'⦄, p.Visits ds σ p' σ' → p'.Decent ds σ'

end

variable {ds : List Decl} {p p' p₁ p₂ : Phrase} {σ σ' σ₁ σ₂ : Situation}

theorem Phrase.Visits.trans (h : p.Visits ds σ p₁ σ₁) (h' : p₁.Visits ds σ₁ p₂ σ₂) :
    p.Visits ds σ p₂ σ₂ := by
  induction h with
  | refl => exact h'
  | step henters _ ih => exact .step henters (ih h')

namespace Phrase.Fair

theorem decent (h : p.Fair ds σ) : p.Decent ds σ := h .refl

theorem enters (h : p.Fair ds σ) (henters : p.Enters ds σ p' σ') : p'.Fair ds σ' :=
  fun _ _ hvisits => h (.step henters hvisits)

theorem visits (h : p.Fair ds σ) (hvisits : p.Visits ds σ p' σ') : p'.Fair ds σ' :=
  fun _ _ hvisits' => h (hvisits.trans hvisits')

/-- A phrase is fair if it is decent and all that it enters is fair. -/
theorem intro (h : p.Decent ds σ) (henters : ∀ p' σ', p.Enters ds σ p' σ' → p'.Fair ds σ') :
    p.Fair ds σ := by
  intro p' σ' hvisits
  cases hvisits with
  | refl => exact h
  | step henters' hvisits => exact henters _ _ henters' hvisits

end Phrase.Fair

end CMinusMinus
