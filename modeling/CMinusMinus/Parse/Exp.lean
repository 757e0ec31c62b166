import CMinusMinus.Parse.Cursor
import CMinusMinus.Text.Digit

/-!
# Reading expressions

Binary operators stand on six levels.  On four of them operators of one level group to the left;
equality and relational operators take two operands and no more.  Tighter than all of them are
the two unary operators, and looser than all is assignment, which groups to the right.
-/

namespace CMinusMinus

/-- The levels of binary operators, from the loosest to the tightest. -/
inductive Level where
  | or | and | equality | relational | additive | multiplicative
  deriving DecidableEq, Repr

namespace Level

/-- The level whose expressions are the operands of this one. -/
def tighter? : Level → Option Level
  | .or => some .and
  | .and => some .equality
  | .equality => some .relational
  | .relational => some .additive
  | .additive => some .multiplicative
  | .multiplicative => none

/-- The number of levels from this one to the tightest. -/
def height : Level → Nat
  | .or => 6
  | .and => 5
  | .equality => 4
  | .relational => 3
  | .additive => 2
  | .multiplicative => 1

theorem height_le (l : Level) : l.height ≤ 6 := by
  cases l <;> decide

theorem height_tighter? {l m : Level} (h : l.tighter? = some m) : m.height < l.height := by
  cases l <;> cases h <;> decide

/-- The operator that a mark is on a level. -/
def op? : Level → Mark → Option BinOp
  | .or, .or => some .or
  | .and, .and => some .and
  | .equality, .equals => some .equal
  | .equality, .notEquals => some .notEqual
  | .relational, .less => some .less
  | .relational, .greater => some .greater
  | .relational, .lessEq => some .lessEq
  | .relational, .greaterEq => some .greaterEq
  | .additive, .plus => some .add
  | .additive, .minus => some .sub
  | .multiplicative, .times => some .mul
  | .multiplicative, .divide => some .div
  | _, _ => none

/-- The operator that a token is on a level. -/
def ofToken? (l : Level) (t : Token) : Option BinOp :=
  match t.kind with
  | .mark m => l.op? m
  | _ => none

/-- Why a second operator on the level is refused, where it is. -/
def chainError? : Level → Option SyntaxCause
  | .equality => some .equalityChain
  | .relational => some .relationalChain
  | _ => none

end Level

namespace Parse

open Cursor

/-- What a leaf carries that was read from a token. -/
def infoOf (t : Token) : Info := { span := some t.span }

/-- What a node carries that was read since the given place. -/
def infoSince (c : Cursor) (start : Position) : Info := { span := some (c.since start) }

/-- The expression of a token that is one by itself. -/
def leaf? (t : Token) : Option Exp :=
  match t.kind with
  | .numeral => some (.int (infoOf t) ((Text.decimal? t.text.toList).getD 0 : Nat))
  | .string => some (.string { span := some (Span.of t.position (t.text.length + 2)) } t.text)
  | .keyword .true => some (.bool (infoOf t) true)
  | .keyword .false => some (.bool (infoOf t) false)
  | _ => none

/-- The unary operator that a token is. -/
def unaryOp? (t : Token) : Option (Info → Exp → Exp) :=
  match t.kind with
  | .mark .not => some .not
  | .mark .minus => some .neg
  | _ => none

/-- The fields that are accessed in turn, from a location that was read since `start`. -/
def fields (start : Position) (loc : Exp) (c : Cursor) : Reading Exp (c.size + 1) :=
  match c.take? (.mark .dot) with
  | none => .ok ⟨loc, c, Nat.lt_succ_self _⟩
  | some ⟨_, c₁, h₁⟩ => do
    let ⟨field, c₂, h₂⟩ ← c₁.ident .accessName
    let ⟨e, c₃, h₃⟩ ← fields start (.access (infoSince c₂ start) {} loc field) c₂
    return ⟨e, c₃, by omega⟩
termination_by c.size

/-- A location: a name, and the fields that are accessed in turn. -/
def location (c : Cursor) : Reading Exp c.size := do
  let ⟨x, c₁, h₁⟩ ← c.ident .locationName
  let ⟨e, c₂, h₂⟩ ← fields c.here (.ident x) c₁
  return ⟨e, c₂, by omega⟩

-- The measures are single numbers, not pairs, so that the kernel can evaluate the parser.

mutual

/-- An expression. -/
def exp (c : Cursor) : Reading Exp c.size := do
  let ⟨left, c₁, h₁⟩ ← level .or c
  match c₁.take? (.mark .assign) with
  | none => return ⟨left, c₁, h₁⟩
  | some ⟨_, c₂, h₂⟩ =>
    if left.isLocation then
      let ⟨right, c₃, h₃⟩ ← exp c₂
      return ⟨.assign (infoSince c₃ c.here) left right, c₃, by omega⟩
    else c₁.refuse .assignTarget
termination_by 17 * c.size + 14
decreasing_by
  · exact Nat.add_lt_add_left (by decide : 2 * Level.height .or + 1 < 14) _
  · omega

/-- An expression of a level: an operand, and operators of the level with one operand each. -/
def level (l : Level) (c : Cursor) : Reading Exp c.size := do
  let ⟨left, c₁, h₁⟩ ← operand l c
  let ⟨e, c₂, h₂⟩ ← operators l c.here left c₁
  return ⟨e, c₂, by omega⟩
termination_by 17 * c.size + 2 * l.height + 1

/-- An operand of the operators of a level. -/
def operand (l : Level) (c : Cursor) : Reading Exp c.size :=
  match _h : l.tighter? with
  | some l' => level l' c
  | none => unary c
termination_by 17 * c.size + 2 * l.height
decreasing_by
  · have := Level.height_tighter? _h
    omega
  · exact Nat.add_lt_add_left (by cases l <;> decide) _

/-- The operators of a level with an operand each, after a left operand that was read since
`start`. -/
def operators (l : Level) (start : Position) (left : Exp) (c : Cursor) :
    Reading Exp (c.size + 1) :=
  match c.takeIf? l.ofToken? with
  | none => .ok ⟨left, c, Nat.lt_succ_self _⟩
  | some ⟨(op, _), c₁, h₁⟩ => do
    let ⟨right, c₂, h₂⟩ ← operand l c₁
    let e := Exp.binary (infoSince c₂ start) op left right
    match l.chainError? with
    | none =>
      let ⟨e', c₃, h₃⟩ ← operators l start e c₂
      return ⟨e', c₃, by omega⟩
    | some cause =>
      if (l.ofToken? c₂.peek).isSome then c₂.refuse cause
      else return ⟨e, c₂, by omega⟩
termination_by 17 * c.size
decreasing_by
  · have := l.height_le
    omega
  · omega

/-- Unary operators and their operand. -/
def unary (c : Cursor) : Reading Exp c.size :=
  match c.takeIf? unaryOp? with
  | some ⟨(op, _), c₁, h₁⟩ => do
    let ⟨e, c₂, h₂⟩ ← unary c₁
    return ⟨op (infoSince c₂ c.here) e, c₂, by omega⟩
  | none => primary c
termination_by 17 * c.size + 1

/-- A literal, a group in parentheses, a call or a location. -/
def primary (c : Cursor) : Reading Exp c.size :=
  match c.takeIf? leaf? with
  | some ⟨(e, _), c₁, h₁⟩ => .ok ⟨e, c₁, h₁⟩
  | none =>
    match c.take? (.mark .leftParen) with
    | some ⟨_, c₁, h₁⟩ => do
      let ⟨e, c₂, h₂⟩ ← exp c₁
      let ⟨_, c₃, h₃⟩ ← c₂.expect .groupEnd
      return ⟨e, c₃, by omega⟩
    | none =>
      match c.take? .name with
      | none => c.refuse .expression
      | some ⟨t, c₁, h₁⟩ =>
        match c₁.take? (.mark .leftParen) with
        | none => do
          let ⟨e, c₂, h₂⟩ ← fields c.here (.ident (identOf t)) c₁
          return ⟨e, c₂, by omega⟩
        | some ⟨_, c₂, h₂⟩ => do
          let ⟨args, c₃, h₃⟩ ← arguments c₂
          return ⟨.call (infoSince c₃ c.here) (identOf t) (some (c₃.since c₁.here)) args, c₃,
            by omega⟩
termination_by 17 * c.size

/-- The arguments of a call and the parenthesis that ends them. -/
def arguments (c : Cursor) : Reading (List Exp) c.size :=
  match c.take? (.mark .rightParen) with
  | some ⟨_, c₁, h₁⟩ => .ok ⟨[], c₁, h₁⟩
  | none => argumentList c
termination_by 17 * c.size + 16

/-- One or more arguments and the parenthesis that ends them. -/
def argumentList (c : Cursor) : Reading (List Exp) c.size := do
  let ⟨e, c₁, h₁⟩ ← exp c
  match c₁.take? (.mark .comma) with
  | some ⟨_, c₂, h₂⟩ =>
    let ⟨es, c₃, h₃⟩ ← argumentList c₂
    return ⟨e :: es, c₃, by omega⟩
  | none =>
    let ⟨_, c₂, h₂⟩ ← c₁.expect .argsEnd
    return ⟨[e], c₂, by omega⟩
termination_by 17 * c.size + 15

end

end Parse

end CMinusMinus
