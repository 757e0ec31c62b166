import CMinusMinus.Check
import CMinusMinus.Proofs.Sequencing
import CMinusMinus.Resolve

/-!
# Other spans

A tree can be given other spans: `respan r` replaces each span `s` in a tree, in its symbols and in
what is reported of it by `r s`.  If `r` forgets all spans, trees that differ in their spans only
become equal.

Here are the definitions, with what the operations on scopes and outcomes make of them.
-/

namespace CMinusMinus

variable (r : Option Span → Option Span)

/-! ## Symbols -/

mutual

/-- The struct with other spans. -/
def StructDef.respan : StructDef → StructDef
  | ⟨name, site, fields, size⟩ => ⟨name, r site, StructDef.respanFields fields, size⟩
termination_by structural d => d

/-- The fields with other spans. -/
def StructDef.respanFields : List (Field StructDef) → List (Field StructDef)
  | [] => []
  | f :: fs => StructDef.respanField f :: StructDef.respanFields fs
termination_by structural fs => fs

/-- The field with other spans. -/
def StructDef.respanField : Field StructDef → Field StructDef
  | ⟨name, site, offset, shape⟩ => ⟨name, r site, offset, StructDef.respanShape shape⟩
termination_by structural f => f

/-- The shape with other spans. -/
def StructDef.respanShape : Shape StructDef → Shape StructDef
  | .scalar t => .scalar t
  | .struct d => .struct d.respan
termination_by structural shape => shape

end

/-- The shape with other spans. -/
def Shape.respan (shape : Shape StructDef) : Shape StructDef := StructDef.respanShape r shape

/-- The field with other spans. -/
def Field.respan (f : Field StructDef) : Field StructDef := StructDef.respanField r f

/-- The storage with other spans. -/
def Storage.respan (s : Storage) : Storage :=
  { s with site := r s.site, shape := s.shape.respan r }

/-- The function with another site. -/
def Signature.respan (f : Signature) : Signature := { f with site := r f.site }

/-- The symbol with other spans. -/
def Symbol.respan : Symbol → Symbol
  | .storage s => .storage (s.respan r)
  | .function f => .function (f.respan r)
  | .struct d => .struct (d.respan r)

/-- The scope with other spans. -/
def Scope.respan (scope : Scope Symbol) : Scope Symbol := scope.map fun d => (d.1, d.2.respan r)

/-- The open scopes with other spans. -/
def Env.respan (env : Env) : Env := List.map (Scope.respan r) env

/-! ## Trees -/

/-- What a node carries, with another span. -/
def Info.respan (i : Info) : Info := { i with span := r i.span }

/-- The binding with other spans. -/
def Binding.respan : Binding → Binding
  | .pending => .pending
  | .bound s => .bound (s.respan r)
  | .unresolved => .unresolved

/-- The identifier with other spans. -/
def Ident.respan (x : Ident) : Ident :=
  { x with info := x.info.respan r, binding := x.binding.respan r }

/-- The link of a field access with other spans. -/
def FieldLink.respan (k : FieldLink) : FieldLink :=
  { k with owner := k.owner.map (StructDef.respan r), target := k.target.map (StructDef.respan r) }

namespace Exp

mutual

/-- The expression with other spans. -/
def respan : Exp → Exp
  | .int i v => .int (i.respan r) v
  | .string i s => .string (i.respan r) s
  | .bool i b => .bool (i.respan r) b
  | .ident x => .ident (x.respan r)
  | .access i k loc f => .access (i.respan r) (k.respan r) loc.respan (f.respan r)
  | .assign i l e => .assign (i.respan r) l.respan e.respan
  | .call i f s args => .call (i.respan r) (f.respan r) (r s) (listRespan args)
  | .neg i e => .neg (i.respan r) e.respan
  | .not i e => .not (i.respan r) e.respan
  | .binary i op a b => .binary (i.respan r) op a.respan b.respan
  | .unknown i => .unknown (i.respan r)
termination_by structural e => e

/-- The expressions with other spans. -/
def listRespan : List Exp → List Exp
  | [] => []
  | e :: es => e.respan :: listRespan es
termination_by structural es => es

end

end Exp

/-- The written type with other spans. -/
def TypeNode.respan : TypeNode → TypeNode
  | .int s => .int (r s)
  | .bool s => .bool (r s)
  | .void s => .void (r s)
  | .struct s x => .struct (r s) (x.respan r)
  | .unknown s => .unknown (r s)

/-- The declaration of a variable with other spans. -/
def VarDecl.respan (d : VarDecl) : VarDecl :=
  ⟨d.role, r d.span, d.type.respan r, d.name.respan r⟩

/-- The declarations of variables with other spans. -/
def VarDecls.respan (ds : VarDecls) : VarDecls := ⟨r ds.span, ds.items.map (VarDecl.respan r)⟩

namespace Stmt

mutual

/-- The statement with other spans. -/
def respan : Stmt → Stmt
  | .assign s e => .assign (r s) (e.respan r)
  | .increment s e => .increment (r s) (e.respan r)
  | .decrement s e => .decrement (r s) (e.respan r)
  | .read s e => .read (r s) (e.respan r)
  | .write s e => .write (r s) (e.respan r)
  | .ifThen s e b => .ifThen (r s) (e.respan r) (blockRespan b)
  | .ifElse s e b₁ b₂ => .ifElse (r s) (e.respan r) (blockRespan b₁) (blockRespan b₂)
  | .while s e b => .while (r s) (e.respan r) (blockRespan b)
  | .call s e => .call (r s) (e.respan r)
  | .return s none => .return (r s) none
  | .return s (some e) => .return (r s) (some (e.respan r))
  | .unknown s => .unknown (r s)
termination_by structural s => s

/-- The block with other spans. -/
def blockRespan : Block Stmt → Block Stmt
  | ⟨ds, s, ss⟩ => ⟨ds.respan r, r s, listRespan ss⟩
termination_by structural b => b

/-- The statements with other spans. -/
def listRespan : List Stmt → List Stmt
  | [] => []
  | s :: ss => s.respan :: listRespan ss
termination_by structural ss => ss

end

end Stmt

/-- The function with other spans. -/
def FnDecl.respan (d : FnDecl) : FnDecl :=
  { span := r d.span, returns := d.returns.respan r, name := d.name.respan r,
    formals := d.formals.respan r, bodySpan := r d.bodySpan, body := Stmt.blockRespan r d.body,
    frame := d.frame }

/-- The struct with other spans. -/
def StructDecl.respan (d : StructDecl) : StructDecl :=
  ⟨r d.span, d.name.respan r, d.fields.respan r⟩

/-- The declaration with other spans. -/
def Decl.respan : Decl → Decl
  | .var d => .var (d.respan r)
  | .fn d => .fn (d.respan r)
  | .struct d => .struct (d.respan r)
  | .unknown s => .unknown (r s)

/-- The program with other spans. -/
def Program.respan (p : Program) : Program :=
  { p with span := r p.span, declsSpan := r p.declsSpan, decls := p.decls.map (Decl.respan r) }

/-! ## Reports -/

/-- The place of another span, if it is the place of a span. -/
def Locus.respan : Locus → Locus
  | ⟨some a, some b, some c, some d⟩ =>
    .ofSpan? (r (some ⟨a.toNat, b.toNat, c.toNat, d.toNat⟩))
  | ⟨none, none, none, none⟩ => .ofSpan? (r none)
  | l => l

/-- The report at another place. -/
def Report.respan (x : Report) : Report := { x with locus := x.locus.respan r }

/-- The fault at another place, if it has one. -/
def Fault.respan (x : Fault) : Fault :=
  match x.cause with
  | .overlong _ => x
  | _ => { x with span := r x.span }

/-- The outcome with other spans, given what becomes of its value. -/
def Outcome.respan {α β : Type} (view : α → β) (o : Outcome Report Fault α) :
    Outcome Report Fault β :=
  { value := view o.value, reports := o.reports.map (Report.respan r),
    fault := o.fault.map (Fault.respan r) }

/-! ## Equations -/

variable {r}

@[simp] theorem StructDef.name_respan (d : StructDef) : (d.respan r).name = d.name := by
  cases d
  rfl

@[simp] theorem StructDef.size_respan (d : StructDef) : (d.respan r).size = d.size := by
  cases d
  rfl

theorem StructDef.respanFields_eq (fs : List (Field StructDef)) :
    StructDef.respanFields r fs = fs.map (Field.respan r) := by
  induction fs with
  | nil => rfl
  | cons f fs ih =>
    rw [respanFields, ih, List.map_cons]
    rfl

theorem StructDef.fields_respan (d : StructDef) :
    (d.respan r).fields = d.fields.map (Field.respan r) := by
  cases d
  exact respanFields_eq _

@[simp] theorem Field.name_respan (f : Field StructDef) : (f.respan r).name = f.name := by
  cases f
  rfl

@[simp] theorem Field.offset_respan (f : Field StructDef) : (f.respan r).offset = f.offset := by
  cases f
  rfl

@[simp] theorem Field.shape_respan (f : Field StructDef) :
    (f.respan r).shape = f.shape.respan r := by
  cases f
  rfl

theorem Field.storage_respan (f : Field StructDef) :
    (f.respan r).storage = f.storage.respan r := by
  cases f
  rfl

@[simp] theorem Shape.respan_scalar (t : Ty) :
    (Shape.scalar t : Shape StructDef).respan r = .scalar t := rfl

@[simp] theorem Shape.respan_struct (d : StructDef) :
    (Shape.struct d).respan r = .struct (d.respan r) := rfl

@[simp] theorem Shape.type_respan (shape : Shape StructDef) :
    (shape.respan r).type = shape.type := by
  cases shape with
  | scalar => rfl
  | struct d => exact congrArg Ty.struct d.name_respan

@[simp] theorem Shape.size_respan (shape : Shape StructDef) :
    (shape.respan r).size = shape.size := by
  cases shape with
  | scalar => rfl
  | struct d => exact d.size_respan

theorem Shape.struct?_respan (shape : Shape StructDef) :
    (shape.respan r).struct? = shape.struct?.map (StructDef.respan r) := by
  cases shape <;> rfl

theorem StructDef.field?_respan (d : StructDef) (name : String) :
    (d.respan r).field? name = (d.field? name).map (Field.respan r) := by
  have hname : (fun f : Field StructDef => f.name == name) ∘ Field.respan r =
      fun f => f.name == name := funext fun f => by rw [Function.comp_apply, f.name_respan]
  rw [field?, field?, fields_respan, List.find?_map, hname]

@[simp] theorem Symbol.type_respan (s : Symbol) : (s.respan r).type = s.type := by
  cases s with
  | storage s => exact s.shape.type_respan
  | function | struct => rfl

theorem TypeNode.type_respan (t : TypeNode) :
    (t.respan r).type = t.type.mapError (Fault.respan r) := by
  cases t <;> rfl

/-! ### Scopes -/

theorem Scope.find?_respan (scope : Scope Symbol) (name : String) :
    (scope.respan r).find? name = (scope.find? name).map (Symbol.respan r) := by
  induction scope with
  | nil => rfl
  | cons d scope ih =>
    obtain ⟨n, s⟩ := d
    rw [Scope.respan, List.map_cons, find?, find?, List.lookup_cons, List.lookup_cons]
    cases name == n with
    | true => rfl
    | false => exact ih

namespace Env

variable (env : Env) (name : String)

theorem find?_respan :
    Scopes.find? (env.respan r) name = (Scopes.find? env name).map (Symbol.respan r) := by
  induction env with
  | nil => rfl
  | cons scope env ih =>
    rw [Env.respan, List.map_cons, Scopes.find?_cons, Scopes.find?_cons, Scope.find?_respan]
    cases scope.find? name with
    | none => exact ih
    | some => rfl

theorem inner?_respan :
    Scopes.inner? (env.respan r) name = (Scopes.inner? env name).map (Symbol.respan r) := by
  cases env with
  | nil => rfl
  | cons scope env => exact scope.find?_respan name

theorem outer?_respan :
    Scopes.outer? (env.respan r) name = (Scopes.outer? env name).map (Symbol.respan r) := by
  rw [Scopes.outer?, Scopes.outer?, Env.respan, List.getLast?_map]
  cases env.getLast? with
  | none => rfl
  | some scope => exact scope.find?_respan name

theorem insert_respan (s : Symbol) :
    Scopes.insert (env.respan r) name (s.respan r) = Env.respan r (Scopes.insert env name s) := by
  cases env with
  | nil => rfl
  | cons scope env =>
    refine congrArg (· :: Env.respan r env) ?_
    rw [Scope.respan, Scope.respan, List.map_append]
    rfl

theorem enter_respan : Scopes.enter (env.respan r) = Env.respan r (Scopes.enter env) := rfl

end Env

/-! ### Outcomes -/

theorem Locus.respan_ofSpan? (s : Option Span) : (Locus.ofSpan? s).respan r = .ofSpan? (r s) := by
  cases s <;> rfl

theorem NameCause.report_respan (c : NameCause) (s : Option Span) :
    (c.report s).respan r = c.report (r s) :=
  congrArg (Report.mk (.naming c)) (Locus.respan_ofSpan? s)

theorem TypeCause.reportAt_respan (c : TypeCause) (s : Option Span) :
    (c.reportAt s).respan r = c.reportAt (r s) :=
  congrArg (Report.mk (.typing c)) (Locus.respan_ofSpan? s)

namespace Outcome

variable {α β α' β' : Type}

@[simp] theorem respan_pure (view : α → β) (a : α) :
    (pure a : Outcome Report Fault α).respan r view = pure (view a) := rfl

@[simp] theorem respan_reporting (view : α → β) (a : α) (rs : List Report) :
    (reporting a rs : Outcome Report Fault α).respan r view =
      reporting (view a) (rs.map (Report.respan r)) := rfl

@[simp] theorem respan_stop (view : α → β) (a : α) (fault : Fault) :
    (stop a fault : Outcome Report Fault α).respan r view = stop (view a) (fault.respan r) := rfl

theorem map_respan {view : α → α'} {view' : β → β'} {f : α → β} {f' : α' → β'}
    {o : Outcome Report Fault α} (h : ∀ a, f' (view a) = view' (f a)) :
    (o.respan r view).map f' = (o.map f).respan r view' := by
  simp [respan, map, h]

theorem andThen_respan {view : α → α'} {view' : β → β'} {stopped : α → β} {stopped' : α' → β'}
    {next : α → Outcome Report Fault β} {next' : α' → Outcome Report Fault β'}
    {o : Outcome Report Fault α} (hstopped : ∀ a, stopped' (view a) = view' (stopped a))
    (hnext : ∀ a, next' (view a) = (next a).respan r view') :
    (o.respan r view).andThen stopped' next' = (o.andThen stopped next).respan r view' := by
  cases hfault : o.fault with
  | some fault => simp [andThen, respan, hfault, hstopped]
  | none =>
    have hnext := hnext o.value
    simp only [respan] at hnext
    simp [andThen, respan, hfault, hnext]

end Outcome

end CMinusMinus
