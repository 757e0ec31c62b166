import CMinusMinus.Proofs.Rules.Expressions

/-!
# Declarations that the rules accept

Name resolution is silent on variables, formals and fields exactly if the rules accept them, and
then the scopes after them are the context after them.
-/

namespace CMinusMinus

open Outcome

theorem TypeNode.Denotes.congr {Γ Γ' : Context} (h : ∀ name, Γ.outer? name = Γ'.outer? name)
    {type : TypeNode} {t : Ty} (htype : type.Denotes Γ t) : type.Denotes Γ' t := by
  cases htype with
  | int => exact .int
  | bool => exact .bool
  | struct hstruct => exact .struct ((h _).symm.trans hstruct)

namespace Resolve

variable {env : Env}

/-- A type that the rules accept has storage. -/
theorem shape_of_denotes (henv : env.Closed) {d : VarDecl} {t : Ty}
    (h : d.type.Denotes env.context t) : ∃ type sh, shape env d = .pure (type, some sh) ∧
      type.Denotes env.context t ∧ sh.type = t ∧ sh.Laid ∧ sh.Known env := by
  obtain ⟨role, span, type, name⟩ := d
  cases h with
  | int => exact ⟨_, _, rfl, .int, rfl, .scalar (.inl rfl), trivial⟩
  | bool => exact ⟨_, _, rfl, .bool, rfl, .scalar (.inr rfl), trivial⟩
  | @struct sp x fields hstruct =>
    rw [Env.outer?_context] at hstruct
    obtain ⟨s, houter, hs⟩ := Option.map_eq_some_iff.mp hstruct
    cases s with
    | storage | function => cases hs
    | struct layout =>
      have hname : layout.name = x.name := (henv.outer houter).1
      refine ⟨.struct sp (x.bind (.struct layout)), .struct layout, ?_, ?_, ?_, ?_, ?_⟩
      · simp only [shape, houter]
      · exact .struct (x := x.bind (.struct layout)) (by rw [Env.outer?_context]; exact hstruct)
      · rw [Shape.type, hname]
      · cases henv.sound.outer? houter with
        | struct hlaid _ => exact .struct hlaid
      · exact (congrArg env.outer? hname).trans houter

theorem denotes_of_shape {d : VarDecl} (h : (shape env d).Silent) :
    ∃ t, d.type.Denotes env.context t := by
  obtain ⟨role, span, type, name⟩ := d
  cases type with
  | int => exact ⟨_, .int⟩
  | bool => exact ⟨_, .bool⟩
  | void => cases h.reports
  | unknown => cases h.fault
  | struct sp x =>
    simp only [shape] at h
    split at h
    · next layout houter =>
      have hcontext : env.context.outer? x.name = some (Symbol.struct layout).entity := by
        rw [Env.outer?_context, houter]
        rfl
      exact ⟨_, .struct hcontext⟩
    · cases h.reports

/-- What an accepted declaration is resolved to. -/
structure Accepts (env : Env) (place : Shape StructDef → Place) (d : VarDecl) (t : Ty)
    (d' : VarDecl) (s : Storage) : Prop where
  name : d'.name.name = d.name.name
  denotes : d'.type.Denotes env.context t
  storage : s.name = d.name.name
  place : s.place = place s.shape
  type : s.shape.type = t
  laid : s.shape.Laid
  known : s.shape.Known env

theorem declare_of_denotes (henv : env.Closed) (place : Shape StructDef → Place) {d : VarDecl}
    {t : Ty} (h : d.type.Denotes env.context t) :
    ∃ d' s, declare env none place d = .pure (d', some s) ∧ Accepts env place d t d' s := by
  obtain ⟨type, sh, hshape, hdenotes, htype, hlaid, hknown⟩ := shape_of_denotes henv h
  refine ⟨{ d with type, name := d.name.bind (.storage ⟨d.name.name, d.span, place sh, sh⟩) },
    ⟨d.name.name, d.span, place sh, sh⟩, ?_, rfl, hdenotes, rfl, rfl, htype, hlaid, hknown⟩
  rw [declare, hshape, pure_andThen]

theorem denotes_of_declare {taken : Option NameCause} {place : Shape StructDef → Place}
    {d : VarDecl} (h : (declare env taken place d).Silent) :
    taken = none ∧ ∃ t, d.type.Denotes env.context t := by
  unfold declare at h
  rw [silent_andThen] at h
  refine ⟨?_, denotes_of_shape h.1⟩
  cases taken with
  | none => rfl
  | some cause => cases h.2.reports

theorem taken_of_none {name : String} (h : env.inner? name = none) : taken env name = none :=
  Option.map_eq_none_iff.mpr h

/-- The scopes with one more variable. -/
theorem Accepts.closed {place : Shape StructDef → Place} {d d' : VarDecl} {t : Ty} {s : Storage}
    (h : Accepts env place d t d' s) (henv : env.Closed) (hplace : s.place ≠ .unplaced)
    (hfresh : env.inner? d.name.name = none) : Env.Closed (env.insert s.name (.storage s)) := by
  refine henv.insert ?_ (.storage rfl hplace h.laid) h.known
  rw [h.storage]
  exact hfresh

theorem Accepts.context {place : Shape StructDef → Place} {d d' : VarDecl} {t : Ty} {s : Storage}
    (h : Accepts env place d t d' s) : Env.context (env.insert s.name (.storage s)) =
      env.context.insert d.name.name (.var t) := by
  rw [Env.context_insert, h.storage, Symbol.entity, h.type]

/-! ## Locals and formals -/

section Sequence

variable {go : Env → Frame → List VarDecl → Resolved (List VarDecl × Env × Frame)}
  {place : Frame → Shape StructDef → Place} {next : Frame → Option Storage → Frame}
  {number : Frame → Option Storage → Option Int} (hgo : Sequence go place next number)
include hgo

/-- Variables without reports are accepted. -/
theorem Sequence.declare (henv : env.Closed) {frame : Frame} {ds : List VarDecl}
    (h : (go env frame ds).Silent) : ∃ ts Γ, VarDecl.Declare env.context ds ts Γ := by
  induction ds generalizing env frame with
  | nil => exact ⟨[], _, .nil⟩
  | cons d ds ih =>
    obtain ⟨stopped, -, -, hcons⟩ := hgo.cons_of_fault h.fault
    rw [hcons, silent_andThen, silent_map] at h
    obtain ⟨htaken, t, hdenotes⟩ := denotes_of_declare h.1
    have hfresh := taken_eq_none htaken
    obtain ⟨d', s, hdeclare, haccepts⟩ := declare_of_denotes henv (place frame) hdenotes
    have hrest := h.2
    rw [htaken, hdeclare] at hrest
    have hplace : s.place ≠ .unplaced := haccepts.place ▸ hgo.placed frame s.shape
    obtain ⟨ts, Γ, htail⟩ := ih (haccepts.closed henv hplace hfresh) hrest
    rw [haccepts.context] at htail
    exact ⟨t :: ts, Γ, .cons hdenotes (env.inner?_context_eq_none.mpr hfresh) htail⟩

/-- Variables that are accepted are without reports if their places can be logged, and the scopes
after them are the context after them. -/
theorem Sequence.of_declare (henv : env.Closed) {frame : Frame} {ds : List VarDecl} {ts : List Ty}
    {Γ : Context} (h : VarDecl.Declare env.context ds ts Γ)
    (hfault : (go env frame ds).fault = none) :
    ∃ ds' env' frame', go env frame ds = .pure (ds', env', frame') ∧ env'.context = Γ ∧
      env'.Closed ∧ VarDecl.Declare env.context ds' ts Γ := by
  induction ds generalizing env frame ts with
  | nil =>
    cases h
    exact ⟨_, _, _, hgo.nil env frame, rfl, henv, .nil⟩
  | cons d ds ih =>
    cases h with
    | @cons _ _ _ _ t ts hdenotes hfresh htail =>
      have hfresh' := env.inner?_context_eq_none.mp hfresh
      obtain ⟨d', s, hdeclare, haccepts⟩ := declare_of_denotes henv (place frame) hdenotes
      obtain ⟨stopped, -, hrest, hcons⟩ := hgo.cons_of_fault hfault
      rw [taken_of_none hfresh', hdeclare] at hrest hcons
      rw [value_pure] at hrest
      have hplace : s.place ≠ .unplaced := haccepts.place ▸ hgo.placed frame s.shape
      rw [← haccepts.context] at htail
      obtain ⟨ds', env', frame', hrest, hcontext, henv', htail'⟩ :=
        ih (haccepts.closed henv hplace hfresh') htail hrest
      refine ⟨d' :: ds', env', frame', ?_, hcontext, henv', ?_⟩
      · rw [hcons, pure_andThen]
        dsimp only [extend]
        rw [hrest, map_pure]
      · rw [haccepts.context] at htail'
        refine .cons haccepts.denotes (by rw [haccepts.name]; exact hfresh) ?_
        rw [haccepts.name]
        exact htail'

end Sequence

/-! ## Fields -/

/-- Fields as the variables of a scope. -/
def fieldScope (fs : List (Field StructDef)) : Scope Entity :=
  fs.map fun f => (f.name, .var f.shape.type)

theorem takenField_eq_none {fs : List (Field StructDef)} {name : String} :
    takenField fs name = none ↔ (fieldScope fs).find? name = none := by
  rw [takenField_eq, fieldScope, Scope.find?,
    Field.lookup_map fs (fun f => Entity.var f.shape.type), Option.map_eq_none_iff,
    Option.map_eq_none_iff]

theorem fieldScope_addField {before : List (Field StructDef)} {size : Nat} {s : Storage} :
    fieldScope (addField before size (some s)).1 =
      fieldScope before ++ [(s.name, .var s.shape.type)] := by
  rw [addField, fieldScope, List.map_append]
  rfl

/-- Fields without reports are accepted, as the variables of a scope of their own. -/
theorem declare_of_fields (henv : env.Closed) {before : List (Field StructDef)} {size : Nat}
    {ds : List VarDecl} (h : (fields env before size ds).Silent) :
    ∃ ts Γ, VarDecl.Declare (fieldScope before :: env.context) ds ts Γ := by
  induction ds generalizing before size with
  | nil => exact ⟨[], _, .nil⟩
  | cons d ds ih =>
    rw [fields, silent_andThen] at h
    obtain ⟨htaken, t, hdenotes⟩ := denotes_of_declare h.1
    obtain ⟨d', s, hdeclare, haccepts⟩ := declare_of_denotes henv (fun _ => .unplaced) hdenotes
    have hrest := h.2
    rw [htaken, hdeclare] at hrest
    have hfields : (fields env (addField before size (some s)).1
        (addField before size (some s)).2 ds).Silent := silent_map.mp hrest
    obtain ⟨ts, Γ, htail⟩ := ih hfields
    rw [fieldScope_addField, haccepts.storage, haccepts.type] at htail
    have hdenotes' := hdenotes.congr fun name =>
      (Scopes.outer?_cons henv.context_ne_nil (fieldScope before) name).symm
    exact ⟨t :: ts, Γ, .cons hdenotes' (takenField_eq_none.mp htaken) htail⟩

/-- Fields that are accepted are without reports, and keep their names and types. -/
theorem fields_of_declare (henv : env.Closed) (before : List (Field StructDef)) (size : Nat)
    {ds : List VarDecl} {ts : List Ty} {Γ : Context}
    (h : VarDecl.Declare (fieldScope before :: env.context) ds ts Γ) :
    ∃ ds' fs size', fields env before size ds = .pure (ds', before ++ fs, size') ∧
      fs.map (fun f => (f.name, f.shape.type)) = (ds.map (·.name.name)).zip ts ∧
      (∀ f ∈ fs, f.shape.Known env) ∧ ds'.map (·.name.name) = ds.map (·.name.name) ∧
      VarDecl.Declare (fieldScope before :: env.context) ds' ts Γ := by
  induction ds generalizing before size ts with
  | nil =>
    cases h
    exact ⟨_, [], _, by rw [List.append_nil]; rfl, rfl, nofun, rfl, .nil⟩
  | cons d ds ih =>
    cases h with
    | @cons _ _ _ _ t ts hdenotes hfresh htail =>
      obtain ⟨d', s, hdeclare, haccepts⟩ := declare_of_denotes henv (fun _ => .unplaced)
        (hdenotes.congr fun name => Scopes.outer?_cons henv.context_ne_nil _ name)
      have hscope : Scopes.insert (fieldScope before :: env.context) d.name.name (.var t) =
          fieldScope (addField before size (some s)).1 :: env.context := by
        rw [fieldScope_addField, haccepts.storage, haccepts.type]
        rfl
      rw [hscope] at htail
      obtain ⟨ds', fs, size', hfields, hzip, hknown, hnames, htail'⟩ := ih _ _ htail
      refine ⟨d' :: ds', ⟨s.name, s.site, size, s.shape⟩ :: fs, size', ?_, ?_,
        List.forall_mem_cons.mpr ⟨haccepts.known, hknown⟩, ?_, ?_⟩
      · rw [fields, takenField_eq_none.mpr hfresh, hdeclare, pure_andThen]
        dsimp only
        rw [hfields, map_pure, addField, List.append_assoc, List.singleton_append]
      · rw [List.map_cons, List.map_cons, List.zip_cons_cons, hzip, haccepts.storage,
          haccepts.type]
      · rw [List.map_cons, List.map_cons, hnames, haccepts.name]
      · have hdenotes' := haccepts.denotes.congr fun name =>
          (Scopes.outer?_cons henv.context_ne_nil (fieldScope before) name).symm
        refine .cons hdenotes' (by rw [haccepts.name]; exact hfresh) ?_
        rw [haccepts.name, hscope]
        exact htail'

end Resolve

end CMinusMinus
