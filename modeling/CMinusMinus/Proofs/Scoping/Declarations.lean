import CMinusMinus.Proofs.Scoping.Expressions

/-!
# Declarations are scoped

Name resolution accepts a variable, formal or field exactly if it is acceptable, and adds the
accepted ones to their scope in order.
-/

namespace CMinusMinus

open Outcome

@[simp] theorem VarDecl.declared_nil : VarDecl.declared [] = [] := rfl

theorem VarDecl.declared_append (ds es : List VarDecl) :
    VarDecl.declared (ds ++ es) = VarDecl.declared ds ++ VarDecl.declared es :=
  List.flatMap_append

theorem VarDecl.declared_cons (d : VarDecl) (ds : List VarDecl) :
    VarDecl.declared (d :: ds) = d.name.declared ++ VarDecl.declared ds := rfl

namespace Resolve

variable {env : Env} {globals : Scope Symbol}

/-- The structs that the scopes have at the top are those of the globals. -/
def StructsOf (env : Env) (globals : Scope Symbol) : Prop :=
  ∀ name d, env.outer? name = some (.struct d) ↔ globals.struct? name = some d

theorem StructsOf.cons {outer : Env} (houter : outer ≠ []) (h : StructsOf outer globals)
    (scope : Scope Symbol) : StructsOf (scope :: outer) globals := by
  intro name d
  rw [Scopes.outer?_cons houter]
  exact h name d

theorem StructsOf.append {outer : Env} (houter : outer ≠ []) (h : StructsOf outer globals)
    (scopes : Env) : StructsOf (scopes ++ outer) globals := by
  induction scopes with
  | nil => exact h
  | cons scope scopes ih =>
    exact StructsOf.cons (List.append_ne_nil_of_right_ne_nil _ houter) ih scope

/-- Whether the type of a variable has storage of some shape, and what is reported otherwise. -/
structure TypeSettled (globals : Scope Symbol) (d : VarDecl) (sh : Option (Shape StructDef)) :
    Prop where
  struct : ∀ sp x, d.type = .struct sp x → x.binding = .of ((globals.struct? x.name).map .struct)
  stores : ∀ shape, sh = some shape → d.type.isVoid = false ∧
    (∀ sp x, d.type = .struct sp x → globals.struct? x.name ≠ none) ∧ d.type.Stores shape
  rejects : sh = none → d.type.isVoid = true ∨
    ∃ sp x, d.type = .struct sp x ∧ globals.struct? x.name = none

theorem settled_shape (hglobals : StructsOf env globals) {d : VarDecl} (hd : d.type.Formed) :
    ∃ type sh, shape env d =
        .reporting (type, sh) (VarDecl.typeComplaints { d with type }) ∧
      TypeSettled globals { d with type } sh := by
  obtain ⟨role, span, type, name⟩ := d
  cases type with
  | int sp =>
    refine ⟨.int sp, some (.scalar .int), rfl, ?_, ?_, ?_⟩
    · rintro _ _ ⟨⟩
    · rintro shape ⟨⟩
      exact ⟨rfl, (by rintro _ _ ⟨⟩), .int⟩
    · rintro ⟨⟩
  | bool sp =>
    refine ⟨.bool sp, some (.scalar .bool), rfl, ?_, ?_, ?_⟩
    · rintro _ _ ⟨⟩
    · rintro shape ⟨⟩
      exact ⟨rfl, (by rintro _ _ ⟨⟩), .bool⟩
    · rintro ⟨⟩
  | void sp =>
    refine ⟨.void sp, none, rfl, ?_, ?_, fun _ => .inl rfl⟩
    · rintro _ _ ⟨⟩
    · rintro _ ⟨⟩
  | unknown => exact hd.elim
  | struct sp x =>
    cases hstruct : globals.struct? x.name with
    | none =>
      refine ⟨.struct sp x.fail, none, ?_, ?_, ?_, fun _ => .inr ⟨sp, x.fail, rfl, hstruct⟩⟩
      · simp only [shape]
        split
        · next layout houter => cases hstruct.symm.trans ((hglobals _ _).mp houter)
        · rfl
      · rintro sp' x' ⟨⟩
        show Binding.unresolved = .of ((globals.struct? x.name).map .struct)
        rw [hstruct]
        rfl
      · rintro _ ⟨⟩
    | some layout =>
      have houter : env.outer? x.name = some (.struct layout) := (hglobals _ _).mpr hstruct
      refine ⟨.struct sp (x.bind (.struct layout)), some (.struct layout), ?_, ?_, ?_, ?_⟩
      · simp only [shape, houter]
        rfl
      · rintro sp' x' ⟨⟩
        show Binding.bound (.struct layout) = .of ((globals.struct? x.name).map .struct)
        rw [hstruct]
        rfl
      · rintro shape ⟨⟩
        refine ⟨rfl, ?_, .struct rfl⟩
        rintro sp' x' ⟨⟩ hnone
        cases hstruct.symm.trans hnone
      · rintro ⟨⟩

/-- What a declaration is resolved to. -/
structure DeclareSettled (globals earlier : Scope Symbol) (cause : String → NameCause)
    (place : Shape StructDef → Place) (d : VarDecl) (o : Resolved (VarDecl × Option Storage)) :
    Prop where
  fault : o.fault = none
  settled : o.value.1.Settled globals earlier
  name : o.value.1.name.name = d.name.name
  declared : o.value.1.name.declared =
    (o.value.2.map fun s => (s.name, Symbol.storage s)).toList
  place : ∀ s, o.value.2 = some s → s.place = place s.shape
  reports : o.reports = o.value.1.typeComplaints ++
    if (earlier.find? o.value.1.name.name).isSome
    then [(cause o.value.1.name.name).report o.value.1.name.info.span] else []

theorem settled_declare (hglobals : StructsOf env globals)
    {earlier : Scope Symbol} {cause : String → NameCause} {d : VarDecl} (hd : d.type.Formed)
    {taken : Option NameCause}
    (htaken : taken = (earlier.find? d.name.name).map fun _ => cause d.name.name)
    (place : Shape StructDef → Place) :
    DeclareSettled globals earlier cause place d (declare env taken place d) := by
  obtain ⟨type, sh, hshape, hsettled⟩ := settled_shape hglobals hd
  rw [declare, hshape]
  cases hfind : earlier.find? d.name.name with
  | some s =>
    rw [hfind] at htaken
    subst htaken
    exact
      { fault := rfl
        settled := ⟨hsettled.struct,
          fun h => (Option.some_ne_none s (hfind.symm.trans h.fresh)).elim,
          fun _ => rfl⟩
        name := rfl
        declared := rfl
        place := nofun
        reports := by
          show _ = _ ++ if (earlier.find? d.name.name).isSome then _ else _
          rw [hfind]
          rfl }
  | none =>
    rw [hfind] at htaken
    subst htaken
    cases sh with
    | none =>
      have hnot : ∀ x : Ident,
          ¬ VarDecl.Acceptable globals earlier { d with type, name := x } := by
        rintro x ⟨hvoid, hstruct, -⟩
        rcases hsettled.rejects rfl with hbad | ⟨sp, x, hbad, hnone⟩
        · cases hvoid.symm.trans hbad
        · exact hstruct sp x hbad hnone
      exact
        { fault := rfl
          settled := ⟨hsettled.struct, fun h => (hnot _ h).elim, fun _ => rfl⟩
          name := rfl
          declared := rfl
          place := nofun
          reports := by
            show _ = _ ++ if (earlier.find? d.name.name).isSome then _ else _
            rw [hfind]
            rfl }
    | some sh =>
      obtain ⟨hvoid, hstruct, hstores⟩ := hsettled.stores sh rfl
      exact
        { fault := rfl
          settled := ⟨hsettled.struct, fun _ => ⟨_, rfl, rfl, rfl, hstores⟩,
            fun h => (h ⟨hvoid, hstruct, hfind⟩).elim⟩
          name := rfl
          declared := rfl
          place := fun s hs => by
            cases hs
            rfl
          reports := by
            show _ = _ ++ if (earlier.find? d.name.name).isSome then _ else _
            rw [hfind]
            rfl }

end Resolve

/-! ## Scopes of variables -/

namespace VarDecl

/-- The variables are settled, each after those before it and what was declared earlier. -/
def SettledAfter (globals earlier : Scope Symbol) (ds : List VarDecl) : Prop :=
  ∀ before d after, ds = before ++ d :: after → d.Settled globals (earlier ++ declared before)

variable {globals earlier : Scope Symbol}

theorem SettledAfter.nil : SettledAfter globals earlier [] := by
  intro before d after h
  cases before <;> cases h

theorem SettledAfter.cons {d : VarDecl} {ds : List VarDecl} (hd : d.Settled globals earlier)
    (hds : SettledAfter globals (earlier ++ d.name.declared) ds) :
    SettledAfter globals earlier (d :: ds) := by
  rintro (_ | ⟨e, before⟩) d' after h
  · cases h
    rw [declared_nil, List.append_nil]
    exact hd
  · cases h
    rw [declared_cons, ← List.append_assoc]
    exact hds before d' after rfl

theorem SettledAfter.append {ds es : List VarDecl} (hds : SettledAfter globals earlier ds)
    (hes : SettledAfter globals (earlier ++ declared ds) es) :
    SettledAfter globals earlier (ds ++ es) := by
  intro before d after h
  rcases List.append_eq_append_iff.mp h with ⟨mid, rfl, hes'⟩ | ⟨mid, hds', hes'⟩
  · rw [declared_append, ← List.append_assoc]
    exact hes mid d after hes'
  · cases mid with
    | nil =>
      rw [List.append_nil] at hds'
      have hlast := hes [] d after (List.nil_append es ▸ hes'.symm)
      rw [declared_nil, List.append_nil, hds'] at hlast
      exact hlast
    | cons d' mid =>
      cases hes'
      exact hds before d mid hds'

theorem listComplaints_append {cause : String → NameCause} {ds es : List VarDecl} :
    listComplaints cause earlier (ds ++ es) = listComplaints cause earlier ds ++
      listComplaints cause (earlier ++ declared ds) es := by
  induction ds generalizing earlier with
  | nil => rw [List.nil_append, declared_nil, List.append_nil, listComplaints, List.nil_append]
  | cons d ds ih =>
    rw [List.cons_append, listComplaints, listComplaints, ih, declared_cons]
    simp only [List.append_assoc]

end VarDecl

namespace Resolve

theorem extend_declared {scope : Scope Symbol} {outer : Env} {s : Option Storage}
    {declared : Scope Symbol}
    (h : declared = (s.map fun s => (s.name, Symbol.storage s)).toList) :
    extend (scope :: outer) s = (scope ++ declared) :: outer := by
  subst h
  cases s with
  | none => rw [extend, Option.map_none, Option.toList_none, List.append_nil]
  | some s => rfl

section Sequence

variable {go : Env → Frame → List VarDecl → Resolved (List VarDecl × Env × Frame)}
  {place : Frame → Shape StructDef → Place} {next : Frame → Option Storage → Frame}
  {number : Frame → Option Storage → Option Int}
  (hgo : Sequence go place next number) {globals : Scope Symbol} {outer : Env} (houter : outer ≠ [])
  (hglobals : StructsOf outer globals)
include hgo houter hglobals

/-- The variables of a scope are settled, and the scope is what they declare. -/
theorem Sequence.settled {scope : Scope Symbol} {frame : Frame} {ds : List VarDecl}
    (h : ∀ d ∈ ds, d.type.Formed) (hfault : (go (scope :: outer) frame ds).fault = none) :
    ∃ ds' frame', go (scope :: outer) frame ds =
        .reporting (ds', (scope ++ VarDecl.declared ds') :: outer, frame')
          (VarDecl.listComplaints .duplicate scope ds') ∧
      VarDecl.SettledAfter globals scope ds' := by
  induction ds generalizing scope frame with
  | nil =>
    refine ⟨[], frame, ?_, .nil⟩
    rw [hgo.nil, VarDecl.declared_nil, List.append_nil]
    rfl
  | cons d ds ih =>
    obtain ⟨hd, hds⟩ := List.forall_mem_cons.mp h
    obtain ⟨stopped, -, hrest, hcons⟩ := hgo.cons_of_fault hfault
    have htaken : taken (scope :: outer) d.name.name =
      (scope.find? d.name.name).map fun _ => .duplicate d.name.name := rfl
    have hsettled := settled_declare (hglobals.cons houter scope) hd htaken (place frame)
    rw [extend_declared hsettled.declared] at hrest
    obtain ⟨ds', frame', hrest, hrestsettled⟩ := ih hds hrest
    refine ⟨_ :: ds', frame', ?_, .cons hsettled.settled hrestsettled⟩
    rw [hcons, andThen_of_fault_none hsettled.fault, extend_declared hsettled.declared, hrest,
      VarDecl.declared_cons, VarDecl.listComplaints, ← List.append_assoc, hsettled.reports]
    rfl

end Sequence

/-! ## Fields -/

theorem settled_fields {env : Env} {globals : Scope Symbol} (hglobals : StructsOf env globals)
    (before : List (Field StructDef)) (size : Nat) {ds : List VarDecl}
    (h : ∀ d ∈ ds, d.type.Formed) :
    ∃ ds' fs size', fields env before size ds =
        .reporting (ds', before ++ fs, size') (VarDecl.listComplaints .duplicateField
          (before.map fun f => (f.name, .storage f.storage)) ds') ∧
      (fs.map fun f => (f.name, Symbol.storage f.storage)) = VarDecl.declared ds' ∧
      VarDecl.SettledAfter globals (before.map fun f => (f.name, .storage f.storage)) ds' := by
  induction ds generalizing before size with
  | nil => exact ⟨[], [], size, by rw [List.append_nil]; rfl, rfl, .nil⟩
  | cons d ds ih =>
    obtain ⟨hd, hds⟩ := List.forall_mem_cons.mp h
    have htaken : takenField before d.name.name =
        (Scope.find? (before.map fun f => (f.name, Symbol.storage f.storage)) d.name.name).map
          fun _ => .duplicateField d.name.name := by
      rw [takenField_eq, Scope.find?, Field.lookup_map before (fun f => Symbol.storage f.storage),
        Option.map_map]
      rfl
    have hsettled := settled_declare hglobals hd htaken (fun _ => .unplaced)
    generalize ho : declare env (takenField before d.name.name) (fun _ => .unplaced) d = o
      at hsettled
    have hadd : ∃ new, addField before size o.value.2 =
        (before ++ new, (addField before size o.value.2).2) ∧
        (new.map fun f => (f.name, Symbol.storage f.storage)) = o.value.1.name.declared := by
      rw [hsettled.declared]
      cases hs : o.value.2 with
      | none => exact ⟨[], by rw [List.append_nil]; rfl, rfl⟩
      | some s =>
        have hplace := hsettled.place s hs
        refine ⟨[⟨s.name, s.site, size, s.shape⟩], rfl, ?_⟩
        obtain ⟨_, _, _, _⟩ := s
        cases hplace
        rfl
    obtain ⟨new, hnew, hdeclared⟩ := hadd
    obtain ⟨ds', fs, size', hrest, hfs, hrestsettled⟩ :=
      ih (before ++ new) (addField before size o.value.2).2 hds
    rw [List.map_append, hdeclared] at hrest hrestsettled
    refine ⟨o.value.1 :: ds', new ++ fs, size', ?_, ?_, .cons hsettled.settled hrestsettled⟩
    · rw [fields, ho, andThen_of_fault_none hsettled.fault]
      dsimp only
      rw [hnew]
      dsimp only
      rw [hrest, hsettled.reports, VarDecl.listComplaints, ← List.append_assoc]
      rfl
    · rw [List.map_append, hdeclared, hfs, VarDecl.declared_cons]

end Resolve

end CMinusMinus
