import Mathlib.Data.List.Nodup
import CMinusMinus.Proofs.Derivation.Reading
import CMinusMinus.Proofs.Derivation.Tokens
import CMinusMinus.Proofs.Grammar.Reading

/-!
# Sites of declarations

A declaration begins where the first of its tokens does.  So the declarations of a text have
different spans (`Program.sites_nodup`), and a symbol, which remembers the span it is declared at,
is of one declaration only.  Name resolution leaves the spans as they are.
-/

namespace CMinusMinus

/-! ## Sites -/

/-- Where variables are declared. -/
def VarDecl.sites (ds : List VarDecl) : List (Option Span) := ds.map VarDecl.span

mutual

/-- Where the blocks of a statement declare variables. -/
def Stmt.sites : Stmt → List (Option Span)
  | .ifThen _ _ b | .while _ _ b => Stmt.blockSites b
  | .ifElse _ _ b₁ b₂ => Stmt.blockSites b₁ ++ Stmt.blockSites b₂
  | .assign .. | .increment .. | .decrement .. | .read .. | .write .. | .call .. | .return ..
  | .unknown _ => []
termination_by structural s => s

/-- Where a block and the blocks in it declare variables. -/
def Stmt.blockSites : Block Stmt → List (Option Span)
  | ⟨ds, _, ss⟩ => VarDecl.sites ds.items ++ Stmt.listSites ss
termination_by structural b => b

/-- Where the blocks of statements declare variables. -/
def Stmt.listSites : List Stmt → List (Option Span)
  | [] => []
  | s :: ss => s.sites ++ Stmt.listSites ss
termination_by structural ss => ss

end

/-- The site of a declaration at the top, and those of the declarations in it. -/
def Decl.sites : Decl → List (Option Span)
  | .var d => [d.span]
  | .fn d => d.span :: (VarDecl.sites d.formals.items ++ Stmt.blockSites d.body)
  | .struct d => d.span :: VarDecl.sites d.fields.items
  | .unknown _ => []

/-- The sites of all declarations of a program. -/
def Program.sites (p : Program) : List (Option Span) := p.decls.flatMap Decl.sites

/-! ## Reading -/

/-- Each of the declarations begins with a token of its own, in order. -/
def Token.Begin (ts : List Token) (sites : List (Option Span)) : Prop :=
  (sites.map (Option.map Span.start)).Sublist (ts.map (some ·.position))

open Token (Begin)

theorem Token.Begin.nil (ts : List Token) : Begin ts [] := List.nil_sublist _

theorem Token.Begin.append {ts us : List Token} {s s' : List (Option Span)} (h : Begin ts s)
    (h' : Begin us s') : Begin (ts ++ us) (s ++ s') := by
  rw [Begin, List.map_append, List.map_append]
  exact List.Sublist.append h h'

theorem Token.Begin.after {us : List Token} {s : List (Option Span)} (h : Begin us s)
    (ts : List Token) : Begin (ts ++ us) s :=
  (Token.Begin.nil ts).append h

theorem Token.Begin.before {ts : List Token} {s : List (Option Span)} (h : Begin ts s)
    (us : List Token) : Begin (ts ++ us) s := by
  have happend := h.append (Token.Begin.nil us)
  rw [List.append_nil] at happend
  exact happend

theorem Token.Begin.cons {t : Token} {ts : List Token} {sp : Option Span}
    {s : List (Option Span)} (hsp : sp.map Span.start = some t.position) (h : Begin ts s) :
    Begin (t :: ts) (sp :: s) := by
  rw [Begin, List.map_cons, List.map_cons, hsp]
  exact List.Sublist.cons_cons _ h

theorem Cursor.start_since (c : Cursor) (p : Position) : (c.since p).start = p := by
  unfold Cursor.since
  split <;> rfl

namespace Parse

/-- What was taken begins where the cursor stood. -/
theorem Takes.head {α : Type} {c : Cursor} {P : List Token → α → Prop} {r : Reading α c.size}
    (h : Takes c P r) : Takes c (fun ts a => P ts a ∧ ∃ t us, ts = t :: us ∧ c.here = t.position)
      r := by
  intro hc x hx
  obtain ⟨ts, hts, ha⟩ := h hc x hx
  have hshorter := x.shorter
  cases ts with
  | nil =>
    have hsize : x.next.size = c.size := congrArg List.length hts.symm
    exact absurd hsize (Nat.ne_of_lt hshorter)
  | cons t us =>
    refine ⟨t :: us, hts, ha, t, us, rfl, ?_⟩
    rw [Cursor.here, Cursor.peek, hts]
    rfl

theorem begin_varDecl (c : Cursor) : Takes c (fun ts d => Begin ts [d.span]) (varDecl c) := by
  have hstart : Takes c (fun _ d => d.span.map Span.start = some c.here) (varDecl c) := by
    refine (takes_varType c).bind fun type c₁ h₁ _ _ => ?_
    refine (takes_ident c₁ rfl).bind fun x c₂ h₂ _ _ => ?_
    refine (takes_expect c₂ _).bind fun _ c₃ h₃ _ _ => .ok ?_
    exact congrArg some (Cursor.start_since c₃ c.here)
  refine hstart.head.mono ?_
  rintro _ d ⟨hd, t, us, rfl, hhere⟩
  exact .cons (hhere ▸ hd) (.nil us)

theorem begin_varDeclItems (c : Cursor) :
    Takes c (fun ts ds => Begin ts (VarDecl.sites ds)) (varDeclItems c) := by
  rw [varDeclItems]
  split
  · refine (begin_varDecl c).bind fun d c₁ h₁ ts hd => ?_
    refine (begin_varDeclItems c₁).bind fun ds c₂ h₂ us hds => .ok ?_
    rw [List.append_nil]
    exact hd.append hds
  · exact .ok (.nil [])
termination_by c.size

theorem begin_varDecls (c : Cursor) :
    Takes c (fun ts ds => Begin ts (VarDecl.sites ds.items)) (varDecls c) := by
  refine (begin_varDeclItems c).bind fun ds c₁ h₁ ts hds => .ok ?_
  rw [List.append_nil]
  exact hds

theorem begin_formalItems (c : Cursor) :
    Takes c (fun ts ds => Begin ts (VarDecl.sites ds)) (formalItems c) := by
  rw [formalItems]
  refine (takes_wordType c).head.bind ?_
  rintro type c₁ h₁ ts ⟨-, t, us, rfl, hhere⟩
  refine (takes_ident c₁ rfl).bind fun x c₂ h₂ vs _ => ?_
  dsimp only
  have hspan : (some (c₂.since c.here)).map Span.start = some t.position := by
    rw [Option.map_some, Cursor.start_since, hhere]
  split
  · next u c₃ h₃ hcomma =>
    obtain ⟨hrest, -⟩ := Cursor.rest_of_take? hcomma
    refine .cons hrest fun _ => (begin_formalItems c₃).bind fun ds c₄ h₄ ws hds => .ok ?_
    rw [List.append_nil]
    exact .cons hspan (((hds.after [u]).after vs).after us)
  · refine (takes_expect c₂ _).bind fun q c₃ h₃ ws _ => .ok ?_
    exact .cons hspan (.nil _)
termination_by c.size

theorem begin_formals (c : Cursor) :
    Takes c (fun ts ds => Begin ts (VarDecl.sites ds.items)) (formals c) := by
  refine (takes_expect c _).bind fun p c₁ h₁ ts _ => ?_
  dsimp only
  split
  · next q c₂ h₂ hparen =>
    obtain ⟨hrest, -⟩ := Cursor.rest_of_take? hparen
    exact .cons hrest fun _ => .ok (.nil _)
  · refine (begin_formalItems c₁).bind fun ds c₂ h₂ us hds => .ok ?_
    rw [List.append_nil]
    exact hds.after ts

/-! ## Statements -/

theorem sites_stepOp {t : Token} {op : Option Span → Exp → Stmt} (h : stepOp? t = some op)
    (span : Option Span) (e : Exp) : (op span e).sites = [] := by
  unfold stepOp? at h
  split at h <;> cases h <;> rfl

theorem sites_stmtOfExp {span : Span} {e : Exp} {s : Stmt} (h : stmtOfExp? span e = some s) :
    s.sites = [] := by
  unfold stmtOfExp? at h
  split at h <;> cases h <;> rfl

/-- A statement in which no block stands. -/
def Flat (_ : List Token) (s : Stmt) : Prop := s.sites = []

theorem flat_expStmt (c : Cursor) : Takes c Flat (expStmt c) := by
  refine (takes_exp c).bind fun e c₁ h₁ _ _ => ?_
  dsimp only
  split
  · next op o c₂ h₂ hop =>
    obtain ⟨hrest, hop⟩ := Cursor.rest_of_takeIf? hop
    refine .cons hrest fun _ => ?_
    split
    · exact (takes_expect c₂ _).bind fun _ c₃ h₃ _ _ => .ok (sites_stepOp hop _ _)
    · exact .refuse _ _
  · refine (takes_expect c₁ _).bind fun _ c₂ h₂ _ _ => ?_
    dsimp only
    split
    · next s hs => exact .ok (sites_stmtOfExp hs)
    · exact .error _

theorem flat_readStmt (start : Position) (c : Cursor) : Takes c Flat (readStmt start c) := by
  refine (takes_expect c _).bind fun _ c₁ h₁ _ _ => ?_
  refine (takes_location c₁).bind fun e c₂ h₂ _ _ => ?_
  exact (takes_expect c₂ _).bind fun _ c₃ h₃ _ _ => .ok rfl

theorem flat_writeStmt (start : Position) (c : Cursor) : Takes c Flat (writeStmt start c) := by
  refine (takes_expect c _).bind fun _ c₁ h₁ _ _ => ?_
  refine (takes_exp c₁).bind fun e c₂ h₂ _ _ => ?_
  exact (takes_expect c₂ _).bind fun _ c₃ h₃ _ _ => .ok rfl

theorem flat_returnStmt (start : Position) (c : Cursor) :
    Takes c Flat (returnStmt start c) := by
  unfold returnStmt
  split
  · next u c₁ h₁ hsemi => exact .cons (Cursor.rest_of_take? hsemi).1 fun _ => .ok rfl
  · refine (takes_exp c).bind fun e c₁ h₁ _ _ => ?_
    exact (takes_expect c₁ _).bind fun _ c₂ h₂ _ _ => .ok rfl

theorem Flat.begins {ts : List Token} {s : Stmt} (h : Flat ts s) (us : List Token) :
    Begin us s.sites := by
  have h : s.sites = [] := h
  rw [h]
  exact .nil us

mutual

theorem begin_stmt (c : Cursor) : Takes c (fun ts s => Begin ts s.sites) (stmt c) := by
  rw [stmt]
  split
  · next t c₁ h₁ hcin =>
    obtain ⟨hrest, -⟩ := Cursor.rest_of_take? hcin
    refine .cons hrest fun _ => (flat_readStmt c.here c₁).bind fun s c₂ h₂ ts hs => .ok ?_
    exact hs.begins _
  split
  · next t c₁ h₁ hcout =>
    obtain ⟨hrest, -⟩ := Cursor.rest_of_take? hcout
    refine .cons hrest fun _ => (flat_writeStmt c.here c₁).bind fun s c₂ h₂ ts hs => .ok ?_
    exact hs.begins _
  split
  · next t c₁ h₁ hif =>
    obtain ⟨hrest, -⟩ := Cursor.rest_of_take? hif
    refine .cons hrest fun _ => (begin_ifStmt c.here c₁).bind fun s c₂ h₂ ts hs => .ok ?_
    rw [List.append_nil]
    exact hs.after [t]
  split
  · next t c₁ h₁ hwhile =>
    obtain ⟨hrest, -⟩ := Cursor.rest_of_take? hwhile
    refine .cons hrest fun _ => (takes_condition .while c₁).bind fun e c₂ h₂ ts _ => ?_
    refine (begin_block _ c₂).bind fun b c₃ h₃ us hb => .ok ?_
    rw [List.append_nil]
    exact (hb.after ts).after [t]
  split
  · next t c₁ h₁ hreturn =>
    obtain ⟨hrest, -⟩ := Cursor.rest_of_take? hreturn
    refine .cons hrest fun _ => (flat_returnStmt c.here c₁).bind fun s c₂ h₂ ts hs => .ok ?_
    exact hs.begins _
  · exact (flat_expStmt c).mono fun ts s hs => hs.begins ts
termination_by (c.size, 0)

theorem begin_ifStmt (start : Position) (c : Cursor) :
    Takes c (fun ts s => Begin ts s.sites) (ifStmt start c) := by
  rw [ifStmt]
  refine (takes_condition .if c).bind fun e c₁ h₁ ts _ => ?_
  refine (begin_block _ c₁).bind fun yes c₂ h₂ us hyes => ?_
  dsimp only
  split
  · next v c₃ h₃ helse =>
    obtain ⟨hrest, -⟩ := Cursor.rest_of_take? helse
    refine .cons hrest fun _ => (begin_block _ c₃).bind fun no c₄ h₄ vs hno => .ok ?_
    rw [List.append_nil]
    exact (hyes.append (hno.after [v])).after ts
  · refine .ok ?_
    rw [List.append_nil]
    exact hyes.after ts
termination_by (c.size, 0)

theorem begin_block (wanted : Wanted) (c : Cursor) :
    Takes c (fun ts b => Begin ts (Stmt.blockSites b)) (block wanted c) := by
  rw [block]
  refine (takes_expect c _).bind fun p c₁ h₁ ts _ => ?_
  refine (begin_varDecls c₁).bind fun ds c₂ h₂ us hds => ?_
  refine (begin_stmts c₂.here c₂).bind fun ss c₃ h₃ vs hss => .ok ?_
  rw [List.append_nil]
  exact (hds.append hss).after ts
termination_by (c.size, 0)

theorem begin_stmts (start : Position) (c : Cursor) :
    Takes c (fun ts ss => Begin ts (Stmt.listSites ss.1)) (stmts start c) := by
  rw [stmts]
  split
  · next q c₁ h₁ hcurly => exact .cons (Cursor.rest_of_take? hcurly).1 fun _ => .ok (.nil _)
  split
  · exact .refuse _ _
  split
  · exact .refuse _ _
  · refine (begin_stmt c).bind fun s c₁ h₁ ts hs => ?_
    refine (begin_stmts start c₁).bind fun ss c₂ h₂ us hss => .ok ?_
    rw [List.append_nil]
    exact hs.append hss
termination_by (c.size, 1)

end

/-! ## Programs -/

theorem begin_structDecl (c : Cursor) :
    Takes c (fun ts d => Begin ts (d.span :: VarDecl.sites d.fields.items)) (structDecl c) := by
  unfold structDecl
  split
  · exact .refuse _ _
  · next t c₁ h₁ hstruct =>
    obtain ⟨hrest, -⟩ := Cursor.rest_of_take? hstruct
    have hhere : c.here = t.position := by
      rw [Cursor.here, Cursor.peek, hrest]
      rfl
    refine .cons hrest fun _ => (takes_ident c₁ rfl).bind fun x c₂ h₂ ts _ => ?_
    refine (takes_expect c₂ _).bind fun _ c₃ h₃ us _ => ?_
    refine (begin_varDecls c₃).bind fun ds c₄ h₄ vs hds => ?_
    dsimp only
    split
    · exact .refuse _ _
    · refine (takes_expect c₄ _).bind fun _ c₅ h₅ ws _ => ?_
      refine (takes_expect c₅ _).bind fun _ c₆ h₆ ys _ => .ok (.cons ?_ ?_)
      · rw [Option.map_some, Cursor.start_since, hhere]
      · exact ((hds.before (ws ++ (ys ++ []))).after us).after ts

theorem begin_fnDecl (c : Cursor) :
    Takes c (fun ts d => Begin ts (Decl.fn d).sites) (fnDecl c) := by
  refine (takes_wordType c).head.bind ?_
  rintro returns c₁ h₁ ts ⟨-, t, us, rfl, hhere⟩
  refine (takes_ident c₁ rfl).bind fun x c₂ h₂ vs _ => ?_
  refine (begin_formals c₂).bind fun ds c₃ h₃ ws hds => ?_
  refine (begin_block _ c₃).bind fun b c₄ h₄ ys hb => .ok (.cons ?_ ?_)
  · rw [Option.map_some, Cursor.start_since, hhere]
  · rw [List.append_nil]
    exact ((hds.append hb).after vs).after us

theorem begin_decl (c : Cursor) : Takes c (fun ts d => Begin ts d.sites) (decl c) := by
  unfold decl
  split
  · refine (begin_structDecl c).bind fun d c₁ h₁ ts hd => .ok ?_
    rw [List.append_nil]
    exact hd
  split
  · refine (begin_fnDecl c).bind fun d c₁ h₁ ts hd => .ok ?_
    rw [List.append_nil]
    exact hd
  split
  · refine (begin_varDecl c).bind fun d c₁ h₁ ts hd => .ok ?_
    rw [List.append_nil]
    exact hd
  · exact .refuse _ _

theorem begin_decls (c : Cursor) :
    Takes c (fun ts ds => Begin ts (ds.flatMap Decl.sites)) (decls c) := by
  rw [decls]
  split
  · exact .ok (.nil _)
  · refine (begin_decl c).bind fun d c₁ h₁ ts hd => ?_
    refine (begin_decls c₁).bind fun ds c₂ h₂ us hds => .ok ?_
    rw [List.append_nil]
    exact hd.append hds
termination_by c.size

end Parse

/-- No two declarations of a text have the same span. -/
theorem Program.sites_nodup {file : Option String} {source : String} {p : Program}
    (h : Program.parse file source = .ok p) : p.sites.Nodup := by
  obtain ⟨tokens, q, hscan, hq, rfl⟩ := exists_ofTokens_of_parse h
  obtain ⟨hspelled, ts, eof, rfl, -, -⟩ := Token.text_of_scan hscan
  rw [ofTokens_append] at hq
  obtain ⟨x, hx, hq⟩ := bind_eq_ok.mp hq
  cases hq
  obtain ⟨us, hus, hbegin⟩ := Parse.begin_decls (.ofTokens ts eof)
    (fun t ht => hspelled t (List.mem_append_left _ ht)) x hx
  have hts : ts = us ++ x.next.rest := hus
  have hnodup : (us.map (some ·.position)).Nodup := by
    have hall := (Token.ordered_of_scan hscan).nodup
    rw [hts, List.map_append, List.map_append, List.append_assoc] at hall
    have hleft := (List.nodup_append.mp hall).1
    have hmap : us.map (some ·.position) = (us.map Token.position).map some := by
      rw [List.map_map]
      rfl
    rw [hmap]
    exact hleft.map fun _ _ => Option.some.inj
  exact List.Nodup.of_map _ (hnodup.sublist hbegin)

/-! ## Name resolution -/

namespace Resolve

open Outcome

theorem span_declare (env : Env) (taken : Option NameCause) (place : Shape StructDef → Place)
    (d : VarDecl) : (declare env taken place d).value.1.span = d.span := by
  unfold declare
  refine view_andThen (fun v : VarDecl × Option Storage => v.1.span) rfl ?_
  dsimp only
  split <;> rfl

theorem span_localVar (env : Env) (frame : Frame) (d : VarDecl) :
    (localVar env frame d).value.1.span = d.span := by
  rw [value_localVar]
  exact span_declare _ _ _ _

theorem sites_localVars (env : Env) (frame : Frame) (ds : List VarDecl) :
    VarDecl.sites (localVars env frame ds).value.1 = VarDecl.sites ds := by
  induction ds generalizing env frame with
  | nil => rfl
  | cons d ds ih =>
    rw [localVars]
    refine view_andThen (fun v : List VarDecl × Env × Frame => VarDecl.sites v.1) ?_ ?_
    · rw [VarDecl.sites, List.map_cons, span_localVar]
      rfl
    · rw [value_map, VarDecl.sites, List.map_cons, ← VarDecl.sites, ih, span_localVar]
      rfl

theorem sites_formals (env : Env) (frame : Frame) (ds : List VarDecl) :
    VarDecl.sites (formals env frame ds).value.1 = VarDecl.sites ds := by
  induction ds generalizing env frame with
  | nil => rfl
  | cons d ds ih =>
    rw [formals]
    refine view_andThen (fun v : List VarDecl × Env × Frame => VarDecl.sites v.1) ?_ ?_
    · rw [VarDecl.sites, List.map_cons, span_declare]
      rfl
    · rw [value_map, VarDecl.sites, List.map_cons, ← VarDecl.sites, ih, span_declare]
      rfl

theorem sites_fields (env : Env) (before : List (Field StructDef)) (size : Nat)
    (ds : List VarDecl) :
    VarDecl.sites (fields env before size ds).value.1 = VarDecl.sites ds := by
  induction ds generalizing before size with
  | nil => rfl
  | cons d ds ih =>
    rw [fields]
    refine view_andThen (fun v : List VarDecl × List (Field StructDef) × Nat =>
      VarDecl.sites v.1) ?_ ?_
    · rw [VarDecl.sites, List.map_cons, span_declare]
      rfl
    · rw [value_map, VarDecl.sites, List.map_cons, ← VarDecl.sites, ih, span_declare]
      rfl

mutual

theorem sites_stmt (env : Env) (frame : Frame) : ∀ s, (stmt env frame s).value.1.sites = s.sites
  | .assign .. | .increment .. | .decrement .. | .read .. | .write .. | .call ..
  | .return _ (some _) => rfl
  | .ifThen _ e b | .while _ e b => by
    rw [stmt]
    refine view_andThen (fun v : Stmt × Frame => v.1.sites) rfl ?_
    rw [value_map, Stmt.sites, sites_block, Stmt.sites]
  | .ifElse _ e b₁ b₂ => by
    rw [stmt]
    refine view_andThen (fun v : Stmt × Frame => v.1.sites) rfl
      (view_andThen (fun v : Stmt × Frame => v.1.sites) ?_ ?_)
    · rw [Stmt.sites, sites_block, Stmt.sites]
    · rw [value_map, Stmt.sites, sites_block, sites_block, Stmt.sites]
  | .return _ none | .unknown _ => rfl

theorem sites_block (env : Env) (frame : Frame) :
    ∀ b, Stmt.blockSites (block env frame b).value.1 = Stmt.blockSites b
  | ⟨ds, _, ss⟩ => by
    rw [block]
    refine view_andThen (fun v : Block Stmt × Frame => Stmt.blockSites v.1) ?_ ?_
    · rw [Stmt.blockSites, sites_localVars, Stmt.blockSites]
    · rw [value_map, Stmt.blockSites, sites_localVars, sites_stmts, Stmt.blockSites]

theorem sites_stmts (env : Env) (frame : Frame) :
    ∀ ss, Stmt.listSites (stmts env frame ss).value.1 = Stmt.listSites ss
  | [] => rfl
  | s :: ss => by
    rw [stmts]
    refine view_andThen (fun v : List Stmt × Frame => Stmt.listSites v.1) ?_ ?_
    · rw [Stmt.listSites, sites_stmt, Stmt.listSites]
    · rw [value_map, Stmt.listSites, sites_stmt, sites_stmts, Stmt.listSites]

end

theorem sites_fnDecl (env : Env) (d : FnDecl) :
    (Decl.fn (fnDecl env d).value.1).sites = (Decl.fn d).sites := by
  unfold fnDecl
  split
  · rfl
  · refine view_andThen (fun v : FnDecl × Env => (Decl.fn v.1).sites) rfl
      (view_andThen (fun v : FnDecl × Env => (Decl.fn v.1).sites) ?_
        (view_andThen (fun v : FnDecl × Env => (Decl.fn v.1).sites) ?_ ?_))
    all_goals simp only [value_pure, Decl.sites, sites_formals, sites_block]

theorem sites_structDecl (env : Env) (d : StructDecl) :
    (Decl.struct (structDecl env d).value.1).sites = (Decl.struct d).sites := by
  unfold structDecl
  refine view_andThen (fun v : StructDecl × Env => (Decl.struct v.1).sites) rfl
    (view_andThen (fun v : StructDecl × Env => (Decl.struct v.1).sites) ?_ ?_)
  · rw [Decl.sites, sites_fields, Decl.sites]
  · dsimp only
    split <;> simp only [value_pure, value_logged, Decl.sites, sites_fields]

theorem sites_decl (env : Env) (d : Decl) : (decl env d).value.1.sites = d.sites := by
  cases d with
  | var d =>
    rw [decl]
    split
    · rfl
    · rw [value_map, Decl.sites, span_declare, Decl.sites]
  | fn d => rw [decl, value_map, sites_fnDecl]
  | struct d => rw [decl, value_map, sites_structDecl]
  | unknown => rfl

/-- Name resolution leaves the spans of declarations as they are. -/
theorem sites_decls (env : Env) (ds : List Decl) :
    (decls env ds).value.1.flatMap Decl.sites = ds.flatMap Decl.sites := by
  induction ds generalizing env with
  | nil => rfl
  | cons d ds ih =>
    rw [decls]
    refine view_andThen (fun v : List Decl × Env × Bool => v.1.flatMap Decl.sites) ?_ ?_
    · rw [List.flatMap_cons, sites_decl, List.flatMap_cons]
    · rw [value_map, List.flatMap_cons, sites_decl, ih, List.flatMap_cons]

end Resolve

end CMinusMinus
