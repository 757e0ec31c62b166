import CMinusMinus.Proofs.Generation.Sketches
import CMinusMinus.Proofs.Overlong
import CMinusMinus.Proofs.Spans.Checking
import CMinusMinus.Proofs.Spans.Resolving
import CMinusMinus.Proofs.Spans.Words

/-!
# Programs and spans

The analysis of a program with other spans is the analysis of the program, with other spans
(`Compilation.analysis_respan`).  The code of a program does not depend on spans
(`Decl.sketch_respan`).

Where the tokens of two texts have the same words, both texts are refused at the same place or both
are programs, and then the same is said of the programs and the same code is generated for them
(`Compilation.analyze_of_words`).  So the layout of a text has no meaning.
-/

namespace CMinusMinus

variable {r : Option Span → Option Span}

/-! ## Analysis -/

theorem Program.resolve_respan (p : Program) :
    (p.respan r).resolve =
      { program := p.resolve.program.respan r, globals := p.resolve.globals.map (Scope.respan r),
        hasMain := p.resolve.hasMain, reports := p.resolve.reports.map (Report.respan r),
        fault := p.resolve.fault.map (Fault.respan r) } := by
  have hdecls : Resolve.decls (Scopes.enter []) (p.respan r).decls = _ :=
    Resolve.decls_respan (Scopes.enter []) p.decls
  have hglobals : ∀ env : Env, (Env.respan r env).headD [] = (List.headD env []).respan r := by
    rintro (_ | ⟨scope, env⟩) <;> rfl
  unfold resolve resolveIn
  rw [hdecls]
  dsimp only [Outcome.respan]
  rw [hglobals]
  cases (Resolve.decls (Scopes.enter []) p.decls).fault <;> rfl

/-- Name resolution stops at the same number, whatever the spans are. -/
theorem Program.overlong_respan {p p' : Program} (hp : p.Formed) (hp' : p'.Formed)
    (h : p.respan r = p'.respan r) :
    overlong? p.resolve.program.numbers = overlong? p'.resolve.program.numbers := by
  have hcauses : ∀ q : Program, q.Formed → ((q.respan r).resolve.fault.map Fault.cause) =
      (overlong? q.resolve.program.numbers).map FaultCause.overlong := fun q hq => by
    rw [q.resolve_respan]
    dsimp only
    rw [hq.fault_eq, Option.map_map, Option.map_map]
    rfl
  have hsame := (hcauses p hp).symm.trans ((congrArg (·.resolve.fault.map Fault.cause) h).trans
    (hcauses p' hp'))
  exact Option.map_injective (fun _ _ h => FaultCause.overlong.inj h) hsame

theorem Program.check_respan (p : Program) (hasMain : Bool) :
    (p.respan r).check hasMain = (p.check hasMain).respan r (Program.respan r) := by
  have hdecls : Check.decls (p.respan r).decls = _ := Check.decls_respan p.decls
  rw [check, check, hdecls]
  refine Outcome.andThen_respan (fun _ => rfl) fun ds => ?_
  cases hasMain <;> rfl

/-- The diagnostic at another place. -/
def Diagnostic.respan (r : Option Span → Option Span) (d : Diagnostic) : Diagnostic :=
  { d with locus := d.locus.respan r }

/-- What is known about a source file, with other spans. -/
def Compilation.respan (r : Option Span → Option Span) (c : Compilation) : Compilation :=
  { c with
    program := c.program.map (Program.respan r)
    globals := c.globals.respan r
    diagnostics := c.diagnostics.map (Diagnostic.respan r) }

namespace Compilation

/-- The analysis of a program looks at no span. -/
theorem analysis_respan (file : Option String) (p : Program) :
    analysis file (p.respan r) = (analysis file p).respan r := by
  have hreports : ∀ rs : List Report, (rs.map (Report.respan r)).map (Diagnostic.ofReport file) =
      (rs.map (Diagnostic.ofReport file)).map (Diagnostic.respan r) := fun rs => by
    rw [List.map_map, List.map_map]
    rfl
  unfold analysis respan
  rw [p.resolve_respan]
  dsimp only
  rw [Program.check_respan]
  dsimp only [Outcome.respan]
  rw [← List.map_append, hreports]
  cases p.resolve.globals <;> rfl

theorem hasErrors_respan (c : Compilation) : (c.respan r).hasErrors = c.hasErrors := by
  rw [hasErrors, hasErrors, respan, List.any_map]
  rfl

theorem messages_respan (c : Compilation) :
    (c.respan r).diagnostics.map Diagnostic.message = c.diagnostics.map Diagnostic.message := by
  rw [respan, List.map_map]
  rfl

end Compilation

/-! ## Code -/

namespace Generate

/-- A result with other spans. -/
def respanned {α β : Type} (r : Option Span → Option Span) (view : α → β) :
    Except Fault α → Except Fault β
  | .ok a => .ok (view a)
  | .error fault => .error (fault.respan r)

theorem bind_respanned {α α' β β' : Type} {view : α → α'} {view' : β → β'} {x : Except Fault α}
    {f : α → Except Fault β} {f' : α' → Except Fault β'}
    (h : ∀ a, f' (view a) = respanned r view' (f a)) :
    (respanned r view x >>= f') = respanned r view' (x >>= f) := by
  cases x with
  | error => rfl
  | ok a => exact h a

theorem code_respanned (x : Except Fault (List Item)) : code (respanned r id x) = code x := by
  cases x <;> rfl

theorem symbolOf_respan (x : Ident) :
    symbolOf (x.respan r) = respanned r (Symbol.respan r) (symbolOf x) := by
  obtain ⟨name, info, binding⟩ := x
  cases binding <;> rfl

theorem storageOf_respan (x : Ident) :
    storageOf (x.respan r) = respanned r (Prod.map (Storage.respan r) id) (storageOf x) := by
  rw [storageOf, storageOf, symbolOf_respan]
  refine bind_respanned fun s => ?_
  cases s with
  | function | struct => rfl
  | storage s =>
    have hplace : placeOperand? (s.respan r) = placeOperand? s := rfl
    dsimp only [Symbol.respan]
    rw [hplace]
    cases placeOperand? s <;> rfl

theorem path_respan : ∀ e : Exp,
    path (e.respan r) = respanned r (Prod.map (Ident.respan r) id) (path e)
  | .ident _ | .int .. | .string .. | .assign .. | .call .. | .neg .. | .not .. | .binary ..
  | .unknown _ => rfl
  | .bool _ b => by cases b <;> rfl
  | .access i k loc f => by
    have hfield : (k.respan r).owner.bind (·.field? (f.respan r).name) =
        (k.owner.bind (·.field? f.name)).map (Field.respan r) := by
      cases hk : k.owner with
      | none => simp [FieldLink.respan, hk]
      | some d =>
        have hd : (k.respan r).owner = some (d.respan r) := by simp [FieldLink.respan, hk]
        rw [hd]
        exact d.field?_respan f.name
    rw [Exp.respan, path, path, symbolOf_respan]
    refine bind_respanned fun _ => ?_
    dsimp only
    rw [hfield]
    cases k.owner.bind (·.field? f.name) with
    | none => rfl
    | some g =>
      dsimp only [Option.map]
      rw [path_respan loc]
      refine bind_respanned fun x => ?_
      rw [g.offset_respan]
      rfl

theorem address_respan (e : Exp) : address (e.respan r) = respanned r id (address e) := by
  rw [address, address, path_respan]
  refine bind_respanned fun x => ?_
  dsimp only [Prod.map]
  rw [storageOf_respan]
  exact bind_respanned fun _ => rfl

theorem load_respan (x : Ident) : load (x.respan r) = respanned r id (load x) := by
  rw [load, load, storageOf_respan]
  refine bind_respanned fun s => ?_
  obtain ⟨⟨name, site, place, shape⟩, operand⟩ := s
  cases shape <;> rfl

theorem step_respan (op : Opcode) (e : Exp) :
    step op (e.respan r) = respanned r id (step op e) := by
  rw [step, step, address_respan]
  exact bind_respanned fun _ => rfl

theorem global_respan (d : VarDecl) : global (d.respan r) = respanned r id (global d) := by
  have hstorage : storageOf (d.respan r).name = _ := storageOf_respan d.name
  rw [global, global, hstorage]
  refine bind_respanned fun s => ?_
  dsimp only [Prod.map, Storage.respan]
  rw [Shape.size_respan]
  split <;> rfl

end Generate

open Generate

mutual

theorem Exp.sketch_respan : ∀ e : Exp, (e.respan r).sketch = e.sketch
  | .int .. | .bool .. | .string .. | .unknown _ => rfl
  | .ident x => by rw [Exp.respan, sketch, sketch, load_respan, code_respanned]
  | .access i k loc f => by
    have haddress := address_respan (r := r) (.access i k loc f)
    rw [Exp.respan] at haddress ⊢
    rw [sketch, sketch, haddress, code_respanned]
  | .assign _ l e => by
    rw [Exp.respan, sketch, sketch, address_respan, code_respanned, sketch_respan e]
  | .call _ f _ args => by
    rw [Exp.respan, sketch, sketch, listSketch_respan args]
    rfl
  | .neg _ e | .not _ e => by rw [Exp.respan, sketch, sketch, sketch_respan e]
  | .binary _ op a b => by rw [Exp.respan, sketch, sketch, sketch_respan a, sketch_respan b]

theorem Exp.listSketch_respan : ∀ es : List Exp,
    Exp.listSketch (Exp.listRespan r es) = Exp.listSketch es
  | [] => rfl
  | e :: es => by
    rw [Exp.listRespan, listSketch, listSketch, sketch_respan e, listSketch_respan es]

end

mutual

theorem Stmt.sketch_respan (fn : String) : ∀ s : Stmt, (s.respan r).sketch fn = s.sketch fn
  | .assign _ e | .call _ e => by rw [Stmt.respan, sketch, sketch, e.sketch_respan]
  | .increment _ e | .decrement _ e => by
    rw [Stmt.respan, sketch, sketch, stepSketch, step_respan, code_respanned, stepSketch]
  | .read _ e => by rw [Stmt.respan, sketch, sketch, address_respan, code_respanned]
  | .write _ e => by
    rw [Stmt.respan, sketch, sketch, e.sketch_respan, e.info_respan]
    rfl
  | .ifThen _ e b | .while _ e b => by
    rw [Stmt.respan, sketch, sketch, e.sketch_respan, blockSketch_respan fn b]
  | .ifElse _ e b₁ b₂ => by
    rw [Stmt.respan, sketch, sketch, e.sketch_respan, blockSketch_respan fn b₁,
      blockSketch_respan fn b₂]
  | .return _ none | .unknown _ => rfl
  | .return _ (some e) => by rw [Stmt.respan, sketch, sketch, e.sketch_respan]

theorem Stmt.blockSketch_respan (fn : String) : ∀ b : Block Stmt,
    Stmt.blockSketch fn (Stmt.blockRespan r b) = Stmt.blockSketch fn b
  | ⟨_, _, ss⟩ => by rw [blockRespan, blockSketch, blockSketch, listSketch_respan fn ss]

theorem Stmt.listSketch_respan (fn : String) : ∀ ss : List Stmt,
    Stmt.listSketch fn (Stmt.listRespan r ss) = Stmt.listSketch fn ss
  | [] => rfl
  | s :: ss => by
    rw [listRespan, listSketch, listSketch, sketch_respan fn s, listSketch_respan fn ss]

end

/-- The code of a declaration does not depend on spans. -/
theorem Decl.sketch_respan (d : Decl) : (d.respan r).sketch = d.sketch := by
  cases d with
  | struct | unknown => rfl
  | var d => rw [Decl.respan, sketch, sketch, global_respan, code_respanned]
  | fn d =>
    show FnDecl.sketch (d.respan r) = FnDecl.sketch d
    have hblock : Stmt.blockSketch d.name.name (d.respan r).body = _ :=
      Stmt.blockSketch_respan d.name.name d.body
    unfold FnDecl.sketch
    show Sketch.items _ ++ Stmt.blockSketch d.name.name (d.respan r).body ++ Sketch.items _ = _
    rw [hblock]
    rfl

theorem Decl.listSketch_respan (ds : List Decl) :
    listSketch (ds.map (Decl.respan r)) = listSketch ds := by
  induction ds with
  | nil => rfl
  | cons d ds ih => rw [List.map_cons, listSketch, listSketch, d.sketch_respan, ih]

/-! ## Texts of the same words -/

/-- What is said of a refused token does not depend on where it stands. -/
theorem SyntaxError.message_of_word (cause : SyntaxCause) {t t' : Token} (h : t.word = t'.word) :
    message ⟨cause, t⟩ = message ⟨cause, t'⟩ := by
  have hkind : t.kind = t'.kind := congrArg Prod.fst h
  have htext : t.text = t'.text := congrArg Prod.snd h
  have hshown : t.shown = t'.shown := by
    unfold Token.shown
    rw [hkind, htext]
  unfold message
  dsimp only
  rw [hshown, htext]

theorem Program.functions_respan (r : Option Span → Option Span) (p : Program) :
    (p.respan r).functions = p.functions.map (FnDecl.respan r) := by
  rw [functions, functions, respan, List.filterMap_map, List.map_filterMap]
  congr 1
  funext d
  cases d <;> rfl

/-- Two texts of the same words are both refused, with the same message at the same token, or both
are programs, which differ in spans only. -/
theorem Program.parse_of_words (file : Option String) {source source' : String}
    {ts ts' : List Token} (hscan : Token.scan source = .ok ts)
    (hscan' : Token.scan source' = .ok ts') (hwords : ts.map Token.word = ts'.map Token.word) :
    (∃ (e e' : SyntaxError) (i : Nat), parse file source = .error (.syntactic e) ∧
      parse file source' = .error (.syntactic e') ∧ e.message = e'.message ∧
      ts[i]? = some e.token ∧ ts'[i]? = some e'.token) ∨
    ∃ p p', parse file source = .ok p ∧ parse file source' = .ok p' ∧
      p.respan Span.forget = p'.respan Span.forget := by
  rcases Program.ofTokens_agree hwords with
    ⟨cause, t, t', i, herror, herror', hi, hi'⟩ | ⟨p, p', hp, hp', hsame⟩
  · have hword : t.word = t'.word := by
      have hboth := congrArg (·[i]?) hwords
      simp only [List.getElem?_map, hi, hi', Option.map_some] at hboth
      exact Option.some.inj hboth
    refine .inl ⟨⟨cause, t⟩, ⟨cause, t'⟩, i, ?_, ?_, SyntaxError.message_of_word cause hword, hi,
      hi'⟩
    · rw [parse, hscan]
      dsimp only
      rw [herror]
    · rw [parse, hscan']
      dsimp only
      rw [herror']
  · refine .inr ⟨{ p with filename := file }, { p' with filename := file }, ?_, ?_,
      congrArg (fun p : Program => { p with filename := file }) hsame⟩
    · rw [parse, hscan]
      dsimp only
      rw [hp]
    · rw [parse, hscan']
      dsimp only
      rw [hp']

namespace Compilation

/-- The analyses of two programs that differ in spans only say the same, and if they say nothing the
same code is emitted. -/
theorem analysis_of_respan {file : Option String} {p p' : Program} (h : p.Formed) (h' : p'.Formed)
    (hfault : p.resolve.fault = none) (hfault' : p'.resolve.fault = none)
    (hrespan : p.respan Span.forget = p'.respan Span.forget) :
    ∃ q q', (analysis file p).diagnostics.map Diagnostic.message =
        (analysis file p').diagnostics.map Diagnostic.message ∧
      (analysis file p).hasMain = (analysis file p').hasMain ∧
      (analysis file p).globals.respan Span.forget =
        (analysis file p').globals.respan Span.forget ∧
      (analysis file p).program = some q ∧ (analysis file p').program = some q' ∧
      q.respan Span.forget = q'.respan Span.forget ∧
      q.functions.map FnDecl.frame = q'.functions.map FnDecl.frame ∧
      (analysis file p).hasErrors = (analysis file p').hasErrors ∧
      ((analysis file p).hasErrors = false → ∀ o : CodeOptions, ∃ items,
        ((analysis file p).emit o).result = .ok items ∧
        ((analysis file p').emit o).result = .ok items) := by
  have hanalysis := congrArg (analysis file) hrespan
  rw [analysis_respan, analysis_respan] at hanalysis
  have hmessages := congrArg (·.diagnostics.map Diagnostic.message) hanalysis
  have herrors := congrArg hasErrors hanalysis
  have hmain := congrArg hasMain hanalysis
  have hglobals := congrArg globals hanalysis
  have hq := Option.some.inj (congrArg program hanalysis)
  have hframes := congrArg (·.functions.map FnDecl.frame) hq
  have hsketch := congrArg (Decl.listSketch ·.decls) hq
  simp only [messages_respan] at hmessages
  simp only [hasErrors_respan] at herrors
  simp only [Program.functions_respan, List.map_map] at hframes
  simp only [Program.respan, Decl.listSketch_respan] at hsketch
  refine ⟨_, _, hmessages, hmain, hglobals, rfl, rfl, hq, hframes, herrors, fun hnone o => ?_⟩
  obtain ⟨q, -, hq, -, hemit⟩ := emit_sketch h hfault hnone
  obtain ⟨q', -, hq', -, hemit'⟩ := emit_sketch h' hfault' (herrors ▸ hnone)
  cases hq
  cases hq'
  obtain ⟨-, -, hitems⟩ := hemit o
  obtain ⟨-, -, hitems'⟩ := hemit' o
  rw [← hsketch] at hitems'
  exact ⟨_, hitems, hitems'⟩

/-- Two texts of the same words are both refused, with the same message at the same token, or both
are programs.  The programs differ in spans only.  The analyses of both break off at the same
number, or they say the same, and if they say nothing the same code is emitted. -/
theorem analyze_of_words (file : Option String) {source source' : String} {ts ts' : List Token}
    (hscan : Token.scan source = .ok ts) (hscan' : Token.scan source' = .ok ts')
    (hwords : ts.map Token.word = ts'.map Token.word) :
    (∃ (e e' : SyntaxError) (i : Nat), Program.parse file source = .error (.syntactic e) ∧
      Program.parse file source' = .error (.syntactic e') ∧ e.message = e'.message ∧
      ts[i]? = some e.token ∧ ts'[i]? = some e'.token) ∨
    ∃ p p', Program.parse file source = .ok p ∧ Program.parse file source' = .ok p' ∧
      p.respan Span.forget = p'.respan Span.forget ∧
      ((∃ n, overlong? p.resolve.program.numbers = some n ∧
        analyze file source = .error (.numeral (toString n)) ∧
        analyze file source' = .error (.numeral (toString n))) ∨
      ∃ c c' q q', analyze file source = .ok c ∧ analyze file source' = .ok c' ∧
        c.diagnostics.map Diagnostic.message = c'.diagnostics.map Diagnostic.message ∧
        c.hasMain = c'.hasMain ∧ c.globals.respan Span.forget = c'.globals.respan Span.forget ∧
        c.program = some q ∧ c'.program = some q' ∧
        q.respan Span.forget = q'.respan Span.forget ∧
        q.functions.map FnDecl.frame = q'.functions.map FnDecl.frame ∧
        c.hasErrors = c'.hasErrors ∧
        (c.hasErrors = false → ∀ o : CodeOptions, ∃ items,
          (c.emit o).result = .ok items ∧ (c'.emit o).result = .ok items)) := by
  rcases Program.parse_of_words file hscan hscan' hwords with
    hrefused | ⟨p, p', hparse, hparse', hrespan⟩
  · exact .inl hrefused
  · have hformed := Program.parse_formed hparse
    have hformed' := Program.parse_formed hparse'
    have hnumbers := Program.overlong_respan hformed hformed' hrespan
    refine .inr ⟨p, p', hparse, hparse', hrespan, ?_⟩
    cases hn : overlong? p.resolve.program.numbers with
    | some n =>
      have hfault := hformed.fault_of_overlong hn
      have hfault' := hformed'.fault_of_overlong (hnumbers.symm.trans hn)
      exact .inl ⟨n, rfl, analyze_of_fault hparse hfault, analyze_of_fault hparse' hfault'⟩
    | none =>
      have hfault := hformed.fault_of_written hn
      have hfault' := hformed'.fault_of_written (hnumbers.symm.trans hn)
      obtain ⟨q, q', hsame⟩ := analysis_of_respan hformed hformed' hfault hfault' hrespan
      exact .inr ⟨_, _, q, q', analyze_of_parse hparse hfault, analyze_of_parse hparse' hfault',
        hsame⟩

/-- Whether two texts have the same words. -/
def sameWords (source source' : String) : Bool :=
  match Token.scan source, Token.scan source' with
  | .ok ts, .ok ts' => ts.map Token.word == ts'.map Token.word
  | _, _ => false

theorem words_of_sameWords {source source' : String} (h : sameWords source source' = true) :
    ∃ ts ts', Token.scan source = .ok ts ∧ Token.scan source' = .ok ts' ∧
      ts.map Token.word = ts'.map Token.word := by
  unfold sameWords at h
  split at h
  · exact ⟨_, _, ‹_›, ‹_›, eq_of_beq h⟩
  · cases h

set_option maxRecDepth 100000 in
/-- A program on one line, and the same on several with comments. -/
theorem analyze_of_words_of_comments : ∃ ts ts' c c' items,
    Token.scan "int f(int n) \x7b return n * 2; \x7d void main() \x7b cout << f(4); \x7d" = .ok ts ∧
    Token.scan
      "int f (int n) // twice\n\x7b return n*2;\x7d # all\n
       void main() \x7bcout<<f(4);\x7d" = .ok ts' ∧
    ts.map Token.word = ts'.map Token.word ∧
    analyze none
      "int f(int n) \x7b return n * 2; \x7d void main() \x7b cout << f(4); \x7d" = .ok c ∧
    analyze none
      "int f (int n) // twice\n\x7b return n*2;\x7d # all\n
       void main() \x7bcout<<f(4);\x7d" = .ok c' ∧
    (c.emit {}).result = .ok items ∧ (c'.emit {}).result = .ok items := by
  have hsame : sameWords
      "int f(int n) \x7b return n * 2; \x7d void main() \x7b cout << f(4); \x7d"
      "int f (int n) // twice\n\x7b return n*2;\x7d # all\n
       void main() \x7bcout<<f(4);\x7d" = true := by
    cbv
  have haccepts : accepts
      "int f(int n) \x7b return n * 2; \x7d void main() \x7b cout << f(4); \x7d" = true :=
    accepts_of_chars rfl (by decide +kernel)
  obtain ⟨ts, ts', hscan, hscan', hwords⟩ := words_of_sameWords hsame
  obtain ⟨p, hp⟩ := parse_of_accepts haccepts
  obtain ⟨_, hanalyzed, -⟩ := analyze_of_accepts haccepts
  rcases analyze_of_words none hscan hscan' hwords with ⟨e, e', i, herror, -⟩ |
    ⟨-, -, -, -, -, ⟨n, -, herror, -⟩ |
      ⟨c, c', -, -, hc, hc', -, -, -, -, -, -, -, -, hemit⟩⟩
  · cases hp.symm.trans herror
  · cases hanalyzed.symm.trans herror
  · obtain ⟨items, hitems, hitems'⟩ := hemit (hasErrors_of_accepts haccepts hc) {}
    exact ⟨ts, ts', c, c', items, hscan, hscan', hwords, hc, hc', hitems, hitems'⟩

end Compilation

end CMinusMinus
