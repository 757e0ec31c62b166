import CMinusMinus.Proofs.Truth.Arrival

/-!
# Truth values on the machine

As long as the words that a program reads into locations for truth values are zero or one, so is
every word that the code of an expression of that type leaves on the stack
(`Compilation.emit_truthful`), and the operators of truth values do what they say.  A word that is
neither is stored as it was read, and what is made of it is not even a truth value
(`Compilation.emit_of_read`).
-/

namespace CMinusMinus

open Machine

/-! ## Words on the stack -/

/-- The machine executes the code that it is at, which leaves the word on the stack and has taken
nothing from it. -/
structure Machine.Delivers (items code : List Item) (w : Word) (s s' : State) : Prop where
  reaches : Reaches items s s'
  pc : s'.pc = s.pc + code.length
  sp : (s'.get .sp).toNat + wordSize = (s.get .sp).toNat
  top : s'.mem (s.get .sp).toNat = w

theorem After.delivers {b : Image} {act : Activation b} {live : List (List Storage)} {σ : Situation}
    {s s₁ : State} {code : List Item} {w : Word} (h : After act live σ s code [w] s₁) :
    Delivers b.items code w s s₁ where
  reaches := h.reaches
  pc := h.pc
  sp := h.sp
  top := h.words 0 w rfl

/-! ## Comments -/

section Comments

variable {items q : List Item} {pc : Nat}

theorem Machine.Sits.finish (h : Sits items pc q) (o : CodeOptions) :
    Sits (o.finish items) pc (o.finish q) := by
  rw [CodeOptions.finish, CodeOptions.finish]
  split
  · exact h
  · obtain ⟨pre, post, rfl, rfl, hpre⟩ := h.split
    refine ⟨pre.map Item.bare, post.map Item.bare, by simp, List.length_map _, ?_⟩
    have hafter : ∀ (seg : Segment) (i : Item), seg.after i.bare = seg.after i := fun seg i => by
      cases i <;> rfl
    unfold Textual
    rwa [List.foldl_map, funext₂ hafter]

theorem Machine.Delivers.finish {w : Word} {s s' : State} (h : Delivers items q w s s')
    (o : CodeOptions) : Delivers (o.finish items) (o.finish q) w s s' where
  reaches := reaches_finish.mpr h.reaches
  pc := (o.length_finish q).symm ▸ h.pc
  sp := h.sp
  top := h.top

end Comments

/-! ## Operators of truth values -/

namespace Exp.Gives

variable {ds : List Decl} {e : Exp} {σ σ' : Situation} {c : Bool}

theorem not (h : e.Gives ds σ (.word (Word.ofBool c)) σ') (i : Info) :
    (Exp.not i e).Gives ds σ (.word (Word.ofBool !c)) σ' := by
  obtain ⟨n, h⟩ := h
  dsimp only at h
  refine ⟨n, ?_⟩
  simp only [Run.exp, Course.word, Course.andThen, h]
  cases c <;> rfl

theorem and_true (h : e.Gives ds σ (.word (Word.ofBool c)) σ') (i j : Info) :
    (Exp.binary i .and e (.bool j true)).Gives ds σ (.word (Word.ofBool c)) σ' := by
  obtain ⟨n, h⟩ := h
  dsimp only at h
  refine ⟨n, ?_⟩
  simp only [Run.exp, Course.word, Course.andThen, h]
  cases c <;> rfl

theorem or_false (h : e.Gives ds σ (.word (Word.ofBool c)) σ') (i j : Info) :
    (Exp.binary i .or e (.bool j false)).Gives ds σ (.word (Word.ofBool c)) σ' := by
  obtain ⟨n, h⟩ := h
  dsimp only at h
  refine ⟨n, ?_⟩
  simp only [Run.exp, Course.word, Course.andThen, h]
  cases c <;> rfl

end Exp.Gives

/-! ## Runs -/

/-- The word stands for a value of the type that the formal is bound with. -/
def VarDecl.Admits (d : VarDecl) (w : Word) : Prop :=
  ∀ s t, d.name.binding = .bound (.storage s) → s.shape = .scalar t → t.Admits w

theorem FormalsTyped.admits {env env' : Env} {frame frame' : Frame} {ds : List VarDecl}
    {ts : List Ty} (h : FormalsTyped env frame ds ts env' frame') {ws : List Word}
    (hws : List.Forall₂ VarDecl.Admits ds ws) : List.Forall₂ Ty.Admits ts ws := by
  induction h generalizing ws with
  | nil =>
    cases hws
    exact .nil
  | cons hd _ hshape _ _ ih =>
    cases hws with
    | cons hw hws => exact .cons (hw _ _ hd.binding hshape) (ih hws)

section Images

variable {b : Image} {d : FnDecl} {input : List Word} {s : State} {e : Exp} {σ : Situation}

/-- The main function is called with truthful globals. -/
theorem Machine.Boots.poised (h : Boots b.items input s) (hfits : Fits b.items s)
    (hd : d ∈ Decl.functions b.decls) (hmain : d.name.name = "main")
    (hws : List.Forall₂ VarDecl.Admits d.formals.items (s.above d.formals.items.length)) :
    Poised b (.call "main" (s.above d.formals.items.length))
      ⟨Program.start { decls := b.decls } input, s.get .v0⟩ s := by
  obtain ⟨sig, htyped⟩ := b.typed.typedWithin rfl Env.sound_empty hd
  have hparams : List.Forall₂ Ty.Admits sig.params (s.above d.formals.items.length) := by
    obtain ⟨_, -, -, -, hf⟩ := htyped
    obtain ⟨_, _, _, hformals, -⟩ := hf.body
    exact hformals.admits hws
  exact .call hd hmain htyped hparams
    (b.typed.aligned_start (fun st _ => st.truthful_zero) input) (h.called hfits hmain)

/-- At the code of an expression whose type is that of truth values. -/
theorem Poised.delivers
    (htold : ∀ d ∈ Decl.functions b.decls, ∀ e ∈ Stmt.blockOperands d.body, e.Told)
    (h : Poised b (.exp e) σ s) (hfair : (Phrase.exp e).Fair b.decls σ)
    (htype : e.info.type = some .bool) :
    ∃ ls ls' code, Generate.exp ls e = .ok (code, ls') ∧ Sits b.items s.pc code ∧
      ∀ v σ', e.Gives b.decls σ v σ' → ∃ c : Bool, v = .word (Word.ofBool c) ∧
        ∃ s', Delivers b.items code (Word.ofBool c) s s' := by
  cases h with
  | @exp _ _ _ _ _ _ _ t ls ls' code h he htold' hcode hcoded =>
    refine ⟨ls, ls', code, hcode, hcoded.sits, fun v σ' hgives => ?_⟩
    obtain ⟨hservice, hadmits, w, s', hw, hafter, -⟩ :=
      h.run_exp (Image.trusts htold) he hfair hcode hcoded hgives
    cases (htold'.tells he).symm.trans htype
    cases v with
    | text => cases hservice
    | word w' =>
      cases hw
      obtain rfl | rfl := hadmits w rfl rfl
      · exact ⟨false, rfl, s', hafter.delivers⟩
      · exact ⟨true, rfl, s', hafter.delivers⟩

end Images

/-- The phrase is visited by the run that the call of the main function with the words is. -/
def Program.Visits (p : Program) (ws : List Word) (result : Word) (input : List Word)
    (phrase : Phrase) (σ : Situation) : Prop :=
  (Phrase.call "main" ws).Visits p.decls ⟨p.start input, result⟩ phrase σ

/-- All that the run visits is decent. -/
def Program.Fair (p : Program) (ws : List Word) (result : Word) (input : List Word) : Prop :=
  (Phrase.call "main" ws).Fair p.decls ⟨p.start input, result⟩

namespace Compilation

/-- In the program of an analysis the types of expressions are recorded. -/
theorem told_of_analyze {file : Option String} {source : String} {c : Compilation}
    (hc : analyze file source = .ok c) (herrors : c.hasErrors = false) {p : Program}
    (hp : c.program = some p) :
    ∀ d ∈ Decl.functions p.decls, ∀ e ∈ Stmt.blockOperands d.body, e.Told := by
  obtain ⟨p₁, hparse, hfault, rfl⟩ := analysis_of_analyze hc herrors
  cases hp
  exact Program.told_check ((Program.parse_formed hparse).total_check hfault _)

/-- If a run of a program without errors reads only zero and one into locations for truth values,
and the functions that it calls for their values return some, then the code of every expression of
that type that it evaluates leaves zero or one on the stack.  So the negation of the expression is
worth the opposite, and its conjunction with truth and its disjunction with falsehood are worth the
same as the expression alone.  The comparison of two texts has no meaning in the interpretation, so
nothing is said of it or of what a run evaluates after it, though its code, `seq` or `sne`, leaves
zero or one like that of any other comparison. -/
theorem emit_truthful {file : Option String} {source : String} {c : Compilation}
    (hc : analyze file source = .ok c) (herrors : c.hasErrors = false) (o : CodeOptions) :
    ∃ p items, c.program = some p ∧ (c.emit o).result = .ok items ∧
      ((∀ d ∈ p.decls, d.labelled? ≠ some "_start") →
        ∀ d ∈ p.functions, d.name.name = "main" →
          ∀ (input : List Word) (s : State), Boots items input s → Fits items s →
            List.Forall₂ VarDecl.Admits d.formals.items (s.above d.formals.items.length) →
            p.Fair (s.above d.formals.items.length) (s.get .v0) input →
            ∀ e σ, p.Visits (s.above d.formals.items.length) (s.get .v0) input (.exp e) σ →
              e.info.type = some .bool →
              ∃ ls ls' code s₁, Generate.exp ls e = .ok (code, ls') ∧ Reaches items s s₁ ∧
                Sits items s₁.pc (o.finish code) ∧
                ∀ v σ', e.Gives p.decls σ v σ' → ∃ t : Bool, v = .word (Word.ofBool t) ∧
                  (∃ s₂, Delivers items (o.finish code) (Word.ofBool t) s₁ s₂) ∧
                  (∀ i, (Exp.not i e).Gives p.decls σ (.word (Word.ofBool !t)) σ') ∧
                  (∀ i j, (Exp.binary i .and e (.bool j true)).Gives p.decls σ v σ') ∧
                  ∀ i j, (Exp.binary i .or e (.bool j false)).Gives p.decls σ v σ') := by
  obtain ⟨p, items, hp, hitems, -, himage⟩ := exists_image hc herrors o
  refine ⟨p, items, hp, hitems, ?_⟩
  intro hstart d hd hmain input s hboots hfits hws hfair e σ hvisits htype
  have htold := told_of_analyze hc herrors hp
  obtain ⟨b, hdecls, rfl⟩ := himage hstart
  have hinput : p.start input = Program.start { decls := b.decls } input := by
    rw [hdecls]
    rfl
  rw [boots_finish] at hboots
  rw [Program.Fair, hinput, ← hdecls] at hfair
  rw [Program.Visits, hinput, ← hdecls] at hvisits
  rw [← hdecls] at htold ⊢
  have hpoised := hboots.poised hfits.of_finish (hdecls ▸ hd) hmain hws
  obtain ⟨s₁, hreaches, hpoised₁⟩ := hpoised.visits htold hfair hvisits
  obtain ⟨ls, ls', code, hcode, hsits, hdelivers⟩ :=
    hpoised₁.delivers htold (hfair.visits hvisits) htype
  refine ⟨ls, ls', code, s₁, hcode, reaches_finish.mpr hreaches, hsits.finish o, ?_⟩
  intro v σ' hgives
  obtain ⟨t, rfl, s₂, hdelivers⟩ := hdelivers v σ' hgives
  exact ⟨t, rfl, ⟨s₂, hdelivers.finish o⟩, hgives.not, hgives.and_true, hgives.or_false⟩

set_option maxRecDepth 100000 in
/-- A truth value that was read is turned over. -/
theorem emit_truthful_of_negation :
    ∃ c p items, analyze none
        "void main() \x7b bool b; cin >> b; cout << !b; \x7d" = .ok c ∧
      c.hasErrors = false ∧ c.program = some p ∧ (c.emit {}).result = .ok items ∧
      (∀ d ∈ p.decls, d.labelled? ≠ some "_start") ∧
      Boots items [1] (boot items [1]) ∧ Fits items (boot items [1]) ∧
      ∃ d ∈ p.functions, d.name.name = "main" ∧
        List.Forall₂ VarDecl.Admits d.formals.items
          ((boot items [1]).above d.formals.items.length) ∧
        p.Fair ((boot items [1]).above d.formals.items.length) 0 [1] ∧
        ∃ e σ σ', p.Visits ((boot items [1]).above d.formals.items.length) 0 [1] (.exp e) σ ∧
          e.info.type = some .bool ∧ e.Gives p.decls σ (.word 0) σ' ∧
          ∃ code s₁ s₂, Reaches items (boot items [1]) s₁ ∧ Sits items s₁.pc code ∧
            Delivers items code 0 s₁ s₂ := by
  have hfacts : ∃ c p items, analyze none
        "void main() \x7b bool b; cin >> b; cout << !b; \x7d" = .ok c ∧
      c.hasErrors = false ∧ c.program = some p ∧ (c.emit {}).result = .ok items ∧
      (∀ d ∈ p.decls, d.labelled? ≠ some "_start") ∧
      ((load items).code.lookup "main").isSome = true ∧ fits? items 100 (boot items [1]) = true ∧
      ∃ d ∈ p.functions, d.name.name = "main" ∧
        List.Forall₂ VarDecl.Admits d.formals.items
          ((boot items [1]).above d.formals.items.length) ∧
        p.Fair ((boot items [1]).above d.formals.items.length) 0 [1] ∧
        ∃ e σ σ', p.Visits ((boot items [1]).above d.formals.items.length) 0 [1] (.exp e) σ ∧
          e.info.type = some .bool ∧ e.Gives p.decls σ (.word 0) σ' := by
    refine ⟨?c, ?p, ?items, ?hc, ?herrors, ?hp, ?hitems, ?hstart, ?hmain, ?hfits, ?hruns⟩
    case hc | hitems => cbv; rfl
    case herrors | hp => rfl
    case hstart => decide
    case hmain | hfits => decide +kernel
    case hruns =>
      refine ⟨_, .head _, rfl, .nil, ?_, _, _, _, .step (.body (.head _) rfl) (.step .block (.step
        (.rest ⟨0, rfl⟩) (.step .first (.step (.operand rfl) .refl)))), rfl, ⟨0, rfl⟩⟩
      -- the word that is read is one, and nothing is called
      refine .intro trivial fun _ _ h => ?_
      cases h with
      | body hd _ =>
      cases List.mem_singleton.mp hd
      refine .intro trivial fun _ _ h => ?_
      cases h
      refine .intro trivial fun _ _ h => ?_
      cases h with
      | first =>
        refine .intro ?_ fun _ _ h => ?_
        · intro _ w hw
          cases hw
          exact .inr rfl
        · cases h <;> contradiction
      | rest hrun =>
        obtain ⟨n, hrun⟩ := hrun
        cases hrun
        refine .intro trivial fun _ _ h => ?_
        cases h with
        | first =>
          refine .intro trivial fun _ _ h => ?_
          cases h with
          | operand he =>
            cases he
            refine .intro trivial fun _ _ h => ?_
            cases h with
            | exp henters =>
              cases henters
              refine .intro trivial fun _ _ h => ?_
              cases h with
              | exp henters => cases henters
          | chosen _ _ hbody => cases hbody
        | rest =>
          refine .intro trivial fun _ _ h => ?_
          cases h
  obtain ⟨c, p, items, hc, herrors, hp, hitems, hstart, hmain, hfits, d, hd, hname, hws, hfair, e,
    σ, σ', hvisits, htype, hgives⟩ := hfacts
  have hboots := boots_boot hmain [1]
  obtain ⟨p', items', hp', hitems', h⟩ := emit_truthful hc herrors {}
  cases hp.symm.trans hp'
  cases hitems.symm.trans hitems'
  obtain ⟨_, _, code, s₁, -, hreaches, hsits, hdelivers⟩ :=
    h hstart d hd hname [1] _ hboots (fits_of_fits? hfits) hws hfair e σ hvisits htype
  obtain ⟨t, ht, ⟨s₂, hdelivers⟩, -⟩ := hdelivers _ _ hgives
  rw [← Value.word.inj ht] at hdelivers
  exact ⟨c, p, items, hc, herrors, hp, hitems, hstart, hboots, fits_of_fits? hfits, d, hd, hname,
    hws, hfair, e, σ, σ', hvisits, htype, hgives, _, s₁, s₂, hreaches, hsits, hdelivers⟩

set_option maxRecDepth 100000 in
/-- Two is read for a truth value, and stays two.  It is true, its negation is three, and so true as
well, and its conjunction with truth is zero. -/
theorem emit_of_read :
    ∃ c p items, analyze none
        "void main() \x7b bool b; cin >> b; cout << b; cout << !b; cout << (b && true); \x7d" =
          .ok c ∧
      c.hasErrors = false ∧ c.program = some p ∧ (c.emit {}).result = .ok items ∧
      (∀ d ∈ p.decls, d.labelled? ≠ some "_start") ∧
      Boots items [2] (boot items [2]) ∧ Fits items (boot items [2]) ∧
      ∃ t, Reaches items (boot items [2]) t ∧ Halted items t ∧ t.events =
        [.taken 2, .printed (.word 2), .printed (.word 3), .printed (.word 0)] := by
  refine ⟨?c, ?p, ?items, ?hc, ?herrors, ?hp, ?hitems, ?hstart, boots_boot ?hmain [2],
    fits_of_fits? (n := 100) ?hfits, exits_of_run? (n := 60) ?hrun⟩
  case hc | hitems => cbv; rfl
  case herrors | hp => rfl
  case hstart => decide
  case hmain | hfits => decide +kernel
  case hrun => decide +kernel

end Compilation

end CMinusMinus
