import CMinusMinus.Proofs.Generation.Declarations
import CMinusMinus.Proofs.Generation.Parts
import CMinusMinus.Proofs.Machine.Code

/-!
# String constants

String constants stand between pieces of code, which goes on after them.  The ones that code
generation remembers are among the items, so a label that is shared leads to its text
(`constants_exp`, `constants_block`, `function_of_decls`).
-/

namespace CMinusMinus

open Asm Machine

/-- The code leaves off among code, and the constants that are remembered after it are those that
were remembered before and ones that it has. -/
structure Constants (before : List (String × String)) (q : List Item)
    (after : List (String × String)) : Prop where
  textual : Textual q
  mem : ∀ c ∈ after, c ∈ before ∨ stringConstant c.2 c.1 <:+: q

namespace Constants

variable {before between after : List (String × String)} {q r : List Item}

/-- Code without constants. -/
theorem none (h : Textual q) : Constants before q before := ⟨h, fun _ => .inl⟩

theorem append (hq : Constants before q between) (hr : Constants between r after) :
    Constants before (q ++ r) after := by
  refine ⟨hq.textual.append hr.textual, fun c hc => ?_⟩
  rcases hr.mem c hc with hc | hc
  · exact (hq.mem c hc).imp id fun h => h.trans (List.prefix_append q r).isInfix
  · exact .inr (hc.trans (List.suffix_append q r).isInfix)

theorem code (hq : Constants before q after) (hr : Textual r) : Constants before (q ++ r) after :=
  hq.append (.none hr)

end Constants

/-- The constants are among the items. -/
def Known (items : List Item) (cs : List (String × String)) : Prop :=
  ∀ c ∈ cs, stringConstant c.2 c.1 <:+: items

theorem Known.after {items q : List Item} {before after : List (String × String)}
    (h : Known items before) (hq : Constants before q after) (hitems : q <:+: items) :
    Known items after :=
  fun c hc => (hq.mem c hc).elim (h c) fun hmem => hmem.trans hitems

namespace Generate

/-! ## Expressions -/

theorem constants_combine {op : BinOp} {span : Option Span} {ls ls' : Labels} {q : List Item}
    (h : combine op span ls = .ok (q, ls')) : Constants ls.strings q ls'.strings := by
  cases op with
  | other => cases h
  | _ =>
    cases h
    exact .none rfl

theorem constants_constant (ls : Labels) (text : String) :
    Constants ls.strings (ls.constant text).2.1 (ls.constant text).2.2.strings := by
  rw [Labels.constant]
  split
  · exact .none rfl
  · refine ⟨rfl, fun c hc => ?_⟩
    rcases List.mem_cons.mp hc with rfl | hc
    · exact .inr List.infix_rfl
    · exact .inl hc

theorem textual_address {e : Exp} {q : List Item} (h : address e = .ok q) : Textual q := by
  obtain ⟨root, offset, s, operand, -, -, rfl⟩ := address_eq_ok.mp h
  split <;> rfl

theorem textual_load {x : Ident} {q : List Item} (h : load x = .ok q) : Textual q := by
  obtain ⟨s, operand, t, -, -, rfl⟩ := load_eq_ok.mp h
  rfl

mutual

/-- The constants in the code of an expression. -/
theorem constants_exp : ∀ {e : Exp} {ls ls' : Labels} {q : List Item},
    exp ls e = .ok (q, ls') → Constants ls.strings q ls'.strings
  | .int .., ls, ls', q, h | .bool .., ls, ls', q, h => by
    cases h
    exact .none rfl
  | .string i text, ls, ls', q, h => by
    cases h
    exact ((constants_constant ls text).code (by rfl)).code (by rfl)
  | .ident x, ls, ls', q, h => by
    cases exp_eq_ok.mp h with
    | ident hcode => exact .none (textual_load hcode)
  | .access i link loc f, ls, ls', q, h => by
    cases exp_eq_ok.mp h with
    | access haddr =>
      exact ((Constants.none (textual_address haddr)).code (by rfl)).code (by rfl)
  | .assign i l r, ls, ls', q, h => by
    cases exp_eq_ok.mp h with
    | assign hvalue haddr =>
      have haddr := (constants_exp hvalue).code (textual_address haddr)
      exact ((haddr.code (by rfl)).code (by rfl)).code (by rfl)
  | .call i f sp args, ls, ls', q, h => by
    cases exp_eq_ok.mp h with
    | call hvalues => exact ((constants_exps hvalues).code (by rfl)).code (by rfl)
  | .neg i e, ls, ls', q, h => by
    cases exp_eq_ok.mp h with
    | neg hvalue => exact (((constants_exp hvalue).code (by rfl)).code (by rfl)).code (by rfl)
  | .not i e, ls, ls', q, h => by
    cases exp_eq_ok.mp h with
    | not hvalue => exact (((constants_exp hvalue).code (by rfl)).code (by rfl)).code (by rfl)
  | .binary i op l r, ls, ls', q, h => by
    cases exp_eq_ok.mp h with
    | binary hright hleft hresult =>
      have hoperands := (constants_exp hright).append (constants_exp hleft)
      exact ((hoperands.code (by rfl)).code (by rfl)).append (constants_combine hresult)
  | .unknown _, ls, ls', q, h => by cases h

theorem constants_exps : ∀ {es : List Exp} {ls ls' : Labels} {q : List Item},
    exps ls es = .ok (q, ls') → Constants ls.strings q ls'.strings
  | [], ls, ls', q, h => by
    cases h
    exact .none rfl
  | e :: es, ls, ls', q, h => by
    obtain ⟨first, ls₁, rest, hfirst, hrest, rfl⟩ := exps_cons_eq_ok.mp h
    exact (constants_exp hfirst).append (constants_exps hrest)

end

/-! ## Statements -/

theorem textual_step {op : Opcode} {e : Exp} {q : List Item} (h : step op e = .ok q) :
    Textual q := by
  obtain ⟨addr, haddr, rfl⟩ := step_eq_ok.mp h
  have hcode : Constants [] (addr ++ loadWord .t1 (.indexed .t0 0) ++ op3 op .t1 .t1 (.imm 1)
      ++ storeWord .t1 (.indexed .t0 0)) [] :=
    (((Constants.none (textual_address haddr)).code (by rfl)).code (by rfl)).code (by rfl)
  exact hcode.textual

mutual

/-- The constants in the code of a statement. -/
theorem constants_stmt {fn : String} : ∀ {s : Stmt} {ls ls' : Labels} {q : List Item},
    stmt fn ls s = .ok (q, ls') → Constants ls.strings q ls'.strings
  | .assign _ e, ls, ls', q, h => by
    cases stmt_eq_ok.mp h with
    | assign hcode => exact (constants_exp hcode).code (by rfl)
  | .call _ e, ls, ls', q, h => by
    cases stmt_eq_ok.mp h with
    | call hcode => exact (constants_exp hcode).code (by rfl)
  | .increment _ e, ls, ls', q, h => by
    cases stmt_eq_ok.mp h with
    | increment hcode => exact .none (textual_step hcode)
  | .decrement _ e, ls, ls', q, h => by
    cases stmt_eq_ok.mp h with
    | decrement hcode => exact .none (textual_step hcode)
  | .read _ e, ls, ls', q, h => by
    cases stmt_eq_ok.mp h with
    | read haddr =>
      have hfront : Constants ls.strings (syscall Asm.Service.readInt.number (some "read int"))
        ls.strings := .none rfl
      exact (hfront.code (textual_address haddr)).code (by rfl)
  | .write _ e, ls, ls', q, h => by
    cases stmt_eq_ok.mp h with
    | write hcode => exact ((constants_exp hcode).code (by rfl)).code (by rfl)
  | .ifThen _ e b, ls, ls', q, h => by
    cases stmt_eq_ok.mp h with
    | ifThen hcond hbody =>
      exact (((constants_exp hcond).code (by rfl)).append (constants_block hbody)).code (by rfl)
  | .ifElse _ e b₁ b₂, ls, ls', q, h => by
    cases stmt_eq_ok.mp h with
    | ifElse hcond hyes hno =>
      have hcond := constants_exp hcond
      have hyes := constants_block hyes
      have hno := constants_block hno
      exact (((((hcond.code (by rfl)).append hyes).code (by rfl)).code (by rfl)).append hno).code
        (by rfl)
  | .while _ e b, ls, ls', q, h => by
    cases stmt_eq_ok.mp h with
    | «while» hcond hbody =>
      have htop : Constants ls.strings (label ls.fresh.1 (some "loop top")) ls.strings := .none rfl
      have hcond := constants_exp hcond
      have hbody := constants_block hbody
      exact ((((htop.append hcond).code (by rfl)).append hbody).code (by rfl)).code (by rfl)
  | .return _ none, ls, ls', q, h => by
    cases h
    exact .none rfl
  | .return _ (some e), ls, ls', q, h => by
    cases stmt_eq_ok.mp h with
    | «return» hcode => exact ((constants_exp hcode).code (by rfl)).code (by rfl)
  | .unknown _, ls, ls', q, h => by cases h

theorem constants_block {fn : String} : ∀ {b : Block Stmt} {ls ls' : Labels} {q : List Item},
    block fn ls b = .ok (q, ls') → Constants ls.strings q ls'.strings
  | ⟨_, _, ss⟩, ls, ls', q, h => by
    rw [block] at h
    exact constants_stmts h

theorem constants_stmts {fn : String} : ∀ {ss : List Stmt} {ls ls' : Labels} {q : List Item},
    stmts fn ls ss = .ok (q, ls') → Constants ls.strings q ls'.strings
  | [], ls, ls', q, h => by
    cases h
    exact .none rfl
  | s :: ss, ls, ls', q, h => by
    obtain ⟨first, ls₁, rest, hfirst, hrest, rfl⟩ := stmts_cons_eq_ok.mp h
    exact (constants_stmt hfirst).append (constants_stmts hrest)

end

/-! ## Declarations -/

theorem textual_functionEntry (name : String) (isMain : Bool) :
    Textual (functionEntry name isMain) := by
  cases isMain <;> rfl

theorem textual_prologue (formals locals : Int) : Textual (prologue formals locals) := by
  unfold prologue
  split <;> rfl

theorem textual_epilogue (exit : String) (formals : Int) (isMain : Bool) :
    Textual (epilogue exit formals isMain) := by
  cases isMain <;> rfl

/-- The constants in the code of a function. -/
theorem constants_function {d : FnDecl} {frame : Frame} {ls ls' : Labels} {q : List Item}
    (h : function d frame ls = .ok (q, ls')) : Constants ls.strings q ls'.strings := by
  obtain ⟨body, hbody, rfl⟩ := function_eq_ok.mp h
  have hfront : Constants ls.strings (functionEntry (functionLabel d.name.name)
      (d.name.name == "main") ++ prologue frame.formals frame.locals) ls.strings :=
    .none ((textual_functionEntry _ _).append (textual_prologue _ _))
  exact (hfront.append (constants_block hbody)).code (textual_epilogue _ _ _)

/-- The code of a function is a piece of the code of the declarations, and the constants that are
remembered before it are among the items. -/
theorem function_of_decls {items : List Item} {ds : List Decl} {ls : Labels}
    {current current' : Option String} {q : List Item} (hq : q <:+: items)
    (hknown : Known items ls.strings) (h : decls ls current ds = .ok (q, current')) {d : FnDecl}
    (hd : d ∈ Decl.functions ds) :
    ∃ frame ls₁ ls₂ code before after, d.frame = some frame ∧
      function d frame ls₁ = .ok (code, ls₂) ∧ Known items ls₁.strings ∧
      q = before ++ (code ++ after) := by
  induction ds generalizing ls current q with
  | nil => cases hd
  | cons d' ds ih =>
    obtain ⟨code', ls', current₁, rest, hcode', hrest, rfl⟩ := decls_cons h
    have hfirst : code' <:+: items := (List.prefix_append _ _).isInfix.trans hq
    have htail : Known items ls'.strings → d ∈ Decl.functions ds → ∃ frame ls₁ ls₂ code before
        after, d.frame = some frame ∧ function d frame ls₁ = .ok (code, ls₂) ∧
          Known items ls₁.strings ∧ code' ++ rest = before ++ (code ++ after) := by
      intro hknown' hd
      obtain ⟨frame, ls₁, ls₂, code, before, after, hframe, hcode, hls, rfl⟩ :=
        ih ((List.suffix_append _ _).isInfix.trans hq) hknown' hrest hd
      exact ⟨frame, ls₁, ls₂, code, code' ++ before, after, hframe, hcode, hls,
        (List.append_assoc _ _ _).symm⟩
    cases hcode' with
    | var | struct => exact htail hknown hd
    | fn hframe hcode =>
      rcases List.mem_cons.mp hd with rfl | hd
      · exact ⟨_, ls, ls', code', [], rest, hframe, hcode, hknown, rfl⟩
      · exact htail (hknown.after (constants_function hcode) hfirst) hd

end Generate

end CMinusMinus
