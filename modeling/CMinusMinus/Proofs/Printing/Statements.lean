import CMinusMinus.Proofs.Printing.Expressions

/-!
# Printed statements

Printed declarations and statements are cut into tokens that derive their forms, whatever comes
after them: each ends with a semicolon or a brace and the end of its line (`Stmt.prints`).
-/

namespace CMinusMinus

open Grammar
open Token (Prints WordEnds wordEnds_cons Blank)

/-! ## Lines -/

/-- The lines as text, each with its line end. -/
def Token.lines (ls : List String) : List Char := ls.flatMap fun l => l.toList ++ ['\n']

open Token (lines)

namespace Token

variable {P Q : List Token → Prop} {rest : List Char} {text : String} {ls ms : List String}

theorem lines_cons (l : String) (ls : List String) :
    lines (l :: ls) = l.toList ++ '\n' :: lines ls := by
  simp [lines]

theorem lines_append (ls ms : List String) : lines (ls ++ ms) = lines ls ++ lines ms :=
  List.flatMap_append

theorem toList_indented (depth : Nat) (text : String) :
    (indented depth text).toList = List.replicate (4 * depth) ' ' ++ text.toList := by
  rw [indented, String.toList_append, String.toList_ofList]

theorem blank_replicate (n : Nat) : Blank (List.replicate n ' ') := by
  intro c hc
  rw [List.eq_of_mem_replicate hc]
  decide

/-- A line in a block and the lines after it. -/
theorem Prints.line (depth : Nat) (h : Prints text.toList ('\n' :: (lines ls ++ rest)) P)
    (hnext : ∀ us, P us → Prints (lines ls) rest fun vs => Q (us ++ vs)) :
    Prints (lines (indented depth text :: ls)) rest Q := by
  rw [lines_cons, toList_indented, List.append_assoc]
  exact .blank (blank_replicate _) (h.bind fun us hus => .newline (hnext us hus))

/-- Text in a block up to the end of its last line. -/
theorem Prints.inBlock {cs : List Char} (depth : Nat) (h : ∀ rest, Prints cs rest P) :
    Prints (List.replicate (4 * depth) ' ' ++ (cs ++ ['\n'])) rest P := by
  refine .blank (blank_replicate _) ((h _).bind fun us hus => .newline (.nil ?_))
  rwa [List.append_nil]

/-- A line by itself. -/
theorem Prints.lastLine {cs : List Char} (depth : Nat) (hcs : text.toList = cs)
    (h : ∀ rest, Prints cs rest P) : Prints (lines [indented depth text]) rest P := by
  have hlines : lines [indented depth text]
      = List.replicate (4 * depth) ' ' ++ (cs ++ ['\n']) := by
    simp [lines, toList_indented, hcs]
  rw [hlines]
  exact .inBlock depth h

end Token

/-! ## Variables -/

/-- A word type is printed as its keyword. -/
theorem TypeNode.prints_word {t : TypeNode} (h : t.isWordType = true) {ds rest : List Char}
    {P : List Token → Prop} (hrest : WordEnds (ds ++ rest))
    (hnext : ∀ u, WordType u t.form → Prints ds rest fun ts => P (u :: ts)) :
    Prints (t.source.toList ++ ds) rest P := by
  cases t with
  | int => exact Prints.keyword .int hrest fun u hu => hnext u (.int hu)
  | bool => exact Prints.keyword .bool hrest fun u hu => hnext u (.bool hu)
  | void => exact Prints.keyword .void hrest fun u hu => hnext u (.void hu)
  | struct => cases h
  | unknown => cases h

namespace VarDecl

theorem toList_source (d : VarDecl) :
    d.source.toList = d.type.source.toList ++ ' ' :: d.name.name.toList := by
  simp [source]

/-- A printed variable. -/
theorem prints {d : VarDecl} (h : d.Formed) (rest : List Char) :
    Prints (d.source ++ ";").toList rest fun ts => Variable ts d.form := by
  obtain ⟨role, span, type, name⟩ := d
  obtain ⟨rfl, htype, hname⟩ := h
  have hword : ∀ {t : TypeNode}, t.isWordType = true → ∀ rest,
      Prints (t.source.toList ++ (' ' :: (name.name.toList ++ [';']))) rest fun ts =>
        Variable ts ⟨.variable, none, t.form, name.form⟩ := by
    intro t ht rest
    refine TypeNode.prints_word ht (wordEnds_cons (by decide) _) fun u hu => .space ?_
    refine Prints.name hname (wordEnds_cons (by decide) _) fun x hx htext => ?_
    refine Prints.mark (m := .semi) rfl rfl fun v hv => .nil ?_
    have hvariable := Variable.word hu hx hv
    rwa [identOf, htext] at hvariable
  have hcs : (VarDecl.source ⟨.variable, span, type, name⟩ ++ ";").toList
      = type.source.toList ++ (' ' :: (name.name.toList ++ [';'])) := by
    simp [source]
  rw [hcs]
  cases type with
  | int => exact hword rfl rest
  | bool => exact hword rfl rest
  | void => exact hword rfl rest
  | struct sp s =>
    have hstruct : (TypeNode.struct sp s).source.toList ++ (' ' :: (name.name.toList ++ [';']))
        = Keyword.struct.text.toList ++ (' ' :: (s.name.toList ++
            (' ' :: (name.name.toList ++ [';'])))) := by
      simp [TypeNode.source, Keyword.text]
    rw [hstruct]
    refine Prints.keyword .struct (wordEnds_cons (by decide) _) fun t ht => .space ?_
    refine Prints.name htype (wordEnds_cons (by decide) _) fun u hu hs => .space ?_
    refine Prints.name hname (wordEnds_cons (by decide) _) fun x hx htext => ?_
    refine Prints.mark (m := .semi) rfl rfl fun v hv => .nil ?_
    have hvariable := Variable.struct ht hu hx hv
    rwa [identOf, identOf, hs, htext] at hvariable
  | unknown => exact htype.elim

/-- Printed variables, one on a line. -/
theorem prints_lines (depth : Nat) {ds : List VarDecl} (h : ∀ d ∈ ds, d.Formed)
    (rest : List Char) :
    Prints (lines (ds.map fun d => indented depth (d.source ++ ";"))) rest fun ts =>
      Variables ts (ds.map VarDecl.form) := by
  induction ds generalizing rest with
  | nil => exact .nil .nil
  | cons d ds ih =>
    obtain ⟨hd, hds⟩ := List.forall_mem_cons.mp h
    refine Prints.line depth (prints hd _) fun us hus => ?_
    exact (ih hds rest).mono fun vs hvs => .cons hus hvs

/-- A printed formal. -/
theorem prints_formal {d : VarDecl} (h : d.FormedFormal) {ds rest : List Char}
    {P : List Token → Prop} (hrest : WordEnds (ds ++ rest))
    (hnext : ∀ t x : Token, WordType t d.type.form → x.kind = .name → identOf x = d.name.form →
      Prints ds rest fun ts => P (t :: x :: ts)) :
    Prints (d.source.toList ++ ds) rest P := by
  rw [toList_source, List.append_assoc]
  refine TypeNode.prints_word h.type (wordEnds_cons (by decide) _) fun t ht => .space ?_
  refine Prints.name h.name hrest fun x hx htext => hnext t x ht hx ?_
  rw [identOf, htext, Ident.form]

/-- Printed formals. -/
theorem prints_formals : {ds : List VarDecl} → (∀ d ∈ ds, d.FormedFormal) → (rest : List Char) →
    WordEnds rest → Prints ([',', ' '].intercalate ((ds.map source).map String.toList)) rest
      fun ts => Formals ts (ds.map VarDecl.form)
  | [], _, _, _ => .nil .none
  | [d], h, rest, hrest => by
    have hd := h d (List.mem_singleton.mpr rfl)
    rw [List.map_singleton, List.map_singleton, List.intercalate_singleton,
      ← List.append_nil d.source.toList]
    refine prints_formal hd hrest fun t x ht hx hname => .nil (.some ?_)
    have hlast := FormalList.last ht hx
    rwa [hname, ← hd.role] at hlast
  | d :: d' :: ds, h, rest, hrest => by
    obtain ⟨hd, hds⟩ := List.forall_mem_cons.mp h
    rw [List.map_cons, List.map_cons, List.map_cons, List.map_cons, List.intercalate_cons_cons,
      List.append_assoc]
    refine prints_formal hd (wordEnds_cons (by decide) _) fun t x ht hx hname => ?_
    refine Prints.mark (m := .comma) rfl rfl fun u hu => .space ?_
    refine (prints_formals hds rest hrest).mono fun vs hvs => ?_
    cases hvs with
    | some hvs =>
      have hcons := FormalList.cons ht hx hu hvs
      rw [hname, ← hd.role] at hcons
      exact .some hcons

end VarDecl

/-! ## Statements -/

namespace Stmt

variable {e : Exp} {P : List Token → Prop}

/-- The expression is formed and its literals can be written. -/
def ReadyExp (e : Exp) : Prop := e.Formed ∧ ∀ x ∈ e.expressions, x.Writable

theorem toList_semi (e : Exp) (top : Bool) :
    (e.source top ++ ";").toList = (e.source top).toList ++ [';'] := by
  simp

/-- An expression before a semicolon. -/
theorem prints_semi {top : Bool} (h : ReadyExp e) (rest : List Char)
    (hP : ∀ (us : List Token) (u : Token), e.Printed top us → u.kind = .mark .semi →
      P (us ++ [u])) :
    Prints ((e.source top).toList ++ [';']) rest P := by
  refine (e.prints top h.1 h.2 _ (wordEnds_cons (by decide) _)).bind fun us hus => ?_
  exact Prints.mark (m := .semi) rfl rfl fun u hu => .nil (hP us u hus hu)

/-- A location before an operator and a semicolon. -/
theorem prints_step {m : Mark} {c : Char} (hm : [c, c] = m.spelling) (hsolid : Token.solid m = true)
    (hc : Token.continuesName c = false) (h : ReadyExp e) (rest : List Char)
    (hP : ∀ (us : List Token) (t u : Token), e.Printed false us → t.kind = .mark m →
      u.kind = .mark .semi → P (us ++ [t, u])) :
    Prints ((e.source false).toList ++ [c, c, ';']) rest P := by
  refine (e.prints false h.1 h.2 _ (wordEnds_cons hc _)).bind fun us hus => ?_
  refine Prints.markPair hm hsolid fun t ht => ?_
  exact Prints.mark (m := .semi) rfl rfl fun u hu => .nil (hP us t u hus ht hu)

/-- The lines of a block, its braces included, after whatever its first line begins with. -/
def bracesText (depth : Nat) (b : Block Stmt) : List Char :=
  '{' :: '\n' :: (lines (blockSource (depth + 1) b) ++ (List.replicate (4 * depth) ' ' ++ ['}']))

/-- A condition in parentheses and the lines of a block. -/
def conditionText (depth : Nat) (e : Exp) (b : Block Stmt) : List Char :=
  '(' :: ((e.source true).toList ++ ')' :: ' ' :: bracesText depth b)

/-- What a printed block derives between its braces. -/
def BlockPrinted (b : Block Stmt) (ts : List Token) : Prop :=
  ∃ us vs, ts = us ++ vs ∧ Variables us (b.decls.items.map VarDecl.form) ∧
    Statements vs (listForm b.stmts)

/-- What a printed condition with its block derives. -/
def ConditionPrinted (e : Exp) (b : Block Stmt) (ts : List Token) : Prop :=
  ∃ p q us vs, ts = p :: us ++ q :: vs ∧ p.kind = .mark .leftParen ∧ Derives .exp us e.form ∧
    q.kind = .mark .rightParen ∧ Braces vs (blockForm b)

theorem prints_braces {depth : Nat} {b : Block Stmt}
    (h : ∀ rest, Prints (lines (blockSource (depth + 1) b)) rest (BlockPrinted b))
    (rest : List Char) : Prints (bracesText depth b) rest fun ts => Braces ts (blockForm b) := by
  obtain ⟨ds, sp, ss⟩ := b
  refine Prints.mark (m := .leftCurly) rfl rfl fun p hp => .newline ?_
  refine (h _).bind fun us hus => .blank (Token.blank_replicate _) ?_
  refine Prints.mark (m := .rightCurly) rfl rfl fun q hq => .nil ?_
  obtain ⟨vs, ws, rfl, hvs, hws⟩ := hus
  exact .intro hp hvs hws hq

/-- A condition in parentheses and a block. -/
theorem prints_condition {depth : Nat} {b : Block Stmt} (he : ReadyExp e)
    (hb : ∀ rest, Prints (lines (blockSource (depth + 1) b)) rest (BlockPrinted b))
    (rest : List Char) : Prints (conditionText depth e b) rest (ConditionPrinted e b) := by
  refine Prints.mark (m := .leftParen) rfl rfl fun p hp => ?_
  refine (e.prints true he.1 he.2 _ (wordEnds_cons (by decide) _)).bind fun us hus => ?_
  refine Prints.mark (m := .rightParen) rfl rfl fun q hq => .space ?_
  exact (prints_braces hb rest).mono fun vs hvs => ⟨p, q, us, vs, rfl, hp, hus.exp, hq, hvs⟩

theorem lines_ifThen (depth : Nat) (sp : Option Span) (e : Exp) (b : Block Stmt) :
    lines (source depth (.ifThen sp e b))
      = List.replicate (4 * depth) ' ' ++
          (Keyword.if.text.toList ++ ' ' :: conditionText depth e b ++ ['\n']) := by
  simp [source, lines, Token.toList_indented, bracesText, conditionText, Keyword.text]

theorem lines_while (depth : Nat) (sp : Option Span) (e : Exp) (b : Block Stmt) :
    lines (source depth (.while sp e b))
      = List.replicate (4 * depth) ' ' ++
          (Keyword.while.text.toList ++ ' ' :: conditionText depth e b ++ ['\n']) := by
  simp [source, lines, Token.toList_indented, bracesText, conditionText, Keyword.text]

theorem lines_ifElse (depth : Nat) (sp : Option Span) (e : Exp) (b₁ b₂ : Block Stmt) :
    lines (source depth (.ifElse sp e b₁ b₂))
      = List.replicate (4 * depth) ' ' ++
          (Keyword.if.text.toList ++ ' ' :: (conditionText depth e b₁ ++
            ('\n' :: (List.replicate (4 * depth) ' ' ++ (Keyword.else.text.toList ++
              ' ' :: bracesText depth b₂)))) ++ ['\n']) := by
  simp [source, lines, Token.toList_indented, bracesText, conditionText, Keyword.text]

theorem acts_assign {e : Exp} (h : e.isAssignment = true) : Acts e.form (.assign none e.form) := by
  cases e with
  | assign => exact .assign
  | _ => cases h

theorem acts_call {e : Exp} (h : e.isCall = true) : Acts e.form (.call none e.form) := by
  cases e with
  | call => exact .call
  | _ => cases h

mutual

/-- A printed statement is cut into tokens that derive its form. -/
theorem prints : (depth : Nat) → (s : Stmt) → s.Formed → (∀ x ∈ s.expressions, x.Writable) →
    ∀ rest, Prints (lines (s.source depth)) rest fun ts => Statement ts s.form
  | depth, .assign sp e, h, hwritable, rest => by
    refine Prints.lastLine depth (toList_semi e true) fun rest => ?_
    refine prints_semi ⟨h.2, hwritable⟩ rest fun us u hus hu => ?_
    exact .act hus.exp (acts_assign h.1) hu
  | depth, .call sp e, h, hwritable, rest => by
    refine Prints.lastLine depth (toList_semi e false) fun rest => ?_
    refine prints_semi ⟨h.2, hwritable⟩ rest fun us u hus hu => ?_
    exact .act hus.exp (acts_call h.1) hu
  | depth, .increment sp e, h, hwritable, rest => by
    have hcs : (e.source false ++ "++;").toList = (e.source false).toList ++ ['+', '+', ';'] := by
      simp
    refine Prints.lastLine depth hcs fun rest => ?_
    refine prints_step (m := .plusPlus) rfl rfl (by decide) ⟨h.2, hwritable⟩ rest ?_
    exact fun us t u hus ht hu => .increment hus.exp ((Parse.isLocation_form e).trans h.1) ht hu
  | depth, .decrement sp e, h, hwritable, rest => by
    have hcs : (e.source false ++ "--;").toList = (e.source false).toList ++ ['-', '-', ';'] := by
      simp
    refine Prints.lastLine depth hcs fun rest => ?_
    refine prints_step (m := .minusMinus) rfl rfl (by decide) ⟨h.2, hwritable⟩ rest ?_
    exact fun us t u hus ht hu => .decrement hus.exp ((Parse.isLocation_form e).trans h.1) ht hu
  | depth, .read sp e, h, hwritable, rest => by
    have hcs : ("cin >> " ++ e.source false ++ ";").toList = Keyword.cin.text.toList ++
        (' ' :: '>' :: '>' :: ' ' :: ((e.source false).toList ++ [';'])) := by
      simp [Keyword.text]
    refine Prints.lastLine depth hcs fun rest => ?_
    refine Prints.keyword .cin (wordEnds_cons (by decide) _) fun t ht => .space ?_
    refine Prints.markPair (m := .read) rfl rfl fun a ha => .space ?_
    exact prints_semi ⟨h.2, hwritable⟩ rest fun us u hus hu => .read ht ha (hus.loc h.1) hu
  | depth, .write sp e, h, hwritable, rest => by
    have hcs : ("cout << " ++ e.source true ++ ";").toList = Keyword.cout.text.toList ++
        (' ' :: '<' :: '<' :: ' ' :: ((e.source true).toList ++ [';'])) := by
      simp [Keyword.text]
    refine Prints.lastLine depth hcs fun rest => ?_
    refine Prints.keyword .cout (wordEnds_cons (by decide) _) fun t ht => .space ?_
    refine Prints.markPair (m := .write) rfl rfl fun a ha => .space ?_
    exact prints_semi ⟨h, hwritable⟩ rest fun us u hus hu => .write ht ha hus.exp hu
  | depth, .ifThen sp e b, h, hwritable, rest => by
    have hb := prints_block (depth + 1) b h.2 fun x hx => hwritable x (by simp [expressions, hx])
    rw [lines_ifThen]
    refine Prints.inBlock depth fun rest => ?_
    refine Prints.keyword .if (wordEnds_cons (by decide) _) fun t ht => .space ?_
    have he : ReadyExp e := ⟨h.1, fun x hx => hwritable x (by simp [expressions, hx])⟩
    refine (prints_condition he hb rest).mono ?_
    rintro _ ⟨p, q, us, vs, rfl, hp, hus, hq, hvs⟩
    exact .ifThen ht hp hus hq hvs
  | depth, .ifElse sp e b₁ b₂, h, hwritable, rest => by
    have hb₁ := prints_block (depth + 1) b₁ h.2.1
      fun x hx => hwritable x (by simp [expressions, hx])
    have hb₂ := prints_block (depth + 1) b₂ h.2.2
      fun x hx => hwritable x (by simp [expressions, hx])
    rw [lines_ifElse]
    refine Prints.inBlock depth fun rest => ?_
    refine Prints.keyword .if (wordEnds_cons (by decide) _) fun t ht => .space ?_
    have he : ReadyExp e := ⟨h.1, fun x hx => hwritable x (by simp [expressions, hx])⟩
    refine (prints_condition he hb₁ _).bind ?_
    rintro _ ⟨p, q, us, vs, rfl, hp, hus, hq, hvs⟩
    refine .newline (.blank (Token.blank_replicate _) ?_)
    refine Prints.keyword .else (wordEnds_cons (by decide) _) fun v hv => .space ?_
    refine (prints_braces hb₂ rest).mono fun ws hws => ?_
    exact .ifElse ht hp hus hq hvs hv hws
  | depth, .while sp e b, h, hwritable, rest => by
    have hb := prints_block (depth + 1) b h.2 fun x hx => hwritable x (by simp [expressions, hx])
    rw [lines_while]
    refine Prints.inBlock depth fun rest => ?_
    refine Prints.keyword .while (wordEnds_cons (by decide) _) fun t ht => .space ?_
    have he : ReadyExp e := ⟨h.1, fun x hx => hwritable x (by simp [expressions, hx])⟩
    refine (prints_condition he hb rest).mono ?_
    rintro _ ⟨p, q, us, vs, rfl, hp, hus, hq, hvs⟩
    exact .while ht hp hus hq hvs
  | depth, .return sp none, _, _, rest => by
    have hcs : "return;".toList = Keyword.return.text.toList ++ [';'] := by
      simp [Keyword.text]
    refine Prints.lastLine depth hcs fun rest => ?_
    refine Prints.keyword .return (wordEnds_cons (by decide) _) fun t ht => ?_
    exact Prints.mark (m := .semi) rfl rfl fun u hu => .nil (.exit ht hu)
  | depth, .return sp (some e), h, hwritable, rest => by
    have hcs : ("return " ++ e.source true ++ ";").toList = Keyword.return.text.toList ++
        (' ' :: ((e.source true).toList ++ [';'])) := by
      simp [Keyword.text]
    refine Prints.lastLine depth hcs fun rest => ?_
    refine Prints.keyword .return (wordEnds_cons (by decide) _) fun t ht => .space ?_
    exact prints_semi ⟨h, hwritable⟩ rest fun us u hus hu => .return ht hus.exp hu
  | _, .unknown _, h, _, _ => h.elim
termination_by structural _ s => s

/-- What is printed between the braces of a block. -/
theorem prints_block : (depth : Nat) → (b : Block Stmt) → BlockFormed b →
    (∀ x ∈ blockExpressions b, x.Writable) →
    ∀ rest, Prints (lines (blockSource depth b)) rest (BlockPrinted b)
  | depth, ⟨ds, sp, ss⟩, h, hwritable, rest => by
    have hss := prints_list depth ss h.2 fun x hx => hwritable x (by simp [blockExpressions, hx])
    rw [blockSource, Token.lines_append]
    refine (VarDecl.prints_lines depth h.1 _).bind fun us hus => ?_
    exact (hss rest).mono fun vs hvs => ⟨us, vs, rfl, hus, hvs⟩
termination_by structural _ b => b

/-- Printed statements. -/
theorem prints_list : (depth : Nat) → (ss : List Stmt) → AllFormed ss →
    (∀ x ∈ listExpressions ss, x.Writable) →
    ∀ rest, Prints (lines (sources depth ss)) rest fun ts => Statements ts (listForm ss)
  | _, [], _, _, _ => .nil .nil
  | depth, s :: ss, h, hwritable, rest => by
    have hs := prints depth s h.1 fun x hx => hwritable x (by simp [listExpressions, hx])
    have hss := prints_list depth ss h.2 fun x hx => hwritable x (by simp [listExpressions, hx])
    rw [sources, Token.lines_append]
    refine (hs _).bind fun us hus => ?_
    exact (hss rest).mono fun vs hvs => .cons hus hvs
termination_by structural _ ss => ss

end

end Stmt

end CMinusMinus
