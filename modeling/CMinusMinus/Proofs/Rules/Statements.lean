import CMinusMinus.Proofs.Rules.Declarations

/-!
# Statements that obey the rules

Both passes are silent on a statement exactly if it obeys the rules in the context of the scopes,
and then it does so with the types that are recorded (`Stmt.Clean.obeys`, `Stmt.Obeys.clean`).
-/

namespace CMinusMinus

open Outcome

namespace Stmt

/-- Neither pass reports anything of the statement. -/
structure Clean (ret : Ty) (env : Env) (frame : Frame) (s : Stmt) : Prop where
  resolve : (Resolve.stmt env frame s).Silent
  check : (Check.stmt ret (Resolve.stmt env frame s).value.1).Silent

/-- The statement after both passes. -/
def analyzed (ret : Ty) (env : Env) (frame : Frame) (s : Stmt) : Stmt :=
  (Check.stmt ret (Resolve.stmt env frame s).value.1).value

/-- Neither pass reports anything of the block. -/
structure BlockClean (ret : Ty) (env : Env) (frame : Frame) (b : Block Stmt) : Prop where
  resolve : (Resolve.block env frame b).Silent
  check : (Check.block ret (Resolve.block env frame b).value.1).Silent

/-- The block after both passes. -/
def blockAnalyzed (ret : Ty) (env : Env) (frame : Frame) (b : Block Stmt) : Block Stmt :=
  (Check.block ret (Resolve.block env frame b).value.1).value

/-- Neither pass reports anything of the statements. -/
structure ListClean (ret : Ty) (env : Env) (frame : Frame) (ss : List Stmt) : Prop where
  resolve : (Resolve.stmts env frame ss).Silent
  check : (Check.stmts ret (Resolve.stmts env frame ss).value.1).Silent

/-- The statements after both passes. -/
def listAnalyzed (ret : Ty) (env : Env) (frame : Frame) (ss : List Stmt) : List Stmt :=
  (Check.stmts ret (Resolve.stmts env frame ss).value.1).value

variable {ret : Ty} {env : Env} {frame : Frame}

/-! ## Statements and their parts -/

/-- The statement has one expression, and asks something of its type. -/
structure Asks (ret : Ty) (node : Exp → Stmt) (complain : Check.Part → List Report) : Prop where
  resolve : ∀ env frame e, Resolve.stmt env frame (node e) =
    (Resolve.exp env e).map fun e => (node e, frame)
  check : ∀ e, Check.stmt ret (node e) = (Check.operand e complain).map node

/-- The statement has a condition and a block. -/
structure Guards (ret : Ty) (node : Exp → Block Stmt → Stmt) (cause : TypeCause) : Prop where
  resolve : ∀ env frame e b, Resolve.stmt env frame (node e b) =
    (Resolve.exp env e).andThen (fun e => (node e b, frame)) fun e =>
      (Resolve.block env.enter frame b).map fun v => (node e v.1, v.2)
  check : ∀ e b, Check.stmt ret (node e b) =
    (Check.operand e (Check.want .bool cause)).andThen (node · b) fun e =>
      (Check.block ret b).map (node e)

section Kinds

variable (ret : Ty) (sp : Option Span)

theorem asks_assign : Asks ret (.assign sp) fun _ => [] :=
  ⟨fun _ _ _ => by rw [Resolve.stmt], fun _ => by rw [Check.stmt]⟩

theorem asks_increment : Asks ret (.increment sp) (Check.want .int .arithmetic) :=
  ⟨fun _ _ _ => by rw [Resolve.stmt], fun _ => by rw [Check.stmt]⟩

theorem asks_decrement : Asks ret (.decrement sp) (Check.want .int .arithmetic) :=
  ⟨fun _ _ _ => by rw [Resolve.stmt], fun _ => by rw [Check.stmt]⟩

theorem asks_read : Asks ret (.read sp) fun p =>
    Check.reportIf (Check.notReadable p.type) p.exp :=
  ⟨fun _ _ _ => by rw [Resolve.stmt], fun _ => by rw [Check.stmt]⟩

theorem asks_write : Asks ret (.write sp) fun p =>
    Check.reportIf (Check.notWritable p.type) p.exp :=
  ⟨fun _ _ _ => by rw [Resolve.stmt], fun _ => by rw [Check.stmt]⟩

theorem asks_call : Asks ret (.call sp) fun _ => [] :=
  ⟨fun _ _ _ => by rw [Resolve.stmt], fun _ => by rw [Check.stmt]⟩

theorem asks_return : Asks ret (fun e => .return sp (some e)) (Check.returned ret) :=
  ⟨fun _ _ _ => by rw [Resolve.stmt], fun _ => by rw [Check.stmt]⟩

theorem guards_ifThen : Guards ret (.ifThen sp) .ifCondition :=
  ⟨fun _ _ _ _ => by rw [Resolve.stmt], fun _ _ => by rw [Check.stmt]⟩

theorem guards_while : Guards ret (.while sp) .loopCondition :=
  ⟨fun _ _ _ _ => by rw [Resolve.stmt], fun _ _ => by rw [Check.stmt]⟩

end Kinds

section Operand

variable {node : Exp → Stmt} {complain : Check.Part → List Report} (hnode : Asks ret node complain)
include hnode

/-- A statement with one expression is clean if the expression is and the statement is content
with it. -/
theorem Asks.clean {e : Exp} : (node e).Clean ret env frame ↔
    e.Clean env ∧ complain (e.analyzed env) = [] := by
  constructor
  · rintro ⟨hr, hc⟩
    rw [hnode.resolve, silent_map] at hr
    rw [hnode.resolve, value_map, hnode.check, silent_map, Check.silent_operand] at hc
    exact ⟨⟨hr, hc.1⟩, hc.2⟩
  · rintro ⟨⟨hr, hc⟩, hcomplain⟩
    refine ⟨?_, ?_⟩
    · rw [hnode.resolve, silent_map]
      exact hr
    · rw [hnode.resolve, value_map, hnode.check, silent_map, Check.silent_operand]
      exact ⟨hc, hcomplain⟩

theorem Asks.analyzed (e : Exp) : (node e).analyzed ret env frame = node (e.analyzed env).exp := by
  rw [Stmt.analyzed, hnode.resolve, value_map, hnode.check, value_map, Check.value_operand]
  rfl

end Operand

section Guarded

variable {node : Exp → Block Stmt → Stmt} {cause : TypeCause} (hnode : Guards ret node cause)
include hnode

/-- A statement with a condition and a block is clean if they are and the condition is one. -/
theorem Guards.clean {e : Exp} {b : Block Stmt} : (node e b).Clean ret env frame ↔
    (e.Clean env ∧ Check.want .bool cause (e.analyzed env) = []) ∧
      BlockClean ret env.enter frame b := by
  constructor
  · rintro ⟨hr, hc⟩
    rw [hnode.resolve, silent_andThen, silent_map] at hr
    rw [hnode.resolve, value_andThen hr.1.fault, value_map, hnode.check, silent_andThen,
      silent_map, Check.silent_operand] at hc
    exact ⟨⟨⟨hr.1, hc.1.1⟩, hc.1.2⟩, hr.2, hc.2⟩
  · rintro ⟨⟨⟨hr, hc⟩, hwant⟩, hb, hb'⟩
    refine ⟨?_, ?_⟩
    · rw [hnode.resolve, silent_andThen, silent_map]
      exact ⟨hr, hb⟩
    · rw [hnode.resolve, value_andThen hr.fault, value_map, hnode.check, silent_andThen,
        silent_map, Check.silent_operand]
      exact ⟨⟨hc, hwant⟩, hb'⟩

theorem Guards.fault_block {e : Exp} {b : Block Stmt}
    (h : (Resolve.stmt env frame (node e b)).fault = none) :
    (Resolve.block env.enter frame b).fault = none := by
  rw [hnode.resolve, fault_andThen, fault_map] at h
  exact h.2

theorem Guards.analyzed {e : Exp} (h : e.Clean env) (b : Block Stmt) :
    (node e b).analyzed ret env frame =
      node (e.analyzed env).exp (blockAnalyzed ret env.enter frame b) := by
  rw [Stmt.analyzed, hnode.resolve, value_andThen h.resolve.fault, value_map, hnode.check,
    value_andThen (Check.fault_operand.mpr h.check.fault), value_map, Check.value_operand]
  rfl

end Guarded

theorem clean_ifElse {sp : Option Span} {e : Exp} {b₁ b₂ : Block Stmt} :
    (Stmt.ifElse sp e b₁ b₂).Clean ret env frame ↔
      (e.Clean env ∧ Check.want .bool .ifCondition (e.analyzed env) = []) ∧
        BlockClean ret env.enter frame b₁ ∧
        BlockClean ret env.enter (Resolve.block env.enter frame b₁).value.2 b₂ := by
  constructor
  · rintro ⟨hr, hc⟩
    rw [Resolve.stmt, silent_andThen, silent_andThen, silent_map] at hr
    rw [Resolve.stmt, value_andThen hr.1.fault, value_andThen hr.2.1.fault, value_map, Check.stmt,
      silent_andThen, silent_andThen, silent_map, Check.silent_operand] at hc
    exact ⟨⟨⟨hr.1, hc.1.1⟩, hc.1.2⟩, ⟨hr.2.1, hc.2.1⟩, hr.2.2, hc.2.2⟩
  · rintro ⟨⟨⟨hr, hc⟩, hwant⟩, ⟨hb, hb'⟩, hd, hd'⟩
    refine ⟨?_, ?_⟩
    · rw [Resolve.stmt, silent_andThen, silent_andThen, silent_map]
      exact ⟨hr, hb, hd⟩
    · rw [Resolve.stmt, value_andThen hr.fault, value_andThen hb.fault, value_map, Check.stmt,
        silent_andThen, silent_andThen, silent_map, Check.silent_operand]
      exact ⟨⟨hc, hwant⟩, hb', hd'⟩

theorem analyzed_ifElse {sp : Option Span} {e : Exp} {b₁ b₂ : Block Stmt} (he : e.Clean env)
    (hb : BlockClean ret env.enter frame b₁) : (Stmt.ifElse sp e b₁ b₂).analyzed ret env frame =
      .ifElse sp (e.analyzed env).exp (blockAnalyzed ret env.enter frame b₁)
        (blockAnalyzed ret env.enter (Resolve.block env.enter frame b₁).value.2 b₂) := by
  rw [analyzed, Resolve.stmt, value_andThen he.resolve.fault, value_andThen hb.resolve.fault,
    value_map, Check.stmt, value_andThen (Check.fault_operand.mpr he.check.fault),
    value_andThen hb.check.fault, value_map, Check.value_operand]
  rfl

theorem listClean_cons {s : Stmt} {ss : List Stmt} : ListClean ret env frame (s :: ss) ↔
    s.Clean ret env frame ∧ ListClean ret env (Resolve.stmt env frame s).value.2 ss := by
  constructor
  · rintro ⟨hr, hc⟩
    rw [Resolve.stmts, silent_andThen, silent_map] at hr
    rw [Resolve.stmts, value_andThen hr.1.fault, value_map, Check.stmts, silent_andThen,
      silent_map] at hc
    exact ⟨⟨hr.1, hc.1⟩, hr.2, hc.2⟩
  · rintro ⟨⟨hr, hc⟩, hrs, hcs⟩
    refine ⟨?_, ?_⟩
    · rw [Resolve.stmts, silent_andThen, silent_map]
      exact ⟨hr, hrs⟩
    · rw [Resolve.stmts, value_andThen hr.fault, value_map, Check.stmts, silent_andThen,
        silent_map]
      exact ⟨hc, hcs⟩

theorem listAnalyzed_cons {s : Stmt} (h : s.Clean ret env frame) (ss : List Stmt) :
    listAnalyzed ret env frame (s :: ss) = s.analyzed ret env frame ::
      listAnalyzed ret env (Resolve.stmt env frame s).value.2 ss := by
  rw [listAnalyzed, Resolve.stmts, value_andThen h.resolve.fault, value_map, Check.stmts,
    value_andThen h.check.fault, value_map]
  rfl

theorem blockClean_of_locals {ds : VarDecls} {sp : Option Span} {ss : List Stmt}
    {items : List VarDecl} {env' : Env} {frame' : Frame}
    (hlocals : Resolve.localVars env frame ds.items = .pure (items, env', frame')) :
    BlockClean ret env frame ⟨ds, sp, ss⟩ ↔ ListClean ret env' frame' ss := by
  constructor
  · rintro ⟨hr, hc⟩
    rw [Resolve.block, hlocals, pure_andThen, silent_map] at hr
    rw [Resolve.block, hlocals, pure_andThen, value_map, Check.block, silent_map] at hc
    exact ⟨hr, hc⟩
  · rintro ⟨hr, hc⟩
    refine ⟨?_, ?_⟩
    · rw [Resolve.block, hlocals, pure_andThen, silent_map]
      exact hr
    · rw [Resolve.block, hlocals, pure_andThen, value_map, Check.block, silent_map]
      exact hc

theorem blockAnalyzed_of_locals {ds : VarDecls} {sp : Option Span} {ss : List Stmt}
    {items : List VarDecl} {env' : Env} {frame' : Frame}
    (hlocals : Resolve.localVars env frame ds.items = .pure (items, env', frame')) :
    blockAnalyzed ret env frame ⟨ds, sp, ss⟩ =
      ⟨{ ds with items }, sp, listAnalyzed ret env' frame' ss⟩ := by
  rw [blockAnalyzed, Resolve.block, hlocals, pure_andThen, value_map, Check.block, value_map]
  rfl

theorem BlockClean.locals {ds : VarDecls} {sp : Option Span} {ss : List Stmt}
    (h : BlockClean ret env frame ⟨ds, sp, ss⟩) :
    (Resolve.localVars env frame ds.items).Silent := by
  have hr := h.resolve
  rw [Resolve.block, silent_andThen] at hr
  exact hr.1

end Stmt

/-! ## What statements ask for -/

namespace Exp.Clean

variable {env : Env} (henv : env.Closed) {e : Exp} (he : e.Formed) (h : e.Clean env)
include henv he h

theorem ne_error : (e.analyzed env).type ≠ .error := (h.given henv.sound he).ne_error henv.sound

/-- An expression that is wanted to be of a type is of it. -/
theorem has_of_want {t : Ty} {cause : TypeCause}
    (hwant : Check.want t cause (e.analyzed env) = []) :
    e.Has Remark.none env.context t ∧ (e.analyzed env).exp.Has Remark.recorded env.context t := by
  rw [← Check.want_eq_nil (h.ne_error henv he) hwant]
  exact h.has henv he

theorem isWord_of_readable (hloc : e.isLocation = true)
    (hread : Check.notReadable (e.analyzed env).type = none) : (e.analyzed env).type.IsWord := by
  obtain ⟨-, -, -, hword⟩ := (h.given henv.sound he).of_readable
    ((Exp.isLocation_analyzed env e).trans hloc) hread
  exact hword

theorem of_writable (hwrite : Check.notWritable (e.analyzed env).type = none) :
    (e.analyzed env).type.IsWord ∨ (e.analyzed env).type = .string :=
  ((h.given henv.sound he).of_writable henv.sound hwrite).2

theorem type_of_returned {ret : Ty} (hreturned : Check.returned ret (e.analyzed env) = []) :
    ret ≠ .void ∧ (e.analyzed env).type = ret := by
  unfold Check.returned at hreturned
  split at hreturned
  · cases hreturned
  · next hret =>
    refine ⟨hret, ?_⟩
    split at hreturned
    · next hor =>
      exact (Ty.agrees_iff.mp (hor.resolve_left (h.ne_error henv he))).1
    · cases hreturned

end Exp.Clean

namespace Check

theorem want_of_type {t : Ty} {cause : TypeCause} {p : Part} (h : p.type = t) :
    want t cause p = [] := if_pos (.inr h)

theorem readable_of_isWord {t : Ty} (h : t.IsWord) (e : Exp) : reportIf (notReadable t) e = [] := by
  rcases h with rfl | rfl <;> rfl

theorem writable_of {t : Ty} (h : t.IsWord ∨ t = .string) (e : Exp) :
    reportIf (notWritable t) e = [] := by
  rcases h with (rfl | rfl) | rfl <;> rfl

theorem returned_of_type {ret : Ty} {p : Part} (hret : ret ≠ .void) (herror : ret ≠ .error)
    (h : p.type = ret) : returned ret p = [] := by
  unfold returned
  rw [if_neg hret, if_pos (.inr (Ty.agrees_iff.mpr ⟨h, h ▸ herror⟩))]

end Check

/-! ## The rules -/

mutual

/-- A clean statement obeys the rules, with the types that are recorded. -/
theorem Stmt.Clean.obeys {ret : Ty} {env : Env} (henv : env.Closed) {frame : Frame} :
    ∀ {s : Stmt}, s.Formed → s.Clean ret env frame →
      s.Obeys Remark.none ret env.context ∧
        (s.analyzed ret env frame).Obeys Remark.recorded ret env.context
  | .assign sp e, hformed, h => by
    obtain ⟨he, -⟩ := (Stmt.asks_assign ret sp).clean.mp h
    obtain ⟨hraw, hrecorded⟩ := he.has henv hformed.2
    rw [(Stmt.asks_assign ret sp).analyzed]
    exact ⟨.assign hraw, .assign hrecorded⟩
  | .increment sp e, hformed, h => by
    obtain ⟨he, hwant⟩ := (Stmt.asks_increment ret sp).clean.mp h
    obtain ⟨hraw, hrecorded⟩ := he.has_of_want henv hformed.2 hwant
    rw [(Stmt.asks_increment ret sp).analyzed]
    exact ⟨.increment hraw, .increment hrecorded⟩
  | .decrement sp e, hformed, h => by
    obtain ⟨he, hwant⟩ := (Stmt.asks_decrement ret sp).clean.mp h
    obtain ⟨hraw, hrecorded⟩ := he.has_of_want henv hformed.2 hwant
    rw [(Stmt.asks_decrement ret sp).analyzed]
    exact ⟨.decrement hraw, .decrement hrecorded⟩
  | .read sp e, hformed, h => by
    obtain ⟨he, hread⟩ := (Stmt.asks_read ret sp).clean.mp h
    obtain ⟨hraw, hrecorded⟩ := he.has henv hformed.2
    have hword := he.isWord_of_readable henv hformed.2 hformed.1 (Check.reportIf_eq_nil hread)
    rw [(Stmt.asks_read ret sp).analyzed]
    exact ⟨.read hword hraw, .read hword hrecorded⟩
  | .write sp e, hformed, h => by
    obtain ⟨he, hwrite⟩ := (Stmt.asks_write ret sp).clean.mp h
    obtain ⟨hraw, hrecorded⟩ := he.has henv (e := e) hformed
    have htype := he.of_writable henv (e := e) hformed (Check.reportIf_eq_nil hwrite)
    rw [(Stmt.asks_write ret sp).analyzed]
    exact ⟨.write htype hraw, .write htype hrecorded⟩
  | .ifThen sp e b, hformed, h => by
    obtain ⟨⟨he, hwant⟩, hb⟩ := (Stmt.guards_ifThen ret sp).clean.mp h
    obtain ⟨hraw, hrecorded⟩ := he.has_of_want henv hformed.1 hwant
    obtain ⟨hbraw, hbrecorded⟩ := Stmt.BlockClean.obeys henv.enter hformed.2 hb
    rw [(Stmt.guards_ifThen ret sp).analyzed he]
    exact ⟨.ifThen hraw hbraw, .ifThen hrecorded hbrecorded⟩
  | .ifElse sp e b₁ b₂, hformed, h => by
    obtain ⟨⟨he, hwant⟩, hyes, hno⟩ := Stmt.clean_ifElse.mp h
    obtain ⟨hraw, hrecorded⟩ := he.has_of_want henv hformed.1 hwant
    obtain ⟨hyraw, hyrecorded⟩ := Stmt.BlockClean.obeys henv.enter hformed.2.1 hyes
    obtain ⟨hnraw, hnrecorded⟩ := Stmt.BlockClean.obeys henv.enter hformed.2.2 hno
    rw [Stmt.analyzed_ifElse he hyes]
    exact ⟨.ifElse hraw hyraw hnraw, .ifElse hrecorded hyrecorded hnrecorded⟩
  | .while sp e b, hformed, h => by
    obtain ⟨⟨he, hwant⟩, hb⟩ := (Stmt.guards_while ret sp).clean.mp h
    obtain ⟨hraw, hrecorded⟩ := he.has_of_want henv hformed.1 hwant
    obtain ⟨hbraw, hbrecorded⟩ := Stmt.BlockClean.obeys henv.enter hformed.2 hb
    rw [(Stmt.guards_while ret sp).analyzed he]
    exact ⟨.while hraw hbraw, .while hrecorded hbrecorded⟩
  | .call sp e, hformed, h => by
    obtain ⟨he, -⟩ := (Stmt.asks_call ret sp).clean.mp h
    obtain ⟨hraw, hrecorded⟩ := he.has henv hformed.2
    rw [(Stmt.asks_call ret sp).analyzed]
    exact ⟨.call hraw, .call hrecorded⟩
  | .return sp none, _, h => by
    have hvoid : ret = .void := by
      have hreports := h.check.reports
      rw [Resolve.stmt, value_pure, Check.stmt, reports_reporting] at hreports
      split at hreports
      · assumption
      · cases hreports
    rw [Stmt.analyzed, Resolve.stmt, value_pure, Check.stmt, value_reporting]
    exact ⟨.exit hvoid, .exit hvoid⟩
  | .return sp (some e), hformed, h => by
    obtain ⟨he, hreturned⟩ := (Stmt.asks_return ret sp).clean.mp h
    obtain ⟨hraw, hrecorded⟩ := he.has henv (e := e) hformed
    obtain ⟨hret, htype⟩ := he.type_of_returned henv (e := e) hformed hreturned
    rw [htype] at hraw hrecorded
    rw [(Stmt.asks_return ret sp).analyzed]
    exact ⟨.return hret hraw, .return hret hrecorded⟩

theorem Stmt.BlockClean.obeys {ret : Ty} {env : Env} (henv : env.Closed) {frame : Frame} :
    ∀ {b : Block Stmt}, Stmt.BlockFormed b → Stmt.BlockClean ret env frame b →
      Stmt.BlockObeys Remark.none ret env.context b ∧
        Stmt.BlockObeys Remark.recorded ret env.context (Stmt.blockAnalyzed ret env frame b)
  | ⟨ds, sp, ss⟩, hformed, h => by
    obtain ⟨ts, Γ, hdeclare⟩ := Resolve.sequence_localVars.declare henv h.locals
    obtain ⟨items, env', frame', hlocals, hcontext, henv', hdeclare'⟩ :=
      Resolve.sequence_localVars.of_declare henv hdeclare h.locals.fault
    obtain ⟨hraw, hrecorded⟩ :=
      Stmt.ListClean.obeys henv' hformed.2 ((Stmt.blockClean_of_locals hlocals).mp h)
    rw [hcontext] at hraw hrecorded
    rw [Stmt.blockAnalyzed_of_locals hlocals]
    exact ⟨.intro hdeclare hraw, .intro hdeclare' hrecorded⟩

theorem Stmt.ListClean.obeys {ret : Ty} {env : Env} (henv : env.Closed) {frame : Frame} :
    ∀ {ss : List Stmt}, Stmt.AllFormed ss → Stmt.ListClean ret env frame ss →
      Stmt.ListObeys Remark.none ret env.context ss ∧
        Stmt.ListObeys Remark.recorded ret env.context (Stmt.listAnalyzed ret env frame ss)
  | [], _, _ => ⟨.nil, .nil⟩
  | s :: ss, hformed, h => by
    obtain ⟨hs, hss⟩ := Stmt.listClean_cons.mp h
    obtain ⟨hraw, hrecorded⟩ := Stmt.Clean.obeys henv hformed.1 hs
    obtain ⟨hraws, hrecordeds⟩ := Stmt.ListClean.obeys henv hformed.2 hss
    rw [Stmt.listAnalyzed_cons hs]
    exact ⟨.cons hraw hraws, .cons hrecorded hrecordeds⟩

end

mutual

/-- A statement that obeys the rules is clean, if name resolution comes to its end there. -/
theorem Stmt.Obeys.clean {ret : Ty} (hret : ret ≠ .error) {env : Env} (henv : env.Closed)
    {frame : Frame} : ∀ {s : Stmt}, s.Formed → s.Obeys Remark.none ret env.context →
      (Resolve.stmt env frame s).fault = none → s.Clean ret env frame
  | .assign sp e, hformed, .assign he, _ =>
    (Stmt.asks_assign ret sp).clean.mpr ⟨(he.clean henv hformed.2).1, rfl⟩
  | .increment sp e, hformed, .increment he, _ => by
    obtain ⟨hclean, htype⟩ := he.clean henv hformed.2
    exact (Stmt.asks_increment ret sp).clean.mpr ⟨hclean, Check.want_of_type htype⟩
  | .decrement sp e, hformed, .decrement he, _ => by
    obtain ⟨hclean, htype⟩ := he.clean henv hformed.2
    exact (Stmt.asks_decrement ret sp).clean.mpr ⟨hclean, Check.want_of_type htype⟩
  | .read sp e, hformed, .read hword he, _ => by
    obtain ⟨hclean, htype⟩ := he.clean henv hformed.2
    exact (Stmt.asks_read ret sp).clean.mpr
      ⟨hclean, Check.readable_of_isWord (htype ▸ hword) _⟩
  | .write sp e, hformed, .write ht he, _ => by
    obtain ⟨hclean, htype⟩ := he.clean henv (e := e) hformed
    exact (Stmt.asks_write ret sp).clean.mpr ⟨hclean, Check.writable_of (htype ▸ ht) _⟩
  | .ifThen sp e b, hformed, .ifThen he hb, hfault => by
    obtain ⟨hclean, htype⟩ := he.clean henv hformed.1
    have hblock := (Stmt.guards_ifThen ret sp).fault_block hfault
    exact (Stmt.guards_ifThen ret sp).clean.mpr ⟨⟨hclean, Check.want_of_type htype⟩,
      Stmt.BlockObeys.clean hret henv.enter hformed.2 hb hblock⟩
  | .ifElse sp e b₁ b₂, hformed, .ifElse he hyes hno, hfault => by
    obtain ⟨hclean, htype⟩ := he.clean henv hformed.1
    rw [Resolve.stmt, fault_andThen, fault_andThen, fault_map] at hfault
    exact Stmt.clean_ifElse.mpr ⟨⟨hclean, Check.want_of_type htype⟩,
      Stmt.BlockObeys.clean hret henv.enter hformed.2.1 hyes hfault.2.1,
      Stmt.BlockObeys.clean hret henv.enter hformed.2.2 hno hfault.2.2⟩
  | .while sp e b, hformed, .while he hb, hfault => by
    obtain ⟨hclean, htype⟩ := he.clean henv hformed.1
    have hblock := (Stmt.guards_while ret sp).fault_block hfault
    exact (Stmt.guards_while ret sp).clean.mpr ⟨⟨hclean, Check.want_of_type htype⟩,
      Stmt.BlockObeys.clean hret henv.enter hformed.2 hb hblock⟩
  | .call sp e, hformed, .call he, _ =>
    (Stmt.asks_call ret sp).clean.mpr ⟨(he.clean henv hformed.2).1, rfl⟩
  | .return sp none, _, .exit hvoid, _ => by
    refine ⟨by rw [Resolve.stmt]; exact silent_pure _, ?_⟩
    rw [Resolve.stmt, value_pure, Check.stmt, silent_reporting]
    exact if_pos hvoid
  | .return sp (some e), hformed, .return hvoid he, _ => by
    obtain ⟨hclean, htype⟩ := he.clean henv (e := e) hformed
    exact (Stmt.asks_return ret sp).clean.mpr
      ⟨hclean, Check.returned_of_type hvoid hret htype⟩

theorem Stmt.BlockObeys.clean {ret : Ty} (hret : ret ≠ .error) {env : Env} (henv : env.Closed)
    {frame : Frame} : ∀ {b : Block Stmt}, Stmt.BlockFormed b →
      Stmt.BlockObeys Remark.none ret env.context b → (Resolve.block env frame b).fault = none →
      Stmt.BlockClean ret env frame b
  | ⟨ds, sp, ss⟩, hformed, .intro hdeclare hss, hfault => by
    rw [Resolve.block, fault_andThen, fault_map] at hfault
    obtain ⟨items, env', frame', hlocals, hcontext, henv', -⟩ :=
      Resolve.sequence_localVars.of_declare henv hdeclare hfault.1
    have hstmts := hfault.2
    rw [hlocals] at hstmts
    rw [← hcontext] at hss
    exact (Stmt.blockClean_of_locals hlocals).mpr
      (Stmt.ListObeys.clean hret henv' hformed.2 hss hstmts)

theorem Stmt.ListObeys.clean {ret : Ty} (hret : ret ≠ .error) {env : Env} (henv : env.Closed)
    {frame : Frame} : ∀ {ss : List Stmt}, Stmt.AllFormed ss →
      Stmt.ListObeys Remark.none ret env.context ss → (Resolve.stmts env frame ss).fault = none →
      Stmt.ListClean ret env frame ss
  | [], _, .nil, _ => ⟨silent_pure _, silent_pure _⟩
  | _ :: _, hformed, .cons hs hss, hfault => by
    rw [Resolve.stmts, fault_andThen, fault_map] at hfault
    exact Stmt.listClean_cons.mpr ⟨Stmt.Obeys.clean hret henv hformed.1 hs hfault.1,
      Stmt.ListObeys.clean hret henv hformed.2 hss hfault.2⟩

end

end CMinusMinus
