import CMinusMinus.Proofs.Generation.Parts
import CMinusMinus.Proofs.Height
import Mathlib.Data.List.Perm.Basic

/-!
# Numbered labels

Code generation uses each number once: the labels in the code of an expression or a statement are
those of the numbers from the next one before it up to the next one after it (`Numbers`).
-/

namespace CMinusMinus

open Asm

/-- The labels that the code defines are those of the numbers from `m` on and below `n`, each of
them once. -/
structure Numbers (m n : Nat) (q : List Item) : Prop where
  le : m ≤ n
  perm : (labels q).Perm ((List.range' m (n - m)).map numbered)

namespace Numbers

variable {k m n : Nat} {q r : List Item}

/-- Code without labels. -/
theorem none (h : labels q = []) : Numbers m m q := by
  refine ⟨Nat.le_refl m, ?_⟩
  rw [h, Nat.sub_self]
  exact .refl []

theorem range'_append (hmk : m ≤ k) (hkn : k ≤ n) :
    List.range' m (n - m) = List.range' m (k - m) ++ List.range' k (n - k) := by
  rw [show n - m = (k - m) + (n - k) by omega, ← List.range'_append_1, Nat.add_sub_cancel' hmk]

theorem append (hq : Numbers m k q) (hr : Numbers k n r) : Numbers m n (q ++ r) := by
  refine ⟨Nat.le_trans hq.le hr.le, ?_⟩
  rw [labels_append, range'_append hq.le hr.le, List.map_append]
  exact hq.perm.append hr.perm

/-- The next number is taken before the others, wherever its label is defined. -/
theorem fresh (h : Numbers (m + 1) n q) (hr : (labels r).Perm (numbered m :: labels q)) :
    Numbers m n r := by
  have hle := h.le
  refine ⟨Nat.le_of_succ_le hle, hr.trans ?_⟩
  have hrange : List.range' m (n - m) = m :: List.range' (m + 1) (n - (m + 1)) := by
    rw [show n - m = (n - (m + 1)) + 1 by omega, List.range'_succ]
  rw [hrange, List.map_cons]
  exact h.perm.cons _

end Numbers

namespace Generate

/-! ## Expressions -/

theorem numbers_combine {op : BinOp} {span : Option Span} {ls ls' : Labels} {q : List Item}
    (h : combine op span ls = .ok (q, ls')) : Numbers ls.next ls'.next q := by
  have hone : Numbers (ls.next + 1) (ls.next + 1) [] := .none rfl
  have htwo : Numbers (ls.next + 1) (ls.next + 2) (label (numbered (ls.next + 1))) :=
    .fresh (.none (q := []) rfl) (.refl _)
  cases op with
  | add | sub | mul | div | equal | notEqual =>
    cases h
    exact .none rfl
  | less | greater | lessEq | greaterEq =>
    cases h
    exact .fresh hone (.refl _)
  | and | or =>
    cases h
    exact .fresh htwo (.refl _)
  | other => cases h

theorem numbers_constant (ls : Labels) (text : String) :
    Numbers ls.next (ls.constant text).2.2.next (ls.constant text).2.1 := by
  rw [Labels.constant]
  split
  · exact .none rfl
  · exact .fresh (.none (q := []) rfl) (.refl _)

theorem labels_address {e : Exp} {q : List Item} (h : address e = .ok q) : labels q = [] := by
  obtain ⟨root, offset, s, operand, -, -, rfl⟩ := address_eq_ok.mp h
  split <;> rfl

theorem labels_load {x : Ident} {q : List Item} (h : load x = .ok q) : labels q = [] := by
  obtain ⟨s, operand, t, -, -, rfl⟩ := load_eq_ok.mp h
  rfl

mutual

/-- The numbers in the code of an expression. -/
theorem numbers_exp : ∀ {e : Exp} {ls ls' : Labels} {q : List Item},
    exp ls e = .ok (q, ls') → Numbers ls.next ls'.next q
  | .int .., ls, ls', q, h | .bool .., ls, ls', q, h => by
    cases h
    exact .none rfl
  | .string i text, ls, ls', q, h => by
    cases h
    exact ((numbers_constant ls text).append (.none rfl)).append (.none rfl)
  | .ident x, ls, ls', q, h => by
    cases exp_eq_ok.mp h with
    | ident hcode => exact .none (labels_load hcode)
  | .access i link loc f, ls, ls', q, h => by
    cases exp_eq_ok.mp h with
    | access haddr =>
      refine .none ?_
      rw [labels_append, labels_append, labels_address haddr]
      rfl
  | .assign i l r, ls, ls', q, h => by
    cases exp_eq_ok.mp h with
    | assign hvalue haddr =>
      exact ((((numbers_exp hvalue).append (.none (labels_address haddr))).append
        (.none rfl)).append (.none rfl)).append (.none rfl)
  | .call i f sp args, ls, ls', q, h => by
    cases exp_eq_ok.mp h with
    | call hvalues => exact ((numbers_exps hvalues).append (.none rfl)).append (.none rfl)
  | .neg i e, ls, ls', q, h => by
    cases exp_eq_ok.mp h with
    | neg hvalue =>
      exact (((numbers_exp hvalue).append (.none rfl)).append (.none rfl)).append (.none rfl)
  | .not i e, ls, ls', q, h => by
    cases exp_eq_ok.mp h with
    | not hvalue =>
      exact (((numbers_exp hvalue).append (.none rfl)).append (.none rfl)).append (.none rfl)
  | .binary i op l r, ls, ls', q, h => by
    cases exp_eq_ok.mp h with
    | binary hright hleft hresult =>
      exact ((((numbers_exp hright).append (numbers_exp hleft)).append (.none rfl)).append
        (.none rfl)).append (numbers_combine hresult)
  | .unknown _, ls, ls', q, h => by cases h

theorem numbers_exps : ∀ {es : List Exp} {ls ls' : Labels} {q : List Item},
    exps ls es = .ok (q, ls') → Numbers ls.next ls'.next q
  | [], ls, ls', q, h => by
    cases h
    exact .none rfl
  | e :: es, ls, ls', q, h => by
    obtain ⟨first, ls₁, rest, hfirst, hrest, rfl⟩ := exps_cons_eq_ok.mp h
    exact (numbers_exp hfirst).append (numbers_exps hrest)

end

/-! ## Statements -/

theorem labels_step {op : Opcode} {e : Exp} {q : List Item} (h : step op e = .ok q) :
    labels q = [] := by
  obtain ⟨addr, haddr, rfl⟩ := step_eq_ok.mp h
  rw [labels_append, labels_append, labels_append, labels_address haddr]
  rfl

theorem labels_onFalse (target : String) : labels (onFalse target) = [] := rfl

theorem labels_branch (target : String) : labels (branch target) = [] := rfl

mutual

/-- The numbers in the code of a statement. -/
theorem numbers_stmt {fn : String} : ∀ {s : Stmt} {ls ls' : Labels} {q : List Item},
    stmt fn ls s = .ok (q, ls') → Numbers ls.next ls'.next q
  | .assign _ e, ls, ls', q, h => by
    cases stmt_eq_ok.mp h with
    | assign hcode => exact (numbers_exp hcode).append (.none rfl)
  | .call _ e, ls, ls', q, h => by
    cases stmt_eq_ok.mp h with
    | call hcode => exact (numbers_exp hcode).append (.none rfl)
  | .increment _ e, ls, ls', q, h => by
    cases stmt_eq_ok.mp h with
    | increment hcode => exact .none (labels_step hcode)
  | .decrement _ e, ls, ls', q, h => by
    cases stmt_eq_ok.mp h with
    | decrement hcode => exact .none (labels_step hcode)
  | .read _ e, ls, ls', q, h => by
    cases stmt_eq_ok.mp h with
    | read haddr =>
      refine .none ?_
      rw [labels_append, labels_append, labels_address haddr]
      rfl
  | .write _ e, ls, ls', q, h => by
    cases stmt_eq_ok.mp h with
    | write hcode => exact ((numbers_exp hcode).append (.none rfl)).append (.none rfl)
  | .ifThen _ e b, ls, ls', q, h => by
    cases stmt_eq_ok.mp h with
    | ifThen hcond hbody =>
      refine .fresh ((numbers_exp hcond).append (numbers_block hbody)) ?_
      refine List.perm_iff_count.mpr fun l => ?_
      simp only [Labels.fresh, labels_append, labels_onFalse, labels_label, List.count_append,
        List.count_cons, List.count_nil]
      omega
  | .ifElse _ e b₁ b₂, ls, ls', q, h => by
    cases stmt_eq_ok.mp h with
    | @ifElse _ _ _ _ cond yes no _ _ _ hcond hyes hno =>
      have hparts := ((numbers_exp hcond).append (numbers_block hyes)).append (numbers_block hno)
      refine .fresh (.fresh (r := label (numbered (ls.next + 1)) ++ (cond ++ yes ++ no)) hparts
        (.refl _)) ?_
      refine List.perm_iff_count.mpr fun l => ?_
      simp only [Labels.fresh, labels_append, labels_onFalse, labels_branch, labels_label,
        List.count_append, List.count_cons, List.count_nil]
      omega
  | .while _ e b, ls, ls', q, h => by
    cases stmt_eq_ok.mp h with
    | @«while» _ _ _ cond body _ _ hcond hbody =>
      have hparts := (numbers_exp hcond).append (numbers_block hbody)
      refine .fresh (.fresh (r := label (numbered (ls.next + 1)) ++ (cond ++ body)) hparts
        (.refl _)) ?_
      refine List.perm_iff_count.mpr fun l => ?_
      simp only [Labels.fresh, labels_append, labels_onFalse, labels_branch, labels_label,
        List.count_append, List.count_cons, List.count_nil]
      omega
  | .return _ none, ls, ls', q, h => by
    cases h
    exact .none rfl
  | .return _ (some e), ls, ls', q, h => by
    cases stmt_eq_ok.mp h with
    | «return» hcode => exact ((numbers_exp hcode).append (.none rfl)).append (.none rfl)
  | .unknown _, ls, ls', q, h => by cases h

theorem numbers_block {fn : String} : ∀ {b : Block Stmt} {ls ls' : Labels} {q : List Item},
    block fn ls b = .ok (q, ls') → Numbers ls.next ls'.next q
  | ⟨_, _, ss⟩, ls, ls', q, h => by
    rw [block] at h
    exact numbers_stmts h

theorem numbers_stmts {fn : String} : ∀ {ss : List Stmt} {ls ls' : Labels} {q : List Item},
    stmts fn ls ss = .ok (q, ls') → Numbers ls.next ls'.next q
  | [], ls, ls', q, h => by
    cases h
    exact .none rfl
  | s :: ss, ls, ls', q, h => by
    obtain ⟨first, ls₁, rest, hfirst, hrest, rfl⟩ := stmts_cons_eq_ok.mp h
    exact (numbers_stmt hfirst).append (numbers_stmts hrest)

end

end Generate

end CMinusMinus
