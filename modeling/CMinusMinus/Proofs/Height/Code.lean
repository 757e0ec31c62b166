import CMinusMinus.Proofs.Generation.Parts
import CMinusMinus.Proofs.Height
import CMinusMinus.Proofs.Typing

/-!
# Heights in the code of expressions

The code of an expression ends one word higher than it begins (`shifts_exp`).  Pieces of code are
put together by how high they begin and end above some height that is not below zero: operands
push one after another, and what combines them pops as many.
-/

namespace CMinusMinus

open Asm

/-! ## Pieces of code -/

/-- The piece begins so many words above some height and ends so many words above it, if the known
labels are so many above it too.  It branches to known labels and to its own, which have the
numbers from `m` to below `n`. -/
structure Shifts (arity : String → Nat) (known : List (String × Nat)) (m n : Nat)
    (q : List Item) (a b : Nat) : Prop where
  levels : ∀ {base : Int}, 0 ≤ base →
    Solvable (known.map fun p => (p.1, base + p.2)) m n fun lab =>
      Levels arity lab (base + a) q (base + b)
  raises : Raises arity q (b - a)
  closed : Closed (known.map Prod.fst) q

/-- The item only goes on to the next one and leaves the stack as it is. -/
structure Item.Plain (i : Item) : Prop where
  name : i.name? = none
  targets : i.targets = []
  falls : i.fallsThrough = true
  rise : ∀ arity, i.rise arity = 0

namespace Shifts

variable {arity : String → Nat} {known : List (String × Nat)} {m n o : Nat} {q r : List Item}
  {a b c : Nat}

theorem nil : Shifts arity known m m [] a a where
  levels _ := .of_known fun _ _ => rfl
  raises := by
    rw [Int.sub_self]
    exact .nil
  closed := nofun

theorem append (hq : Shifts arity known m n q a b) (hr : Shifts arity known n o r b c) :
    Shifts arity known m o (q ++ r) a c where
  levels hbase :=
    ((hq.levels hbase).and (hr.levels hbase)).mono fun _ _ h => h.1.append h.2
  raises := by
    have hboth := hq.raises.append hr.raises
    rwa [show (b : Int) - a + (c - b) = c - a by omega] at hboth
  closed := hq.closed.append hr.closed

/-- The next label is given a height, and the piece defines it. -/
theorem fresh (k : Nat) (h : Shifts arity ((numbered m, k) :: known) (m + 1) n q a b)
    (hlabel : numbered m ∈ labels q) : Shifts arity known m n q a b where
  levels hbase := .fresh _ (h.levels hbase)
  raises := h.raises
  closed := h.closed.mono (List.forall_mem_cons.mpr ⟨.inr hlabel, fun _ => .inl⟩)

/-- A piece whose labels are all its own may stand among others, and higher. -/
theorem lift (h : Shifts arity [] m n q a b) (k : Nat) :
    Shifts arity known m n q (a + k) (b + k) where
  levels {base} hbase := by
    have hlevels := h.levels (show 0 ≤ base + (k : Int) by omega)
    rw [show base + k + a = base + ↑(a + k) by omega,
      show base + k + b = base + ↑(b + k) by omega] at hlevels
    exact hlevels.weaken nofun
  raises := by
    rw [show ((b + k : Nat) : Int) - (a + k : Nat) = b - a by omega]
    exact h.raises
  closed := h.closed.mono nofun

/-- A piece that begins and ends where the function began. -/
theorem solvable (h : Shifts arity known m n q 0 0) {outer : List (String × Int)}
    (hknown : ∀ p ∈ known, (p.1, (p.2 : Int)) ∈ outer) :
    Solvable outer m n fun lab => Levels arity lab 0 q 0 := by
  refine (h.levels (Int.le_refl 0)).weaken fun p hp => ?_
  obtain ⟨p', hp', rfl⟩ := List.mem_map.mp hp
  rw [Int.zero_add]
  exact hknown p' hp'

/-- An item that goes on to the next one, and perhaps to a label. -/
theorem single {i : Item} (hname : i.name? = none)
    (htargets : ∀ l ∈ i.targets, (l, a) ∈ known) (hfalls : i.fallsThrough = true)
    (hrise : i.rise arity = (b : Int) - a) : Shifts arity known m m [i] a b where
  levels {base} hbase := .of_known fun lab hknown =>
    .single (by omega) hname (fun l hl => hknown _ (List.mem_map_of_mem (htargets l hl))) hfalls
      (by omega)
  raises := by
    rw [← hrise]
    exact .single hfalls
  closed := .single fun l hl => List.mem_map_of_mem (htargets l hl)

theorem of_plain (h : ∀ i ∈ q, i.Plain) : Shifts arity known m m q a a := by
  induction q with
  | nil => exact .nil
  | cons i q ih =>
    obtain ⟨hi, hq⟩ := List.forall_mem_cons.mp h
    have hfirst : Shifts arity known m m [i] a a := by
      refine .single hi.name ?_ hi.falls (by rw [hi.rise, Int.sub_self])
      rw [hi.targets]
      exact nofun
    exact hfirst.append (ih hq)

theorem push (r : Reg) (comment : Option String) :
    Shifts arity known m m (push r comment) a (a + 1) := by
  have hstore : Shifts arity known m m
      [instr .sw [.reg r, .indexed .sp 0] (orComment comment ("push $" ++ r.name))] a a :=
    .single rfl nofun rfl (Int.sub_self _).symm
  have hmove : Shifts arity known m m [instr .subu [.reg .sp, .reg .sp, .imm wordSize]]
      a (a + 1) :=
    .single rfl nofun rfl (show (1 : Int) = ↑(a + 1) - a by omega)
  exact hstore.append hmove

theorem pop (r : Reg) (comment : Option String) :
    Shifts arity known m m (pop r comment) (a + 1) a := by
  have hload : Shifts arity known m m
      [instr .lw [.reg r, .indexed .sp wordSize] (orComment comment ("pop $" ++ r.name))]
      (a + 1) (a + 1) :=
    .single rfl nofun rfl (Int.sub_self _).symm
  have hmove : Shifts arity known m m [instr .addu [.reg .sp, .reg .sp, .imm wordSize]]
      (a + 1) a :=
    .single rfl nofun rfl (show (-1 : Int) = a - ↑(a + 1) by omega)
  exact hload.append hmove

/-- A call pops the arguments. -/
theorem call {f : String} : Shifts arity known m m (call f) (a + arity f) a :=
  .single rfl nofun rfl (show -(arity f : Int) = a - ↑(a + arity f) by omega)

theorem branchIf {op : Opcode} {l : String} (hop : op.branches = true) (hb : op ≠ .b)
    (hl : (l, a) ∈ known) (r r' : Reg) (comment : Option String) :
    Shifts arity known m m (branchIf op r r' l comment) a a := by
  refine .single rfl ?_ (Item.fallsThrough_branchIf hop r r' l comment hb) ?_
  · rw [Item.targets_branchIf hop]
    exact List.forall_mem_singleton.mpr hl
  · rw [Item.rise_branchIf hop, Int.sub_self]

theorem label {l : String} (hl : (l, a) ∈ known) (comment : Option String) :
    Shifts arity known m m (label l comment) a a where
  levels hbase := .of_known fun lab hknown =>
    .label (by omega) (hknown _ (List.mem_map_of_mem hl)) comment
  raises := by
    rw [Int.sub_self]
    exact .single rfl
  closed := .single nofun

/-- Code that is branched over, from one label to another. -/
theorem across {l l' : String} (hl : (l, a) ∈ known) (hl' : (l', b) ∈ known)
    (hq : Shifts arity known m n q b a) :
    Shifts arity known m n (branch l ++ (Asm.label l' ++ (q ++ Asm.label l))) a a := by
  have hrest : Shifts arity known m n (Asm.label l' ++ (q ++ Asm.label l)) b a :=
    (label hl' none).append (hq.append (label hl none))
  have hgoto : Closed (known.map Prod.fst) (branch l) :=
    .single (List.forall_mem_singleton.mpr (List.mem_map_of_mem hl))
  refine ⟨fun {base} hbase => ?_, ?_, hgoto.append hrest.closed⟩
  · refine (hrest.levels hbase).mono fun lab hknown hlevels => ?_
    refine .branch (by omega) (hknown _ (List.mem_map_of_mem hl)) hlevels ?_
    exact hknown _ (List.mem_map_of_mem hl')
  · have hbranch : Raises arity (instr .b [.label l] :: (Asm.label l' ++ q) ++ Asm.label l) 0 :=
      .branch (List.mem_singleton_self l) none
    rw [List.cons_append, List.append_assoc] at hbranch
    rw [Int.sub_self]
    exact hbranch

end Shifts

/-! ## What combines operands -/

namespace Generate

variable {arity : String → Nat} {known : List (String × Nat)}

theorem shifts_op3 (op : Opcode) (hop : op ∈ [.add, .sub, .mul, .div, .seq, .sne, .and, .or])
    {m a : Nat} : Shifts arity known m m (op3 op .t0 .t0 (.reg .t1)) a a := by
  simp only [List.mem_cons, List.not_mem_nil, or_false] at hop
  rcases hop with rfl | rfl | rfl | rfl | rfl | rfl | rfl | rfl <;>
    exact .single rfl nofun rfl (Int.sub_self _).symm

theorem shifts_loadImm (r : Reg) (v : Int) (comment : Option String) {m a : Nat} :
    Shifts arity known m m (loadImm r v comment) a a :=
  .single rfl nofun rfl (Int.sub_self _).symm

theorem shifts_compute {op : Opcode} (hop : op ∈ [.add, .sub, .mul, .div, .seq, .sne, .and, .or])
    (ls : Labels) : Shifts arity [] ls.next (compute op ls).2.next (compute op ls).1 0 1 :=
  (shifts_op3 op hop).append (.push .t0 none)

theorem shifts_compare {op : Opcode} (hop : op.branches = true) (hb : op ≠ .b) (ls : Labels) :
    Shifts arity [] ls.next (compare op ls).2.next (compare op ls).1 0 1 := by
  refine .fresh 0 ?_ (by simp [compare, Labels.fresh])
  have hdone : (numbered ls.next, 0) ∈ [(numbered ls.next, 0)] := List.mem_cons_self
  exact (((shifts_loadImm .t2 1 none).append (.branchIf hop hb hdone .t0 .t1 none)).append
    (shifts_loadImm .t2 0 none)).append (.label hdone none) |>.append (.push .t2 none)

/-- Whichever way `&&` and `||` go, they push one word. -/
theorem shifts_connect {test op : Opcode} (htest : test.branches = true) (hb : test ≠ .b)
    (hop : op ∈ [.add, .sub, .mul, .div, .seq, .sne, .and, .or]) (ls : Labels) :
    Shifts arity [] ls.next (connect test op ls).2.next (connect test op ls).1 0 1 := by
  refine .fresh 0 (.fresh 1 ?_ (by simp [connect, Labels.fresh])) (by simp [connect, Labels.fresh])
  have hshort : (numbered ls.next, 0) ∈ [(numbered (ls.next + 1), 1), (numbered ls.next, 0)] :=
    List.mem_cons_of_mem _ List.mem_cons_self
  have hdone : (numbered (ls.next + 1), 1) ∈
      [(numbered (ls.next + 1), 1), (numbered ls.next, 0)] := List.mem_cons_self
  have hcode : (connect test op ls).1 =
      branchIf test .t0 .zero (numbered ls.next) ++ op3 op .t0 .t0 (.reg .t1) ++ push .t0
        ++ (branch (numbered (ls.next + 1)) ++ (label (numbered ls.next)
          ++ (push .t0 ++ label (numbered (ls.next + 1))))) := by
    simp [connect, Labels.fresh]
  rw [hcode]
  exact (((Shifts.branchIf htest hb hshort .t0 .zero none).append (shifts_op3 op hop)).append
    (.push .t0 none)).append (.across hdone hshort (.push .t0 none))

theorem shifts_combine {op : BinOp} {span : Option Span} {ls ls' : Labels} {q : List Item}
    (h : combine op span ls = .ok (q, ls')) : Shifts arity [] ls.next ls'.next q 0 1 := by
  cases op with
  | add | sub | mul | div | equal | notEqual =>
    cases h
    exact shifts_compute (by simp) ls
  | less | greater | lessEq | greaterEq =>
    cases h
    exact shifts_compare rfl (by simp) ls
  | and | or =>
    cases h
    exact shifts_connect rfl (by simp) (by simp) ls
  | other => cases h

/-! ## Variables and constants -/

/-- Code that puts an address into a register leaves the stack as it is. -/
theorem plain_address {e : Exp} {q : List Item} (h : address e = .ok q) : ∀ i ∈ q, i.Plain := by
  obtain ⟨root, offset, s, operand, -, -, rfl⟩ := address_eq_ok.mp h
  refine List.forall_mem_append.mpr
    ⟨List.forall_mem_singleton.mpr ⟨rfl, rfl, rfl, fun _ => rfl⟩, ?_⟩
  split
  · exact nofun
  · exact List.forall_mem_singleton.mpr ⟨rfl, rfl, rfl, fun _ => rfl⟩

theorem shifts_loadWord (r : Reg) (operand : Operand) (comment : Option String) {m a : Nat} :
    Shifts arity known m m (loadWord r operand comment) a a :=
  .single rfl nofun rfl (Int.sub_self _).symm

theorem shifts_storeWord (r : Reg) (operand : Operand) (comment : Option String) {m a : Nat} :
    Shifts arity known m m (storeWord r operand comment) a a :=
  .single rfl nofun rfl (Int.sub_self _).symm

theorem shifts_load {x : Ident} {q : List Item} (h : load x = .ok q) {m : Nat} :
    Shifts arity [] m m q 0 1 := by
  obtain ⟨s, operand, t, -, -, rfl⟩ := load_eq_ok.mp h
  exact (shifts_loadWord .t0 operand _).append (.push .t0 none)

/-- A string constant between instructions leaves the stack as it is. -/
theorem shifts_constant (ls : Labels) (text : String) :
    Shifts arity [] ls.next (ls.constant text).2.2.next (ls.constant text).2.1 0 0 := by
  rw [Labels.constant]
  split
  · exact .nil
  · have hlabel : (numbered ls.next, 0) ∈ [(numbered ls.next, 0)] := List.mem_cons_self
    have hitem : ∀ d : Directive, (Item.directive d).Plain := fun _ => ⟨rfl, rfl, rfl, fun _ => rfl⟩
    have hdata : ∀ i ∈ [Item.directive .data], i.Plain := List.forall_mem_singleton.mpr (hitem _)
    have htext : ∀ i ∈ [Item.directive (.asciiz text), .directive .text], i.Plain :=
      List.forall_mem_cons.mpr ⟨hitem _, List.forall_mem_singleton.mpr (hitem _)⟩
    exact .fresh 0 (((Shifts.of_plain hdata).append (.label hlabel none)).append (.of_plain htext))
      List.mem_cons_self

/-! ## Expressions -/

end Generate

/-- Every function that is declared takes as many arguments as are counted for its label. -/
def Env.Counts (env : Env) (arity : String → Nat) : Prop :=
  ∀ ⦃name sig⦄, env.find? name = some (.function sig) →
    sig.params.length = arity (Generate.functionLabel name)

namespace Generate

variable {arity : String → Nat}

theorem shifts_location {env : Env} {e : Exp} {s : Storage} {n : Nat} {sh : Shape StructDef}
    (he : Locates env e s n sh) {ls ls' : Labels} {q : List Item} (h : exp ls e = .ok (q, ls')) :
    Shifts arity [] ls.next ls'.next q 0 1 := by
  cases he with
  | ident =>
    cases exp_eq_ok.mp h with
    | ident hcode => exact shifts_load hcode
  | access =>
    cases exp_eq_ok.mp h with
    | access haddr =>
      exact ((Shifts.of_plain (plain_address haddr)).append
        (shifts_loadWord .t0 _ none)).append (.push .t0 none)

mutual

/-- The code of an expression pushes one word. -/
theorem shifts_exp {env : Env} (henv : env.Counts arity) : ∀ {e : Exp} {t : Ty}, HasType env e t →
    ∀ {ls ls' : Labels} {q : List Item}, exp ls e = .ok (q, ls') →
      Shifts arity [] ls.next ls'.next q 0 1
  | _, _, .int, ls, ls', q, h | _, _, .bool, ls, ls', q, h => by
    cases h
    exact (shifts_loadImm .t0 _ none).append (.push .t0 none)
  | _, _, .string, ls, ls', q, h => by
    cases h
    have hload : ∀ {m : Nat} (l : String),
        Shifts arity [] m m (loadAddress .t0 (.label l)) 0 0 :=
      fun l => .single rfl nofun rfl rfl
    exact ((shifts_constant ls _).append (hload _)).append (.push .t0 none)
  | _, _, .location he _, ls, ls', q, h => shifts_location he h
  | _, _, .assign _ _ hr, ls, ls', q, h => by
    cases exp_eq_ok.mp h with
    | assign hvalue haddr =>
      exact ((((shifts_exp henv hr hvalue).append (.of_plain (plain_address haddr))).append
        (.pop .t1 none)).append (shifts_storeWord .t1 _ none)).append (.push .t1 none)
  | _, _, .call hfind _ hargs, ls, ls', q, h => by
    cases exp_eq_ok.mp h with
    | call hvalues =>
      have hpush := shifts_exps henv hargs hvalues
      rw [henv hfind, ← Nat.zero_add (arity _)] at hpush
      exact (hpush.append .call).append (.push .v0 none)
  | _, _, .neg he, ls, ls', q, h => by
    cases exp_eq_ok.mp h with
    | neg hvalue =>
      have hneg : Shifts arity [] ls'.next ls'.next (op3 .sub .t0 .zero (.reg .t0)) 0 0 :=
        .single rfl nofun rfl rfl
      exact (((shifts_exp henv he hvalue).append (.pop .t0 none)).append hneg).append
        (.push .t0 none)
  | _, _, .not he, ls, ls', q, h => by
    cases exp_eq_ok.mp h with
    | not hvalue =>
      have hnot : Shifts arity [] ls'.next ls'.next (op3 .xori .t0 .t0 (.imm 1)) 0 0 :=
        .single rfl nofun rfl rfl
      exact (((shifts_exp henv he hvalue).append (.pop .t0 none)).append hnot).append
        (.push .t0 none)
  | _, _, .binary _ hl hr, ls, ls', q, h => by
    cases exp_eq_ok.mp h with
    | binary hright hleft hresult =>
      have hboth := (shifts_exp henv hr hright).append ((shifts_exp henv hl hleft).lift 1)
      exact ((hboth.append (.pop .t0 none)).append (.pop .t1 none)).append (shifts_combine hresult)

theorem shifts_exps {env : Env} (henv : env.Counts arity) : ∀ {es : List Exp} {ts : List Ty},
    HaveTypes env es ts → ∀ {ls ls' : Labels} {q : List Item}, exps ls es = .ok (q, ls') →
      Shifts arity [] ls.next ls'.next q 0 ts.length
  | _, _, .nil, ls, ls', q, h => by
    cases h
    exact .nil
  | _, _ :: ts, .cons he hes, ls, ls', q, h => by
    obtain ⟨first, ls₁, rest, hfirst, hrest, rfl⟩ := exps_cons_eq_ok.mp h
    have hrest : Shifts arity [] ls₁.next ls'.next rest (0 + 1) (ts.length + 1) :=
      (shifts_exps henv hes hrest).lift 1
    rw [Nat.zero_add] at hrest
    exact (shifts_exp henv he hfirst).append hrest

end

end Generate

end CMinusMinus
