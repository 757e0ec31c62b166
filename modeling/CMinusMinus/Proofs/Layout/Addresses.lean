import CMinusMinus.Proofs.Layout.Access

/-!
# Addresses of accesses

The code for a location adds a number of bytes to the address of an operand (`Exp.Emits`), and
that code stands in the code of the function that has the location (`Generate.emitted_function`).
A `Placement` says where the labels and a frame lie in memory, and so which word an access denotes
(`Placement.Denotes`).  As long as the globals and the frame lie apart, a word belongs to one
storage only (`Placement.Apart.eq_of_base`).
-/

namespace CMinusMinus

/-! ## Code -/

/-- The code for a location adds so many bytes to the address of an operand, whether it is the
address that is wanted or the value. -/
structure Exp.Emits (e : Exp) (operand : Operand) (n : Nat) : Prop where
  address : ∃ comment, Generate.address e = .ok (Asm.loadAddress .t0 operand comment
    ++ if n = 0 then [] else Asm.op3 .addu .t0 .t0 (.imm n))
  value : ∀ ls, ∃ load, Generate.exp ls e = .ok (load ++ Asm.push .t0, ls) ∧
    ((n = 0 ∧ ∃ comment, load = Asm.loadWord .t0 operand comment) ∨
      ∃ addr, Generate.address e = .ok addr ∧ load = addr ++ Asm.loadWord .t0 (.indexed .t0 0))

theorem Exp.Emits.unique {e : Exp} {operand operand' : Operand} {n n' : Nat}
    (h : e.Emits operand n) (h' : e.Emits operand' n') : operand = operand' ∧ n = n' := by
  obtain ⟨_, haddress⟩ := h.address
  obtain ⟨_, haddress'⟩ := h'.address
  have heq := Except.ok.inj (haddress.symm.trans haddress')
  obtain ⟨hload, hadd⟩ := List.cons.inj heq
  refine ⟨?_, ?_⟩
  · cases hload
    rfl
  · simp only [Asm.op3, Asm.instr] at hadd
    split at hadd <;> split at hadd
    · omega
    · cases hadd
    · cases hadd
    · exact Int.ofNat_inj.mp (by simpa using hadd)

theorem Locates.emits {env : Env} (henv : env.Sound) {e : Exp} {s : Storage} {n : Nat} {t : Ty}
    (h : Locates env e s n (.scalar t)) {operand : Operand}
    (hs : Generate.placeOperand? s = some operand) : e.Emits operand n := by
  obtain ⟨operand', comment, hoperand, haddress⟩ := Generate.address_of_locates henv h
  cases hs.symm.trans hoperand
  refine ⟨⟨comment, haddress⟩, fun ls => ?_⟩
  generalize hsh : Shape.scalar t = sh at h
  cases h with
  | @ident x s _ hbound =>
    refine ⟨Asm.loadWord .t0 operand (some x.name), ?_, .inl ⟨rfl, _, rfl⟩⟩
    rw [Generate.exp, Generate.load, Generate.storageOf_of_bound hbound hoperand]
    simp only [bind, Except.bind, ← hsh]
  | access =>
    refine ⟨_, ?_, .inr ⟨_, haddress, rfl⟩⟩
    rw [Generate.exp, haddress]
    rfl

/-- The code for a location, its address or its value, stands somewhere in a piece of code. -/
def Exp.Emitted (e : Exp) (code : List Item) : Prop :=
  ∃ q, (Generate.address e = .ok q ∨ ∃ ls ls', Generate.exp ls e = .ok (q, ls')) ∧ q <:+: code

namespace Exp.Emitted

variable {e : Exp} {p q : List Item}

theorem left (h : e.Emitted p) : e.Emitted (p ++ q) := by
  obtain ⟨code, hcode, hinfix⟩ := h
  exact ⟨code, hcode, hinfix.trans (List.prefix_append p q).isInfix⟩

theorem right (h : e.Emitted q) : e.Emitted (p ++ q) := by
  obtain ⟨code, hcode, hinfix⟩ := h
  exact ⟨code, hcode, hinfix.trans (List.suffix_append p q).isInfix⟩

end Exp.Emitted

namespace Generate

/-- What has an address is a location. -/
theorem isLocation_of_address {e : Exp} {q : List Item} (h : address e = .ok q) :
    e.isLocation = true := by
  obtain ⟨⟨x, n⟩, hpath, -⟩ := bind_eq_ok.mp h
  cases e with
  | ident | access => rfl
  | _ => cases hpath

/-- What has an address has no other location. -/
theorem emitted_address {e : Exp} {q : List Item} (h : address e = .ok q) :
    ∀ l ∈ e.locations, l.Emitted q := by
  rw [Exp.locations_of_isLocation (isLocation_of_address h)]
  exact List.forall_mem_singleton.mpr ⟨q, .inl h, List.infix_rfl⟩

mutual

/-- The code of an expression has that of its locations. -/
theorem emitted_exp : ∀ {e : Exp} {ls ls' : Labels} {code : List Item},
    exp ls e = .ok (code, ls') → ∀ l ∈ e.locations, l.Emitted code
  | .int .., _, _, _, _ | .string .., _, _, _, _ | .bool .., _, _, _, _
  | .unknown _, _, _, _, _ => nofun
  | .ident x, ls, ls', code, h =>
    List.forall_mem_singleton.mpr ⟨code, .inr ⟨ls, ls', h⟩, List.infix_rfl⟩
  | .access .., ls, ls', code, h =>
    List.forall_mem_singleton.mpr ⟨code, .inr ⟨ls, ls', h⟩, List.infix_rfl⟩
  | .assign _ l r, _, _, _, h => by
    rw [Exp.locations]
    cases exp_eq_ok.mp h with
    | assign hvalue haddr =>
      exact List.forall_mem_append.mpr
        ⟨fun e he => (emitted_address haddr e he).right.left.left.left,
          fun e he => (emitted_exp hvalue e he).left.left.left.left⟩
  | .call _ f _ args, _, _, _, h => by
    cases exp_eq_ok.mp h with
    | call hvalues => exact fun e he => (emitted_exps hvalues e he).left.left
  | .neg _ e, _, _, _, h => by
    cases exp_eq_ok.mp h with
    | neg hvalue => exact fun e he => (emitted_exp hvalue e he).left.left.left
  | .not _ e, _, _, _, h => by
    cases exp_eq_ok.mp h with
    | not hvalue => exact fun e he => (emitted_exp hvalue e he).left.left.left
  | .binary _ op l r, _, _, _, h => by
    rw [Exp.locations]
    cases exp_eq_ok.mp h with
    | binary hright hleft _ =>
      exact List.forall_mem_append.mpr
        ⟨fun e he => (emitted_exp hleft e he).right.left.left.left,
          fun e he => (emitted_exp hright e he).left.left.left.left⟩

theorem emitted_exps : ∀ {es : List Exp} {ls ls' : Labels} {code : List Item},
    exps ls es = .ok (code, ls') → ∀ l ∈ Exp.listLocations es, l.Emitted code
  | [], _, _, _, _ => nofun
  | e :: es, _, _, _, h => by
    obtain ⟨first, _, rest, hfirst, hrest, rfl⟩ := exps_cons_eq_ok.mp h
    rw [Exp.listLocations]
    exact List.forall_mem_append.mpr
      ⟨fun e he => (emitted_exp hfirst e he).left, fun e he => (emitted_exps hrest e he).right⟩

end

theorem emitted_step {op : Opcode} {e : Exp} {code : List Item} (h : step op e = .ok code) :
    ∀ l ∈ e.locations, l.Emitted code := by
  obtain ⟨addr, haddr, rfl⟩ := step_eq_ok.mp h
  exact fun l hl => (emitted_address haddr l hl).left.left.left

mutual

/-- The code of a statement has that of its locations. -/
theorem emitted_stmt {fn : String} : ∀ {s : Stmt} {ls ls' : Labels} {code : List Item},
    stmt fn ls s = .ok (code, ls') → ∀ l ∈ s.locations, l.Emitted code
  | .assign _ e, _, _, _, h => by
    cases stmt_eq_ok.mp h with
    | assign hvalue => exact fun l hl => (emitted_exp hvalue l hl).left
  | .call _ e, _, _, _, h => by
    cases stmt_eq_ok.mp h with
    | call hvalue => exact fun l hl => (emitted_exp hvalue l hl).left
  | .return _ (some e), _, _, _, h => by
    cases stmt_eq_ok.mp h with
    | «return» hvalue => exact fun l hl => (emitted_exp hvalue l hl).left.left
  | .increment _ e, _, _, _, h => by
    cases stmt_eq_ok.mp h with
    | increment hcode => exact emitted_step hcode
  | .decrement _ e, _, _, _, h => by
    cases stmt_eq_ok.mp h with
    | decrement hcode => exact emitted_step hcode
  | .read _ e, _, _, _, h => by
    cases stmt_eq_ok.mp h with
    | read haddr => exact fun l hl => (emitted_address haddr l hl).right.left
  | .write _ e, _, _, _, h => by
    cases stmt_eq_ok.mp h with
    | write hvalue => exact fun l hl => (emitted_exp hvalue l hl).left.left
  | .ifThen _ e b, _, _, _, h => by
    rw [Stmt.locations]
    cases stmt_eq_ok.mp h with
    | ifThen hcond hbody =>
      exact List.forall_mem_append.mpr
        ⟨fun l hl => (emitted_exp hcond l hl).left.left.left,
          fun l hl => (emitted_block hbody l hl).right.left⟩
  | .ifElse _ e b₁ b₂, _, _, _, h => by
    rw [Stmt.locations]
    cases stmt_eq_ok.mp h with
    | ifElse hcond hyes hno =>
      exact List.forall_mem_append.mpr
        ⟨fun l hl => (emitted_exp hcond l hl).left.left.left.left.left.left,
          List.forall_mem_append.mpr
            ⟨fun l hl => (emitted_block hyes l hl).right.left.left.left.left,
              fun l hl => (emitted_block hno l hl).right.left⟩⟩
  | .while _ e b, _, _, _, h => by
    rw [Stmt.locations]
    cases stmt_eq_ok.mp h with
    | «while» hcond hbody =>
      exact List.forall_mem_append.mpr
        ⟨fun l hl => (emitted_exp hcond l hl).right.left.left.left.left,
          fun l hl => (emitted_block hbody l hl).right.left.left⟩
  | .return _ none, _, _, _, _ | .unknown _, _, _, _, _ => nofun

theorem emitted_block {fn : String} : ∀ {b : Block Stmt} {ls ls' : Labels} {code : List Item},
    block fn ls b = .ok (code, ls') → ∀ l ∈ Stmt.blockLocations b, l.Emitted code
  | ⟨_, _, _⟩, _, _, _, h => by
    rw [block] at h
    exact emitted_stmts h

theorem emitted_stmts {fn : String} : ∀ {ss : List Stmt} {ls ls' : Labels} {code : List Item},
    stmts fn ls ss = .ok (code, ls') → ∀ l ∈ Stmt.listLocations ss, l.Emitted code
  | [], _, _, _, _ => nofun
  | s :: ss, _, _, _, h => by
    obtain ⟨first, _, rest, hfirst, hrest, rfl⟩ := stmts_cons_eq_ok.mp h
    rw [Stmt.listLocations]
    exact List.forall_mem_append.mpr
      ⟨fun l hl => (emitted_stmt hfirst l hl).left, fun l hl => (emitted_stmts hrest l hl).right⟩

end

/-- The code of a function has that of its locations. -/
theorem emitted_function {d : FnDecl} {frame : Frame} {ls ls' : Labels} {code : List Item}
    (h : function d frame ls = .ok (code, ls')) : ∀ l ∈ d.locations, l.Emitted code := by
  obtain ⟨body, hbody, rfl⟩ := function_eq_ok.mp h
  exact fun l hl => (emitted_block hbody l hl).right.left

end Generate

/-! ## Memory -/

/-- Where the labels of the globals and the frame pointer of an activation lie in memory. -/
structure Placement where
  label : String → Int
  fp : Int

/-- The bytes of a frame. -/
def Frame.size (f : Frame) : Nat := f.formals + Frame.savedSize + f.locals

namespace Placement

variable (m : Placement)

/-- The address that an operand denotes. -/
def address? : Operand → Option Int
  | .label l => some (m.label l)
  | .indexed .fp offset => some (m.fp + offset)
  | _ => none

/-- The code for a location computes the address. -/
def Denotes (e : Exp) (a : Int) : Prop :=
  ∃ operand n base, e.Emits operand n ∧ m.address? operand = some base ∧ a = base + n

/-- The globals lie apart from one another and from the frame, whose highest word is the one at
the frame pointer. -/
structure Apart (globals : List Storage) (frame : Frame) : Prop where
  separate : globals.Pairwise fun s t =>
    m.label (Generate.globalLabel s.name) + s.shape.size ≤ m.label (Generate.globalLabel t.name) ∨
      m.label (Generate.globalLabel t.name) + t.shape.size ≤ m.label (Generate.globalLabel s.name)
  clear : ∀ s ∈ globals,
    m.label (Generate.globalLabel s.name) + s.shape.size ≤ m.fp + wordSize - frame.size ∨
      m.fp + wordSize ≤ m.label (Generate.globalLabel s.name)

/-- Globals of different names can be placed one after another above a frame. -/
theorem exists_apart {globals : List Storage} (hnames : (globals.map Storage.name).Nodup)
    (frame : Frame) (fp : Int) : ∃ m : Placement, m.fp = fp ∧ m.Apart globals frame := by
  have hlabels : ∀ base : Int, ∃ label : String → Int,
      (∀ s ∈ globals, base ≤ label (Generate.globalLabel s.name)) ∧
        globals.Pairwise fun s t => label (Generate.globalLabel s.name) + s.shape.size
          ≤ label (Generate.globalLabel t.name) := by
    clear fp frame
    induction globals with
    | nil => exact fun base => ⟨fun _ => base, nofun, .nil⟩
    | cons s ss ih =>
      intro base
      obtain ⟨hs, hnames⟩ := List.nodup_cons.mp hnames
      obtain ⟨label, habove, happart⟩ := ih hnames (base + s.shape.size)
      have hne : ∀ t ∈ ss, Generate.globalLabel t.name ≠ Generate.globalLabel s.name := by
        intro t ht heq
        have hname : t.name = s.name := (String.append_right_inj _).mp heq
        exact hs (hname ▸ List.mem_map_of_mem ht)
      refine ⟨fun l => if l = Generate.globalLabel s.name then base else label l, ?_, ?_⟩
      · refine List.forall_mem_cons.mpr ⟨?_, fun t ht => ?_⟩
        · exact Int.le_of_eq (if_pos rfl).symm
        · dsimp only
          rw [if_neg (hne t ht)]
          have hle := habove t ht
          omega
      · refine List.pairwise_cons.mpr ⟨fun t ht => ?_, ?_⟩
        · dsimp only
          rw [if_pos rfl, if_neg (hne t ht)]
          exact habove t ht
        · refine happart.imp_of_mem fun {t u} ht hu hle => ?_
          dsimp only
          rw [if_neg (hne t ht), if_neg (hne u hu)]
          exact hle
  obtain ⟨label, habove, happart⟩ := hlabels (fp + wordSize)
  exact ⟨⟨label, fp⟩, rfl, happart.imp .inl, fun s hs => .inr (habove s hs)⟩

/-- The address of the lowest word of storage. -/
def base (s : Storage) : Int :=
  match s.place with
  | .static => m.label (Generate.globalLabel s.name)
  | .frame offset => m.fp - offset
  | .unplaced => 0

theorem address?_of_placeOperand {s : Storage} {operand : Operand}
    (h : Generate.placeOperand? s = some operand) : m.address? operand = some (m.base s) := by
  unfold Generate.placeOperand? at h
  unfold base
  cases hplace : s.place with
  | static =>
    rw [hplace] at h
    cases h
    rfl
  | frame offset =>
    rw [hplace] at h
    cases h
    show some (m.fp + -offset) = some (m.fp - offset)
    rw [Int.sub_eq_add_neg]
  | unplaced =>
    rw [hplace] at h
    cases h

theorem denotes_iff_of_locates {env : Env} (henv : env.Sound) {e : Exp} {s : Storage} {n : Nat}
    {t : Ty} (h : Locates env e s n (.scalar t)) (a : Int) : m.Denotes e a ↔ a = m.base s + n := by
  obtain ⟨operand, hoperand⟩ := Generate.placeOperand_of_placed (h.root henv).1
  have hemits := h.emits henv hoperand
  have hbase := m.address?_of_placeOperand hoperand
  constructor
  · rintro ⟨operand', n', base', hemits', hbase', rfl⟩
    obtain ⟨rfl, rfl⟩ := hemits.unique hemits'
    rw [Option.some.inj (hbase.symm.trans hbase')]
  · rintro rfl
    exact ⟨operand, n, m.base s, hemits, hbase, rfl⟩

variable {m}

/-- A word belongs to one storage only. -/
theorem Apart.eq_of_base {globals ss : List Storage} {frame : Frame} (h : m.Apart globals frame)
    (hglobals : ∀ s ∈ globals, s.place = .static)
    (hss : ∀ s ∈ ss, ∃ offset, s.place = .frame offset ∧ 0 ≤ offset - s.shape.size + wordSize ∧
      offset + wordSize ≤ frame.size)
    (hapart : ss.Pairwise Storage.Apart) {s t : Storage} {n k : Nat} (hs : s ∈ ss ∨ s ∈ globals)
    (ht : t ∈ ss ∨ t ∈ globals) (hn : n + wordSize ≤ s.shape.size)
    (hk : k + wordSize ≤ t.shape.size) (heq : m.base s + n = m.base t + k) : s = t := by
  by_contra hne
  have hmixed : ∀ {s t : Storage} {n k : Nat}, s ∈ ss → t ∈ globals → n + wordSize ≤ s.shape.size →
      k + wordSize ≤ t.shape.size → m.base s + n ≠ m.base t + k := by
    intro s t n k hs ht hn hk heq
    obtain ⟨offset, hplace, hlow, hhigh⟩ := hss s hs
    have hfar := h.clear t ht
    simp only [base, hplace, hglobals t ht] at heq
    have hword : wordSize = 4 := rfl
    omega
  rcases hs with hs | hs <;> rcases ht with ht | ht
  · -- both words lie at the same distance below the frame pointer
    obtain ⟨offset, hplace, -⟩ := hss s hs
    obtain ⟨offset', hplace', -⟩ := hss t ht
    have : Std.Symm Storage.Apart := ⟨fun _ _ h x hx => h x ⟨hx.2, hx.1⟩⟩
    refine hapart.forall hs ht hne (offset - n) ?_
    simp only [base, hplace, hplace'] at heq
    rw [Storage.covers_iff hplace, Storage.covers_iff hplace']
    have hword : wordSize = 4 := rfl
    omega
  · exact hmixed hs ht hn hk heq
  · exact hmixed ht hs hk hn heq.symm
  · have : Std.Symm fun s t : Storage =>
        m.label (Generate.globalLabel s.name) + s.shape.size
            ≤ m.label (Generate.globalLabel t.name) ∨
          m.label (Generate.globalLabel t.name) + t.shape.size
            ≤ m.label (Generate.globalLabel s.name) := ⟨fun _ _ h => h.symm⟩
    have hfar := h.separate.forall hs ht hne
    simp only [base, hglobals s hs, hglobals t ht] at heq
    have hword : wordSize = 4 := rfl
    omega

end Placement

end CMinusMinus
