import CMinusMinus.Proofs.Meaning.Interpretation

/-!
# Interpretation finds the meaning

Where a program has a meaning, its interpretation comes to the same end as long as there is enough
fuel (`Invokes.run`).  Fuel is given three times: to calls, to the loops within a statement, and to
the statement itself if it is a loop, which spends some of its own in each round and leaves that
of the others as it is (`Enough`).
-/

namespace CMinusMinus

/-! ## Enough fuel -/

/-- Something holds with so much fuel or more: for calls, for loops within a statement, and for the
statement itself. -/
def Enough (P : Nat → Nat → Nat → Prop) : Prop := ∃ N, ∀ j ≥ N, ∀ m ≥ N, ∀ k ≥ N, P j m k

namespace Enough

variable {P Q : Nat → Nat → Nat → Prop}

theorem of_forall (h : ∀ j m k, P j m k) : Enough P := ⟨0, fun j _ m _ k _ => h j m k⟩

theorem imp (h : Enough P) (hPQ : ∀ j m k, P j m k → Q j m k) : Enough Q := by
  obtain ⟨N, h⟩ := h
  exact ⟨N, fun j hj m hm k hk => hPQ j m k (h j hj m hm k hk)⟩

theorem and (h : Enough P) (h' : Enough Q) : Enough fun j m k => P j m k ∧ Q j m k := by
  obtain ⟨M, h⟩ := h
  obtain ⟨N, h'⟩ := h'
  have hM : ∀ {n}, n ≥ max M N → n ≥ M := Nat.le_trans (Nat.le_max_left M N)
  have hN : ∀ {n}, n ≥ max M N → n ≥ N := Nat.le_trans (Nat.le_max_right M N)
  exact ⟨max M N, fun j hj m hm k hk =>
    ⟨h j (hM hj) m (hM hm) k (hM hk), h' j (hN hj) m (hN hm) k (hN hk)⟩⟩

/-- A statement has as much fuel as the loops within. -/
theorem within (h : Enough P) : Enough fun j m _ => P j m m := by
  obtain ⟨N, h⟩ := h
  exact ⟨N, fun j hj m hm _ _ => h j hj m hm m hm⟩

/-- A round of a loop takes some of its fuel. -/
theorem round (h : Enough P) : Enough fun j m k => ∃ i, k = i + 1 ∧ P j m i := by
  obtain ⟨N, h⟩ := h
  refine ⟨N + 1, fun j hj m hm k hk => ⟨k - 1, ?_, ?_⟩⟩
  · exact (Nat.sub_add_cancel (Nat.le_trans (Nat.le_add_left 1 N) hk)).symm
  · exact h j (Nat.le_of_succ_le hj) m (Nat.le_of_succ_le hm) _ (Nat.le_sub_one_of_lt hk)

/-- A call takes some of the fuel for calls, and leaves the rest to all of the body. -/
theorem call (h : Enough P) : Enough fun j _ _ => ∃ i, j = i + 1 ∧ P i i i := by
  obtain ⟨N, h⟩ := h
  refine ⟨N + 1, fun j hj _ _ _ _ => ⟨j - 1, ?_, ?_⟩⟩
  · exact (Nat.sub_add_cancel (Nat.le_trans (Nat.le_add_left 1 N) hj)).symm
  · have hle := Nat.le_sub_one_of_lt hj
    exact h _ hle _ hle _ hle

end Enough

/-! ## Pieces that come to their end -/

section

variable {α β : Type}

/-- The piece comes from one store to the other with a value, whatever was left for it as a result,
and leaves the given result if there is one. -/
def Leads (c : Situation → Course α) (σ : Store) (a : α) (σ' : Store) (result : Option Word) :
    Prop :=
  ∀ r, ∃ r', (∀ w, result = some w → r' = w) ∧ c ⟨σ, r⟩ = .done a ⟨σ', r'⟩

namespace Leads

variable {c : Situation → Course α} {f : α → Situation → Course β} {a : α} {x : β} {w : Word}
  {σ σ₁ σ₂ : Store} {left left' : Option Word}

/-- A piece that does not have to leave a result. -/
theorem of_done (h : ∀ r, ∃ r', c ⟨σ, r⟩ = .done a ⟨σ₁, r'⟩) : Leads c σ a σ₁ none := by
  intro r
  obtain ⟨r', hc⟩ := h r
  exact ⟨r', by rintro w ⟨⟩, hc⟩

theorem andThen (h : Leads c σ a σ₁ left) (h' : Leads (f a) σ₁ x σ₂ left') :
    Leads (fun s => (c s).andThen f) σ x σ₂ left' := by
  intro r
  obtain ⟨r₁, -, hc⟩ := h r
  obtain ⟨r₂, hleft, hf⟩ := h' r₁
  refine ⟨r₂, hleft, ?_⟩
  dsimp only
  rw [hc]
  exact hf

/-- What comes after a piece may keep the result that it leaves. -/
theorem keep (h : Leads c σ a σ₁ left) (hf : ∀ r, f a ⟨σ₁, r⟩ = .done x ⟨σ₂, r⟩) :
    Leads (fun s => (c s).andThen f) σ x σ₂ left := by
  intro r
  obtain ⟨r₁, hleft, hc⟩ := h r
  refine ⟨r₁, hleft, ?_⟩
  dsimp only
  rw [hc]
  exact hf r₁

theorem word {c : Situation → Course Value} (h : Leads c σ (Value.word w) σ₁ left) :
    Leads (fun s => (c s).word) σ w σ₁ none :=
  h.andThen (of_done fun r => ⟨r, rfl⟩)

/-- The result of a call is its value. -/
theorem result {c : Situation → Course Unit} (h : Leads c σ () σ₁ (some w)) :
    Leads (fun s => (c s).andThen fun _ s => .done (Value.word s.result) s) σ (Value.word w) σ₁
      none := by
  refine of_done fun r => ?_
  obtain ⟨r₁, hleft, hc⟩ := h r
  refine ⟨r₁, ?_⟩
  rw [hc, ← hleft w rfl]
  rfl

theorem test_false {cond : Situation → Course Value} {yes no : Situation → Course Flow}
    {flow : Flow} (h : Leads cond σ (Value.word 0) σ₁ left) (h' : Leads no σ₁ flow σ₂ left') :
    Leads (Run.test cond yes no) σ flow σ₂ left' :=
  h.word.andThen h'

theorem test_true {cond : Situation → Course Value} {yes no : Situation → Course Flow}
    {flow : Flow} (h : Leads cond σ (Value.word w) σ₁ left) (hw : w ≠ 0)
    (h' : Leads yes σ₁ flow σ₂ left') : Leads (Run.test cond yes no) σ flow σ₂ left' := by
  refine h.word.andThen ?_
  simpa only [if_neg hw] using h'

end Leads

end

/-- What a statement does, with so much fuel for the loops within, and so much for itself. -/
def Run.stmtWith (call : String → List Word → Situation → Course Unit) (m k : Nat) :
    Stmt → Situation → Course Flow
  | .while _ e b => loop (exp call e) (block call m b) k
  | s => stmt call m s

theorem Run.stmtWith_self (call : String → List Word → Situation → Course Unit) (m : Nat)
    (s : Stmt) : stmtWith call m m s = stmt call m s := by
  cases s <;> rfl

/-! ## Expressions -/

theorem Word.eq_of_truth? {w : Word} {c : Bool} (h : w.truth? = some c) : w = ofBool c := by
  unfold truth? at h
  split at h
  · next hw =>
    cases h
    exact hw
  · split at h <;> cases h
    assumption

/-- The code of an operator makes of truth values what the operator does. -/
theorem BinOp.compute?_of_combine? {op : BinOp} {a b w : Word} (h : op.combine? a b = some w) :
    op.compute? a b = some w := by
  cases op with
  | and | or =>
    simp only [combine?, Word.connect?] at h
    split at h
    · next x y hx hy =>
      rw [Word.eq_of_truth? hx, Word.eq_of_truth? hy, ← h]
      cases x <;> cases y <;> rfl
    · cases h
  | _ => exact h

section

variable {ds : List Decl}

theorem fetch_of_read? {σ : Store} {e : Exp} {w : Word} (h : σ.read? e = some w) :
    Leads (Run.fetch e) σ (.word w) σ none := by
  refine .of_done fun r => ⟨r, ?_⟩
  rw [Run.fetch, h]

/-- A call of a function that is not the main one comes to its end. -/
theorem leads_call {j : Nat} {name : String} (hmain : name ≠ "main") {ws : List Word} {σ σ' : Store}
    {result : Option Word} (h : ∀ r, ∃ r', (∀ w, result = some w → r' = w) ∧
      Run.invoke ds j name ws ⟨σ, r⟩ =
        if name = "main" then .halted .exited σ'.events else .done () ⟨σ', r'⟩) :
    Leads (Run.invoke ds j name ws) σ () σ' result := by
  simp only [if_neg hmain] at h
  exact h

mutual

/-- The interpretation finds the value of an expression. -/
theorem Evaluates.run (hnames : ((Decl.functions ds).map (·.name.name)).Nodup) :
    ∀ {σ : Store} {e : Exp} {v : Value} {σ' : Store}, Evaluates ds σ e v σ' →
    Enough fun j _ _ => Leads (Run.exp (Run.invoke ds j) e) σ v σ' none
  | _, _, _, _, .int | _, _, _, _, .bool | _, _, _, _, .string =>
    .of_forall fun _ _ _ => .of_done fun r => ⟨r, rfl⟩
  | _, e, _, _, .location he hread => .of_forall fun j _ _ => by
    rw [funext (Run.exp_of_isLocation (Run.invoke ds j) he)]
    exact fetch_of_read? hread
  | _, _, _, _, .assign hr =>
    (hr.run hnames).imp fun _ _ _ h => h.word.andThen (.of_done fun r => ⟨r, rfl⟩)
  | _, _, _, _, .call hargs hmain hinvokes =>
    ((hargs.run hnames).and (hinvokes.run hnames)).imp fun j _ _ h =>
      h.1.andThen (leads_call hmain h.2).result
  | _, _, _, _, .neg he =>
    (he.run hnames).imp fun _ _ _ h => h.word.andThen (.of_done fun r => ⟨r, rfl⟩)
  | _, _, _, _, .not (b := b) he =>
    (he.run hnames).imp fun _ _ _ h => h.word.andThen (.of_done fun r => ⟨r, by cases b <;> rfl⟩)
  | _, _, _, _, .binary hr hl hw =>
    ((hr.run hnames).and (hl.run hnames)).imp fun _ _ _ h => by
      refine h.1.word.andThen (h.2.word.andThen (.of_done fun r => ⟨r, ?_⟩))
      rw [Run.operate, BinOp.compute?_of_combine? hw]

/-- The interpretation finds the words of expressions. -/
theorem EvaluatesAll.run (hnames : ((Decl.functions ds).map (·.name.name)).Nodup) :
    ∀ {σ : Store} {es : List Exp} {ws : List Word} {σ' : Store}, EvaluatesAll ds σ es ws σ' →
    Enough fun j _ _ => Leads (Run.exps (Run.invoke ds j) es) σ ws σ' none
  | _, _, _, _, .nil => .of_forall fun _ _ _ => .of_done fun r => ⟨r, rfl⟩
  | _, _, _, _, .cons he hes =>
    ((he.run hnames).and (hes.run hnames)).imp fun _ _ _ h =>
      h.1.word.andThen (h.2.andThen (.of_done fun r => ⟨r, rfl⟩))

/-- The interpretation finds how a call of a function ends. -/
theorem Invokes.run (hnames : ((Decl.functions ds).map (·.name.name)).Nodup) :
    ∀ {σ : Store} {name : String} {ws : List Word} {result : Option Word} {σ' : Store},
    Invokes ds σ name ws result σ' → Enough fun j _ _ => ∀ r, ∃ r',
      (∀ w, result = some w → r' = w) ∧ Run.invoke ds j name ws ⟨σ, r⟩ =
        if name = "main" then .halted .exited σ'.events else .done () ⟨σ', r'⟩
  | σ, name, ws, _, _, .intro hd hname hlength hbody => by
    refine (hbody.run hnames).call.imp ?_
    rintro j _ _ ⟨i, rfl, h⟩ r
    obtain ⟨r', hleft, hrun⟩ := h r
    refine ⟨r', hleft, ?_⟩
    have hfind := find?_of_nodup hnames hd
    rw [hname] at hfind
    rw [Run.invoke, hfind]
    dsimp only
    rw [show Situation.within ⟨σ, r⟩ _ = ⟨σ.within _, r⟩ from rfl, hrun]
    rfl

/-- The interpretation finds how a statement ends. -/
theorem Executes.run (hnames : ((Decl.functions ds).map (·.name.name)).Nodup) :
    ∀ {σ : Store} {s : Stmt} {flow : Flow} {σ' : Store}, Executes ds σ s flow σ' →
    Enough fun j m k => Leads (Run.stmtWith (Run.invoke ds j) m k s) σ flow σ' flow.result
  | _, _, _, _, .assign he | _, _, _, _, .write he =>
    (he.run hnames).imp fun _ _ _ h => h.andThen (.of_done fun r => ⟨_, rfl⟩)
  | _, _, _, _, .increment hread | _, _, _, _, .decrement hread =>
    .of_forall fun _ _ _ => (fetch_of_read? hread).word.andThen (.of_done fun r => ⟨r, rfl⟩)
  | _, _, _, _, .read (w := w) hinput => .of_forall fun _ _ _ => .of_done fun r => ⟨w, by
    show Run.read _ _ = _
    rw [Run.read, hinput]
    rfl⟩
  | _, _, _, _, .ifTrue he hw hb => ((he.run hnames).and (hb.run hnames)).imp fun _ _ _ h =>
    h.1.test_true hw h.2
  | _, _, _, _, .ifFalse he => (he.run hnames).imp fun _ _ _ h =>
    h.test_false (.of_done fun r => ⟨r, rfl⟩)
  | _, _, _, _, .ifElseTrue he hw hb => ((he.run hnames).and (hb.run hnames)).imp fun _ _ _ h =>
    h.1.test_true hw h.2
  | _, _, _, _, .ifElseFalse he hb => ((he.run hnames).and (hb.run hnames)).imp fun _ _ _ h =>
    h.1.test_false h.2
  | _, _, _, _, .whileFalse he => (he.run hnames).round.imp <| by
    rintro _ _ _ ⟨_, rfl, h⟩
    exact h.test_false (.of_done fun r => ⟨r, rfl⟩)
  | _, _, _, _, .whileReturn he hw hb =>
    ((he.run hnames).and (hb.run hnames)).round.imp <| by
      rintro _ _ _ ⟨_, rfl, h⟩
      exact h.1.test_true hw (h.2.keep fun _ => rfl)
  | _, _, _, _, .whileTrue he hw hb hrest =>
    (((he.run hnames).and (hb.run hnames)).and (hrest.run hnames)).round.imp <| by
      rintro _ _ _ ⟨_, rfl, h⟩
      exact h.1.1.test_true hw (h.1.2.andThen h.2)
  | _, _, _, _, .call hargs hmain hinvokes =>
    ((hargs.run hnames).and (hinvokes.run hnames)).imp fun _ _ _ h => .of_done fun r => by
      obtain ⟨r₁, -, hargs⟩ := h.1 r
      obtain ⟨r₂, -, hinvoke⟩ := leads_call hmain h.2 r₁
      refine ⟨r₂, ?_⟩
      show ((Run.exps _ _ _).andThen fun ws s => (Run.invoke _ _ _ ws s).andThen _).andThen _ = _
      rw [hargs, Course.andThen, hinvoke]
      rfl
  | _, _, _, _, .exit => .of_forall fun _ _ _ => .of_done fun r => ⟨r, rfl⟩
  | _, _, _, _, .return (w := w) he => (he.run hnames).imp fun _ _ _ h =>
    h.word.andThen fun r => ⟨w, by rintro w' ⟨⟩; rfl, rfl⟩

/-- The interpretation finds how a block ends whose scope is open. -/
theorem ExecutesBlock.run (hnames : ((Decl.functions ds).map (·.name.name)).Nodup) :
    ∀ {σ : Store} {b : Block Stmt} {flow : Flow} {σ' : Store}, ExecutesBlock ds σ b flow σ' →
    Enough fun j m _ => Leads (Run.block (Run.invoke ds j) m b) σ flow σ' flow.result
  | _, _, _, _, .intro hss => hss.run hnames

/-- The interpretation finds how a block ends. -/
theorem ExecutesInner.run (hnames : ((Decl.functions ds).map (·.name.name)).Nodup) :
    ∀ {σ : Store} {b : Block Stmt} {flow : Flow} {σ' : Store}, ExecutesInner ds σ b flow σ' →
    Enough fun j m _ => Leads (Run.inner (Run.block (Run.invoke ds j) m b)) σ flow σ' flow.result
  | _, _, _, _, .intro hb => (hb.run hnames).imp fun _ _ _ h => h.keep fun _ => rfl

/-- The interpretation finds how statements end. -/
theorem ExecutesAll.run (hnames : ((Decl.functions ds).map (·.name.name)).Nodup) :
    ∀ {σ : Store} {ss : List Stmt} {flow : Flow} {σ' : Store}, ExecutesAll ds σ ss flow σ' →
    Enough fun j m _ => Leads (Run.stmts (Run.invoke ds j) m ss) σ flow σ' flow.result
  | _, _, _, _, .nil => .of_forall fun _ _ _ => .of_done fun r => ⟨r, rfl⟩
  | _, _, _, _, .return hs => (hs.run hnames).within.imp fun j m _ h => by
    rw [Run.stmtWith_self] at h
    exact h.keep fun _ => rfl
  | _, _, _, _, .cons hs hss => ((hs.run hnames).within.and (hss.run hnames)).imp fun j m _ h => by
    rw [Run.stmtWith_self] at h
    exact h.1.andThen h.2

end

end

end CMinusMinus
