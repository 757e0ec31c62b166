import CMinusMinus.Proofs.Places.Pieces

/-!
# Deleting the declaration of a variable

A variable is declared at the top of a program, as a field of a struct, or in a block of a function,
at any depth (`Program.Spot`).  A program without one of its declarations (`Program.without`) has
the pieces that it had, in their order, but for this declaration (`Program.cut_pieces`).
-/

namespace CMinusMinus

/-! ## Cuts of lists -/

/-- The second list is the first without a stretch of it. -/
def Cut {α : Type} (ys l l' : List α) : Prop := ∃ xs zs, l = xs ++ ys ++ zs ∧ l' = xs ++ zs

namespace Cut

variable {α β : Type} {ys l l' : List α}

theorem whole (ys : List α) : Cut ys ys [] := ⟨[], [], by simp, rfl⟩

theorem eq_of_nil (h : Cut [] l l') : l' = l := by
  obtain ⟨xs, zs, rfl, rfl⟩ := h
  rw [List.append_nil]

theorem after (h : Cut ys l l') (ks : List α) : Cut ys (ks ++ l) (ks ++ l') := by
  obtain ⟨xs, zs, rfl, rfl⟩ := h
  exact ⟨ks ++ xs, zs, by simp, by simp⟩

theorem before (h : Cut ys l l') (ks : List α) : Cut ys (l ++ ks) (l' ++ ks) := by
  obtain ⟨xs, zs, rfl, rfl⟩ := h
  exact ⟨xs, zs ++ ks, by simp, by simp⟩

/-- Where a test tells what was cut off from what is left, it is what the test leaves. -/
theorem eq_filter (h : Cut ys l l') {p : α → Bool} (hys : ∀ y ∈ ys, p y = false)
    (hl' : ∀ x ∈ l', p x = true) : l' = l.filter p := by
  obtain ⟨xs, zs, rfl, rfl⟩ := h
  obtain ⟨hxs, hzs⟩ := List.forall_mem_append.mp hl'
  have hnone : ys.filter p = [] :=
    List.filter_eq_nil_iff.mpr fun y hy hp => Bool.false_ne_true ((hys y hy).symm.trans hp)
  rw [List.filter_append, List.filter_append, hnone, List.append_nil, List.filter_eq_self.mpr hxs,
    List.filter_eq_self.mpr hzs]

end Cut

section

variable {α β : Type} {as : List α} {i : Nat} {a : α}

/-- A list around one of its members. -/
theorem exists_around (hi : as[i]? = some a) : ∃ xs zs, as = xs ++ a :: zs ∧
    as.eraseIdx i = xs ++ zs ∧ ∀ b, as.set i b = xs ++ b :: zs := by
  induction as generalizing i with
  | nil => cases hi
  | cons a' as ih =>
    cases i with
    | zero =>
      cases hi
      exact ⟨[], as, rfl, rfl, fun _ => rfl⟩
    | succ i =>
      obtain ⟨xs, zs, rfl, herase, hset⟩ := ih hi
      exact ⟨a' :: xs, zs, rfl, congrArg (a' :: ·) herase, fun b => congrArg (a' :: ·) (hset b)⟩

theorem cut_flatMap_eraseIdx (hi : as[i]? = some a) (f : α → List β) :
    Cut (f a) (as.flatMap f) ((as.eraseIdx i).flatMap f) := by
  obtain ⟨xs, zs, rfl, herase, -⟩ := exists_around hi
  rw [herase, List.flatMap_append, List.flatMap_append, List.flatMap_cons]
  exact ((Cut.whole _).before _).after _

theorem cut_map_eraseIdx (hi : as[i]? = some a) (f : α → β) :
    Cut [f a] (as.map f) ((as.eraseIdx i).map f) := by
  rw [List.map_eq_flatMap, List.map_eq_flatMap]
  exact cut_flatMap_eraseIdx hi fun a => [f a]

theorem cut_flatMap_set {ys : List β} (hi : as[i]? = some a) {f : α → List β} {b : α}
    (h : Cut ys (f a) (f b)) : Cut ys (as.flatMap f) ((as.set i b).flatMap f) := by
  obtain ⟨xs, zs, rfl, -, hset⟩ := exists_around hi
  rw [hset, List.flatMap_append, List.flatMap_append, List.flatMap_cons, List.flatMap_cons]
  exact (h.before _).after _

end

/-! ## Declarations without one -/

/-- The declaration at a place of a list, and the list without it. -/
def VarDecls.without (i : Nat) (ds : VarDecls) : Option (VarDecl × VarDecls) :=
  ds.items[i]?.map fun d => (d, { ds with items := ds.items.eraseIdx i })

/-- The block of a statement, the second one of two if `second` holds. -/
def Stmt.body? (second : Bool) : Stmt → Option (Block Stmt)
  | .ifThen _ _ b | .while _ _ b => if second then none else some b
  | .ifElse _ _ b₁ b₂ => some (if second then b₂ else b₁)
  | .assign .. | .increment .. | .decrement .. | .read .. | .write .. | .call .. | .return ..
  | .unknown _ => none

/-- The statement with another block. -/
def Stmt.withBody (second : Bool) (b : Block Stmt) : Stmt → Stmt
  | .ifThen s e _ => .ifThen s e b
  | .while s e _ => .while s e b
  | .ifElse s e b₁ b₂ => if second then .ifElse s e b₁ b else .ifElse s e b b₂
  | s => s

/-- Where a block declares a variable: among its own declarations, or in the block of a
statement. -/
inductive Block.Spot where
  | decl (i : Nat)
  | inner (i : Nat) (second : Bool) (spot : Block.Spot)

/-- The declaration at a spot of a block, and the block without it. -/
def Stmt.blockWithout : Block.Spot → Block Stmt → Option (VarDecl × Block Stmt)
  | .decl i, b => (b.decls.without i).map fun (d, decls) => (d, { b with decls })
  | .inner i second spot, b =>
    b.stmts[i]?.bind fun s => (s.body? second).bind fun body =>
      (blockWithout spot body).map fun (d, body) =>
        (d, { b with stmts := b.stmts.set i (s.withBody second body) })

/-- Where a declaration declares a variable inside of it: a field of a struct, or a local of a
function. -/
inductive Decl.Spot where
  | field (i : Nat)
  | local (spot : Block.Spot)

/-- The declaration at a spot of a declaration, and what is left without it. -/
def Decl.without : Decl.Spot → Decl → Option (VarDecl × Decl)
  | .field i, .struct s =>
    (s.fields.without i).map fun (d, fields) => (d, .struct { s with fields })
  | .local spot, .fn f =>
    (Stmt.blockWithout spot f.body).map fun (d, body) => (d, .fn { f with body })
  | _, _ => none

/-- The variable that a declaration at the top is of. -/
def Decl.var? : Decl → Option VarDecl
  | .var d => some d
  | .fn _ | .struct _ | .unknown _ => none

/-- Where a program declares a variable: at the top, or inside of a declaration there. -/
inductive Program.Spot where
  | global (i : Nat)
  | inner (i : Nat) (spot : Decl.Spot)

/-- The declaration at a spot of a program, and the program without it. -/
def Program.without : Program.Spot → Program → Option (VarDecl × Program)
  | .global i, p =>
    (p.decls[i]?.bind Decl.var?).map fun d => (d, { p with decls := p.decls.eraseIdx i })
  | .inner i spot, p =>
    p.decls[i]?.bind fun d => (d.without spot).map fun (v, d) =>
      (v, { p with decls := p.decls.set i d })

/-! ## What is left -/

variable {i : Nat} {v : VarDecl}

theorem VarDecls.without_eq_some {ds ds' : VarDecls} (h : ds.without i = some (v, ds')) :
    ds.items[i]? = some v ∧ ds' = { ds with items := ds.items.eraseIdx i } := by
  obtain ⟨d, hd, heq⟩ := Option.map_eq_some_iff.mp h
  cases heq
  exact ⟨hd, rfl⟩

theorem Stmt.blockWithout_inner {second : Bool} {spot : Block.Spot} {b b' : Block Stmt}
    (h : Stmt.blockWithout (.inner i second spot) b = some (v, b')) :
    ∃ s body body', b.stmts[i]? = some s ∧ s.body? second = some body ∧
      Stmt.blockWithout spot body = some (v, body') ∧
      b' = { b with stmts := b.stmts.set i (s.withBody second body') } := by
  obtain ⟨s, hs, h⟩ := Option.bind_eq_some_iff.mp h
  obtain ⟨body, hbody, h⟩ := Option.bind_eq_some_iff.mp h
  obtain ⟨⟨_, body'⟩, hwithout, heq⟩ := Option.map_eq_some_iff.mp h
  cases heq
  exact ⟨s, body, body', hs, hbody, hwithout, rfl⟩

/-- A declaration is taken out of the fields of a struct or the body of a function. -/
theorem Decl.without_eq_some {spot : Decl.Spot} {d d' : Decl} (h : d.without spot = some (v, d')) :
    (∃ i s fields, spot = .field i ∧ d = .struct s ∧ s.fields.without i = some (v, fields) ∧
      d' = .struct { s with fields }) ∨
    ∃ spot' f body, spot = .local spot' ∧ d = .fn f ∧
      Stmt.blockWithout spot' f.body = some (v, body) ∧ d' = .fn { f with body } := by
  cases spot with
  | field i =>
    cases d with
    | struct s =>
      obtain ⟨⟨_, fields⟩, hfields, heq⟩ := Option.map_eq_some_iff.mp h
      cases heq
      exact .inl ⟨i, s, fields, rfl, rfl, hfields, rfl⟩
    | _ => cases h
  | «local» spot =>
    cases d with
    | fn f =>
      obtain ⟨⟨_, body⟩, hbody, heq⟩ := Option.map_eq_some_iff.mp h
      cases heq
      exact .inr ⟨spot, f, body, rfl, rfl, hbody, rfl⟩
    | _ => cases h

/-- A declaration is taken out at the top of a program or out of a declaration there. -/
theorem Program.without_eq_some {spot : Program.Spot} {p p' : Program}
    (h : p.without spot = some (v, p')) :
    (∃ i, spot = .global i ∧ p.decls[i]? = some (.var v) ∧
      p' = { p with decls := p.decls.eraseIdx i }) ∨
    ∃ i spot' d d', spot = .inner i spot' ∧ p.decls[i]? = some d ∧
      d.without spot' = some (v, d') ∧ p' = { p with decls := p.decls.set i d' } := by
  cases spot with
  | global i =>
    obtain ⟨_, hvar, heq⟩ := Option.map_eq_some_iff.mp h
    cases heq
    obtain ⟨d, hd, hvar⟩ := Option.bind_eq_some_iff.mp hvar
    cases d with
    | var d =>
      cases hvar
      exact .inl ⟨i, rfl, hd, rfl⟩
    | _ => cases hvar
  | inner i spot =>
    obtain ⟨d, hd, h⟩ := Option.bind_eq_some_iff.mp h
    obtain ⟨⟨_, d'⟩, hd', heq⟩ := Option.map_eq_some_iff.mp h
    cases heq
    exact .inr ⟨i, spot, d, d', rfl, hd, hd', rfl⟩

/-! ### Pieces -/

theorem Stmt.listPieces_eq_flatMap (ss : List Stmt) :
    Stmt.listPieces ss = ss.flatMap Stmt.pieces := by
  induction ss with
  | nil => rfl
  | cons s ss ih => rw [Stmt.listPieces, ih, List.flatMap_cons]

/-- The pieces of a statement are those of its block and others. -/
theorem Stmt.cut_withBody {second : Bool} {s : Stmt} {b b' : Block Stmt} {ps : List Piece}
    (hb : s.body? second = some b) (h : Cut ps (Stmt.blockPieces b) (Stmt.blockPieces b')) :
    Cut ps s.pieces (s.withBody second b').pieces := by
  cases s with
  | ifThen | «while» =>
    cases second with
    | true => cases hb
    | false =>
      cases hb
      exact h.after _
  | ifElse =>
    cases second with
    | true =>
      cases hb
      exact (h.after _).after _
    | false =>
      cases hb
      exact (h.before _).after _
  | _ => cases hb

theorem Stmt.cut_blockPieces {spot : Block.Spot} : ∀ {b b' : Block Stmt},
    Stmt.blockWithout spot b = some (v, b') →
      Cut [.var v] (Stmt.blockPieces b) (Stmt.blockPieces b') := by
  induction spot with
  | decl i =>
    rintro ⟨ds, s, ss⟩ b' h
    obtain ⟨⟨_, ds'⟩, hds, heq⟩ := Option.map_eq_some_iff.mp h
    cases heq
    obtain ⟨hv, rfl⟩ := VarDecls.without_eq_some hds
    exact (cut_map_eraseIdx hv Piece.var).before _
  | inner i second spot ih =>
    rintro ⟨ds, s, ss⟩ b' h
    obtain ⟨s, body, body', hs, hbody, hwithout, rfl⟩ := Stmt.blockWithout_inner h
    have hcut := cut_flatMap_set hs (Stmt.cut_withBody hbody (ih hwithout))
    rw [Stmt.blockPieces, Stmt.blockPieces, Stmt.listPieces_eq_flatMap, Stmt.listPieces_eq_flatMap]
    exact hcut.after _

theorem Decl.cut_pieces {spot : Decl.Spot} {d d' : Decl} (h : d.without spot = some (v, d')) :
    Cut [.var v] d.pieces d'.pieces := by
  rcases Decl.without_eq_some h with
    ⟨i, s, fields, rfl, rfl, hfields, rfl⟩ | ⟨spot, f, body, rfl, rfl, hbody, rfl⟩
  · obtain ⟨hv, rfl⟩ := VarDecls.without_eq_some hfields
    exact (cut_map_eraseIdx hv Piece.var).after [_]
  · exact ((Stmt.cut_blockPieces hbody).after _).after [_]

/-- The pieces of a program without a declaration are those that it had but for this one. -/
theorem Program.cut_pieces {spot : Program.Spot} {p p' : Program}
    (h : p.without spot = some (v, p')) :
    Cut [.var v] (p.decls.flatMap Decl.pieces) (p'.decls.flatMap Decl.pieces) := by
  rcases Program.without_eq_some h with
    ⟨i, rfl, hd, rfl⟩ | ⟨i, spot, d, d', rfl, hd, hwithout, rfl⟩
  · exact cut_flatMap_eraseIdx hd Decl.pieces
  · exact cut_flatMap_set hd (Decl.cut_pieces hwithout)

end CMinusMinus
