import CMinusMinus.Proofs.Generation
import CMinusMinus.Proofs.Generation.Labels

/-!
# The functions of a typed program

A function is typed in the scope as it is after its own heading, which has less in it than the
scope at the end of the program.  What the one says of a name the other does too
(`Env.Within`), so a function that is called may be taken from the program as a whole
(`DeclsTyped.function_of_find?`).
-/

namespace CMinusMinus

/-! ## Lookups -/

namespace Scopes

variable {σ : Type}

theorem find?_single (scope : Scope σ) (name : String) :
    find? [scope] name = scope.find? name := by
  rw [find?_cons]
  cases scope.find? name <;> rfl

/-- A declaration of a new name is found under it, and all else is found as before. -/
theorem find?_insert {s : Scopes σ} (hs : s ≠ []) {name : String}
    (hfresh : s.inner? name = none) (x : σ) (n : String) :
    (s.insert name x).find? n = if n = name then some x else s.find? n := by
  cases s with
  | nil => exact absurd rfl hs
  | cons scope outer =>
    replace hfresh : scope.find? name = none := hfresh
    rw [insert, find?_cons, find?_cons, Scope.find?_append]
    by_cases hn : n = name
    · rw [if_pos hn, hn, hfresh]
      simp [Scope.find?]
    · have hlast : Scope.find? [(name, x)] n = none := by
        rw [Scope.find?, List.lookup_cons, beq_false_of_ne hn]
        rfl
      rw [if_neg hn, hlast, Option.or_none]

theorem insert_ne_nil {s : Scopes σ} (hs : s ≠ []) (name : String) (x : σ) :
    s.insert name x ≠ [] := by
  intro h
  have hlength := s.length_insert name x
  rw [h] at hlength
  exact hs (List.length_eq_zero_iff.mp hlength.symm)

end Scopes

/-- If all labels are different, what has a label is found by it. -/
theorem find?_of_nodup {α : Type} {xs : List α} {f : α → String} (h : (xs.map f).Nodup) {x : α}
    (hx : x ∈ xs) : xs.find? (fun y => f y = f x) = some x := by
  induction xs with
  | nil => cases hx
  | cons y xs ih =>
    obtain ⟨hy, hxs⟩ := List.nodup_cons.mp h
    rcases List.mem_cons.mp hx with rfl | hx
    · exact List.find?_cons_of_pos (decide_eq_true rfl)
    · have hne : f y ≠ f x := by
        intro heq
        exact hy (heq ▸ List.mem_map_of_mem hx)
      rw [List.find?_cons_of_neg (by simpa using hne)]
      exact ih hxs hx

/-- Whatever the scopes have, the others have as well. -/
def Env.Within (env env' : Env) : Prop :=
  ∀ ⦃name s⦄, env.find? name = some s → env'.find? name = some s

theorem Env.Within.trans {env₁ env₂ env₃ : Env} (h : env₁.Within env₂) (h' : env₂.Within env₃) :
    env₁.Within env₃ := fun _ _ hfind => h' (h hfind)

theorem Env.Within.find?_eq_none {env env' : Env} (h : env.Within env') {name : String}
    (hnone : env'.find? name = none) : env.find? name = none := by
  cases hfind : env.find? name with
  | none => rfl
  | some s =>
    rw [h hfind] at hnone
    cases hnone

theorem Env.length_insert {env : Env} (henv : env.length = 1) (name : String) (s : Symbol) :
    (env.insert name s).length = 1 := (Scopes.length_insert env name s).trans henv

/-- At the top of a program the innermost scope is the only one. -/
theorem Env.within_insert {env : Env} (henv : env.length = 1) {name : String}
    (hfresh : env.inner? name = none) (s : Symbol) : env.Within (env.insert name s) := by
  obtain ⟨scope, rfl⟩ := List.length_eq_one_iff.mp henv
  intro n s' hfind
  rw [Scopes.find?_insert (List.cons_ne_nil _ _) hfresh]
  split
  · next hn =>
    rw [hn, Scopes.find?_single] at hfind
    rw [show scope.find? name = none from hfresh] at hfind
    cases hfind
  · exact hfind

/-! ## Functions -/

/-- The function is typed with the signature in scopes that the given ones extend. -/
def FnTypedWithin (env : Env) (d : FnDecl) (sig : Signature) : Prop :=
  ∃ env₁ : Env, env₁.Sound ∧ env₁.Within env ∧ env₁.length = 1 ∧ FnTyped env₁ d sig

/-- The functions among declarations. -/
abbrev Decl.functions (ds : List Decl) : List FnDecl := Program.functions { decls := ds }

namespace DeclsTyped

variable {env env' : Env} {ds : List Decl}

theorem within (h : DeclsTyped env ds env') (henv : env.length = 1) : env.Within env' := by
  induction h with
  | nil => exact fun _ _ hfind => hfind
  | var _ _ hd _ _ _ ih =>
    exact (Env.within_insert henv hd.fresh _).trans (ih (Env.length_insert henv _ _))
  | fn hfresh _ _ ih | struct hfresh _ _ _ ih =>
    exact (Env.within_insert henv hfresh _).trans (ih (Env.length_insert henv _ _))

/-- Every function of a typed program is typed. -/
theorem typedWithin (h : DeclsTyped env ds env') (henv : env.length = 1) (hsound : env.Sound)
    {d : FnDecl} (hd : d ∈ Decl.functions ds) : ∃ sig, FnTypedWithin env' d sig := by
  induction h with
  | nil => cases hd
  | var _ _ hv hplace _ _ ih =>
    exact ih (Env.length_insert henv _ _)
      (hv.sound (Storage.placed_of_static hplace) hsound) hd
  | struct _ hlaid hwritten _ ih =>
    exact ih (Env.length_insert henv _ _) (hsound.insert (.struct hlaid hwritten)) hd
  | @fn _ _ _ _ sig _ hf hrest ih =>
    have henv₁ := Env.length_insert henv sig.name (.function sig)
    have hsound₁ := hsound.insert hf.signature_sound
    rcases List.mem_cons.mp hd with rfl | hd
    · exact ⟨_, _, hsound₁, hrest.within henv₁, henv₁, hf⟩
    · exact ih henv₁ hsound₁ hd

/-- A name that is declared as a function is that of a function of the program. -/
theorem function_of_find? (h : DeclsTyped env ds env') (henv : env.length = 1)
    (hsound : env.Sound) {name : String} {sig : Signature}
    (hfind : env'.find? name = some (.function sig)) :
    env.find? name = some (.function sig) ∨
      ∃ d ∈ Decl.functions ds, d.name.name = name ∧ FnTypedWithin env' d sig := by
  induction h with
  | nil => exact .inl hfind
  | @var env _ _ _ _ _ _ hv hplace _ _ ih =>
    have hne : env ≠ [] := List.length_pos_iff.mp (by rw [henv]; exact Nat.one_pos)
    rcases ih (Env.length_insert henv _ _)
      (hv.sound (Storage.placed_of_static hplace) hsound) hfind with hbefore | hafter
    · rw [Scopes.find?_insert hne hv.fresh] at hbefore
      split at hbefore
      · cases hbefore
      · exact .inl hbefore
    · exact .inr hafter
  | @struct env _ _ _ _ hfresh hlaid hwritten _ ih =>
    have hne : env ≠ [] := List.length_pos_iff.mp (by rw [henv]; exact Nat.one_pos)
    rcases ih (Env.length_insert henv _ _) (hsound.insert (.struct hlaid hwritten)) hfind
      with hbefore | hafter
    · rw [Scopes.find?_insert hne hfresh] at hbefore
      split at hbefore
      · cases hbefore
      · exact .inl hbefore
    · exact .inr hafter
  | @fn env _ d _ sig hfresh hf hrest ih =>
    have hne : env ≠ [] := List.length_pos_iff.mp (by rw [henv]; exact Nat.one_pos)
    have henv₁ := Env.length_insert henv sig.name (.function sig)
    have hsound₁ := hsound.insert hf.signature_sound
    rcases ih henv₁ hsound₁ hfind with hbefore | ⟨d', hd', hdname, htyped⟩
    · rw [Scopes.find?_insert hne hfresh] at hbefore
      split at hbefore
      · next hname =>
        cases hbefore
        exact .inr ⟨d, List.mem_cons_self, hf.name.symm.trans hname.symm,
          _, hsound₁, hrest.within henv₁, henv₁, hf⟩
      · exact .inl hbefore
    · exact .inr ⟨d', List.mem_cons_of_mem _ hd', hdname, htyped⟩

/-- A function of typed declarations has a name that is declared by none before. -/
theorem find?_eq_none (h : DeclsTyped env ds env') (henv : env.length = 1) {d : FnDecl}
    (hd : d ∈ Decl.functions ds) : env.find? d.name.name = none := by
  induction h with
  | nil => cases hd
  | var _ _ hv _ _ _ ih =>
    exact (Env.within_insert henv hv.fresh _).find?_eq_none
      (ih (Env.length_insert henv _ _) hd)
  | struct hfresh _ _ _ ih =>
    exact (Env.within_insert henv hfresh _).find?_eq_none
      (ih (Env.length_insert henv _ _) hd)
  | fn hfresh hf _ ih =>
    rcases List.mem_cons.mp hd with rfl | hd
    · obtain ⟨scope, rfl⟩ := List.length_eq_one_iff.mp henv
      rw [← hf.name, Scopes.find?_single]
      exact hfresh
    · exact (Env.within_insert henv hfresh _).find?_eq_none
        (ih (Env.length_insert henv _ _) hd)

/-- No two functions of a typed program have one name. -/
theorem names_nodup (h : DeclsTyped env ds env') (henv : env.length = 1) :
    ((Decl.functions ds).map (·.name.name)).Nodup := by
  induction h with
  | nil => exact List.nodup_nil
  | var _ _ _ _ _ _ ih | struct _ _ _ _ ih =>
    exact ih (Env.length_insert henv _ _)
  | @fn env _ d ds sig hfresh hf hrest ih =>
    have henv₁ := Env.length_insert henv sig.name (.function sig)
    have hne : env ≠ [] := List.length_pos_iff.mp (by rw [henv]; exact Nat.one_pos)
    refine List.nodup_cons.mpr ⟨?_, ih henv₁⟩
    intro hmem
    obtain ⟨d', hd', hname⟩ := List.mem_map.mp hmem
    have hnone := hrest.find?_eq_none henv₁ hd'
    rw [hname, Scopes.find?_insert hne hfresh, if_pos hf.name.symm] at hnone
    cases hnone

/-- No two functions of a typed program have one label. -/
theorem labels_nodup (h : DeclsTyped env ds env') (henv : env.length = 1) :
    ((Decl.functions ds).map (Generate.functionLabel ·.name.name)).Nodup := by
  have hnames := h.names_nodup henv
  rw [List.Nodup, List.pairwise_map] at hnames ⊢
  exact hnames.imp fun hne heq => hne (Generate.functionLabel_injective heq)

end DeclsTyped

end CMinusMinus
