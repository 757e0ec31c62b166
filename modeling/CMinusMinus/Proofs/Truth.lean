import CMinusMinus.Proofs.Execution.Memory
import CMinusMinus.Proofs.Meaning.Interpretation
import CMinusMinus.Proofs.Typing.Recorded

/-!
# Truth values are zero and one

A word *stands for a value* of a type if it is zero or one, or the type is not that of truth values
(`Ty.Admits`).  Variables are *truthful* if all words in them stand for values of the types that
their paths lead to (`Image.Truthful`).  A fair run keeps them so, and what it evaluates an
expression to stands for a value of the type of the expression (`Image.Truthful.exp`).
-/

namespace CMinusMinus

/-! ## Words -/

/-- The word stands for a value of the type: for a truth value only zero and one do. -/
def Ty.Admits (t : Ty) (w : Word) : Prop := t = .bool → w = 0 ∨ w = 1

theorem Ty.admits_of_ne {t : Ty} (h : t ≠ .bool) (w : Word) : t.Admits w := fun ht => absurd ht h

theorem Ty.admits_ofBool (t : Ty) (c : Bool) : t.Admits (Word.ofBool c) := by
  intro _
  cases c
  · exact .inl rfl
  · exact .inr rfl

/-- A truth value that is turned over is one. -/
theorem Ty.Admits.not {w : Word} (h : Ty.bool.Admits w) : Ty.bool.Admits (w ^^^ 1) := by
  intro _
  rcases h rfl with rfl | rfl
  · exact .inr rfl
  · exact .inl rfl

/-- What the code of an operator makes of values of its types stands for one of its results. -/
theorem BinOp.Types.admits {op : BinOp} {s t : Ty} (h : op.Types s t) {a b w : Word}
    (ha : s.Admits a) (hb : s.Admits b) (hw : op.compute? a b = some w) : t.Admits w := by
  cases op with
  | add | sub | mul | div => exact Ty.admits_of_ne (by rw [h.2]; decide) w
  | and | or =>
    cases hw
    intro _
    rcases ha h.1 with rfl | rfl <;> rcases hb h.1 with rfl | rfl <;> decide
  | other => exact h.elim
  | _ =>
    cases hw
    exact t.admits_ofBool _

/-! ## Variables -/

/-- The shape that a path leads to. -/
def Shape.sub? : Shape StructDef → List String → Option (Shape StructDef)
  | sh, [] => some sh
  | .scalar _, _ :: _ => none
  | .struct d, name :: path => (d.field? name).bind fun f => f.shape.sub? path
termination_by structural _ path => path

theorem Shape.sub?_snoc {sh : Shape StructDef} {path : List String} {d : StructDef} {name : String}
    {f : Field StructDef} (h : sh.sub? path = some (.struct d)) (hf : d.field? name = some f) :
    sh.sub? (path ++ [name]) = some f.shape := by
  induction path generalizing sh with
  | nil =>
    cases h
    rw [List.nil_append, sub?, hf]
    rfl
  | cons first path ih =>
    cases sh with
    | scalar => cases h
    | struct d' =>
      rw [sub?] at h
      obtain ⟨g, hg, h⟩ := Option.bind_eq_some_iff.mp h
      rw [List.cons_append, sub?, hg]
      exact ih h

/-- The path of a location leads to its shape. -/
theorem Locates.sub? {env : Env} {e : Exp} {s : Storage} {n : Nat} {sh : Shape StructDef}
    (h : Locates env e s n sh) : s.shape.sub? e.fieldPath = some sh := by
  induction h with
  | ident => rfl
  | access _ hfield _ ih => exact Shape.sub?_snoc ih hfield

/-- The words of a variable stand for values of the types that their paths lead to. -/
def Storage.Truthful (s : Storage) (c : Contents) : Prop :=
  ∀ ⦃path t w⦄, s.shape.sub? path = some (.scalar t) → c path = some w → t.Admits w

theorem Storage.truthful_none (s : Storage) : s.Truthful fun _ => none := by
  rintro path t w - ⟨⟩

theorem Storage.truthful_zero (s : Storage) : s.Truthful fun _ => some 0 := by
  rintro path t w - ⟨⟩ -
  exact .inl rfl

theorem Storage.truthful_scalar {s : Storage} {t : Ty} (hs : s.shape = .scalar t) {w : Word}
    (hw : t.Admits w) : s.Truthful fun _ => some w := by
  intro path t' w' hpath hw'
  cases hw'
  rw [hs] at hpath
  cases path with
  | nil =>
    cases hpath
    exact hw
  | cons => cases hpath

theorem Storage.Truthful.set {s : Storage} {c : Contents} (h : s.Truthful c) {path : List String}
    {t : Ty} (hpath : s.shape.sub? path = some (.scalar t)) {w : Word} (hw : t.Admits w) :
    s.Truthful (c.set path w) := by
  intro path' t' w' hpath' hw'
  rw [Contents.set] at hw'
  split at hw'
  · next heq =>
    subst heq
    cases hw'
    cases hpath.symm.trans hpath'
    exact hw
  · exact h hpath' hw'

/-! ## Scopes -/

/-- The variables in scope are truthful, and the names of the program are those that the environment
has. -/
structure Image.Truthful (b : Image) (live : List (List Storage)) (scope : Scope Symbol)
    (σ : Store) : Prop where
  sound : (Env.ofLive live scope).Sound
  within : Env.Within [scope] b.top
  contents : Aligned Storage.Truthful (live ++ [b.globals]) σ.scopes

namespace Image.Truthful

variable {b : Image} {live : List (List Storage)} {scope : Scope Symbol} {σ σ' : Store} {e : Exp}
  {s : Storage} {n : Nat} {t : Ty} {w : Word}

theorem globals (h : b.Truthful live scope σ) :
    AlignedScope Storage.Truthful b.globals σ.globals :=
  (Aligned.concat.mp h.contents).2

theorem locals (h : b.Truthful live scope σ) : Aligned Storage.Truthful live σ.locals :=
  (Aligned.concat.mp h.contents).1

/-- The same locals with other globals. -/
theorem congr (h : b.Truthful live scope σ) (hlocals : σ'.locals = σ.locals)
    (hglobals : AlignedScope Storage.Truthful b.globals σ'.globals) :
    b.Truthful live scope σ' where
  sound := h.sound
  within := h.within
  contents := Aligned.concat.mpr ⟨hlocals ▸ h.locals, hglobals⟩

/-- What a location holds stands for a value of its type. -/
theorem read (h : b.Truthful live scope σ)
    (hloc : Locates (Env.ofLive live scope) e s n (.scalar t)) (hread : σ.read? e = some w) :
    t.Admits w := by
  obtain ⟨x, hroot, hfind⟩ := hloc.find?_root
  have hfind := b.find?_live h.sound h.within hfind
  rw [Store.read?, hroot, Option.bind_some] at hread
  rcases h.contents.find? x.name with ⟨hnone, -⟩ | ⟨s', c, hs, hc, htruthful⟩
  · rw [hfind] at hnone
    cases hnone
  · cases hfind.symm.trans hs
    rw [hc, Option.bind_some] at hread
    exact htruthful hloc.sub? hread

/-- A word that stands for a value of the type of a location is stored there. -/
theorem write (h : b.Truthful live scope σ)
    (hloc : Locates (Env.ofLive live scope) e s n (.scalar t)) (hw : t.Admits w) :
    b.Truthful live scope (σ.write e w) where
  sound := h.sound
  within := h.within
  contents := by
    obtain ⟨x, hroot, hfind⟩ := hloc.find?_root
    rw [Store.write, hroot, Store.scopes_assign]
    exact h.contents.update (b.find?_live h.sound h.within hfind)
      (fun c hc => hc.set hloc.sub? hw) (P := fun _ _ => True) (fun _ _ _ => trivial)
      (List.pairwise_of_forall fun _ _ => trivial) fun _ _ _ hc => hc

theorem enter (h : b.Truthful live scope σ) :
    b.Truthful ([] :: live) scope (σ.within σ.locals.enter) where
  sound := h.sound.enter
  within := h.within
  contents := .cons .nil h.contents

/-- At the end of a scope its variables are gone. -/
theorem leave {ss : List Storage} (h : b.Truthful (ss :: live) scope σ) :
    b.Truthful live scope (σ.within σ.locals.tail) where
  sound entries hentries := h.sound entries (List.mem_cons_of_mem _ hentries)
  within := h.within
  contents := by
    have hlocals := h.locals
    have hglobals := h.globals
    obtain ⟨globals, locals, input, events⟩ := σ
    cases hlocals with
    | cons _ houter => exact Aligned.concat.mpr ⟨houter, hglobals⟩

/-- Locals are declared, which hold nothing. -/
theorem declare {ss ss' : List Storage} {ds : List VarDecl} (h : b.Truthful (ss :: live) scope σ)
    (hsound : (Env.ofLive ((ss ++ ss') :: live) scope).Sound)
    (hnames : List.Forall₂ (fun s d => s.name = d.name.name) ss' ds) :
    b.Truthful ((ss ++ ss') :: live) scope (σ.declare ds) where
  sound := hsound
  within := h.within
  contents := Aligned.concat.mpr ⟨h.locals.declare Storage.truthful_none hnames, h.globals⟩

end Image.Truthful

/-- The formals of a function that is called with words for values of their types are truthful. -/
theorem FormalsTyped.truthful {ss : List Storage} {scope : Scope Symbol} {frame frame' : Frame}
    {ds : List VarDecl} {ts : List Ty} {env' : Env}
    (h : FormalsTyped (Env.ofLive [ss] scope) frame ds ts env' frame') {ws : List Word}
    (hws : List.Forall₂ Ty.Admits ts ws) :
    ∃ ss', env' = Env.ofLive [ss ++ ss'] scope ∧ AlignedScope Storage.Truthful ss'
      (ds.zipWith (fun d w => (d.name.name, fun _ => some w)) ws) := by
  induction ds generalizing ss frame ts ws with
  | nil =>
    cases h
    exact ⟨[], by rw [List.append_nil], .nil⟩
  | cons d ds ih =>
    cases h with
    | @cons _ _ _ _ _ _ s t ts hd _ hshape _ hrest =>
      cases hws with
      | cons hw hws =>
        rw [Env.insert_ofLive] at hrest
        obtain ⟨ss', henv, htruthful⟩ := ih hrest hws
        exact ⟨s :: ss', by rw [henv, List.append_assoc, List.singleton_append],
          .cons ⟨hd.name, Storage.truthful_scalar hshape hw⟩ htruthful⟩

end CMinusMinus
