import CMinusMinus.Proofs.Layout.Addresses
import CMinusMinus.Proofs.Meaning
import Mathlib.Data.List.Forall2

/-!
# Variables and storage in scope

The scopes of a running program list the same variables as those that name resolution had there,
so a name leads to a variable and to its storage at the same time (`Aligned.find?`), and a change
of a variable leaves the others with the storage that they have (`Aligned.update`).

Within a function the scopes are those of the storage of its formals and locals, and outermost the
scope of the program (`Env.ofLive`).  What is in scope has words of the frame of its own, away
from the two words that a call saves, however much of the frame has been laid out
(`Frame.Hosts`).  Declarations of formals and locals add to both.
-/

namespace CMinusMinus

/-- The storage that a name denotes, the innermost scope first. -/
def Storage.find? (scopes : List (List Storage)) (name : String) : Option Storage :=
  scopes.findSome? (·.find? (·.name = name))

theorem Storage.find?_cons (ss : List Storage) (scopes : List (List Storage)) (name : String) :
    find? (ss :: scopes) name = (ss.find? (·.name = name)).or (find? scopes name) := by
  rw [find?, List.findSome?_cons]
  cases ss.find? (·.name = name) <;> rfl

/-- The scope has the same variables as the other, in the relation to their storage. -/
def AlignedScope (R : Storage → Contents → Prop) : List Storage → Scope Contents → Prop :=
  List.Forall₂ fun s c => s.name = c.1 ∧ R s c.2

/-- The scopes have the same variables as the others, in the relation to their storage. -/
def Aligned (R : Storage → Contents → Prop) : List (List Storage) → Scopes Contents → Prop :=
  List.Forall₂ (AlignedScope R)

section Scope

variable {R R' : Storage → Contents → Prop} {ss : List Storage} {scope : Scope Contents}

theorem Scope.find?_cons {σ : Type} (d : String × σ) (scope : Scope σ) (name : String) :
    Scope.find? (d :: scope) name = if d.1 = name then some d.2 else Scope.find? scope name := by
  rw [Scope.find?, List.lookup_cons]
  by_cases h : d.1 = name
  · rw [if_pos h, h, BEq.rfl]
  · rw [if_neg h, beq_false_of_ne (Ne.symm h)]
    rfl

theorem Storage.find?_scope_cons (s : Storage) (ss : List Storage) (name : String) :
    (s :: ss).find? (·.name = name) = if s.name = name then some s
      else ss.find? (·.name = name) := by
  rw [List.find?_cons]
  by_cases h : s.name = name <;> simp [h]

/-- A name is in both scopes or in none. -/
theorem AlignedScope.find? (h : AlignedScope R ss scope) (name : String) :
    (ss.find? (·.name = name) = none ∧ scope.find? name = none) ∨
      ∃ s c, ss.find? (·.name = name) = some s ∧ scope.find? name = some c ∧ R s c := by
  induction h with
  | nil => exact .inl ⟨rfl, rfl⟩
  | @cons s c ss scope hs _ ih =>
    obtain ⟨hname, hR⟩ := hs
    rw [Scope.find?_cons, Storage.find?_scope_cons, ← hname]
    split
    · exact .inr ⟨s, c.2, rfl, rfl, hR⟩
    · exact ih

theorem AlignedScope.imp_of_mem (h : AlignedScope R ss scope)
    (hR : ∀ s ∈ ss, ∀ c, R s c → R' s c) : AlignedScope R' ss scope := by
  induction h with
  | nil => exact .nil
  | cons hs _ ih =>
    obtain ⟨hhead, htail⟩ := List.forall_mem_cons.mp hR
    exact .cons ⟨hs.1, hhead _ hs.2⟩ (ih htail)

/-- A change of the variable that a name denotes. -/
theorem AlignedScope.update {name : String} {f : Contents → Contents} {s : Storage}
    (h : AlignedScope R ss scope) (hs : ss.find? (·.name = name) = some s)
    (hR : ∀ c, R s c → R' s (f c)) {P : Storage → Storage → Prop} (hP : ∀ s t, P s t → P t s)
    (hapart : ss.Pairwise P) (hother : ∀ t, P s t → ∀ c, R t c → R' t c) :
    AlignedScope R' ss (scope.update name f) := by
  induction h with
  | nil => cases hs
  | @cons t c ss scope ht htail ih =>
    obtain ⟨hname, hRt⟩ := ht
    obtain ⟨hfirst, hrest⟩ := List.pairwise_cons.mp hapart
    rw [Storage.find?_scope_cons] at hs
    rw [Scope.update, ← hname]
    split at hs
    · next heq =>
      cases hs
      rw [if_pos heq]
      exact .cons ⟨rfl, hR _ hRt⟩ (imp_of_mem htail fun u hu => hother u (hfirst u hu))
    · next hne =>
      rw [if_neg hne]
      have hmem := List.mem_of_find?_eq_some hs
      exact .cons ⟨hname, hother t (hP t s (hfirst s hmem)) _ hRt⟩ (ih hs hrest)

end Scope

namespace Aligned

variable {R R' : Storage → Contents → Prop} {scopes : List (List Storage)} {cs : Scopes Contents}

/-- What a name denotes has contents that are in the relation to it. -/
theorem find? (h : Aligned R scopes cs) (name : String) :
    (Storage.find? scopes name = none ∧ cs.find? name = none) ∨
      ∃ s c, Storage.find? scopes name = some s ∧ cs.find? name = some c ∧ R s c := by
  induction h with
  | nil => exact .inl ⟨rfl, rfl⟩
  | cons hscope _ ih =>
    rw [Storage.find?_cons, Scopes.find?_cons]
    rcases hscope.find? name with ⟨hs, hc⟩ | ⟨s, c, hs, hc, hR⟩
    · rw [hs, hc, Option.none_or, Option.none_or]
      exact ih
    · exact .inr ⟨s, c, by rw [hs, Option.some_or], by rw [hc, Option.some_or], hR⟩

/-- The outermost scope may be looked at apart from the others. -/
theorem concat {ss : List Storage} {scope : Scope Contents} :
    Aligned R (scopes ++ [ss]) (cs ++ [scope]) ↔ Aligned R scopes cs ∧ AlignedScope R ss scope := by
  unfold Aligned
  rw [← List.forall₂_reverse_iff, List.reverse_append, List.reverse_append]
  simp only [List.reverse_singleton, List.singleton_append, List.forall₂_cons,
    List.forall₂_reverse_iff, and_comm]

theorem imp_of_mem (h : Aligned R scopes cs)
    (hR : ∀ s ∈ scopes.flatten, ∀ c, R s c → R' s c) : Aligned R' scopes cs := by
  induction h with
  | nil => exact .nil
  | cons hscope _ ih =>
    rw [List.flatten_cons, List.forall_mem_append] at hR
    exact .cons (hscope.imp_of_mem hR.1) (ih hR.2)

/-- A change of the variable that a name denotes. -/
theorem update (h : Aligned R scopes cs) {name : String} {f : Contents → Contents} {s : Storage}
    (hs : Storage.find? scopes name = some s) (hR : ∀ c, R s c → R' s (f c))
    {P : Storage → Storage → Prop} (hP : ∀ s t, P s t → P t s)
    (hapart : scopes.flatten.Pairwise P) (hother : ∀ t, P s t → ∀ c, R t c → R' t c) :
    Aligned R' scopes (cs.update name f) := by
  induction h with
  | nil => cases hs
  | @cons ss scope scopes cs hscope htail ih =>
    rw [List.flatten_cons] at hapart
    obtain ⟨hinner, houter, hacross⟩ := List.pairwise_append.mp hapart
    rw [Storage.find?_cons] at hs
    rw [Scopes.update]
    rcases hscope.find? name with ⟨hnone, hc⟩ | ⟨t, c, ht, hc, -⟩
    · rw [hnone, Option.none_or] at hs
      rw [hc, Option.isSome_none, if_neg Bool.false_ne_true]
      have hmem : s ∈ scopes.flatten := by
        obtain ⟨ss', hss', hfind⟩ := List.exists_of_findSome?_eq_some hs
        exact List.mem_flatten.mpr ⟨ss', hss', List.mem_of_find?_eq_some hfind⟩
      refine .cons (hscope.imp_of_mem fun t ht => ?_) (ih hs houter)
      exact hother t (hP t s (hacross t ht s hmem))
    · rw [ht, Option.some_or] at hs
      cases hs
      rw [hc, Option.isSome_some, if_pos rfl]
      have hmem := List.mem_of_find?_eq_some ht
      exact .cons (hscope.update ht hR hP hinner hother)
        (imp_of_mem htail fun u hu => hother u (hacross _ hmem u hu))

/-- Variables are declared that hold nothing, if that is in the relation to all storage. -/
theorem declare (hR : ∀ s, R s fun _ => none) {ss ss' : List Storage} {ds : List VarDecl}
    (h : Aligned R (ss :: scopes) cs)
    (hnames : List.Forall₂ (fun s d => s.name = d.name.name) ss' ds) :
    Aligned R ((ss ++ ss') :: scopes)
      (ds.foldl (fun cs d => cs.insert d.name.name fun _ => none) cs) := by
  induction hnames generalizing ss cs with
  | nil => rwa [List.append_nil]
  | @cons s d ss' ds hname _ ih =>
    cases h with
    | cons hinner houter =>
      rw [show ss ++ s :: ss' = (ss ++ [s]) ++ ss' by simp]
      exact ih (.cons (List.rel_append hinner (.cons ⟨hname, hR s⟩ .nil)) houter)

end Aligned

/-! ## Scopes of storage -/

/-- The scope that declares the storage. -/
def Storage.entries (ss : List Storage) : Scope Symbol := ss.map fun s => (s.name, .storage s)

/-- The scopes in a function, with those of its formals and locals, the innermost first, and that
of the program. -/
def Env.ofLive (live : List (List Storage)) (scope : Scope Symbol) : Env :=
  live.map Storage.entries ++ [scope]

namespace Env

variable {live : List (List Storage)} {scope : Scope Symbol}

theorem find?_entries (ss : List Storage) (name : String) :
    Scope.find? (Storage.entries ss) name = (ss.find? (·.name = name)).map .storage := by
  induction ss with
  | nil => rfl
  | cons s ss ih =>
    have hcons : Storage.entries (s :: ss) = (s.name, .storage s) :: Storage.entries ss := rfl
    rw [hcons, Scope.find?_cons, ih, Storage.find?_scope_cons]
    split <;> rfl

/-- A name denotes what is in scope in the function, or what the program declares. -/
theorem find?_ofLive (live : List (List Storage)) (scope : Scope Symbol) (name : String) :
    (ofLive live scope).find? name =
      ((Storage.find? live name).map .storage).or (scope.find? name) := by
  induction live with
  | nil => exact Scopes.find?_single scope name
  | cons ss live ih =>
    have hcons : ofLive (ss :: live) scope = Storage.entries ss :: ofLive live scope := rfl
    rw [hcons, Scopes.find?_cons, ih, find?_entries, Storage.find?_cons]
    cases ss.find? (·.name = name) <;> rfl

theorem insert_ofLive (ss : List Storage) (live : List (List Storage)) (scope : Scope Symbol)
    (s : Storage) : Scopes.insert (ofLive (ss :: live) scope) s.name (.storage s) =
      ofLive ((ss ++ [s]) :: live) scope := by
  simp [ofLive, Storage.entries, Scopes.insert]

end Env

/-! ## Words of a frame -/

/-- The storage is a formal or a local of the frame: its words are between those of the formals,
or below the saved ones. -/
structure Frame.Places (frame : Frame) (s : Storage) : Prop where
  laid : s.shape.Laid
  place : ∃ offset : Nat, s.place = .frame offset ∧ wordSize ∣ offset ∧
    s.shape.size ≤ offset + wordSize ∧
    (offset + wordSize ≤ frame.formals ∨
      frame.formals + Frame.savedSize + s.shape.size ≤ offset + wordSize ∧
        offset + wordSize ≤ frame.size)

/-- The storages are formals and locals of the frame and have no words in common. -/
structure Frame.Hosts (frame : Frame) (ss : List Storage) : Prop where
  formals : wordSize ∣ frame.formals
  locals : wordSize ∣ frame.locals
  apart : ss.Pairwise Storage.Apart
  places : ∀ s ∈ ss, frame.Places s

/-- More of the frame has been laid out. -/
structure Frame.Le (frame frame' : Frame) : Prop where
  formals : frame.formals = frame'.formals
  locals : ∃ n, frame'.locals = frame.locals + wordSize * n

namespace Frame

variable {frame frame' frame'' : Frame} {s : Storage} {ss ts : List Storage}

theorem Le.refl (frame : Frame) : frame.Le frame := ⟨rfl, 0, rfl⟩

theorem Le.trans (h : frame.Le frame') (h' : frame'.Le frame'') : frame.Le frame'' := by
  obtain ⟨m, hm⟩ := h.locals
  obtain ⟨n, hn⟩ := h'.locals
  exact ⟨h.formals.trans h'.formals, m + n, by rw [hn, hm, Nat.mul_add, Nat.add_assoc]⟩

theorem le_addLocal (frame : Frame) (hlaid : s.shape.Laid) :
    frame.Le (frame.addLocal s.shape.size) :=
  ⟨rfl, _, congrArg _ hlaid.words.size⟩

theorem Le.size (h : frame.Le frame') : frame.size ≤ frame'.size := by
  obtain ⟨n, hn⟩ := h.locals
  unfold Frame.size
  rw [h.formals, hn]
  omega

theorem Places.mono (h : frame.Places s) (hle : frame.Le frame') : frame'.Places s := by
  obtain ⟨offset, hplace, hdvd, hsize, hrange⟩ := h.place
  refine ⟨h.laid, offset, hplace, hdvd, hsize, ?_⟩
  have hframe := hle.size
  rw [← hle.formals]
  omega

theorem Hosts.mono (h : frame.Hosts ss) (hle : frame.Le frame') : frame'.Hosts ss where
  formals := hle.formals ▸ h.formals
  locals := by
    obtain ⟨n, hn⟩ := hle.locals
    exact hn ▸ Nat.dvd_add h.locals (Nat.dvd_mul_right _ _)
  apart := h.apart
  places s hs := (h.places s hs).mono hle

theorem Hosts.insert (h : frame.Hosts (ss ++ ts)) (hs : frame.Places s)
    (hapart : ∀ t ∈ ss ++ ts, s.Apart t) : frame.Hosts ((ss ++ [s]) ++ ts) where
  formals := h.formals
  locals := h.locals
  apart := by
    have hsymm : ∀ {s t : Storage}, s.Apart t → t.Apart s := fun h x hx => h x ⟨hx.2, hx.1⟩
    have hperm : ((ss ++ [s]) ++ ts).Perm (s :: (ss ++ ts)) := by
      rw [List.append_assoc]
      exact List.perm_middle
    exact (hperm.pairwise_iff hsymm).mpr (List.pairwise_cons.mpr ⟨hapart, h.apart⟩)
  places t ht := by
    rw [List.append_assoc, List.singleton_append] at ht
    rcases List.mem_append.mp ht with ht | ht
    · exact h.places t (List.mem_append_left _ ht)
    · rcases List.mem_cons.mp ht with rfl | ht
      · exact hs
      · exact h.places t (List.mem_append_right _ ht)

/-- One more local. -/
theorem Hosts.addLocal (h : frame.Hosts (ss ++ ts)) (hlaid : s.shape.Laid)
    (hplace : s.place = .frame (frame.localOffset s.shape.size)) :
    (frame.addLocal s.shape.size).Hosts ((ss ++ [s]) ++ ts) := by
  have hsize : wordSize ∣ s.shape.size := by
    rw [hlaid.words.size]
    exact Nat.dvd_mul_right _ _
  have hoffset : frame.localOffset s.shape.size =
      ((frame.formals + frame.locals + s.shape.size + wordSize : Nat) : Int) := by
    unfold Frame.localOffset Frame.savedSize
    omega
  rw [hoffset] at hplace
  refine (h.mono (frame.le_addLocal hlaid)).insert ⟨hlaid, _, hplace, ?_, ?_, ?_⟩ ?_
  · exact Nat.dvd_add (Nat.dvd_add (Nat.dvd_add h.formals h.locals) hsize) (Nat.dvd_refl _)
  · omega
  · right
    unfold Frame.size Frame.savedSize
    simp only [formals_addLocal, locals_addLocal]
    omega
  · intro t ht x hx
    obtain ⟨offset, hplace', -, -, hrange⟩ := (h.places t ht).place
    rw [Storage.covers_iff hplace, Storage.covers_iff hplace'] at hx
    unfold Frame.size Frame.savedSize wordSize at *
    omega

/-- One more formal, before there are locals. -/
theorem Hosts.addFormal (h : frame.Hosts ss) (hlocals : frame.locals = 0)
    (hwords : ∀ u ∈ ss, wordSize ≤ u.shape.size) {t : Ty} (hword : t.IsWord)
    (hshape : s.shape = .scalar t) (hplace : s.place = .frame frame.formalOffset) :
    frame.addFormal.Hosts (ss ++ [s]) := by
  have hsize : s.shape.size = wordSize := by rw [hshape]; rfl
  have hbefore : ∀ u ∈ ss, ∃ offset : Nat, u.place = .frame offset ∧ wordSize ∣ offset ∧
      u.shape.size ≤ offset + wordSize ∧ offset + wordSize ≤ frame.formals := by
    intro u hu
    obtain ⟨offset, hplace', hdvd, hle, hrange⟩ := (h.places u hu).place
    have hpos := hwords u hu
    refine ⟨offset, hplace', hdvd, hle, ?_⟩
    unfold Frame.size Frame.savedSize wordSize at *
    omega
  have hframe : frame.addFormal.Hosts (ss ++ []) :=
    { formals := Nat.dvd_add h.formals (Nat.dvd_refl _)
      locals := h.locals
      apart := by rw [List.append_nil]; exact h.apart
      places := fun u hu => by
        rw [List.append_nil] at hu
        obtain ⟨offset, hplace', hdvd, hle, hhigh⟩ := hbefore u hu
        refine ⟨(h.places u hu).laid, offset, hplace', hdvd, hle, .inl ?_⟩
        rw [formals_addFormal]
        omega }
  rw [← List.append_nil (ss ++ [s])]
  refine hframe.insert ⟨hshape ▸ .scalar hword, frame.formals, hplace, h.formals, ?_, .inl ?_⟩ ?_
  · omega
  · exact Nat.le_refl _
  · intro u hu x hx
    rw [List.append_nil] at hu
    obtain ⟨offset, hplace', -, -, hhigh⟩ := hbefore u hu
    rw [Storage.covers_iff hplace, Storage.covers_iff hplace', hsize] at hx
    unfold formalOffset wordSize at *
    omega

end Frame

/-! ## Declarations -/

/-- The locals of a block have their names in scope after their declarations. -/
theorem LocalsTyped.names {ss : List Storage} {live : List (List Storage)} {scope : Scope Symbol}
    {frame frame' : Frame} {ds : List VarDecl} {env' : Env}
    (h : LocalsTyped (Env.ofLive (ss :: live) scope) frame ds env' frame') :
    ∃ ss', env' = Env.ofLive ((ss ++ ss') :: live) scope ∧
      List.Forall₂ (fun s d => s.name = d.name.name) ss' ds := by
  induction ds generalizing ss frame with
  | nil =>
    cases h
    exact ⟨[], by rw [List.append_nil], .nil⟩
  | cons d ds ih =>
    cases h with
    | @cons _ _ _ _ _ _ s hd _ hrest =>
      rw [Env.insert_ofLive] at hrest
      obtain ⟨ss', henv, hnames⟩ := ih hrest
      exact ⟨s :: ss', by rw [henv, List.append_assoc, List.singleton_append],
        .cons hd.name hnames⟩

/-- The locals of a block are in scope after their declarations. -/
theorem LocalsTyped.live {ss : List Storage} {live : List (List Storage)} {scope : Scope Symbol}
    {frame frame' : Frame} {ds : List VarDecl} {env' : Env}
    (h : LocalsTyped (Env.ofLive (ss :: live) scope) frame ds env' frame')
    (hhosts : frame.Hosts (ss ++ live.flatten)) :
    ∃ ss', env' = Env.ofLive ((ss ++ ss') :: live) scope ∧
      List.Forall₂ (fun s d => s.name = d.name.name) ss' ds ∧
      frame'.Hosts ((ss ++ ss') ++ live.flatten) := by
  induction ds generalizing ss frame with
  | nil =>
    cases h
    exact ⟨[], by rw [List.append_nil], .nil, by rwa [List.append_nil]⟩
  | cons d ds ih =>
    cases h with
    | @cons _ _ _ _ _ _ s hd hplace hrest =>
      rw [Env.insert_ofLive] at hrest
      obtain ⟨ss', henv, hnames, hhosts'⟩ := ih hrest (hhosts.addLocal hd.laid hplace)
      refine ⟨s :: ss', ?_, .cons hd.name hnames, ?_⟩
      · rw [henv, List.append_assoc, List.singleton_append]
      · rwa [List.append_assoc ss [s], List.singleton_append] at hhosts'

theorem LocalsTyped.le {env env' : Env} {frame frame' : Frame} {ds : List VarDecl}
    (h : LocalsTyped env frame ds env' frame') : frame.Le frame' := by
  induction h with
  | nil => exact .refl _
  | cons hd _ _ ih => exact (Frame.le_addLocal _ hd.laid).trans ih

mutual

/-- The locals of a statement are laid out below those before it. -/
theorem StmtTyped.le {ret : Ty} : ∀ {env : Env} {frame frame' : Frame} {s : Stmt},
    StmtTyped ret env frame s frame' → frame.Le frame'
  | _, _, _, _, .assign _ | _, _, _, _, .increment _ | _, _, _, _, .decrement _
  | _, _, _, _, .read _ _ | _, _, _, _, .write _ _ _ | _, _, _, _, .call _
  | _, _, _, _, .exit _ | _, _, _, _, .return _ _ => .refl _
  | _, _, _, _, .ifThen _ hb | _, _, _, _, .while _ hb => hb.le
  | _, _, _, _, .ifElse _ hyes hno => hyes.le.trans hno.le

theorem BlockTyped.le {ret : Ty} : ∀ {env : Env} {frame frame' : Frame} {b : Block Stmt},
    BlockTyped ret env frame b frame' → frame.Le frame'
  | _, _, _, _, .intro hds hss => hds.le.trans hss.le

theorem StmtsTyped.le {ret : Ty} : ∀ {env : Env} {frame frame' : Frame} {ss : List Stmt},
    StmtsTyped ret env frame ss frame' → frame.Le frame'
  | _, _, _, _, .nil => .refl _
  | _, _, _, _, .cons hs hss => hs.le.trans hss.le

end

/-- The formals of a function are in scope after their declarations, in the relation to the words
that it is called with. -/
theorem FormalsTyped.live {R : Storage → Contents → Prop} {ss : List Storage}
    {scope : Scope Symbol} {frame frame' : Frame} {ds : List VarDecl} {ts : List Ty} {env' : Env}
    (h : FormalsTyped (Env.ofLive [ss] scope) frame ds ts env' frame') (hhosts : frame.Hosts ss)
    (hlocals : frame.locals = 0) (hwords : ∀ u ∈ ss, wordSize ≤ u.shape.size) {ws : List Word}
    (hlength : ds.length = ws.length)
    (hR : ∀ (i : Nat) (s : Storage) (t : Ty) (w : Word), ws[i]? = some w →
      s.place = .frame ((frame.formals + wordSize * i : Nat) : Int) → s.shape = .scalar t →
      R s fun _ => some w) :
    ∃ ss', env' = Env.ofLive [ss ++ ss'] scope ∧ frame'.Hosts (ss ++ ss') ∧
      frame' = { frame with formals := frame.formals + wordSize * ds.length } ∧
      AlignedScope R ss' (ds.zipWith (fun d w => (d.name.name, fun _ => some w)) ws) := by
  induction ds generalizing ss frame ts ws with
  | nil =>
    cases h
    exact ⟨[], by rw [List.append_nil], by rwa [List.append_nil], rfl, .nil⟩
  | cons d ds ih =>
    cases ws with
    | nil => cases hlength
    | cons w ws =>
      cases h with
      | @cons _ _ _ _ _ _ s t _ hd hplace hshape hword hrest =>
        rw [Env.insert_ofLive] at hrest
        have hwords' : ∀ u ∈ ss ++ [s], wordSize ≤ u.shape.size := by
          refine List.forall_mem_append.mpr ⟨hwords, List.forall_mem_singleton.mpr ?_⟩
          rw [hshape]
          exact Nat.le_refl _
        obtain ⟨ss', henv, hhosts', hframe, halign⟩ := ih hrest
          (hhosts.addFormal hlocals hwords hword hshape hplace) hlocals hwords'
          (Nat.succ.inj hlength) fun i s t w hw hp hs => hR (i + 1) s t w hw (by
            rw [hp, Frame.formals_addFormal, Nat.mul_succ]
            congr 2
            omega) hs
        refine ⟨s :: ss', ?_, ?_, ?_, .cons ⟨hd.name, ?_⟩ halign⟩
        · rw [henv, List.append_assoc, List.singleton_append]
        · rwa [List.append_assoc, List.singleton_append] at hhosts'
        · rw [hframe]
          simp only [Frame.addFormal, List.length_cons, Nat.mul_succ]
          congr 1
          omega
        · exact hR 0 s t w rfl hplace hshape

end CMinusMinus
