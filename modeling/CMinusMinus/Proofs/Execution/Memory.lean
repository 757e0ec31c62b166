import CMinusMinus.Proofs.Execution.Frames
import CMinusMinus.Proofs.Layout.Separation
import CMinusMinus.Proofs.Machine.Code

/-!
# Variables in memory

A program is loaded together with its code (`Image`).  Globals have their words in the data area,
and the formals and locals of an activation have theirs in its frame; no two of them share a word
(`Site.apart`).  A memory *tracks* the variables in scope if it has their contents at their
addresses; then a location is read at its address (`Site.read`), and a word that is stored there
is that of the location alone (`Site.write`).
-/

namespace CMinusMinus

open Machine

/-! ## Programs with their code -/

/-- A typed program and its code, whose labels are different. -/
structure Image where
  decls : List Decl
  top : Env
  pool : Bool
  items : List Item
  current : Option String
  typed : DeclsTyped [[]] decls top
  code : Generate.decls { pool := pool } none decls = .ok (items, current)
  distinct : (labels items).Nodup

namespace Image

variable (b : Image)

/-- Where the items are loaded. -/
def layout : Layout := load b.items

/-- Where the data ends. -/
def dataEnd : Nat := b.layout.next

/-- The storage of the global variables. -/
def globals : List Storage := Decl.globals b.decls

/-- The address of the lowest word of storage, if the frame pointer is at the given one. -/
def base (fp : Nat) (s : Storage) : Nat :=
  match s.place with
  | .static => (b.layout.data.lookup (Generate.globalLabel s.name)).getD 0
  | .frame offset => fp - offset.toNat
  | .unplaced => 0

/-- The address is that of a word of the storage. -/
def Owns (fp : Nat) (s : Storage) (a : Nat) : Prop :=
  ∃ w ∈ s.shape.words, a = b.base fp s + w.2

theorem globals_static {s : Storage} (hs : s ∈ b.globals) : s.place = .static :=
  b.typed.static s hs

/-- The slots of the globals come one after another. -/
theorem slots_ordered {env env' : Env} {ds : List Decl} (h : DeclsTyped env ds env')
    {ls : Generate.Labels} {current current' : Option String} {items : List Item}
    (hitems : Generate.decls ls current ds = .ok (items, current')) :
    (Decl.globals ds).Pairwise fun s t => ∃ pre mid post, items = pre ++
      (Asm.globalSlot (Generate.globalLabel s.name) s.shape.size ++ (mid ++
        (Asm.globalSlot (Generate.globalLabel t.name) t.shape.size ++ post))) := by
  induction h generalizing ls current items with
  | nil => exact .nil
  | @var _ _ d ds s _ _ hd _ _ hrest ih =>
    obtain ⟨code, ls', current₁, rest, hfirst, hcode, rfl⟩ := Generate.decls_cons hitems
    have hslot : code = Asm.globalSlot (Generate.globalLabel s.name) s.shape.size := by
      cases hfirst with
      | var hslot => exact Generate.slot_of_bound hd.binding hslot
    rw [hd.globals, hslot]
    refine List.pairwise_cons.mpr ⟨fun t ht => ?_, (ih hcode).imp ?_⟩
    · obtain ⟨mid, post, hsplit⟩ := Generate.globalSlot_of_decls hrest hcode t ht
      exact ⟨[], mid, post, by rw [← hsplit, List.nil_append, List.append_assoc mid]⟩
    · rintro t u ⟨pre, mid, post, hsplit⟩
      exact ⟨_ ++ pre, mid, post, by rw [hsplit, List.append_assoc]⟩
  | fn _ _ _ ih | struct _ _ _ _ ih =>
    obtain ⟨code, ls', current₁, rest, -, hcode, rfl⟩ := Generate.decls_cons hitems
    refine (ih hcode).imp ?_
    rintro t u ⟨pre, mid, post, hsplit⟩
    exact ⟨code ++ pre, mid, post, by rw [hsplit, List.append_assoc]⟩

/-- Each global has an address, and its words lie in the data area. -/
theorem global_base {s : Storage} (hs : s ∈ b.globals) (fp : Nat) :
    b.layout.data.lookup (Generate.globalLabel s.name) = some (b.base fp s) ∧
      wordSize ∣ b.base fp s ∧ dataBase ≤ b.base fp s ∧
      b.base fp s + s.shape.size ≤ b.dataEnd := by
  obtain ⟨pre, post, hsplit⟩ := Generate.globalSlot_of_decls b.typed b.code s hs
  rw [List.append_assoc] at hsplit
  have hlabels := b.distinct
  rw [← hsplit] at hlabels
  obtain ⟨a, hlookup, hdvd, hlow, hhigh⟩ := slot_of_split hlabels
  have hlayout : b.layout =
      load (pre ++ (Asm.globalSlot (Generate.globalLabel s.name) s.shape.size ++ post)) := by
    rw [layout, hsplit]
  rw [← hlayout] at hlookup
  have hbase : b.base fp s = a := by
    rw [base, b.globals_static hs, hlookup]
    rfl
  rw [hbase]
  refine ⟨hlookup, hdvd, Nat.le_trans (Layout.le_next_addAll {} pre) hlow, ?_⟩
  rw [hhigh, dataEnd, hlayout, ← List.append_assoc]
  rw [load, load, Layout.addAll_append _ _ post]
  exact Layout.le_next_addAll _ _

/-- The globals lie one after another. -/
theorem globals_apart (fp : Nat) :
    b.globals.Pairwise fun s t => b.base fp s + s.shape.size ≤ b.base fp t := by
  refine (slots_ordered b.typed b.code).imp_of_mem fun {s t} hs ht hsplit => ?_
  obtain ⟨pre, mid, post, hsplit⟩ := hsplit
  have hlabels := b.distinct
  have hlookup := (b.global_base hs fp).1
  have hlookup' := (b.global_base ht fp).1
  rw [layout] at hlookup hlookup'
  rw [hsplit] at hlabels hlookup
  obtain ⟨a, ha, -, -, hnext⟩ := slot_of_split hlabels
  have hagain : pre ++ (Asm.globalSlot (Generate.globalLabel s.name) s.shape.size ++ (mid ++
        (Asm.globalSlot (Generate.globalLabel t.name) t.shape.size ++ post))) =
      (pre ++ Asm.globalSlot (Generate.globalLabel s.name) s.shape.size ++ mid) ++
        (Asm.globalSlot (Generate.globalLabel t.name) t.shape.size ++ post) := by
    simp only [List.append_assoc]
  rw [hsplit, hagain] at hlookup'
  rw [hagain] at hlabels
  obtain ⟨a', ha', -, hlow, -⟩ := slot_of_split hlabels
  rw [hlookup] at ha
  rw [hlookup'] at ha'
  rw [Option.some.inj ha, Option.some.inj ha', hnext]
  refine Nat.le_trans ?_ hlow
  rw [load, load, Layout.addAll_append _ _ mid]
  exact Layout.le_next_addAll _ _

end Image

/-! ## Activations -/

/-- An activation of a function whose frame is laid out above the data.  The frame pointer is at the
highest word of the frame. -/
structure Activation (b : Image) where
  frame : Frame
  fp : Nat
  formals : wordSize ∣ frame.formals
  aligned : wordSize ∣ fp
  high : fp < 2 ^ 32
  low : b.dataEnd + frame.size ≤ fp

namespace Activation

variable {b : Image} (act : Activation b)

/-- The address below the frame, where the stack pointer is between statements. -/
def bottom : Nat := act.fp - act.frame.size

/-- The words above the stack pointer that belong to no variable of the activation: those above
the frame, the saved ones, and what was pushed below the frame. -/
structure Keeps (sp a : Nat) : Prop where
  stack : b.dataEnd ≤ a
  above : sp < a
  outside : act.fp < a ∨ a + act.frame.formals = act.fp ∨
    a + act.frame.formals + wordSize = act.fp ∨ a ≤ act.bottom

variable {act}

theorem Keeps.mono {sp sp' a : Nat} (h : act.Keeps sp a) (hle : sp' ≤ sp) : act.Keeps sp' a :=
  ⟨h.stack, Nat.lt_of_le_of_lt hle h.above, h.outside⟩

end Activation

/-- A place in a function where the storage is in scope and so much of its frame is laid out. -/
structure Site {b : Image} (act : Activation b) (live : List (List Storage))
    (scope : Scope Symbol) (frame : Frame) : Prop where
  sound : (Env.ofLive live scope).Sound
  within : Env.Within [scope] b.top
  hosts : frame.Hosts live.flatten
  le : frame.Le act.frame

namespace Words

variable {ws : List (List String × Nat)} {size : Nat}

theorem dvd (h : Words ws size) {w : List String × Nat} (hw : w ∈ ws) : wordSize ∣ w.2 := by
  have hmem : w.2 ∈ consecutive ws.length := h.distances ▸ List.mem_map_of_mem hw
  obtain ⟨i, -, hi⟩ := List.mem_map.mp hmem
  exact ⟨i, hi.symm⟩

end Words

section Owns

variable {b : Image} {act : Activation b} {frame : Frame} {s t : Storage} {a : Nat}

/-- The words of a formal or local are in the frame, and are not the saved ones. -/
theorem Frame.Places.owns (h : frame.Places s) (hle : frame.Le act.frame)
    (ha : b.Owns act.fp s a) : wordSize ∣ a ∧ act.bottom < a ∧ a ≤ act.fp ∧
      a + act.frame.formals ≠ act.fp ∧ a + act.frame.formals + wordSize ≠ act.fp ∧
      s.Covers ((act.fp : Int) - a) := by
  obtain ⟨offset, hplace, hdvd, hsize, hrange⟩ := h.place
  obtain ⟨w, hw, rfl⟩ := ha
  have hwithin := h.laid.words.within hw
  have hframe := hle.size
  have hlow := act.low
  have hformals := hle.formals
  have hbase : b.base act.fp s = act.fp - offset := by rw [Image.base, hplace]; rfl
  rw [hbase, Storage.covers_iff hplace]
  have hoffset : offset ≤ act.fp := by
    unfold Frame.size Frame.savedSize wordSize at *
    omega
  refine ⟨Nat.dvd_add (Nat.dvd_sub act.aligned hdvd) (h.laid.words.dvd hw), ?_, ?_, ?_, ?_, ?_⟩
  all_goals
    unfold Activation.bottom Frame.size Frame.savedSize wordSize at *
    omega

/-- The words of a global are in the data area. -/
theorem Image.owns_global (hs : s ∈ b.globals) (hlaid : s.shape.Laid) {fp : Nat}
    (ha : b.Owns fp s a) : wordSize ∣ a ∧ a < b.dataEnd := by
  obtain ⟨-, hdvd, -, hend⟩ := b.global_base hs fp
  obtain ⟨w, hw, rfl⟩ := ha
  have hwithin := hlaid.words.within hw
  refine ⟨Nat.dvd_add hdvd (hlaid.words.dvd hw), ?_⟩
  unfold wordSize at hwithin
  omega

end Owns

theorem DeclsTyped.globals_laid {env env' : Env} {ds : List Decl} (h : DeclsTyped env ds env') :
    ∀ s ∈ Decl.globals ds, s.shape.Laid := by
  induction h with
  | nil => exact List.forall_mem_nil _
  | var _ _ hd _ _ _ ih =>
    rw [hd.globals]
    exact List.forall_mem_cons.mpr ⟨hd.laid, ih⟩
  | fn _ _ _ ih | struct _ _ _ _ ih => exact ih

/-- No two variables in scope share a word. -/
def Image.Disjoint (b : Image) (fp : Nat) (s t : Storage) : Prop :=
  ∀ a, b.Owns fp s a → b.Owns fp t a → False

namespace Site

variable {b : Image} {act : Activation b} {live : List (List Storage)} {scope : Scope Symbol}
  {frame : Frame}

/-- A word of a variable in scope is kept by no stack pointer. -/
theorem not_keeps (h : Site act live scope frame) {s : Storage}
    (hs : s ∈ (live ++ [b.globals]).flatten) {a sp : Nat} (ha : b.Owns act.fp s a) :
    ¬ act.Keeps sp a := by
  rintro ⟨hstack, -, houtside⟩
  rw [List.flatten_append, List.flatten_singleton] at hs
  rcases List.mem_append.mp hs with hs | hs
  · obtain ⟨-, hlow, hhigh, hra, hfp, -⟩ := (h.hosts.places s hs).owns h.le ha
    omega
  · obtain ⟨-, hend⟩ := Image.owns_global hs (b.typed.globals_laid s hs) ha
    omega

/-- Every word of a variable in scope is at a multiple of the word size, in the data area or above
the bottom of the frame. -/
theorem owns (h : Site act live scope frame) {s : Storage}
    (hs : s ∈ (live ++ [b.globals]).flatten) {a : Nat} (ha : b.Owns act.fp s a) :
    wordSize ∣ a ∧ a < 2 ^ 32 ∧ (a < b.dataEnd ∨ act.bottom < a) := by
  have hhigh := act.high
  have hlow := act.low
  rw [List.flatten_append, List.flatten_singleton] at hs
  rcases List.mem_append.mp hs with hs | hs
  · obtain ⟨hdvd, hbottom, hfp, -⟩ := (h.hosts.places s hs).owns h.le ha
    exact ⟨hdvd, by omega, .inr hbottom⟩
  · obtain ⟨hdvd, hend⟩ := Image.owns_global hs (b.typed.globals_laid s hs) ha
    exact ⟨hdvd, by omega, .inl hend⟩

theorem apart (h : Site act live scope frame) :
    (live ++ [b.globals]).flatten.Pairwise (b.Disjoint act.fp) := by
  rw [List.flatten_append, List.flatten_singleton]
  have hlow := act.low
  refine List.pairwise_append.mpr ⟨?_, ?_, fun s hs t ht a ha ha' => ?_⟩
  · refine h.hosts.apart.imp_of_mem fun {s t} hs ht happart a ha ha' => ?_
    obtain ⟨-, -, -, -, -, hcovers⟩ := (h.hosts.places s hs).owns h.le ha
    obtain ⟨-, -, -, -, -, hcovers'⟩ := (h.hosts.places t ht).owns h.le ha'
    exact happart _ ⟨hcovers, hcovers'⟩
  · refine (b.globals_apart act.fp).imp_of_mem fun {s t} hs ht hle a ha ha' => ?_
    obtain ⟨w, hw, rfl⟩ := ha
    obtain ⟨w', hw', heq⟩ := ha'
    have hwithin := (b.typed.globals_laid s hs).words.within hw
    unfold wordSize at hwithin
    omega
  · obtain ⟨-, hbottom, -⟩ := (h.hosts.places s hs).owns h.le ha
    obtain ⟨-, hend⟩ := Image.owns_global ht (b.typed.globals_laid t ht) ha'
    unfold Activation.bottom at hbottom
    omega

end Site

/-! ## Contents -/

namespace Image

variable (b : Image)

/-- The memory has the contents of a variable at its words, where they are known. -/
def Holds (fp : Nat) (mem : Nat → Word) (s : Storage) (c : Contents) : Prop :=
  ∀ w ∈ s.shape.words, ∀ x, c w.1 = some x → mem (b.base fp s + w.2) = x

/-- The memory has the contents of the variables in scope. -/
def Tracks (fp : Nat) (mem : Nat → Word) (live : List (List Storage)) (σ : Store) : Prop :=
  Aligned (b.Holds fp mem) (live ++ [b.globals]) σ.scopes

variable {b}

theorem Holds.congr {fp fp' : Nat} {mem mem' : Nat → Word} {s : Storage} {c : Contents}
    (h : b.Holds fp mem s c) (hbase : b.base fp' s = b.base fp s)
    (hmem : ∀ a, b.Owns fp s a → mem' a = mem a) : b.Holds fp' mem' s c := by
  intro w hw x hx
  rw [hbase, hmem _ ⟨w, hw, rfl⟩]
  exact h w hw x hx

theorem tracks_iff {fp : Nat} {mem : Nat → Word} {live : List (List Storage)} {σ : Store} :
    b.Tracks fp mem live σ ↔ Aligned (b.Holds fp mem) live σ.locals ∧
      AlignedScope (b.Holds fp mem) b.globals σ.globals :=
  Aligned.concat

theorem base_global {s : Storage} (hs : s ∈ b.globals) (fp fp' : Nat) :
    b.base fp' s = b.base fp s := by
  rw [base, base, b.globals_static hs]

/-- Where the globals are does not depend on the frame pointer. -/
theorem globals_congr {fp fp' : Nat} {mem mem' : Nat → Word} {scope : Scope Contents}
    (h : AlignedScope (b.Holds fp mem) b.globals scope)
    (hmem : ∀ s ∈ b.globals, ∀ a, b.Owns fp s a → mem' a = mem a) :
    AlignedScope (b.Holds fp' mem') b.globals scope :=
  h.imp_of_mem fun s hs _ hc => hc.congr (b.base_global hs fp fp') (hmem s hs)

theorem Tracks.congr {fp : Nat} {mem mem' : Nat → Word} {live : List (List Storage)} {σ : Store}
    (h : b.Tracks fp mem live σ)
    (hmem : ∀ s ∈ (live ++ [b.globals]).flatten, ∀ a, b.Owns fp s a → mem' a = mem a) :
    b.Tracks fp mem' live σ :=
  h.imp_of_mem fun s hs _ hc => hc.congr rfl (hmem s hs)

end Image

/-! ## Locations -/

theorem Locates.find?_root {env : Env} {e : Exp} {s : Storage} {n : Nat} {sh : Shape StructDef}
    (h : Locates env e s n sh) :
    ∃ x, e.root? = some x ∧ env.find? x.name = some (.storage s) := by
  induction h with
  | ident hfind _ => exact ⟨_, rfl, hfind⟩
  | access _ _ _ ih => exact ih

theorem Scope.update_of_find?_eq_none {σ : Type} {scope : Scope σ} {name : String}
    (h : scope.find? name = none) (f : σ → σ) : scope.update name f = scope := by
  induction scope with
  | nil => rfl
  | cons d scope ih =>
    rw [Scope.find?_cons] at h
    rw [Scope.update]
    split at h
    · cases h
    · next hne => rw [if_neg hne, ih h]

namespace Scopes

variable {σ : Type}

theorem update_append (s t : Scopes σ) (name : String) (f : σ → σ) :
    update name f (s ++ t) =
      if (find? s name).isSome then update name f s ++ t else s ++ update name f t := by
  induction s with
  | nil => rfl
  | cons scope s ih =>
    rw [List.cons_append, update, update, find?_cons, ih]
    cases scope.find? name with
    | some => rfl
    | none =>
      rw [Option.none_or, Option.isSome_none, if_neg Bool.false_ne_true,
        if_neg Bool.false_ne_true]
      split <;> rfl

end Scopes

theorem Store.scopes_assign (σ : Store) (name : String) (path : List String) (w : Word) :
    (σ.assign name path w).scopes = σ.scopes.update name (Contents.set · path w) := by
  show _ = Scopes.update name _ (σ.locals ++ [σ.globals])
  rw [Scopes.update_append, Store.assign]
  split
  · rfl
  · rw [Scopes.update]
    split
    · rfl
    · next hnone =>
      rw [Scope.update_of_find?_eq_none (by simpa using hnone)]
      rfl

/-! ## Names in scope -/

namespace Image

variable (b : Image) {live : List (List Storage)} {scope : Scope Symbol} {name : String}

/-- What name resolution found a name to be is what is in scope under the name. -/
theorem find?_live (hsound : (Env.ofLive live scope).Sound) (hwithin : Env.Within [scope] b.top)
    {s : Storage} (hfind : (Env.ofLive live scope).find? name = some (.storage s)) :
    Storage.find? (live ++ [b.globals]) name = some s := by
  have hname : s.name = name := by
    cases hsound.find? hfind with
    | storage hname _ _ => exact hname
  rw [Env.find?_ofLive] at hfind
  rw [Storage.find?, List.findSome?_append]
  rw [Storage.find?] at hfind
  cases hlive : live.findSome? (·.find? (·.name = name)) with
  | some s' =>
    rw [hlive] at hfind
    cases hfind
    rfl
  | none =>
    rw [hlive] at hfind
    have htop : b.top.find? name = some (.storage s) := by
      refine hwithin ?_
      rw [Scopes.find?_single]
      exact hfind
    have hmem : s ∈ b.globals := by
      rcases b.typed.global_of_find? rfl htop with hnone | hmem
      · cases hnone
      · exact hmem
    have hglobal : b.globals.find? (·.name = name) = some s :=
      hname ▸ find?_of_nodup (b.typed.globals_nodup rfl) hmem
    rw [Option.none_or, List.findSome?_singleton, hglobal]

/-- A name that is found to be that of a function is that of a function of the program. -/
theorem function_live (hwithin : Env.Within [scope] b.top) {sig : Signature}
    (hfind : (Env.ofLive live scope).find? name = some (.function sig)) :
    ∃ d ∈ Decl.functions b.decls, d.name.name = name ∧ FnTypedWithin b.top d sig := by
  rw [Env.find?_ofLive] at hfind
  have htop : b.top.find? name = some (.function sig) := by
    refine hwithin ?_
    rw [Scopes.find?_single]
    cases hlive : Storage.find? live name with
    | some st =>
      rw [hlive] at hfind
      cases hfind
    | none =>
      rw [hlive] at hfind
      exact hfind
  rcases b.typed.function_of_find? rfl Env.sound_empty htop with hnone | hd
  · cases hnone
  · exact hd

end Image

namespace Site

variable {b : Image} {act : Activation b} {live : List (List Storage)} {scope : Scope Symbol}
  {frame : Frame} {e : Exp} {s : Storage} {n : Nat} {t : Ty}

theorem find? (h : Site act live scope frame) {name : String}
    (hfind : (Env.ofLive live scope).find? name = some (.storage s)) :
    Storage.find? (live ++ [b.globals]) name = some s := b.find?_live h.sound h.within hfind

/-- A location is in scope, with a word of its storage. -/
theorem located (h : Site act live scope frame)
    (hloc : Locates (Env.ofLive live scope) e s n (.scalar t)) :
    s ∈ (live ++ [b.globals]).flatten ∧ b.Owns act.fp s (b.base act.fp s + n) := by
  obtain ⟨x, -, hfind⟩ := hloc.find?_root
  obtain ⟨ss, hss, hmem⟩ := List.exists_of_findSome?_eq_some (h.find? hfind)
  exact ⟨List.mem_flatten.mpr ⟨ss, hss, List.mem_of_find?_eq_some hmem⟩,
    _, hloc.mem_words_scalar, rfl⟩

/-- A location is read at its address. -/
theorem read (h : Site act live scope frame)
    (hloc : Locates (Env.ofLive live scope) e s n (.scalar t)) {mem : Nat → Word} {σ : Store}
    (htracks : b.Tracks act.fp mem live σ) {w : Word} (hread : σ.read? e = some w) :
    mem (b.base act.fp s + n) = w := by
  obtain ⟨x, hroot, hfind⟩ := hloc.find?_root
  rw [Store.read?, hroot, Option.bind_some] at hread
  rcases htracks.find? x.name with ⟨hnone, -⟩ | ⟨s', c, hs, hc, hholds⟩
  · rw [h.find? hfind] at hnone
    cases hnone
  · rw [h.find? hfind] at hs
    cases hs
    rw [hc, Option.bind_some] at hread
    exact hholds _ hloc.mem_words_scalar _ hread

/-- A word that is stored at the address of a location is that of the location alone. -/
theorem write (h : Site act live scope frame)
    (hloc : Locates (Env.ofLive live scope) e s n (.scalar t)) {mem : Nat → Word} {σ : Store}
    (htracks : b.Tracks act.fp mem live σ) (w : Word) :
    b.Tracks act.fp (fun a => if a = b.base act.fp s + n then w else mem a) live (σ.write e w) := by
  obtain ⟨x, hroot, hfind⟩ := hloc.find?_root
  have hscopes : (σ.write e w).scopes =
      σ.scopes.update x.name (Contents.set · e.fieldPath w) := by
    rw [Store.write, hroot]
    exact σ.scopes_assign x.name e.fieldPath w
  rw [Image.Tracks, hscopes]
  have hwords := (hloc.root h.sound).2.words
  refine htracks.update (h.find? hfind) (fun c hc v hv y hy => ?_)
    (fun _ _ hapart a ha ha' => hapart a ha' ha) h.apart
    fun u hu c hc => hc.congr rfl fun a ha => ?_
  · rw [Contents.set] at hy
    split at hy
    · next hpath =>
      cases hy
      dsimp only
      rw [if_pos]
      rw [(hwords.distance_eq_iff hv hloc.mem_words_scalar).mpr hpath]
    · next hpath =>
      dsimp only
      rw [if_neg]
      · exact hc v hv y hy
      · intro heq
        exact hpath ((hwords.distance_eq_iff hv hloc.mem_words_scalar).mp
          (Nat.add_left_cancel heq))
  · rw [if_neg]
    rintro rfl
    exact hu _ ⟨_, hloc.mem_words_scalar, rfl⟩ ha

end Site

end CMinusMinus
