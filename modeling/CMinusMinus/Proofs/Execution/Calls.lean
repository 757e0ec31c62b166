import CMinusMinus.Proofs.Execution.Courses
import CMinusMinus.Proofs.Execution.Steps
import CMinusMinus.Proofs.Generation.Constants

/-!
# Calls

A function is *called* at its label, with its words on the stack (`Called`).  It has *returned* when
the machine is where it was called from and the words are off the stack again (`Returned`); globals
may have changed, and nothing above the words.  If all functions do what the interpretation of
calls says (`Image.Answers`), then so does the code of a call (`After.call`).
-/

namespace CMinusMinus

open Machine

/-- The state is at the beginning of the function, with the words on the stack from the address on
downwards. -/
structure Called (b : Image) (d : FnDecl) (ws : List Word) (top : Nat) (σ : Situation)
    (s : State) : Prop where
  fits : Fits b.items s
  pc : b.layout.code.lookup (Generate.functionLabel d.name.name) = some s.pc
  aligned : wordSize ∣ (s.get .sp).toNat
  sp : (s.get .sp).toNat + wordSize * ws.length = top
  words : ∀ i w, ws[i]? = some w → s.mem (top - wordSize * i) = w
  globals : AlignedScope (b.Holds top s.mem) b.globals σ.store.globals
  input : s.input = σ.store.input
  events : s.events = σ.store.events
  result : s.get .v0 = σ.result

/-- The machine has come back from a call, and the words are off the stack. -/
structure Returned (b : Image) (top : Nat) (σ : Situation) (s : State) (σ' : Situation)
    (s' : State) : Prop where
  reaches : Reaches b.items s s'
  pc : s'.pc = (s.get .ra).toNat
  sp : (s'.get .sp).toNat = top
  fp : s'.get .fp = s.get .fp
  kept : ∀ a, b.dataEnd ≤ a → top < a → s'.mem a = s.mem a
  locals : σ'.store.locals = σ.store.locals
  globals : AlignedScope (b.Holds top s'.mem) b.globals σ'.store.globals
  input : s'.input = σ'.store.input
  events : s'.events = σ'.store.events
  result : s'.get .v0 = σ'.result

/-- Every function that is called does what the interpretation of calls says. -/
def Image.Answers (b : Image) (n : Nat) (call : String → List Word → Situation → Course Unit) :
    Prop :=
  ∀ ⦃d⦄, d ∈ Decl.functions b.decls → ∀ ⦃ws : List Word⦄, ws.length = d.formals.items.length →
    ∀ ⦃top σ s⦄, Called b d ws top σ s →
      (call d.name.name ws σ).Meets b.items n s fun _ σ' => ∃ s', Returned b top σ s σ' s'

/-! ## Functions in their places -/

namespace Image

variable (b : Image)

/-- The code of a function sits somewhere, from its labels on. -/
theorem sits_function {d : FnDecl} (hd : d ∈ Decl.functions b.decls) :
    ∃ frame ls ls' body pc comment entry, d.frame = some frame ∧
      Generate.block d.name.name ls d.body = .ok (body, ls') ∧ Known b.items ls.strings ∧
      Inert entry ∧ Textual entry ∧
      Sits b.items pc (.label (Generate.functionLabel d.name.name) comment :: entry ++
        (Asm.prologue frame.formals frame.locals ++ body ++
          Asm.epilogue (Generate.exitLabel d.name.name) frame.formals
            (d.name.name == "main"))) := by
  obtain ⟨frame, ls, ls', code, before, after, hframe, hcode, hknown, hitems⟩ :=
    Generate.function_of_decls List.infix_rfl (by intro c hc; cases hc) b.code hd
  obtain ⟨body, hbody, rfl⟩ := Generate.function_eq_ok.mp hcode
  by_cases hmain : d.name.name = "main"
  · refine ⟨frame, ls, ls', body, before.length + 2, none, [.label "__start" none], hframe, hbody,
      hknown, by simp [Inert], rfl,
      ⟨before ++ [.directive .text, .directive (.globl "main")], after, ?_, by simp, ?_⟩⟩
    · rw [hitems, hmain]
      simp [Asm.functionEntry, Generate.functionLabel]
    · simp [Textual, Segment.after]
  · refine ⟨frame, ls, ls', body, before.length + 1, none, [], hframe, hbody, hknown,
      by simp [Inert], rfl, ⟨before ++ [.directive .text], after, ?_, by simp, ?_⟩⟩
    · rw [hitems]
      simp [Asm.functionEntry, hmain]
    · simp [Textual, Segment.after]

theorem exists_label {d : FnDecl} (hd : d ∈ Decl.functions b.decls) :
    ∃ pc, b.layout.code.lookup (Generate.functionLabel d.name.name) = some pc := by
  obtain ⟨_, _, _, _, pc, _, _, -, -, -, -, -, hsits⟩ := b.sits_function hd
  exact ⟨pc, hsits.label b.distinct⟩

end Image

/-! ## Calls -/

variable {b : Image} {act : Activation b} {live : List (List Storage)} {scope : Scope Symbol}
  {frame : Frame} {σ σ' : Situation} {s s₁ s₂ : State} {q : List Item} {ws ws' : List Word}

/-- A position in the code is a word. -/
theorem Ready.pc_lt (h : Ready act live σ s) {i : Item} (hitem : b.items[s.pc]? = some i) :
    s.pc + 1 < 2 ^ 32 := by
  obtain ⟨hlt, -⟩ := List.getElem?_eq_some_iff.mp hitem
  have hcode := h.fits.code
  omega

/-- Locals are kept by what changes nothing above the stack pointer. -/
theorem Site.locals_congr (hsite : Site act live scope frame) {mem mem' : Nat → Word}
    {cs : Scopes Contents} (h : Aligned (b.Holds act.fp mem) live cs)
    (hmem : ∀ a, b.dataEnd ≤ a → act.bottom < a → mem' a = mem a) :
    Aligned (b.Holds act.fp mem') live cs := by
  refine h.imp_of_mem fun s hs c hc => hc.congr rfl fun a ha => ?_
  obtain ⟨-, hlow, -⟩ := (hsite.hosts.places s hs).owns hsite.le ha
  have hend := act.low
  exact hmem a (by unfold Activation.bottom at hlow; omega) hlow

namespace After

/-- A function that is called with the topmost words is at its beginning. -/
theorem called (h : After act live σ s q (ws' ++ ws) s₁) {d : FnDecl} {pc : Nat}
    (hlookup : b.layout.code.lookup (Generate.functionLabel d.name.name) = some pc)
    (hreaches : Reaches b.items s₁ ((s₁.set .ra (BitVec.ofNat 32 (s₁.pc + 1))).goto pc)) :
    Called b d ws ((s.get .sp).toNat - wordSize * ws'.length) σ
      ((s₁.set .ra (BitVec.ofNat 32 (s₁.pc + 1))).goto pc) := by
  have hsp := h.sp
  rw [List.length_append, Nat.mul_add] at hsp
  have hget : ∀ r, r ≠ .ra → State.get ((s₁.set .ra (BitVec.ofNat 32 (s₁.pc + 1))).goto pc) r =
      s₁.get r := fun r hr => s₁.get_set_of_ne hr _
  exact
    { fits := h.ready.fits.after hreaches
      pc := hlookup
      aligned := by
        rw [hget .sp (by decide)]
        exact h.ready.aligned
      sp := by
        rw [hget .sp (by decide)]
        omega
      words := fun i w hw => by
        have hword := h.words (ws'.length + i) w (by
          rw [List.getElem?_append_right (Nat.le_add_right _ _), Nat.add_sub_cancel_left, hw])
        rwa [Nat.mul_add, ← Nat.sub_sub] at hword
      globals := b.globals_congr (b.tracks_iff.mp h.ready.tracks).2 fun _ _ _ _ => rfl
      input := h.ready.input
      events := h.ready.events
      result := (hget .v0 (by decide)).trans h.ready.result }

/-- A function has returned behind the call. -/
theorem returned (h : After act live σ s q (ws' ++ ws) s₁) (hsite : Site act live scope frame)
    {target : String} (hsits : Sits b.items s.pc (q ++ Asm.call target)) {pc : Nat}
    (hreaches : Reaches b.items s₁ ((s₁.set .ra (BitVec.ofNat 32 (s₁.pc + 1))).goto pc))
    (hreturned : Returned b ((s.get .sp).toNat - wordSize * ws'.length) σ
      ((s₁.set .ra (BitVec.ofNat 32 (s₁.pc + 1))).goto pc) σ' s₂) :
    After act live σ' s (q ++ Asm.call target) ws' s₂ := by
  have hsp := h.sp
  have haligned := h.ready.aligned
  have hspreturned := hreturned.sp
  rw [List.length_append, Nat.mul_add] at hsp
  have hsplit : (s₂.get .sp).toNat + wordSize * ws'.length = (s.get .sp).toNat := by omega
  have hkept : ∀ a, b.dataEnd ≤ a → (s₂.get .sp).toNat < a → s₂.mem a = s₁.mem a :=
    fun a hlow hhigh => hreturned.kept a hlow (by omega)
  have hall := h.reaches.trans (hreaches.trans hreturned.reaches)
  have hfp : s₂.get .fp = s₁.get .fp :=
    hreturned.fp.trans (s₁.get_set_of_ne (r := .ra) (by decide) (BitVec.ofNat 32 (s₁.pc + 1)))
  have hpc : s₂.pc = s₁.pc + 1 := by
    have hlt := h.ready.pc_lt (h.sits hsits).getElem?
    have hra : State.get ((s₁.set .ra (BitVec.ofNat 32 (s₁.pc + 1))).goto pc) .ra =
        BitVec.ofNat 32 (s₁.pc + 1) := s₁.get_set_self (r := .ra) (by decide) _
    rw [hreturned.pc, hra, BitVec.toNat_ofNat, Nat.mod_eq_of_lt hlt]
  have hfree := h.ready.free.1
  refine
    { reaches := hall
      below := h.below
      sp := hsplit
      words := fun i w hw => ?_
      kept := fun a ha => ?_
      ready :=
        { fits := h.ready.fits.after (hreaches.trans hreturned.reaches)
          below := ?_
          aligned := ?_
          fp := hfp ▸ h.ready.fp
          tracks := ?_
          input := hreturned.input
          events := hreturned.events
          result := hreturned.result }
      textual := h.textual.append rfl
      pc := ?_ }
  · obtain ⟨hi, -⟩ := List.getElem?_eq_some_iff.mp hw
    rw [hkept _ (by unfold wordSize at *; omega) (by unfold wordSize at *; omega)]
    exact h.words i w (by rwa [List.getElem?_append_left hi])
  · have habove := ha.above
    rw [hkept a ha.stack (by omega), h.kept a ha]
  · have hbelow := h.below
    omega
  · unfold wordSize at *
    omega
  · have hlocals := (b.tracks_iff.mp h.ready.tracks).1
    have hbelow := h.below
    refine b.tracks_iff.mpr ⟨?_, b.globals_congr hreturned.globals fun _ _ _ _ => rfl⟩
    rw [hreturned.locals]
    exact hsite.locals_congr hlocals fun a hlow hhigh => hkept a hlow (by omega)
  · rw [hpc, h.pc, List.length_append]
    rfl

/-- The code of a call jumps to the label of the function. -/
theorem jump (h : After act live σ s q ws s₁) {d : FnDecl} (hd : d ∈ Decl.functions b.decls)
    (hsits : Sits b.items s.pc (q ++ Asm.call (Generate.functionLabel d.name.name))) :
    ∃ pc, b.layout.code.lookup (Generate.functionLabel d.name.name) = some pc ∧
      Reaches b.items s₁ ((s₁.set .ra (BitVec.ofNat 32 (s₁.pc + 1))).goto pc) := by
  obtain ⟨pc, hlookup⟩ := b.exists_label hd
  exact ⟨pc, hlookup, (h.sits hsits).call hlookup⟩

/-- The code of a call does what the interpretation of calls says. -/
theorem call {n : Nat} {call : String → List Word → Situation → Course Unit}
    (h : After act live σ s q (ws' ++ ws) s₁) (hsite : Site act live scope frame)
    (hcall : b.Answers n call) {d : FnDecl} (hd : d ∈ Decl.functions b.decls)
    (hlength : ws.length = d.formals.items.length)
    (hsits : Sits b.items s.pc (q ++ Asm.call (Generate.functionLabel d.name.name))) :
    (call d.name.name ws σ).Meets b.items n s fun _ σ' => ∃ s₂, After act live σ' s
      (q ++ Asm.call (Generate.functionLabel d.name.name)) ws' s₂ := by
  obtain ⟨pc, hlookup, hreaches⟩ := h.jump hd hsits
  have hanswer := hcall hd hlength (h.called hlookup hreaches)
  refine (hanswer.of_reaches (h.reaches.trans hreaches)).imp ?_
  rintro _ σ' ⟨s₂, hreturned⟩
  exact ⟨s₂, h.returned hsite hsits hreaches hreturned⟩

end After

end CMinusMinus
