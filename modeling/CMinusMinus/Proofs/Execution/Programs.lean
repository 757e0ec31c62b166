import CMinusMinus.Proofs.Execution.Functions
import CMinusMinus.Proofs.Generation.Distinct
import CMinusMinus.Proofs.Machine.Comments
import CMinusMinus.Proofs.Meaning.Adequacy

/-!
# Programs on the machine

A machine that has been started at the main function, with zeros in the data area, does what the
interpretation of the program says (`Image.run`).  So the code that is generated for a program
without errors ends as the program does, with the same to be seen (`Compilation.emit_runs`).

The code of a program with shared string constants does the same as that with one for each string,
as long as the interpretation of the program is defined: as long as no local is read that holds
nothing, and no texts are compared (`Compilation.emit_alike`).  Comparing texts tells the codes
apart, since it compares the addresses of the constants (`Compilation.emit_of_comparison`).
-/

namespace CMinusMinus

open Machine

/-! ## Starting -/

/-- The words above the stack pointer, where the main function has its formals, the first one at the
highest address. -/
def Machine.State.above (s : State) (n : Nat) : List Word :=
  (List.range n).map fun i => s.mem ((s.get .sp).toNat + wordSize * n - wordSize * i)

@[simp] theorem Machine.State.length_above (s : State) (n : Nat) : (s.above n).length = n := by
  rw [above, List.length_map, List.length_range]

/-- The globals of a program are there from the start, with zeros in them. -/
theorem DeclsTyped.aligned_start {env env' : Env} {ds : List Decl} (h : DeclsTyped env ds env')
    {R : Storage → Contents → Prop} (hR : ∀ s ∈ Decl.globals ds, R s fun _ => some 0)
    (input : List Word) :
    AlignedScope R (Decl.globals ds) (Program.start { decls := ds } input).globals := by
  induction h with
  | nil => exact .nil
  | var _ _ hd _ _ _ ih =>
    rw [hd.globals] at hR ⊢
    obtain ⟨hhead, htail⟩ := List.forall_mem_cons.mp hR
    exact .cons ⟨hd.name, hhead⟩ (ih htail)
  | fn _ _ _ ih | struct _ _ _ _ ih => exact ih hR

variable {b : Image} {d : FnDecl} {input : List Word} {events : List Event} {s : State}

/-- Zeros in the data area are the contents that globals have at the start. -/
theorem Machine.Boots.holds (h : Boots b.items input s) {st : Storage} (hst : st ∈ b.globals)
    (fp : Nat) : b.Holds fp s.mem st fun _ => some 0 := by
  intro w hw x hx
  cases hx
  obtain ⟨-, -, hlow, -⟩ := b.global_base hst fp
  have howns : b.Owns fp st (b.base fp st + w.2) := ⟨w, hw, rfl⟩
  obtain ⟨-, hhigh⟩ := Image.owns_global hst (b.typed.globals_laid st hst) howns
  exact h.zeros _ (Nat.le_add_right_of_le hlow) hhigh

/-- The main function is called at the start. -/
theorem Machine.Boots.called (h : Boots b.items input s) (hfits : Fits b.items s)
    (hmain : d.name.name = "main") :
    Called b d (s.above d.formals.items.length)
      ((s.get .sp).toNat + wordSize * d.formals.items.length)
      ⟨Program.start { decls := b.decls } input, s.get .v0⟩ s where
  fits := hfits
  pc := by
    rw [hmain]
    exact h.pc
  aligned := by
    rw [h.sp]
    decide
  sp := by rw [State.length_above]
  words i w hw := by
    rw [State.above, List.getElem?_map, Option.map_eq_some_iff] at hw
    obtain ⟨j, hj, hw⟩ := hw
    obtain ⟨_, rfl⟩ := List.getElem?_eq_some_iff.mp hj
    rwa [List.getElem_range] at hw
  globals := b.typed.aligned_start (fun _ hst => h.holds hst _) input
  input := h.input
  events := h.events
  result := rfl

/-! ## Runs -/

/-- A run of a program comes to no end but that of the main function. -/
theorem Run.invoke_main (ds : List Decl) (n : Nat) (ws : List Word) (σ : Situation) :
    Run.invoke ds n "main" ws σ = .undefined ∨
      ∃ h events, Run.invoke ds n "main" ws σ = .halted h events := by
  cases n with
  | zero => exact .inr ⟨_, _, rfl⟩
  | succ n =>
    rw [Run.invoke]
    split
    · exact .inl rfl
    · next d _ =>
      cases Run.block (Run.invoke ds n) n d.body (σ.within [d.formals.bind ws]) with
      | done _ σ' => exact .inr ⟨.exited, σ'.store.events, rfl⟩
      | halted => exact .inr ⟨_, _, rfl⟩
      | undefined => exact .inl rfl

/-- From its start on the machine does what the interpretation of the program says. -/
theorem Image.run (b : Image) (hd : d ∈ Decl.functions b.decls) (hmain : d.name.name = "main")
    (h : Boots b.items input s) (hfits : Fits b.items s) (n : Nat) {halt : Halt}
    (hrun : Program.run { decls := b.decls } n (s.above d.formals.items.length) (s.get .v0) input =
      .halted halt events) : Ends b.items n s halt events := by
  have hmeets := b.answers n hd (State.length_above _ _) (h.called hfits hmain)
  rw [hmain] at hmeets
  rw [Program.run] at hrun
  rwa [hrun] at hmeets

/-- The machine ends as the program does. -/
theorem Image.runs (b : Image) (h : Boots b.items input s) (hfits : Fits b.items s)
    (hruns : Program.Runs { decls := b.decls } input events) :
    ∃ s', Reaches b.items s s' ∧ Halted b.items s' ∧ s'.events = events := by
  obtain ⟨result, σ, hinvokes, rfl⟩ := hruns
  obtain ⟨N, hN⟩ := hinvokes.run (b.typed.names_nodup rfl)
  obtain ⟨r, -, hrun⟩ := hN N (Nat.le_refl N) N (Nat.le_refl N) N (Nat.le_refl N) (s.get .v0)
  rw [if_pos rfl] at hrun
  cases hinvokes with
  | @intro _ _ _ _ d _ hd hmain hlength hbody =>
    have hnil : s.above d.formals.items.length = [] := by
      rw [hlength]
      rfl
    rw [← hnil] at hrun
    exact b.run hd hmain h hfits N hrun

/-! ## Compilations -/

namespace Compilation

/-- A program without errors has a main function, and its code is that of an image unless a function
or a global is named `_start`. -/
theorem exists_image {file : Option String} {source : String} {c : Compilation}
    (hc : analyze file source = .ok c) (herrors : c.hasErrors = false) (o : CodeOptions) :
    ∃ p items, c.program = some p ∧ (c.emit o).result = .ok items ∧
      (∃ d ∈ Decl.functions p.decls, d.name.name = "main") ∧
      ((∀ d ∈ p.decls, d.labelled? ≠ some "_start") →
        ∃ b : Image, b.decls = p.decls ∧ items = o.finish b.items) := by
  obtain ⟨p, hp, hfault, rfl⟩ := analysis_of_analyze hc herrors
  have hformed := Program.parse_formed hp
  obtain ⟨q, env, hq, htyped, hhas⟩ := typed_of_analysis hformed hfault herrors
  obtain ⟨⟨raw, current⟩, hraw⟩ := Generate.decls_of_typed htyped Env.sound_empty
    { pool := o.pool } none
  have hmain : ∃ d ∈ Decl.functions q.decls, d.name.name = "main" :=
    exists_main_of_analysis (q := q) hfault hq hhas
  refine ⟨q, o.finish raw, hq, emit_of_decls hq hraw, hmain, fun hstart => ?_⟩
  have hexits : "main" ∈ q.decls.flatMap Decl.exits := by
    obtain ⟨d, hd, hname⟩ := hmain
    rw [Decl.flatMap_exits]
    exact hname ▸ List.mem_map_of_mem hd
  have hlabels := (DeclsTyped.nodup_labels htyped rfl hexits hraw).mpr hstart
  exact ⟨⟨_, env, o.pool, raw, current, htyped, hraw, hlabels⟩, rfl, rfl⟩

/-- If a program without errors comes to its end on some input, then so does the machine on the code
that is generated for it, and the same is to be seen: the prints of the program, and the words of
the input that it takes, in their order. -/
theorem emit_runs {file : Option String} {source : String} {c : Compilation}
    (hc : analyze file source = .ok c) (herrors : c.hasErrors = false) (o : CodeOptions) :
    ∃ p items, c.program = some p ∧ (c.emit o).result = .ok items ∧
      ((∀ d ∈ p.decls, d.labelled? ≠ some "_start") →
        ∀ (input : List Word) (events : List Event), p.Runs input events →
          ∀ s, Boots items input s → Fits items s →
            ∃ s', Reaches items s s' ∧ Halted items s' ∧ s'.events = events) := by
  obtain ⟨p, items, hp, hitems, -, himage⟩ := exists_image hc herrors o
  refine ⟨p, items, hp, hitems, fun hstart input events hruns s hboots hfits => ?_⟩
  obtain ⟨b, hdecls, rfl⟩ := himage hstart
  rw [boots_finish] at hboots
  simp only [reaches_finish, halted_finish]
  exact b.runs hboots hfits.of_finish (hdecls ▸ hruns)

set_option maxRecDepth 100000 in
/-- A program that takes a word, calls a function in a loop, and prints a text and a word. -/
theorem emit_runs_of_loop :
    ∃ c p items, analyze none
        "int f(int n) \x7b return n + 1; \x7d
         void main() \x7b int x; cin >> x; while (x < 2) \x7b x = f(x); \x7d
           cout << \"x\"; cout << x; \x7d" = .ok c ∧
      c.hasErrors = false ∧ c.program = some p ∧ (c.emit {}).result = .ok items ∧
      (∀ d ∈ p.decls, d.labelled? ≠ some "_start") ∧
      p.Runs [1] [.taken 1, .printed (.text "x"), .printed (.word 2)] ∧
      Boots items [1] (boot items [1]) ∧ Fits items (boot items [1]) ∧
      ∃ s, Reaches items (boot items [1]) s ∧ Halted items s ∧
        s.events = [.taken 1, .printed (.text "x"), .printed (.word 2)] := by
  have hfacts : ∃ c p items, analyze none
        "int f(int n) \x7b return n + 1; \x7d
         void main() \x7b int x; cin >> x; while (x < 2) \x7b x = f(x); \x7d
           cout << \"x\"; cout << x; \x7d" = .ok c ∧
      c.hasErrors = false ∧ c.program = some p ∧ (c.emit {}).result = .ok items ∧
      (∀ d ∈ p.decls, d.labelled? ≠ some "_start") ∧
      p.Runs [1] [.taken 1, .printed (.text "x"), .printed (.word 2)] ∧
      ((load items).code.lookup "main").isSome = true ∧
      fits? items 200 (boot items [1]) = true := by
    refine ⟨?c, ?p, ?items, ?hc, ?herrors, ?hp, ?hitems, ?hstart, ?hruns, ?hmain, ?hfits⟩
    case hc | hitems => cbv; rfl
    case herrors | hp => rfl
    case hstart => decide
    case hmain | hfits => decide +kernel
    case hruns =>
      -- there is one round of the loop, with one call
      exact ⟨none, _, @Invokes.intro _ _ _ _ _ _ .next (.tail _ (.head _)) rfl rfl (.intro
        (.cons (.read (by rfl))
        (.cons (.whileTrue (w := 1) (.binary (a := 1) .int (.location rfl (by rfl)) (by rfl))
          (by decide) (.intro (.intro (.cons (.assign (.assign (.call (w := 2)
            (.cons (.location rfl (by rfl)) .nil) (by decide)
            (@Invokes.intro _ _ _ _ _ _ (.return (some 2)) (.head _) rfl rfl (.intro
              (.return (.return
                (.binary (a := 1) .int (.location rfl (by rfl)) (by rfl))))))))) .nil)))
          (.whileFalse (.binary (a := 2) .int (.location rfl (by rfl)) (by rfl))))
        (.cons (.write .string)
        (.cons (.write (.location (w := 2) rfl (by rfl))) .nil))))), by rfl⟩
  obtain ⟨c, p, items, hc, herrors, hp, hitems, hstart, hruns, hmain, hfits⟩ := hfacts
  have hboots := boots_boot hmain [1]
  obtain ⟨p', items', hp', hitems', h⟩ := emit_runs hc herrors {}
  cases hp.symm.trans hp'
  cases hitems.symm.trans hitems'
  exact ⟨c, p, items, hc, herrors, hp, hitems, hstart, hruns, hboots, fits_of_fits? hfits,
    h hstart [1] _ hruns _ hboots (fits_of_fits? hfits)⟩

end Compilation

/-! ## Sharing string constants -/

section Images

variable {b b' : Image} {d : FnDecl} {input : List Word} {s s' : State}

/-- Two images of a program do the same, if its interpretation is defined. -/
theorem Image.together (hdecls : b'.decls = b.decls) (hd : d ∈ Decl.functions b.decls)
    (hmain : d.name.name = "main") (hboots : Boots b.items input s) (hfits : Fits b.items s)
    (hboots' : Boots b'.items input s') (hfits' : Fits b'.items s')
    (hresult : s'.get .v0 = s.get .v0)
    (habove : s'.above d.formals.items.length = s.above d.formals.items.length)
    (hdefined : ∀ n, Program.run { decls := b.decls } n (s.above d.formals.items.length)
      (s.get .v0) input ≠ .undefined) : Together b.items b'.items s s' where
  start := hboots.events
  start' := hboots'.events
  ends n := by
    obtain hundefined | ⟨h, events, hrun⟩ := Run.invoke_main b.decls n
      (s.above d.formals.items.length) ⟨Program.start { decls := b.decls } input, s.get .v0⟩
    · exact absurd hundefined (hdefined n)
    · refine ⟨h, events, b.run hd hmain hboots hfits n hrun, ?_⟩
      refine b'.run (hdecls ▸ hd) hmain hboots' hfits' n ?_
      rw [hdecls, habove, hresult]
      exact hrun

end Images

theorem Machine.State.above_congr {s s' : State} (hsp : s'.get .sp = s.get .sp)
    (hmem : ∀ a, (s.get .sp).toNat ≤ a → s'.mem a = s.mem a) (n : Nat) :
    s'.above n = s.above n := by
  rw [above, above, hsp]
  refine List.map_congr_left fun i hi => hmem _ ?_
  have hlt := List.mem_range.mp hi
  unfold wordSize
  omega

theorem Machine.Alike.finish {o o' : CodeOptions} {items items' : List Item} {s s' : State}
    (h : Alike items items' s s') : Alike (o.finish items) (o'.finish items') s s' where
  shows events := by
    simp only [Shows, reaches_finish]
    exact h.shows events
  exits events := by
    simp only [reaches_finish, halted_finish]
    exact h.exits events
  stuck events := by
    simp only [Stuck, reaches_finish, halted_finish, CodeOptions.step?_finish]
    exact h.stuck events

namespace Compilation

/-- The code that is generated for a program with some options does the same as the code that is
generated with others, on any input, as long as the interpretation of the program is defined.  The
two machines start with the same words where a main function would have its formals, and with the
same word in the register for results.  A run that compares two texts is not defined and is left
out, also where both codes find the same, as they do if the texts differ. -/
theorem emit_alike {file : Option String} {source : String} {c : Compilation}
    (hc : analyze file source = .ok c) (herrors : c.hasErrors = false) (o o' : CodeOptions) :
    ∃ p items items', c.program = some p ∧ (c.emit o).result = .ok items ∧
      (c.emit o').result = .ok items' ∧
      ((∀ d ∈ p.decls, d.labelled? ≠ some "_start") →
        ∀ (input : List Word) (s s' : State), Boots items input s → Fits items s →
          Boots items' input s' → Fits items' s' → s'.get .v0 = s.get .v0 →
          (∀ a, stackTop ≤ a → s'.mem a = s.mem a) →
          (∀ d ∈ p.functions, d.name.name = "main" →
            ∀ n, p.run n (s.above d.formals.items.length) (s.get .v0) input ≠ .undefined) →
          Alike items items' s s') := by
  obtain ⟨p, items, hp, hitems, ⟨d, hd, hmain⟩, himage⟩ := exists_image hc herrors o
  obtain ⟨p', items', hp', hitems', -, himage'⟩ := exists_image hc herrors o'
  cases hp.symm.trans hp'
  refine ⟨p, items, items', hp, hitems, hitems', ?_⟩
  intro hstart input s s' hboots hfits hboots' hfits' hresult hmem hdefined
  obtain ⟨b, hdecls, rfl⟩ := himage hstart
  obtain ⟨b', hdecls', rfl⟩ := himage' hstart
  rw [boots_finish] at hboots hboots'
  have habove := State.above_congr (hboots'.sp.trans hboots.sp.symm) (hboots.sp ▸ hmem)
  refine (Image.together (hdecls'.trans hdecls.symm) (hdecls ▸ hd) hmain hboots hfits.of_finish
    hboots' hfits'.of_finish hresult (habove _) ?_).alike.finish
  exact hdecls ▸ hdefined d hd hmain

set_option maxRecDepth 100000 in
/-- Two functions share a string constant, and do the same with one for each. -/
theorem emit_alike_of_prints :
    ∃ c p items items', analyze none
        "void f(int n) \x7b cout << \"a\"; cout << n; \x7d
         void main() \x7b int x; cin >> x; f(x); cout << \"a\"; \x7d" = .ok c ∧
      c.hasErrors = false ∧ c.program = some p ∧
      (c.emit { pool := true }).result = .ok items ∧
      (c.emit { pool := false }).result = .ok items' ∧
      (∀ d ∈ p.decls, d.labelled? ≠ some "_start") ∧
      Boots items [1] (boot items [1]) ∧ Fits items (boot items [1]) ∧
      Boots items' [1] (boot items' [1]) ∧ Fits items' (boot items' [1]) ∧
      (∀ d ∈ p.functions, d.name.name = "main" → ∀ n,
        p.run n ((boot items [1]).above d.formals.items.length) 0 [1] ≠ .undefined) ∧
      Alike items items' (boot items [1]) (boot items' [1]) := by
  have hfacts : ∃ c p items items', analyze none
        "void f(int n) \x7b cout << \"a\"; cout << n; \x7d
         void main() \x7b int x; cin >> x; f(x); cout << \"a\"; \x7d" = .ok c ∧
      c.hasErrors = false ∧ c.program = some p ∧
      (c.emit { pool := true }).result = .ok items ∧
      (c.emit { pool := false }).result = .ok items' ∧
      (∀ d ∈ p.decls, d.labelled? ≠ some "_start") ∧
      ((load items).code.lookup "main").isSome = true ∧ fits? items 100 (boot items [1]) = true ∧
      ((load items').code.lookup "main").isSome = true ∧
      fits? items' 100 (boot items' [1]) = true ∧
      (∀ d ∈ p.functions, d.name.name = "main" → ∀ n,
        p.run n ((boot items [1]).above d.formals.items.length) 0 [1] ≠ .undefined) := by
    refine ⟨?c, ?p, ?items, ?items', ?hc, ?herrors, ?hp, ?hitems, ?hitems', ?hstart, ?hmain, ?hfits,
      ?hmain', ?hfits', ?hdefined⟩
    case hc => cbv; rfl
    case hitems | hitems' => cbv; rfl
    case herrors | hp => rfl
    case hstart => decide
    case hmain | hmain' | hfits | hfits' => decide +kernel
    case hdefined =>
      intro d hd hname n h
      obtain rfl | hd := List.mem_cons.mp hd
      · exact absurd hname (by decide)
      · cases List.mem_singleton.mp hd
        -- the calls of `main` and of `f` each take a unit of fuel
        rcases n with _ | _ | n <;> cases h
  obtain ⟨c, p, items, items', hc, herrors, hp, hitems, hitems', hstart, hmain, hfits, hmain',
    hfits', hdefined⟩ := hfacts
  have hboots := boots_boot hmain [1]
  have hboots' := boots_boot hmain' [1]
  obtain ⟨p', _, _, hp', hitems₁, hitems₂, h⟩ :=
    emit_alike hc herrors { pool := true } { pool := false }
  cases hp.symm.trans hp'
  cases hitems.symm.trans hitems₁
  cases hitems'.symm.trans hitems₂
  exact ⟨c, p, items, items', hc, herrors, hp, hitems, hitems', hstart, hboots, fits_of_fits? hfits,
    hboots', fits_of_fits? hfits', hdefined, h hstart [1] _ _ hboots (fits_of_fits? hfits) hboots'
      (fits_of_fits? hfits') rfl (fun _ _ => rfl) hdefined⟩

set_option maxRecDepth 100000 in
/-- A text compared with an equal one: the answer is whether they share a constant. -/
theorem emit_of_comparison :
    ∃ c p items items', analyze none "void main() \x7b cout << (\"a\" == \"a\"); \x7d" = .ok c ∧
      c.hasErrors = false ∧ c.program = some p ∧
      (c.emit { pool := true }).result = .ok items ∧
      (c.emit { pool := false }).result = .ok items' ∧
      (∀ d ∈ p.decls, d.labelled? ≠ some "_start") ∧
      Boots items [] (boot items []) ∧ Fits items (boot items []) ∧
      Boots items' [] (boot items' []) ∧ Fits items' (boot items' []) ∧
      (∃ t, Reaches items (boot items []) t ∧ Halted items t ∧ t.events = [.printed (.word 1)]) ∧
      ∃ t, Reaches items' (boot items' []) t ∧ Halted items' t ∧
        t.events = [.printed (.word 0)] := by
  refine ⟨?c, ?p, ?items, ?items', ?hc, ?herrors, ?hp, ?hitems, ?hitems', ?hstart,
    boots_boot ?hmain [], fits_of_fits? (n := 100) ?hfits, boots_boot ?hmain' [],
    fits_of_fits? (n := 100) ?hfits', exits_of_run? (n := 35) ?hrun, exits_of_run? (n := 39) ?hrun'⟩
  case hc => cbv; rfl
  case hitems | hitems' => cbv; rfl
  case herrors | hp => rfl
  case hstart => decide
  case hmain | hmain' | hfits | hfits' => decide +kernel
  case hrun | hrun' => decide +kernel

end Compilation

end CMinusMinus
