import CMinusMinus.Text.Path
import CMinusMinus.Text.Quoted
import Mathlib.Algebra.Group.Nat.Defs
import Mathlib.Data.List.Basic

/-!
# Texts that can be read back

What is written can be read back where its pieces can be told from one another.  Numbers hold only
digits and a sign, texts joined by a separator are told apart by the first character of it if none
of them holds this character (`Text.intercalate_inj`), and a quoted text tells the text in the
quotes (`Text.quoted_inj`) and holds printable characters only (`Text.isPrintable_of_mem_quoted`).
A path made absolute holds the characters of the path and of the directory, and slashes and dots
(`Text.Path.notMem_absolute`).
-/

namespace CMinusMinus.Text

/-! ## Numbers -/

theorem isDigit_of_mem_nat {n : Nat} {c : Char} (h : c ∈ (toString n).toList) :
    c.isDigit = true := by
  rw [Nat.toString_eq_ofList_toDigits, String.toList_ofList] at h
  exact Nat.isDigit_of_mem_toDigits (by decide) (by decide) h

theorem toList_negSucc (n : Nat) :
    (toString (Int.negSucc n)).toList = '-' :: (toString (n + 1)).toList := by
  change ("-" ++ (n + 1).repr).toList = _
  rw [String.toList_append]
  rfl

theorem isDigit_of_mem_int {n : Int} {c : Char} (h : c ∈ (toString n).toList) :
    c.isDigit = true ∨ c = '-' := by
  cases n with
  | ofNat n => exact .inl (isDigit_of_mem_nat h)
  | negSucc n =>
    rw [toList_negSucc] at h
    rcases List.mem_cons.mp h with hc | h
    · exact .inr hc
    · exact .inl (isDigit_of_mem_nat h)

/-- A number begins with a digit or a sign. -/
theorem exists_toList_int (n : Int) :
    ∃ c cs, (toString n).toList = c :: cs ∧ (c.isDigit = true ∨ c = '-') := by
  cases n with
  | ofNat n =>
    have hne : (toString n).toList ≠ [] :=
      fun h => Nat.repr_ne_empty (String.toList_eq_nil_iff.mp h)
    obtain ⟨c, cs, htext⟩ := List.exists_cons_of_ne_nil hne
    exact ⟨c, cs, htext, .inl (isDigit_of_mem_nat (htext ▸ List.mem_cons_self))⟩
  | negSucc n => exact ⟨_, _, toList_negSucc n, .inr rfl⟩

/-- No number holds a character that is neither a digit nor a sign. -/
theorem notMem_int {c : Char} (hdigit : c.isDigit = false) (hsign : c ≠ '-') (n : Int) :
    c ∉ (toString n).toList := by
  intro h
  rcases isDigit_of_mem_int h with hc | hc
  · rw [hdigit] at hc
    cases hc
  · exact hsign hc

/-! ## Joined texts -/

section

variable {α : Type} {x : α}

/-- A list is cut at the first occurrence of an element. -/
theorem append_cons_inj {l m r s : List α} (hl : x ∉ l) (hm : x ∉ m)
    (h : l ++ x :: r = m ++ x :: s) : l = m ∧ r = s := by
  induction l generalizing m with
  | nil =>
    cases m with
    | nil => exact ⟨rfl, (List.cons.inj h).2⟩
    | cons a m => exact absurd (List.cons.inj h).1 (List.ne_of_not_mem_cons hm)
  | cons a l ih =>
    cases m with
    | nil => exact absurd (List.cons.inj h).1.symm (List.ne_of_not_mem_cons hl)
    | cons b m =>
      obtain ⟨rfl, htail⟩ := List.cons.inj h
      obtain ⟨rfl, rfl⟩ :=
        ih (List.not_mem_of_not_mem_cons hl) (List.not_mem_of_not_mem_cons hm) htail
      exact ⟨rfl, rfl⟩

/-- Lists without the first element of the separator are told apart in the joined list. -/
theorem intercalate_inj {xs : List α} {ls ms : List (List α)}
    (hls : ∀ l ∈ ls, x ∉ l) (hms : ∀ m ∈ ms, x ∉ m) (hne : ls ≠ []) (hne' : ms ≠ [])
    (h : (x :: xs).intercalate ls = (x :: xs).intercalate ms) : ls = ms := by
  induction ls generalizing ms with
  | nil => exact absurd rfl hne
  | cons l ls ih =>
    obtain ⟨m, ms, rfl⟩ := List.exists_cons_of_ne_nil hne'
    obtain ⟨hl, hls'⟩ := List.forall_mem_cons.mp hls
    obtain ⟨hm, hms'⟩ := List.forall_mem_cons.mp hms
    cases ls with
    | nil =>
      cases ms with
      | nil =>
        rw [List.intercalate_singleton, List.intercalate_singleton] at h
        rw [h]
      | cons m' ms =>
        rw [List.intercalate_singleton, List.intercalate_cons_cons] at h
        exact absurd (by rw [h]; simp) hl
    | cons l' ls =>
      rw [List.intercalate_cons_cons] at h
      cases ms with
      | nil =>
        rw [List.intercalate_singleton] at h
        exact absurd (by rw [← h]; simp) hm
      | cons m' ms =>
        rw [List.intercalate_cons_cons, List.append_assoc, List.append_assoc, List.cons_append,
          List.cons_append] at h
        obtain ⟨rfl, hrest⟩ := append_cons_inj hl hm h
        rw [ih hls' hms' (List.cons_ne_nil _ _) (List.cons_ne_nil _ _)
          (List.append_cancel_left hrest)]

/-- What tells apart the elements of lists tells the lists apart, as far as it does the elements. -/
theorem map_congr_of_forall {β γ : Type} {f : α → β} {g : α → γ} {P : α → Prop}
    (hf : ∀ {a b}, P a → P b → f a = f b → g a = g b) {ls ms : List α} (hls : ∀ l ∈ ls, P l)
    (hms : ∀ m ∈ ms, P m) (h : ls.map f = ms.map f) : ls.map g = ms.map g := by
  induction ls generalizing ms with
  | nil =>
    obtain rfl := List.map_eq_nil_iff.mp h.symm
    rfl
  | cons l ls ih =>
    cases ms with
    | nil => cases h
    | cons m ms =>
      obtain ⟨hl, hls⟩ := List.forall_mem_cons.mp hls
      obtain ⟨hm, hms⟩ := List.forall_mem_cons.mp hms
      obtain ⟨hhead, htail⟩ := List.cons.inj h
      rw [List.map_cons, List.map_cons, hf hl hm hhead, ih hls hms htail]

/-- Lists are told apart by what a function makes of their elements, if it tells these apart. -/
theorem map_inj_of_forall {β : Type} {f : α → β} {P : α → Prop}
    (hf : ∀ {a b}, P a → P b → f a = f b → a = b) {ls ms : List α} (hls : ∀ l ∈ ls, P l)
    (hms : ∀ m ∈ ms, P m) (h : ls.map f = ms.map f) : ls = ms := by
  have hid : ls.map id = ms.map id := map_congr_of_forall hf hls hms h
  rwa [List.map_id, List.map_id] at hid

end

/-! ## Quoted texts -/

theorem hexDigits_inj {width m n : Nat} (hm : m < 16 ^ width) (hn : n < 16 ^ width)
    (h : hexDigits width m = hexDigits width n) : m = n := by
  induction width generalizing m n with
  | zero => omega
  | succ width ih =>
    obtain ⟨hinit, hlast⟩ := List.append_inj h (by rw [length_hexDigits, length_hexDigits])
    have hdigits : ∀ i < 16, ∀ j < 16, Nat.digitChar i = Nat.digitChar j → i = j := by decide
    have hmod : m % 16 = n % 16 :=
      hdigits _ (Nat.mod_lt _ (by decide)) _ (Nat.mod_lt _ (by decide)) (List.cons.inj hlast).1
    rw [Nat.pow_succ] at hm hn
    have hdiv : m / 16 = n / 16 :=
      ih (Nat.div_lt_of_lt_mul (by omega)) (Nat.div_lt_of_lt_mul (by omega)) hinit
    omega

/-- How characters are written between two of the given quotes: as themselves, by a short name or
by their code points. -/
inductive Escape (quote : Char) : Char → List Char → Prop where
  | plain {c : Char} : c ≠ '\\' → isPrintable c = true → Escape quote c [c]
  | short {c name : Char} :
    (name, c) ∈ [(quote, quote), ('\\', '\\'), ('n', '\n'), ('r', '\r'), ('t', '\t')] →
    Escape quote c ['\\', name]
  | code {c mark : Char} {width : Nat} :
    (mark, width) ∈ [('x', 2), ('u', 4), ('U', 8)] → c.toNat < 16 ^ width →
    Escape quote c ('\\' :: mark :: hexDigits width c.toNat)

theorem escape_escapeIn (quote c : Char) : Escape quote c (escapeIn quote c) := by
  unfold escapeIn
  split
  · next h =>
    rcases h with rfl | rfl
    · exact .short (by simp)
    · exact .short (by simp)
  split
  · next h => exact .short (by simp [h])
  split
  · next h => exact .short (by simp [h])
  split
  · next h => exact .short (by simp [h])
  split
  · next hquote _ _ _ hprintable => exact .plain (fun h => hquote (.inr h)) hprintable
  unfold escapeCode
  split
  · next h => exact .code (by simp) h
  split
  · next h => exact .code (by simp) h
  · exact .code (by simp) c.val.toNat_lt

section

variable {quote c d : Char} {cs ds rest rest' : List Char}

/-- What is written for a character tells it, whatever follows. -/
theorem Escape.inj (hquote : quote = '\'' ∨ quote = '"') (h : Escape quote c cs)
    (h' : Escape quote d ds) (heq : cs ++ rest = ds ++ rest') : c = d ∧ rest = rest' := by
  have hshort : ∀ p ∈ [(quote, quote), ('\\', '\\'), ('n', '\n'), ('r', '\r'), ('t', '\t')],
      (∀ p' ∈ [(quote, quote), ('\\', '\\'), ('n', '\n'), ('r', '\r'), ('t', '\t')],
        p.1 = p'.1 → p.2 = p'.2) ∧
      ∀ p' ∈ [('x', 2), ('u', 4), ('U', 8)], p.1 ≠ p'.1 := by
    rcases hquote with rfl | rfl <;> decide
  have hcode : ∀ p ∈ [('x', 2), ('u', 4), ('U', 8)], ∀ p' ∈ [('x', 2), ('u', 4), ('U', 8)],
      p.1 = p'.1 → p.2 = p'.2 := by
    decide
  cases h with
  | plain hc =>
    cases h' with
    | plain => exact List.cons.inj heq
    | short => exact absurd (List.cons.inj heq).1 hc
    | code => exact absurd (List.cons.inj heq).1 hc
  | short hname =>
    cases h' with
    | plain hd => exact absurd (List.cons.inj heq).1.symm hd
    | short hname' =>
      obtain ⟨heq, hrest⟩ := List.cons.inj (List.cons.inj heq).2
      exact ⟨(hshort _ hname).1 _ hname' heq, hrest⟩
    | code hmark =>
      exact absurd (List.cons.inj (List.cons.inj heq).2).1 ((hshort _ hname).2 _ hmark)
  | code hmark hc =>
    cases h' with
    | plain hd => exact absurd (List.cons.inj heq).1.symm hd
    | short hname =>
      exact absurd (List.cons.inj (List.cons.inj heq).2).1.symm ((hshort _ hname).2 _ hmark)
    | code hmark' hd =>
      obtain ⟨heq, htail⟩ := List.cons.inj (List.cons.inj heq).2
      obtain rfl := hcode _ hmark _ hmark' heq
      obtain ⟨hdigits, hrest⟩ :=
        List.append_inj htail (by rw [length_hexDigits, length_hexDigits])
      exact ⟨Char.toNat_inj.mp (hexDigits_inj hc hd hdigits), hrest⟩

theorem Escape.ne_nil (h : Escape quote c cs) : cs ≠ [] := by
  cases h <;> exact List.cons_ne_nil _ _

theorem flatMap_escapeIn_inj (hquote : quote = '\'' ∨ quote = '"')
    (h : cs.flatMap (escapeIn quote) = ds.flatMap (escapeIn quote)) : cs = ds := by
  induction cs generalizing ds with
  | nil =>
    cases ds with
    | nil => rfl
    | cons d ds =>
      exact absurd (List.append_eq_nil_iff.mp h.symm).1 (escape_escapeIn quote d).ne_nil
  | cons c cs ih =>
    cases ds with
    | nil => exact absurd (List.append_eq_nil_iff.mp h).1 (escape_escapeIn quote c).ne_nil
    | cons d ds =>
      obtain ⟨rfl, hrest⟩ := (escape_escapeIn quote c).inj hquote (escape_escapeIn quote d) h
      rw [ih hrest]

theorem quoteFor_cases (cs : List Char) : quoteFor cs = '\'' ∨ quoteFor cs = '"' := by
  unfold quoteFor
  split
  · exact .inr rfl
  · exact .inl rfl

theorem toList_quoted (s : String) : (quoted s).toList =
    quoteFor s.toList :: s.toList.flatMap (escapeIn (quoteFor s.toList)) ++ [quoteFor s.toList] :=
  String.toList_ofList

/-- A quoted text tells the text between the quotes. -/
theorem quoted_inj {s t : String} (h : quoted s = quoted t) : s = t := by
  have hlist := congrArg String.toList h
  rw [toList_quoted, toList_quoted, List.cons_append, List.cons_append] at hlist
  obtain ⟨hquote, hbody⟩ := List.cons.inj hlist
  rw [hquote] at hbody
  exact String.toList_inj.mp
    (flatMap_escapeIn_inj (quoteFor_cases _) (List.append_cancel_right hbody))

theorem isPrintable_of_mem_hexDigits {width n : Nat} (h : c ∈ hexDigits width n) :
    isPrintable c = true := by
  have hdigits : ∀ i < 16, isPrintable (Nat.digitChar i) = true := by decide
  induction width generalizing n with
  | zero => cases h
  | succ width ih =>
    rcases List.mem_append.mp h with h | h
    · exact ih h
    · rw [List.mem_singleton.mp h]
      exact hdigits _ (Nat.mod_lt _ (by decide))

theorem Escape.isPrintable_of_mem (hquote : quote = '\'' ∨ quote = '"') (h : Escape quote c cs) :
    ∀ d ∈ cs, isPrintable d = true := by
  have hbackslash : isPrintable '\\' = true := by decide
  cases h with
  | plain _ hc => exact List.forall_mem_singleton.mpr hc
  | short hname =>
    have hnames : ∀ p ∈ [(quote, quote), ('\\', '\\'), ('n', '\n'), ('r', '\r'), ('t', '\t')],
        isPrintable p.1 = true := by
      rcases hquote with rfl | rfl <;> decide
    exact List.forall_mem_cons.mpr ⟨hbackslash, List.forall_mem_singleton.mpr (hnames _ hname)⟩
  | code hmark =>
    have hmarks : ∀ p ∈ [('x', 2), ('u', 4), ('U', 8)], isPrintable p.1 = true := by decide
    exact List.forall_mem_cons.mpr ⟨hbackslash, List.forall_mem_cons.mpr
      ⟨hmarks _ hmark, fun d hd => isPrintable_of_mem_hexDigits hd⟩⟩

/-- A quoted text is printable. -/
theorem isPrintable_of_mem_quoted {s : String} (h : c ∈ (quoted s).toList) :
    isPrintable c = true := by
  have hcases := quoteFor_cases s.toList
  have hquote : isPrintable (quoteFor s.toList) = true := by
    rcases hcases with h | h <;> rw [h] <;> decide
  rw [toList_quoted] at h
  rcases List.mem_append.mp h with h | h
  · rcases List.mem_cons.mp h with rfl | h
    · exact hquote
    · obtain ⟨d, -, hd⟩ := List.mem_flatMap.mp h
      exact (escape_escapeIn _ d).isPrintable_of_mem hcases c hd
  · rw [List.mem_singleton.mp h]
    exact hquote

end

/-! ## Paths -/

namespace Path

variable {x : Char}

theorem mem_of_mem_cut {cs step : List Char} (hstep : step ∈ cut cs) (hx : x ∈ step) : x ∈ cs := by
  fun_induction cut cs generalizing step with
  | case1 =>
    rw [List.mem_singleton.mp hstep] at hx
    cases hx
  | case2 cs ih =>
    rcases List.mem_cons.mp hstep with rfl | hstep
    · cases hx
    · exact List.mem_cons_of_mem _ (ih hstep hx)
  | case3 c cs _ hcut =>
    rw [List.mem_singleton.mp hstep] at hx
    exact List.mem_cons.mpr (.inl (List.mem_singleton.mp hx))
  | case4 c cs _ first rest hcut ih =>
    rw [hcut] at ih
    rcases List.mem_cons.mp hstep with rfl | hstep
    · rcases List.mem_cons.mp hx with rfl | hx
      · exact List.mem_cons_self
      · exact List.mem_cons_of_mem _ (ih List.mem_cons_self hx)
    · exact List.mem_cons_of_mem _ (ih (List.mem_cons_of_mem _ hstep) hx)

theorem notMem_steps {path : String} (h : x ∉ path.toList) :
    ∀ step ∈ steps path, x ∉ step.toList := by
  intro step hstep hx
  obtain ⟨cs, hcs, rfl⟩ := List.mem_map.mp hstep
  rw [String.toList_ofList] at hx
  exact h (mem_of_mem_cut (List.mem_of_mem_filter hcs) hx)

theorem notMem_climb (hdot : x ≠ '.') {rooted : Bool} {done steps : List String}
    (hdone : ∀ s ∈ done, x ∉ s.toList) (hsteps : ∀ s ∈ steps, x ∉ s.toList) :
    ∀ s ∈ steps.foldl (climb rooted) done, x ∉ s.toList := by
  have hup : x ∉ "..".toList := by
    change x ∉ ['.', '.']
    simp [hdot]
  induction steps generalizing done with
  | nil => exact hdone
  | cons step steps ih =>
    obtain ⟨hstep, hsteps⟩ := List.forall_mem_cons.mp hsteps
    refine ih ?_ hsteps
    unfold climb
    split
    · exact List.forall_mem_cons.mpr ⟨hstep, hdone⟩
    split
    · split
      · exact List.forall_mem_nil _
      · exact List.forall_mem_singleton.mpr hup
    · split
      · exact List.forall_mem_cons.mpr ⟨hup, hdone⟩
      · exact (List.forall_mem_cons.mp hdone).2

theorem notMem_root (hslash : x ≠ '/') (path : String) : x ∉ (root path).toList := by
  unfold root
  split <;> simp [hslash]

theorem notMem_intercalate {separator : List Char} {ls : List (List Char)} (hx : x ∉ separator)
    (h : ∀ l ∈ ls, x ∉ l) : x ∉ separator.intercalate ls := by
  induction ls with
  | nil => exact List.not_mem_nil
  | cons l ls ih =>
    obtain ⟨hl, hls⟩ := List.forall_mem_cons.mp h
    cases ls with
    | nil => rwa [List.intercalate_singleton]
    | cons l' ls =>
      rw [List.intercalate_cons_cons]
      simpa [hl, hx] using ih hls

theorem notMem_flat (hslash : x ≠ '/') (hdot : x ≠ '.') {path : String} (h : x ∉ path.toList) :
    x ∉ (flat path).toList := by
  have hsteps : ∀ s ∈ (steps path).foldl (climb (root path != "")) [], x ∉ s.toList :=
    notMem_climb hdot (List.forall_mem_nil _) (notMem_steps h)
  unfold flat join
  dsimp only
  split
  · simp [hdot]
  · rw [String.toList_append, String.toList_intercalate, List.mem_append, not_or]
    refine ⟨notMem_root hslash path, notMem_intercalate (by simp [hslash]) ?_⟩
    rw [List.forall_mem_map]
    exact fun s hs => hsteps s (List.mem_reverse.mp hs)

/-- A path made absolute has the characters of the directory and of the path. -/
theorem notMem_absolute (hslash : x ≠ '/') (hdot : x ≠ '.') {directory path : String}
    (hdirectory : x ∉ directory.toList) (hpath : x ∉ path.toList) :
    x ∉ (absolute directory path).toList := by
  refine notMem_flat hslash hdot ?_
  split
  · unfold behind
    split <;> simpa [hslash] using ⟨hdirectory, hpath⟩
  · exact hpath

end Path

end CMinusMinus.Text
