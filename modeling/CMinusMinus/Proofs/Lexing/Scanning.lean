import CMinusMinus.Proofs.Derivation.Tokens
import CMinusMinus.Proofs.Lexing

/-!
# What the scanner reads

The scanner returns the tokens of a text exactly if the text is their lexemes with gaps between
them, each token at its place (`Token.scan_eq_ok_iff`).  Every text is lexemes and gaps up to its
end or up to a place where no token can be measured (`Token.exists_lexed`, by the recursion of the
scanner), and either way the lexemes tell what the scanner returns (`Token.scan_of_lexed`,
`Token.scan_of_refused`, by the tokens).

A gap is skipped as a whole because what comes after it begins no gap, and no kind of token is
mistaken for another because the first characters of words, numerals, string literals and marks are
not the same.  That no letter is a digit is a fact about two tables (`Text.isLetter_of_isDigit`).
-/

namespace CMinusMinus

/-! ## Characters -/

/-- The ranges are in order, from the given code point on. -/
def Text.Ranges.ascends : Nat → Ranges → Bool
  | _, [] => true
  | n, r :: rs => n.ble r.1 && r.1.ble r.2 && ascends (r.2 + 1) rs

/-- Whether the ranges of two sets lie apart, found by going through both in order. -/
def Text.Ranges.apart : Nat → Ranges → Ranges → Bool
  | _, [], _ | _, _, [] => true
  | 0, _, _ => false
  | fuel + 1, r :: rs, s :: ss =>
    if r.2.blt s.1 then apart fuel rs (s :: ss) else s.2.blt r.1 && apart fuel (r :: rs) ss

theorem Text.Ranges.le_of_ascends {n : Nat} {rs : Ranges} (h : rs.ascends n = true)
    {r : Nat × Nat} (hr : r ∈ rs) : n ≤ r.1 := by
  induction rs generalizing n with
  | nil => cases hr
  | cons r' rs ih =>
    simp only [ascends, Bool.and_eq_true, Nat.ble_eq] at h
    rcases List.mem_cons.mp hr with rfl | hr
    · exact h.1.1
    · have hle := ih h.2 hr
      omega

theorem Text.Ranges.head_le_of_ascends {n : Nat} {r r' : Nat × Nat} {rs : Ranges}
    (h : ascends n (r' :: rs) = true) (hr : r ∈ r' :: rs) : r'.1 ≤ r.1 := by
  have hascends : ascends r'.1 (r' :: rs) = true := by
    simp only [ascends, Bool.and_eq_true, Nat.ble_eq] at h ⊢
    exact ⟨⟨Nat.le_refl _, h.1.2⟩, h.2⟩
  exact le_of_ascends hascends hr

theorem Text.Ranges.disjoint_of_apart {fuel m n : Nat} {rs ss : Ranges}
    (h : apart fuel rs ss = true) (hrs : rs.ascends m = true) (hss : ss.ascends n = true)
    {r s : Nat × Nat} (hr : r ∈ rs) (hs : s ∈ ss) : r.2 < s.1 ∨ s.2 < r.1 := by
  induction fuel generalizing rs ss m n with
  | zero =>
    obtain ⟨r', rs, rfl⟩ := List.exists_cons_of_ne_nil (List.ne_nil_of_mem hr)
    obtain ⟨s', ss, rfl⟩ := List.exists_cons_of_ne_nil (List.ne_nil_of_mem hs)
    cases h
  | succ fuel ih =>
    obtain ⟨r', rs, rfl⟩ := List.exists_cons_of_ne_nil (List.ne_nil_of_mem hr)
    obtain ⟨s', ss, rfl⟩ := List.exists_cons_of_ne_nil (List.ne_nil_of_mem hs)
    have hrs' := hrs
    have hss' := hss
    simp only [ascends, Bool.and_eq_true, Nat.ble_eq] at hrs' hss'
    rw [apart] at h
    split at h
    · next hbelow =>
      rcases List.mem_cons.mp hr with rfl | hr
      · have hle := head_le_of_ascends hss hs
        rw [Nat.blt_eq] at hbelow
        omega
      · exact ih h hrs'.2 hss hr hs
    · rw [Bool.and_eq_true, Nat.blt_eq] at h
      rcases List.mem_cons.mp hs with rfl | hs
      · have hle := head_le_of_ascends hrs hr
        omega
      · exact ih h.2 hrs hss'.2 hr hs

/-- The tables of letters and digits are in order and have no code point in common. -/
theorem Text.tables_apart : letterRanges.ascends 0 = true ∧ digitRanges.ascends 0 = true ∧
    Ranges.apart (letterRanges.length + digitRanges.length) letterRanges digitRanges = true := by
  decide +kernel

/-- No digit is a letter. -/
theorem Text.isLetter_of_isDigit {c : Char} (h : isDigit c = true) : isLetter c = false := by
  unfold isDigit at h
  unfold isLetter
  split at h
  · next hc =>
    rw [if_pos hc, ← Bool.not_eq_true]
    intro hletter
    change (decide (48 ≤ c.val) && decide (c.val ≤ 57)) = true at h
    change (decide (65 ≤ c.val ∧ c.val ≤ 90) ||
      (decide (97 ≤ c.val) && decide (c.val ≤ 122))) = true at hletter
    simp only [Bool.or_eq_true, Bool.and_eq_true, decide_eq_true_eq,
      UInt32.le_iff_toNat_le] at h hletter
    change 48 ≤ c.toNat ∧ c.toNat ≤ 57 at h
    change (65 ≤ c.toNat ∧ c.toNat ≤ 90) ∨ (97 ≤ c.toNat ∧ c.toNat ≤ 122) at hletter
    omega
  · next hc =>
    rw [if_neg hc]
    rw [← Bool.not_eq_true]
    intro hletter
    obtain ⟨r, hr, hrlow, hrhigh⟩ := Ranges.contains_iff.mp hletter
    obtain ⟨s, hs, hslow, hshigh⟩ := Ranges.contains_iff.mp h
    obtain ⟨hletters, hdigits, hapart⟩ := tables_apart
    have hdisjoint := Ranges.disjoint_of_apart hapart hletters hdigits hr hs
    omega

/-! ## Marks -/

namespace Mark

theorem spelling_injective {m n : Mark} (h : m.spelling = n.spelling) : m = n := by
  have hfirst := first?_spelling m
  rw [h, first?_spelling] at hfirst
  exact (Option.some.inj hfirst).symm

/-- Marks of two characters are tried before those of one. -/
theorem pairwise_all :
    all.Pairwise fun m n => n.spelling.length ≤ m.spelling.length := by
  decide

/-- The first mark found at a place is the longest there. -/
theorem longest_of_first? {m : Mark} {cs : List Char} (h : first? cs = some m) :
    m.spelling <+: cs ∧ ∀ n : Mark, n.spelling <+: cs → n.spelling.length ≤ m.spelling.length := by
  obtain ⟨hm, before, after, hall, hbefore⟩ := List.find?_eq_some_iff_append.mp h
  refine ⟨List.isPrefixOf_iff_prefix.mp hm, fun n hn => ?_⟩
  have hpairwise := pairwise_all
  rw [hall, List.pairwise_append, List.pairwise_cons] at hpairwise
  have hmem := n.mem_all
  rw [hall, List.mem_append, List.mem_cons] at hmem
  rcases hmem with hmem | rfl | hmem
  · have hnot := hbefore n hmem
    rw [List.isPrefixOf_iff_prefix.mpr hn] at hnot
    cases hnot
  · exact Nat.le_refl _
  · exact hpairwise.2.1.1 n hmem

theorem first?_of_longest {m : Mark} {cs : List Char} (h : m.spelling <+: cs)
    (hlongest : ∀ n : Mark, n.spelling <+: cs → n.spelling.length ≤ m.spelling.length) :
    first? cs = some m := by
  have hfound : (first? cs).isSome = true :=
    List.find?_isSome.mpr ⟨m, m.mem_all, List.isPrefixOf_iff_prefix.mpr h⟩
  obtain ⟨n, hn⟩ := Option.isSome_iff_exists.mp hfound
  obtain ⟨hbegins, hlongest'⟩ := longest_of_first? hn
  have hlength : m.spelling.length = n.spelling.length :=
    Nat.le_antisymm (hlongest' m h) (hlongest n hbegins)
  have hspelling : m.spelling = n.spelling :=
    (List.prefix_of_prefix_length_le h hbegins (Nat.le_of_eq hlength)).eq_of_length hlength
  rw [hn, spelling_injective hspelling]

end Mark

namespace Token

variable {c : Char} {cs gap lexeme rest : List Char} {p q : Position} {kind : TokenKind} {n : Nat}

/-! ## Gaps -/

/-- A gap, or what is left of a comment and then a gap. -/
def GapFrom (inComment : Bool) (gap rest : List Char) : Prop :=
  if inComment then
    ∃ body gap', gap = body ++ gap' ∧ (∀ c ∈ body, c ≠ '\n' ∧ c ≠ nul) ∧
      LineEnds (gap' ++ rest) ∧ Gap gap' rest
  else Gap gap rest

theorem mem_blanks (h : isBlank c = true) : c ∈ [' ', '\t', '\r', '\n'] := by
  simpa [isBlank, or_assoc] using h

/-- A comment that begins with one of its characters goes on with the rest of them. -/
theorem GapFrom.opened (hopens : opensComment c (gap ++ rest) = true)
    (h : GapFrom true gap rest) : Gap (c :: gap) rest := by
  obtain ⟨body, gap', rfl, hbody, hends, hgap⟩ := h
  simp only [opensComment, Bool.or_eq_true, Bool.and_eq_true, decide_eq_true_eq] at hopens
  have hopening : ∀ opening ∈ [['#'], ['/', '/']], ∀ body : List Char,
      (∀ c ∈ body, c ≠ '\n' ∧ c ≠ nul) → Gap (opening ++ body ++ gap') rest :=
    fun _ hopening _ hbody => .comment hopening hbody hends hgap
  rcases hopens with rfl | ⟨rfl, hslash⟩
  · exact hopening ['#'] (by decide) body hbody
  · cases body with
    | nil => exact absurd (hends _ hslash) (by decide)
    | cons d body =>
      cases hslash
      exact hopening ['/', '/'] (by decide) body (List.forall_mem_cons.mp hbody).2

/-- What is skipped is a gap, unless it ends at NUL. -/
theorem gap_skipGap {inComment : Bool} (h : skipGap inComment cs p = (rest, q)) :
    ∃ gap, cs = gap ++ rest ∧ q = p.after gap ∧
      (rest.head? ≠ some nul → GapFrom inComment gap rest) := by
  induction cs generalizing inComment p with
  | nil =>
    cases h
    refine ⟨[], rfl, rfl, fun _ => ?_⟩
    cases inComment with
    | false => exact .nil
    | true => exact ⟨[], [], rfl, List.forall_mem_nil _, fun _ h => (by cases h), .nil⟩
  | cons c cs ih =>
    have hstop : (c :: cs, p) = (rest, q) → inComment = false ∨ c = nul →
        ∃ gap, c :: cs = gap ++ rest ∧ q = p.after gap ∧
          (rest.head? ≠ some nul → GapFrom inComment gap rest) := by
      rintro h hnul
      cases h
      refine ⟨[], rfl, rfl, fun hhead => ?_⟩
      rcases hnul with rfl | rfl
      · exact .nil
      · exact absurd rfl hhead
    unfold skipGap at h
    split at h
    · next hin =>
      subst hin
      split at h
      · next hnul => exact hstop h (.inr hnul)
      · next hnul =>
        obtain ⟨gap, rfl, rfl, hgap⟩ := ih h
        refine ⟨c :: gap, rfl, rfl, fun hhead => ?_⟩
        by_cases hc : c = '\n'
        · subst hc
          exact ⟨[], '\n' :: gap, rfl, List.forall_mem_nil _, fun _ h => (by cases h; rfl),
            .blank (by decide) (hgap hhead)⟩
        · have hcomment := hgap hhead
          rw [show (c != '\n') = true by simpa using hc] at hcomment
          obtain ⟨body, gap', rfl, hbody, hends, hgap'⟩ := hcomment
          exact ⟨c :: body, gap', rfl, List.forall_mem_cons.mpr ⟨⟨hc, hnul⟩, hbody⟩, hends, hgap'⟩
    · next hin =>
      rw [Bool.not_eq_true] at hin
      subst hin
      split at h
      · next hblank =>
        obtain ⟨gap, rfl, rfl, hgap⟩ := ih h
        exact ⟨c :: gap, rfl, rfl, fun hhead => .blank (mem_blanks hblank) (hgap hhead)⟩
      · split at h
        · next hopens =>
          obtain ⟨gap, rfl, rfl, hgap⟩ := ih h
          exact ⟨c :: gap, rfl, rfl, fun hhead => (hgap hhead).opened hopens⟩
        · exact hstop h (.inl rfl)

/-- What comes after a gap begins neither a blank nor a comment. -/
def EndsGap (rest : List Char) : Prop :=
  ∀ c cs, rest = c :: cs → isBlank c = false ∧ opensComment c cs = false

theorem endsGap_skipGap {inComment : Bool} (h : skipGap inComment cs p = (rest, q))
    (hnul : rest.head? ≠ some nul) : EndsGap rest := by
  induction cs generalizing inComment p with
  | nil =>
    cases h
    rintro _ _ ⟨⟩
  | cons c cs ih =>
    unfold skipGap at h
    split at h
    · split at h
      · next hc =>
        cases h
        exact absurd (congrArg some hc) hnul
      · exact ih h
    · split at h
      · exact ih h
      · next hblank =>
        split at h
        · exact ih h
        · next hopens =>
          cases h
          rintro _ _ ⟨⟩
          exact ⟨Bool.not_eq_true _ ▸ hblank, Bool.not_eq_true _ ▸ hopens⟩

theorem skipGap_comment {body : List Char} (hbody : ∀ c ∈ body, c ≠ '\n' ∧ c ≠ nul)
    (hends : LineEnds cs) (p : Position) :
    skipGap true (body ++ cs) p = skipGap false cs (p.after body) := by
  induction body generalizing p with
  | nil =>
    cases cs with
    | nil => rfl
    | cons d cs =>
      cases hends d rfl
      rfl
  | cons d body ih =>
    obtain ⟨⟨hline, hnul⟩, hbody⟩ := List.forall_mem_cons.mp hbody
    rw [List.cons_append, skipGap, if_pos rfl, if_neg hnul,
      show (d != '\n') = true by simpa using hline, ih hbody, Position.after_cons]

/-- A gap is skipped as a whole. -/
theorem Gap.skip (h : Gap gap rest) (hrest : EndsGap rest) (p : Position) :
    skipGap false (gap ++ rest) p = (rest, p.after gap) := by
  induction h generalizing p with
  | @nil rest =>
    cases rest with
    | nil => rfl
    | cons c cs =>
      obtain ⟨hblank, hopens⟩ := hrest c cs rfl
      simp [skipGap, hblank, hopens]
  | @blank c gap rest hc _ ih =>
    have hblank : isBlank c = true := by
      simpa [isBlank, or_assoc] using hc
    rw [List.cons_append, skipGap, if_neg Bool.false_ne_true, if_pos hblank, ih hrest,
      Position.after_cons]
  | @comment opening body gap rest hopening hbody hends _ ih =>
    have hskip : ∀ p, skipGap true (body ++ (gap ++ rest)) p = (rest, (p.after body).after gap) :=
      fun p => by rw [skipGap_comment hbody hends, ih hrest]
    rw [List.append_assoc, List.append_assoc, Position.after_append, Position.after_append]
    rcases List.mem_cons.mp hopening with rfl | hopening
    · exact hskip _
    · cases List.mem_singleton.mp hopening
      have hslash : ∀ cs, skipGap true ('/' :: cs) (p.advance '/')
          = skipGap true cs ((p.advance '/').advance '/') := fun cs => by
        rw [skipGap]
        simp [nul]
      exact (hslash _).trans (hskip _)

/-! ## String literals -/

theorem closeString_eq_ok_iff {start : Position} :
    closeString start cs p = .ok n ↔
      ∃ body rest, StringBody body ∧ cs = body ++ '"' :: rest ∧ n = body.length + 1 := by
  constructor
  · intro h
    fun_induction closeString start cs p generalizing n with
    | case1 => cases h
    | case2 => cases h
    | case3 c cs p hc ih =>
      obtain ⟨m, hm, rfl⟩ := map_eq_ok h
      obtain ⟨body, rest, hbody, rfl, rfl⟩ := ih hm
      exact ⟨'\\' :: c :: body, rest, .escape (by simpa [isEscapable] using hc) hbody, rfl, rfl⟩
    | case4 => cases h
    | case5 cs =>
      cases h
      exact ⟨[], cs, .nil, rfl, rfl⟩
    | case6 => cases h
    | case7 c cs p hlast hescape hquote hend ih =>
      obtain ⟨m, hm, rfl⟩ := map_eq_ok h
      obtain ⟨body, rest, hbody, rfl, rfl⟩ := ih hm
      have hend : c ≠ '\n' ∧ c ≠ nul := by
        simpa using hend
      have hbackslash : c ≠ '\\' := by
        rintro rfl
        cases body with
        | nil => exact hescape _ _ rfl rfl
        | cons d body => exact hescape _ _ rfl rfl
      exact ⟨c :: body, rest, .plain hquote hbackslash hend.1 hend.2 hbody, rfl, rfl⟩
  · rintro ⟨body, rest, hbody, rfl, rfl⟩
    induction hbody generalizing p with
    | nil => rfl
    | @plain c cs hquote hbackslash hline hnul _ ih =>
      rw [List.cons_append, closeString, if_neg hquote, if_neg (by simpa using ⟨hline, hnul⟩), ih]
      · rfl
      · exact fun h => absurd h hbackslash
      · exact fun _ _ h => absurd h hbackslash
    | @escape c cs hc _ ih =>
      have hc : isEscapable c = true := by
        simpa [isEscapable] using hc
      rw [List.cons_append, List.cons_append, closeString, if_pos hc, ih]
      rfl

/-! ## Runs -/

/-- What a run takes of a text and what it leaves. -/
theorem takeWhile_run {test : Char → Bool} (hcs : ∀ d ∈ cs, test d = true)
    (hrest : ∀ d, rest.head? = some d → test d = false) :
    (cs ++ rest).takeWhile test = cs ∧ (cs ++ rest).dropWhile test = rest := by
  rw [List.takeWhile_append_of_pos hcs, List.dropWhile_append_of_pos hcs]
  cases rest with
  | nil => exact ⟨List.append_nil cs, rfl⟩
  | cons d rest =>
    have hd : ¬ test d = true := by
      rw [hrest d rfl]
      exact Bool.false_ne_true
    exact ⟨by rw [List.takeWhile_cons_of_neg hd, List.append_nil], List.dropWhile_cons_of_neg hd⟩

/-- Every text begins with a run, which ends where the test fails. -/
theorem exists_run (test : Char → Bool) (cs : List Char) :
    ∃ run rest, cs = run ++ rest ∧ (∀ d ∈ run, test d = true) ∧
      (∀ d, rest.head? = some d → test d = false) := by
  refine ⟨cs.takeWhile test, cs.dropWhile test, List.takeWhile_append_dropWhile.symm,
    List.all_eq_true.mp List.all_takeWhile, fun d hd => ?_⟩
  have hnot := List.head?_dropWhile_not test cs
  rw [hd] at hnot
  simpa using hnot

theorem kindOfWord_eq_keyword_iff {word : List Char} {k : Keyword} :
    kindOfWord word = .keyword k ↔ word = k.text.toList := by
  unfold kindOfWord
  constructor
  · intro h
    split at h
    · next k' hk' =>
      cases h
      have hfound := List.find?_some hk'
      rw [eq_of_beq hfound, String.toList_ofList]
    · cases h
  · rintro rfl
    rw [String.ofList_toList, Keyword.ofText?_text]

theorem kindOfWord_eq_name_iff {word : List Char} :
    kindOfWord word = .name ↔ ∀ k : Keyword, word ≠ k.text.toList := by
  constructor
  · rintro h k hk
    rw [kindOfWord_eq_keyword_iff.mpr hk] at h
    cases h
  · intro h
    cases hk : kindOfWord word with
    | name => rfl
    | keyword k => exact absurd (kindOfWord_eq_keyword_iff.mp hk) (h k)
    | _ =>
      unfold kindOfWord at hk
      split at hk <;> cases hk

theorem checkNumeral_eq_ok_iff {digits : List Char} :
    checkNumeral digits rest p q = .ok () ↔
      (∀ c, rest.head? = some c → beginsName c = false) ∧ digits.length ≤ Text.maxDigits ∧
        ∃ value, Text.decimal? digits = some value ∧ value ≤ intMax := by
  have hname : rest.head?.filter beginsName = none ↔
      ∀ c, rest.head? = some c → beginsName c = false := by
    simp [Option.filter_eq_none_iff]
  rw [checkNumeral, ← hname]
  cases hfilter : rest.head?.filter beginsName with
  | some c => exact ⟨fun h => (by cases h), fun h => (by cases h.1)⟩
  | none =>
    by_cases hlength : digits.length ≤ Text.maxDigits
    · cases hvalue : Text.decimal? digits with
      | none => simp [hlength]
      | some value => by_cases hmax : value ≤ intMax <;> simp [hlength, hmax]
    · simp [hlength]

/-! ## One token -/

/-- Some character of one class is no character of another. -/
theorem ne_of_test {test : Char → Bool} {d : Char} (h : test c = true) (h' : test d = false) :
    c ≠ d := by
  rintro rfl
  rw [h] at h'
  cases h'

theorem beginsName_of_isDigit (h : Text.isDigit c = true) : beginsName c = false := by
  rw [beginsName, Text.isLetter_of_isDigit h, decide_eq_false (ne_of_test h (by decide))]
  rfl

/-- No gap begins with a digit. -/
theorem endsGap_of_isDigit (h : Text.isDigit c = true) (cs : List Char) : EndsGap (c :: cs) := by
  rintro _ _ ⟨⟩
  have hne : ∀ d, Text.isDigit d = false → c ≠ d := fun d => ne_of_test h
  constructor
  · simp [isBlank, hne ' ' (by decide), hne '\t' (by decide), hne '\r' (by decide),
      hne '\n' (by decide)]
  · simp [opensComment, hne '#' (by decide), hne '/' (by decide)]

/-- What is measured is the lexeme of its kind. -/
theorem lexeme_of_measure (h : measure c cs p = .ok (kind, n))
    (hopens : opensComment c cs = false) : Lexeme kind (c :: cs.take n) (cs.drop n) := by
  unfold measure at h
  split at h
  · next hc =>
    obtain ⟨run, rest, rfl, hrun, hrest⟩ := exists_run continuesName cs
    rw [(takeWhile_run hrun hrest).1] at h
    injection h with h
    obtain ⟨hkind, rfl⟩ := Prod.mk.inj h
    rw [List.take_left, List.drop_left]
    have hlongest := (longest_isWord_iff ⟨c, run, rfl, hc, hrun⟩).mpr hrest
    cases hk : kindOfWord (c :: run) with
    | keyword k =>
      rw [← hkind, hk]
      rw [kindOfWord_eq_keyword_iff.mp hk] at hlongest ⊢
      exact .keyword hlongest
    | name =>
      rw [← hkind, hk]
      exact .name hlongest (kindOfWord_eq_name_iff.mp hk)
    | _ =>
      unfold kindOfWord at hk
      split at hk <;> cases hk
  split at h
  · next hc =>
    obtain ⟨run, rest, rfl, hrun, hrest⟩ := exists_run Text.isDigit cs
    rw [(takeWhile_run hrun hrest).1, (takeWhile_run hrun hrest).2] at h
    obtain ⟨_, hcheck, h⟩ := bind_eq_ok.mp h
    cases h
    rw [List.take_left, List.drop_left]
    obtain ⟨hname, hlength, value, hvalue, hmax⟩ := checkNumeral_eq_ok_iff.mp hcheck
    exact .numeral ((longest_isDigits_iff (isDigits_iff.mpr ⟨c, run, rfl, hc, hrun⟩)).mpr hrest)
      hname hlength hvalue hmax
  split at h
  · next hquote =>
    split at h
    · next n' hclose =>
      cases h
      obtain ⟨body, rest, hbody, rfl, rfl⟩ := closeString_eq_ok_iff.mp hclose
      rw [hquote, List.take_length_add_append, List.drop_length_add_append]
      exact .string (longest_isQuoted ⟨body, hbody, rfl⟩ _)
    · cases h
  · split at h
    · next m hm =>
      cases h
      obtain ⟨⟨rest, hrest⟩, hlongest⟩ := Mark.longest_of_first? hm
      cases hspelling : m.spelling with
      | nil => exact absurd hspelling m.spelling_ne_nil
      | cons d ds =>
        rw [hspelling] at hrest
        obtain ⟨rfl, rfl⟩ := List.cons.inj hrest
        have hlexeme : Lexeme (.mark m) m.spelling rest := by
          refine .mark ⟨⟨m, rfl⟩, ?_⟩ ?_
          · rintro _ ⟨n, rfl⟩ hn
            rw [hspelling] at hn
            exact hlongest n hn
          · rintro rfl hslash
            cases hspelling
            have hcomment : opensComment '/' rest = true := by
              rw [opensComment, hslash]
              rfl
            exact absurd (hcomment.symm.trans hopens) (by decide)
        rw [hspelling] at hlexeme
        simpa using hlexeme
    · cases h

/-- A lexeme begins no gap, and is measured as such. -/
theorem Lexeme.measured (h : Lexeme kind lexeme rest) (p : Position) :
    ∃ c cs, lexeme = c :: cs ∧ isBlank c = false ∧ opensComment c (cs ++ rest) = false ∧
      measure c (cs ++ rest) p = .ok (kind, cs.length) := by
  have hword : ∀ {c cs}, Longest IsWord (c :: cs) rest →
      isBlank c = false ∧ opensComment c (cs ++ rest) = false ∧
        measure c (cs ++ rest) p = .ok (kindOfWord (c :: cs), cs.length) := by
    intro c cs hlongest
    obtain ⟨_, _, ⟨⟩, hc, hcs⟩ := hlongest.is
    have hrest := (longest_isWord_iff hlongest.is).mp hlongest
    have hne : ∀ d, beginsName d = false → c ≠ d := fun d => ne_of_test hc
    refine ⟨?_, ?_, ?_⟩
    · simp [isBlank, hne ' ' (by decide), hne '\t' (by decide), hne '\r' (by decide),
        hne '\n' (by decide)]
    · simp [opensComment, hne '#' (by decide), hne '/' (by decide)]
    · rw [measure, if_pos hc, (takeWhile_run hcs hrest).1]
  cases h with
  | @keyword k _ hlongest =>
    obtain ⟨c, cs, hlexeme, -, -⟩ := hlongest.is
    rw [hlexeme] at hlongest
    obtain ⟨hblank, hopens, hmeasure⟩ := hword hlongest
    rw [kindOfWord_eq_keyword_iff.mpr hlexeme.symm] at hmeasure
    exact ⟨c, cs, hlexeme, hblank, hopens, hmeasure⟩
  | name hlongest hnot =>
    obtain ⟨c, cs, rfl, -, -⟩ := hlongest.is
    obtain ⟨hblank, hopens, hmeasure⟩ := hword hlongest
    rw [kindOfWord_eq_name_iff.mpr hnot] at hmeasure
    exact ⟨c, cs, rfl, hblank, hopens, hmeasure⟩
  | numeral hlongest hname hlength hvalue hmax =>
    obtain ⟨c, cs, rfl, hc, hcs⟩ := isDigits_iff.mp hlongest.is
    have hrest := (longest_isDigits_iff hlongest.is).mp hlongest
    obtain ⟨hblank, hopens⟩ := endsGap_of_isDigit hc (cs ++ rest) c (cs ++ rest) rfl
    refine ⟨c, cs, rfl, hblank, hopens, ?_⟩
    have hcheck : checkNumeral (c :: cs) rest p (p.after (c :: cs)) = .ok () :=
      checkNumeral_eq_ok_iff.mpr ⟨hname, hlength, _, hvalue, hmax⟩
    rw [measure, beginsName_of_isDigit hc, if_neg Bool.false_ne_true, if_pos hc]
    dsimp only
    rw [(takeWhile_run hcs hrest).1, (takeWhile_run hcs hrest).2, hcheck]
    rfl
  | string hlongest =>
    obtain ⟨body, hbody, rfl⟩ := hlongest.is
    refine ⟨'"', body ++ ['"'], rfl, by decide, rfl, ?_⟩
    have hclose : closeString p (body ++ ['"'] ++ rest) (p.advance '"') = .ok (body.length + 1) :=
      closeString_eq_ok_iff.mpr ⟨body, rest, hbody, by simp, rfl⟩
    rw [measure, if_neg (by decide), if_neg (by decide), if_pos rfl, hclose, List.length_append]
    rfl
  | @mark m _ hlongest hdivide =>
    have hfirst : Mark.first? (m.spelling ++ rest) = some m :=
      Mark.first?_of_longest (List.prefix_append _ _) fun n hn => hlongest.longest _ ⟨n, rfl⟩ hn
    have hhead : ∀ c cs, m.spelling = c :: cs → isBlank c = false ∧ c ≠ '#' ∧
        (c = '/' → m = .divide ∧ cs = []) ∧ beginsName c = false ∧ Text.isDigit c = false ∧
        c ≠ '"' := by
      intro c cs hspelling
      cases m <;> cases hspelling <;> decide
    cases hspelling : m.spelling with
    | nil => exact absurd hspelling m.spelling_ne_nil
    | cons c cs =>
      obtain ⟨hblank, hsharp, hslash, hname, hdigit, hquote⟩ := hhead c cs hspelling
      refine ⟨c, cs, rfl, hblank, ?_, ?_⟩
      · by_cases hc : c = '/'
        · obtain ⟨hm, rfl⟩ := hslash hc
          simpa [opensComment, hsharp, hc] using hdivide hm
        · simp [opensComment, hsharp, hc]
      · rw [hspelling] at hfirst
        rw [measure, hname, if_neg Bool.false_ne_true, hdigit, if_neg Bool.false_ne_true,
          if_neg hquote]
        rw [← List.cons_append, hfirst]
        dsimp only
        rw [hspelling]
        rfl

/-! ## The tokens of a text -/

theorem measure_nul (cs : List Char) (p : Position) :
    measure nul cs p = .error (.refused ⟨.unexpected nul, p⟩) := rfl

theorem lexeme_mk (h : Lexeme kind lexeme rest) (p : Position) :
    (⟨kind, textOf kind lexeme, p.line, p.column⟩ : Token).lexeme = lexeme := by
  unfold Token.lexeme textOf
  split
  · next hstring =>
    cases hstring
    cases h with
    | string hlongest =>
      obtain ⟨body, -, rfl⟩ := hlongest.is
      rw [String.toList_ofList, List.cons_append, List.cons_append, List.tail_cons,
        List.dropLast_concat]
  · rw [String.toList_ofList]

variable {before : List Char} {ts tokens : List Token}

theorem Lexed.token (hgap : Gap gap (lexeme ++ rest)) (hlexeme : Lexeme kind lexeme rest)
    (hp : p = .following (before ++ gap)) {rest' : List Char}
    (h : Lexed (before ++ gap ++ lexeme) rest ts rest') :
    Lexed before (gap ++ lexeme ++ rest) (⟨kind, textOf kind lexeme, p.line, p.column⟩ :: ts)
      rest' := by
  let t : Token := ⟨kind, textOf kind lexeme, p.line, p.column⟩
  have ht : t.lexeme = lexeme := lexeme_mk hlexeme p
  have hcons : Lexed before (gap ++ t.lexeme ++ rest) (t :: ts) rest' :=
    .cons (by rw [ht]; exact hgap) hp (by rw [ht]; exact hlexeme) (by rw [ht]; exact h)
  rwa [ht] at hcons

theorem textOf_lexeme (t : Token) : textOf t.kind t.lexeme = t.text := by
  unfold Token.lexeme textOf
  split
  · rw [List.cons_append, List.tail_cons, List.dropLast_concat, String.ofList_toList]
  · rw [String.ofList_toList]

theorem scanFrom_of_nil (h : skipGap false cs p = ([], q)) :
    scanFrom cs p = .ok [⟨.eof, "", q.line, q.column⟩] := by
  unfold scanFrom
  split
  · next heq =>
    cases h.symm.trans heq
    rfl
  · next heq => cases h.symm.trans heq

theorem scanFrom_of_cons (h : skipGap false cs p = (c :: rest, q))
    (hmeasure : measure c rest q = .ok (kind, n)) :
    scanFrom cs p = (⟨kind, textOf kind (c :: rest.take n), q.line, q.column⟩ :: ·) <$>
      scanFrom (rest.drop n) (q.after (c :: rest.take n)) := by
  rw [scanFrom]
  split
  · next heq => cases h.symm.trans heq
  · next heq =>
    cases h.symm.trans heq
    rw [hmeasure]
    rfl

theorem scanFrom_of_error {e : ScanError} (h : skipGap false cs p = (c :: rest, q))
    (hmeasure : measure c rest q = .error e) : scanFrom cs p = .error e := by
  rw [scanFrom]
  split
  · next heq => cases h.symm.trans heq
  · next heq =>
    cases h.symm.trans heq
    rw [hmeasure]
    rfl

theorem scanFrom_of_gap (h : Gap cs []) (before : List Char) :
    scanFrom cs (.following before) = .ok [ending (before ++ cs)] := by
  have hends : EndsGap [] := by
    rintro _ _ ⟨⟩
  have hskip := h.skip hends (.following before)
  rw [List.append_nil, ← Position.following_append] at hskip
  exact scanFrom_of_nil hskip

/-- No token can be measured after the gap that the text begins with. -/
structure Refused (before cs : List Char) (e : ScanError) (gap : List Char) (c : Char)
    (rest : List Char) : Prop where
  text : cs = gap ++ c :: rest
  separated : c ≠ nul → Gap gap (c :: rest)
  skip : skipGap false cs (.following before) = (c :: rest, .following (before ++ gap))
  measure : measure c rest (.following (before ++ gap)) = .error e

/-- Every text begins with lexemes and gaps between them, up to its end or to a place where no token
can be measured. -/
theorem exists_lexed (before cs : List Char) :
    ∃ ts read rest, cs = read ++ rest ∧ Lexed before cs ts rest ∧
      (Gap rest [] ∨ ∃ e gap c rest', Refused (before ++ read) rest e gap c rest') := by
  generalize hp : Position.following before = p
  fun_induction scanFrom cs p generalizing before with
  | case1 cs p q hq =>
    obtain ⟨gap, rfl, rfl, hgap⟩ := gap_skipGap hq
    rw [List.append_nil] at *
    exact ⟨[], [], gap, rfl, .nil, .inl (hgap (by rintro ⟨⟩))⟩
  | case2 cs p c rest q hq ih =>
    obtain ⟨gap, rfl, rfl, hgap⟩ := gap_skipGap hq
    have hposition : Position.following (before ++ gap) = p.after gap := by
      rw [Position.following_append, hp]
    have hgap : c ≠ nul → Gap gap (c :: rest) := fun hc => hgap fun h => hc (Option.some.inj h)
    cases hmeasure : measure c rest (p.after gap) with
    | error e =>
      refine ⟨[], [], gap ++ c :: rest, rfl, .nil, .inr ⟨e, gap, c, rest, rfl, hgap, ?_, ?_⟩⟩
      · rw [List.append_nil, hp, hposition]
        exact hq
      · rw [List.append_nil, hposition]
        exact hmeasure
    | ok r =>
      obtain ⟨kind, n⟩ := r
      have hnul : c ≠ nul := by
        rintro rfl
        rw [measure_nul] at hmeasure
        cases hmeasure
      have hopens := (endsGap_skipGap hq (fun h => hnul (Option.some.inj h)) c rest rfl).2
      have hnext : Position.following (before ++ gap ++ c :: rest.take n)
          = (p.after gap).after (c :: rest.take n) := by
        rw [Position.following_append, hposition]
      obtain ⟨ts, read, rest', hread, hlexed, hlast⟩ := ih n _ hnext
      have hrest : c :: rest.take n ++ rest.drop n = c :: rest := by
        rw [List.cons_append, List.take_append_drop]
      have hgap := hgap hnul
      rw [← hrest] at hgap ⊢
      rw [← List.append_assoc]
      refine ⟨_, gap ++ c :: rest.take n ++ read, rest', ?_,
        .token hgap (lexeme_of_measure hmeasure hopens) rfl hlexed, ?_⟩
      · rw [List.append_assoc (gap ++ _), ← hread]
      · rw [← List.append_assoc, ← List.append_assoc]
        exact hlast

/-- Lexemes with gaps between them are read, and then what comes after them. -/
theorem scanFrom_of_lexed (h : Lexed before cs ts rest) :
    ∃ read, cs = read ++ rest ∧ scanFrom cs (.following before) =
      (ts ++ ·) <$> scanFrom rest (.following (before ++ read)) := by
  induction h with
  | @nil before rest =>
    refine ⟨[], rfl, ?_⟩
    rw [List.append_nil]
    exact (id_map _).symm
  | @cons before gap rest rest' t ts hgap hposition hlexeme _ ih =>
    obtain ⟨read, rfl, hscan⟩ := ih
    obtain ⟨c, cs, hcs, hblank, hopens, hmeasure⟩ := hlexeme.measured t.position
    have hends : EndsGap (t.lexeme ++ (read ++ rest')) := by
      rw [hcs]
      rintro _ _ ⟨⟩
      exact ⟨hblank, hopens⟩
    have hskip : skipGap false (gap ++ (t.lexeme ++ (read ++ rest'))) (.following before)
        = (c :: (cs ++ (read ++ rest')), t.position) := by
      rw [hgap.skip hends, hposition, ← Position.following_append, hcs]
      rfl
    have hnext : t.position.after t.lexeme = .following (before ++ gap ++ t.lexeme) := by
      rw [hposition, ← Position.following_append]
    refine ⟨gap ++ t.lexeme ++ read, by simp only [List.append_assoc], ?_⟩
    rw [List.append_assoc gap, scanFrom_of_cons hskip hmeasure, List.take_left, List.drop_left,
      ← hcs,
      textOf_lexeme, hnext, hscan, ← List.append_assoc before, ← List.append_assoc before]
    cases scanFrom rest' _ <;> rfl

/-- Lexemes with gaps between them up to the end of a text are its tokens. -/
theorem scan_of_lexed {source : String} (h : Lexed [] source.toList ts gap) (hgap : Gap gap []) :
    scan source = .ok (ts ++ [ending source.toList]) := by
  obtain ⟨read, hsource, hscan⟩ := scanFrom_of_lexed h
  rw [List.nil_append] at hscan
  rw [scan, show Position.start = .following [] from rfl, hscan, scanFrom_of_gap hgap, ← hsource]
  rfl

/-- Lexemes up to a place where no token can be measured are all that is read. -/
theorem scan_of_refused {source : String} {read : List Char} {e : ScanError}
    (hread : source.toList = read ++ cs) (h : Lexed [] source.toList ts cs)
    (hrefused : Refused read cs e gap c rest) : scan source = .error e := by
  obtain ⟨read', hsource, hscan⟩ := scanFrom_of_lexed h
  rw [List.append_cancel_right (hread.symm.trans hsource)] at hrefused
  rw [List.nil_append, scanFrom_of_error hrefused.skip hrefused.measure] at hscan
  exact hscan

theorem Lexed.lexeme_of_mem (h : Lexed before cs ts rest) :
    ∀ t ∈ ts, ∃ rest, Lexeme t.kind t.lexeme rest := by
  induction h with
  | nil => exact List.forall_mem_nil _
  | cons _ _ hlexeme _ ih => exact List.forall_mem_cons.mpr ⟨⟨_, hlexeme⟩, ih⟩

/-- The tokens of a text are its lexemes with gaps between them up to its end. -/
theorem lexed_of_scan {source : String} (h : scan source = .ok tokens) :
    ∃ ts gap, Lexed [] source.toList ts gap ∧ Gap gap [] ∧
      tokens = ts ++ [ending source.toList] := by
  obtain ⟨ts, read, rest, hread, hlexed, hgap | ⟨e, gap, c, rest', hrefused⟩⟩ :=
    exists_lexed [] source.toList
  · rw [scan_of_lexed hlexed hgap] at h
    exact ⟨ts, rest, hlexed, hgap, (Except.ok.inj h).symm⟩
  · rw [scan_of_refused hread hlexed hrefused] at h
    cases h

/-- A text has the tokens that the scanner returns exactly if it is their lexemes with gaps between
them, each token is at its place, and the end of the text comes last. -/
theorem scan_eq_ok_iff (source : String) (tokens : List Token) :
    scan source = .ok tokens ↔
      ∃ ts gap, Lexed [] source.toList ts gap ∧ Gap gap [] ∧
        tokens = ts ++ [ending source.toList] := by
  constructor
  · exact lexed_of_scan
  · rintro ⟨ts, gap, hlexed, hgap, rfl⟩
    exact scan_of_lexed hlexed hgap

end Token

end CMinusMinus
