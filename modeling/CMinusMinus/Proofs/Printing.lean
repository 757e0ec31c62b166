import CMinusMinus.Proofs.Derivation
import CMinusMinus.Proofs.Lexing.Scanning
import CMinusMinus.Syntax.Annotation
import CMinusMinus.Syntax.Source

/-!
# Printed text

Which trees can be printed and read again, and how a printed text is cut into tokens.

A piece of text `Prints` a property of tokens before what follows it: whatever was read before, the
scanner takes from it tokens that have the property.  Blanks at the end of a piece are left to the
next one, so that pieces can be put one after another (`Token.Prints.bind`); what a token needs of
the character after it is asked where the token is printed.
-/

namespace CMinusMinus

open Token (Lexed Lexeme Longest Gap StringBody IsWord IsDigits IsMark)

/-! ## Trees that can be printed -/

/-- The literal, if it is one, can be written: as a numeral, or between quotes. -/
def Exp.Writable : Exp → Prop
  | .int _ v => 0 ≤ v ∧ v ≤ Token.intMax
  | .string _ s => StringBody s.toList
  | _ => True

/-- The program is one that a text can be read as: it has the shape of such programs, and every
literal can be written. -/
structure Program.Grammatical (p : Program) : Prop where
  formed : p.Formed
  literals : ∀ e ∈ p.expressions, e.Writable

namespace Token

variable {before cs ds gap lexeme rest rest' : List Char} {ts us : List Token}

/-! ## Lexemes one after another -/

theorem Lexed.suffix (h : Lexed before cs ts rest) : ∃ read, cs = read ++ rest := by
  induction h with
  | nil => exact ⟨[], rfl⟩
  | @cons before gap _ _ t _ _ _ _ _ ih =>
    obtain ⟨read, rfl⟩ := ih
    exact ⟨gap ++ t.lexeme ++ read, by simp only [List.append_assoc]⟩

theorem Lexed.append {read : List Char} (h : Lexed before (read ++ rest) ts rest)
    (h' : Lexed (before ++ read) rest us rest') : Lexed before (read ++ rest) (ts ++ us) rest' := by
  generalize hcs : read ++ rest = cs at h
  induction h generalizing read with
  | nil =>
    obtain rfl := List.append_left_eq_self.mp hcs
    rwa [List.append_nil] at h'
  | @cons before gap tail rest t ts hgap hposition hlexeme hlexed ih =>
    obtain ⟨read', rfl⟩ := hlexed.suffix
    rw [← List.append_assoc] at hcs
    obtain rfl := List.append_cancel_right hcs
    refine .cons hgap hposition hlexeme (ih ?_ rfl)
    simpa only [List.append_assoc] using h'

/-! ## Pieces of text -/

/-- Blanks and nothing else. -/
def Blank (cs : List Char) : Prop := ∀ c ∈ cs, c ∈ [' ', '\t', '\r', '\n']

theorem Blank.append (hcs : Blank cs) (hds : Blank ds) : Blank (cs ++ ds) :=
  List.forall_mem_append.mpr ⟨hcs, hds⟩

theorem Blank.isGap (h : Blank gap) (rest : List Char) : Gap gap rest := by
  induction gap with
  | nil => exact .nil
  | cons c gap ih =>
    obtain ⟨hc, hgap⟩ := List.forall_mem_cons.mp h
    exact .blank hc (ih hgap)

/-- The piece of text, before `rest` and after any blanks, is cut into tokens with the property and
blanks. -/
def Prints (cs rest : List Char) (P : List Token → Prop) : Prop :=
  ∀ before gap, Blank gap →
    ∃ ts gap', Blank gap' ∧ Lexed before (gap ++ cs ++ rest) ts (gap' ++ rest) ∧ P ts

namespace Prints

variable {P Q : List Token → Prop} {c : Char} {kind : TokenKind}

theorem nil (h : P []) : Prints [] rest P := by
  intro before gap hgap
  refine ⟨[], gap, hgap, ?_, h⟩
  rw [List.append_nil]
  exact .nil

theorem mono (h : Prints cs rest P) (hP : ∀ ts, P ts → Q ts) : Prints cs rest Q := by
  intro before gap hgap
  obtain ⟨ts, gap', hgap', hlexed, hts⟩ := h before gap hgap
  exact ⟨ts, gap', hgap', hlexed, hP ts hts⟩

theorem bind (h : Prints cs (ds ++ rest) P)
    (hnext : ∀ us, P us → Prints ds rest fun vs => Q (us ++ vs)) : Prints (cs ++ ds) rest Q := by
  intro before gap hgap
  obtain ⟨us, gap', hgap', hlexed, hus⟩ := h before gap hgap
  obtain ⟨read, hread⟩ := hlexed.suffix
  obtain ⟨vs, gap'', hgap'', hlexed', hvs⟩ := hnext us hus (before ++ read) gap' hgap'
  refine ⟨us ++ vs, gap'', hgap'', ?_, hvs⟩
  rw [← List.append_assoc, List.append_assoc, hread]
  rw [hread] at hlexed
  refine hlexed.append ?_
  rwa [← List.append_assoc]

theorem blank (hcs : Blank cs) (h : Prints ds rest P) : Prints (cs ++ ds) rest P := by
  intro before gap hgap
  rw [← List.append_assoc]
  exact h before (gap ++ cs) (hgap.append hcs)

theorem space (h : Prints ds rest P) : Prints (' ' :: ds) rest P :=
  blank (List.forall_mem_singleton.mpr (by decide)) h

theorem newline (h : Prints ds rest P) : Prints ('\n' :: ds) rest P :=
  blank (List.forall_mem_singleton.mpr (by decide)) h

theorem token (h : Lexeme kind lexeme (ds ++ rest))
    (hnext : ∀ t : Token, t.kind = kind → t.lexeme = lexeme →
      Prints ds rest fun ts => P (t :: ts)) :
    Prints (lexeme ++ ds) rest P := by
  intro before gap hgap
  have ht := lexeme_mk h (.following (before ++ gap))
  obtain ⟨ts, gap', hgap', hlexed, hts⟩ :=
    hnext _ rfl ht (before ++ gap ++ lexeme) [] (List.forall_mem_nil _)
  refine ⟨_, gap', hgap', ?_, hts⟩
  rw [← List.append_assoc, List.append_assoc]
  exact .token (hgap.isGap _) h rfl hlexed

end Prints

/-! ## Marks -/

/-- The mark would go on with the character, or be the beginning of a comment. -/
def grows (m : Mark) (c : Char) : Bool :=
  Mark.all.any (·.spelling == m.spelling ++ [c]) || (m == .divide && c == '/')

/-- Whether the mark goes on with no character. -/
def solid (m : Mark) : Bool := m ∉ [.plus, .minus, .divide, .not, .less, .greater, .assign]

theorem grows_of_solid {m : Mark} (h : solid m = true) (c : Char) : grows m c = false := by
  cases m <;> first | rfl | cases h

/-- A mark that does not go on with what follows is the longest at its place. -/
theorem lexeme_mark {m : Mark} (h : ∀ c, rest.head? = some c → grows m c = false) :
    Lexeme (.mark m) m.spelling rest := by
  have hgrows : ∀ c, rest.head? = some c →
      (∀ n : Mark, n.spelling ≠ m.spelling ++ [c]) ∧ ¬ (m = .divide ∧ c = '/') := by
    intro c hc
    have hnot := h c hc
    simp only [grows, Bool.or_eq_false_iff, List.any_eq_false, beq_iff_eq, Bool.and_eq_false_iff]
      at hnot
    refine ⟨fun n => hnot.1 n n.mem_all, ?_⟩
    rintro ⟨rfl, rfl⟩
    rcases hnot.2 with hnot | hnot <;> cases hnot
  have hlength : ∀ n : Mark, 1 ≤ n.spelling.length ∧ n.spelling.length ≤ 2 := by
    intro n
    cases n <;> decide
  refine .mark ⟨⟨m, rfl⟩, ?_⟩ fun hm hc => (hgrows _ hc).2 ⟨hm, rfl⟩
  rintro _ ⟨n, rfl⟩ ⟨tail, htail⟩
  refine Nat.le_of_not_lt fun hlonger => ?_
  -- a longer mark has one character more, the one that follows
  obtain ⟨mid, hmid, hrest⟩ : ∃ mid, n.spelling = m.spelling ++ mid ∧ rest = mid ++ tail := by
    rcases List.append_eq_append_iff.mp htail with ⟨mid, hmid, -⟩ | ⟨mid, hmid, hrest⟩
    · rw [hmid, List.length_append] at hlonger
      omega
    · exact ⟨mid, hmid, hrest⟩
  have hone : mid.length = 1 := by
    have hsum := congrArg List.length hmid
    rw [List.length_append] at hsum
    have hm := hlength m
    have hn := hlength n
    omega
  obtain ⟨c, rfl⟩ := List.length_eq_one_iff.mp hone
  exact (hgrows c (by rw [hrest]; rfl)).1 n hmid

/-! ## Words and numerals -/

/-- No word goes on. -/
def WordEnds (rest : List Char) : Prop := ∀ d, rest.head? = some d → continuesName d = false

theorem wordEnds_cons {c : Char} (h : continuesName c = false) (cs : List Char) :
    WordEnds (c :: cs) := by
  rintro _ ⟨⟩
  exact h

theorem lexeme_name {x : String} (hx : IsName x) (hrest : WordEnds rest) :
    Lexeme .name x.toList rest := by
  have hword : IsWord x.toList := hx.spelled
  refine .name ((longest_isWord_iff hword).mpr hrest) fun k hk => ?_
  have hkeyword := hx.notKeyword
  rw [String.toList_inj.mp hk, Keyword.ofText?_text] at hkeyword
  cases hkeyword

theorem isWord_keyword (k : Keyword) : IsWord k.text.toList := by
  have hall : ∀ c cs, k.text.toList = c :: cs →
      beginsName c = true ∧ cs.all continuesName = true := by
    intro c cs hk
    cases k <;> cases hk <;> exact ⟨rfl, rfl⟩
  cases hk : k.text.toList with
  | nil => cases k <;> cases hk
  | cons c cs =>
    obtain ⟨hc, hcs⟩ := hall c cs hk
    exact ⟨c, cs, rfl, hc, List.all_eq_true.mp hcs⟩

theorem lexeme_keyword (k : Keyword) (hrest : WordEnds rest) :
    Lexeme (.keyword k) k.text.toList rest :=
  .keyword ((longest_isWord_iff (isWord_keyword k)).mpr hrest)

theorem lexeme_string {s : String} (hs : StringBody s.toList) :
    Lexeme .string ('"' :: s.toList ++ ['"']) rest :=
  .string (longest_isQuoted ⟨s.toList, hs, rfl⟩ rest)

end Token

/-- A digit of base ten has its value in every text. -/
theorem Text.digitValue?_of_isDigit {c : Char} (h : c.isDigit = true) :
    digitValue? c = some (c.toNat - '0'.toNat) := by
  have hrange : 48 ≤ c.toNat ∧ c.toNat < 58 := by
    simp only [Char.isDigit, Bool.and_eq_true, decide_eq_true_eq, UInt32.le_iff_toNat_le,
      ge_iff_le] at h
    change 48 ≤ c.toNat ∧ c.toNat ≤ 57 at h
    omega
  have hfind : (zeros.find? fun z => decide (z ≤ c.toNat) && decide (c.toNat < z + 10))
      = some 0x30 := List.find?_cons_of_pos (by simpa using hrange)
  rw [digitValue?, hfind]
  rfl

theorem Text.decimal?_toDigits (n : Nat) : decimal? (Nat.toDigits 10 n) = some n := by
  have hfold : ∀ (cs : List Char) (m : Nat), (∀ c ∈ cs, c.isDigit = true) →
      cs.foldl (fun n c => n.bind fun n => (digitValue? c).map (10 * n + ·)) (some m)
        = some (Nat.ofDigitChars 10 cs m) := by
    intro cs
    induction cs with
    | nil => exact fun _ _ => rfl
    | cons c cs ih =>
      intro m hcs
      obtain ⟨hc, hcs⟩ := List.forall_mem_cons.mp hcs
      rw [List.foldl_cons, Option.bind_some, digitValue?_of_isDigit hc, Option.map_some, ih _ hcs]
      rfl
  rw [decimal?, hfold _ _ fun c hc => Nat.isDigit_of_mem_toDigits (by decide) (by decide) hc,
    Nat.ofDigitChars_ten_toDigits]

namespace Token

theorem isDigit_of_mem_toDigits {n : Nat} {c : Char} (hc : c ∈ Nat.toDigits 10 n) :
    Text.isDigit c = true := by
  have hdigit := Nat.isDigit_of_mem_toDigits (by decide) (by decide) hc
  have hrange : c.toNat < 128 := by
    simp only [Char.isDigit, Bool.and_eq_true, decide_eq_true_eq, UInt32.le_iff_toNat_le] at hdigit
    change _ ∧ c.toNat ≤ 57 at hdigit
    omega
  rw [Text.isDigit, if_pos hrange]
  exact hdigit

theorem continuesName_of_isDigit {c : Char} (h : Text.isDigit c = true) :
    continuesName c = true := by
  rw [continuesName, Text.isAlphanumeric, h]
  simp

theorem continuesName_of_beginsName {c : Char} (h : beginsName c = true) :
    continuesName c = true := by
  rw [beginsName, Bool.or_eq_true] at h
  rcases h with h | h
  · rw [continuesName, Text.isAlphanumeric, h]
    simp
  · rw [continuesName, h, Bool.or_true]

theorem WordEnds.of_test {rest : List Char} (h : WordEnds rest) {test : Char → Bool}
    (htest : ∀ {c}, test c = true → continuesName c = true) :
    ∀ c, rest.head? = some c → test c = false := by
  intro c hc
  cases hcontinues : test c with
  | false => rfl
  | true =>
    have hnot := h c hc
    rw [htest hcontinues] at hnot
    cases hnot

theorem lexeme_numeral {n : Nat} {rest : List Char} (hn : n ≤ intMax) (hrest : WordEnds rest) :
    Lexeme .numeral (Nat.toDigits 10 n) rest := by
  have hdigits : IsDigits (Nat.toDigits 10 n) :=
    ⟨Nat.toDigits_ne_nil, fun c hc => isDigit_of_mem_toDigits hc⟩
  have hlength : (Nat.toDigits 10 n).length ≤ 10 :=
    (Nat.length_toDigits_le_iff (by decide) (by decide)).mpr
      (Nat.lt_of_le_of_lt hn (by decide))
  exact .numeral ((longest_isDigits_iff hdigits).mpr (hrest.of_test continuesName_of_isDigit))
    (hrest.of_test continuesName_of_beginsName) (Nat.le_trans hlength (by decide))
    (Text.decimal?_toDigits n) hn

/-! ## Printing tokens -/

namespace Prints

variable {c d : Char} {ds rest : List Char} {P : List Token → Prop}

/-- A mark stands before a character that it does not go on with. -/
theorem markBefore {m : Mark} {cs : List Char} (hm : cs = m.spelling) (hd : ds.head? = some d)
    (hgrows : grows m d = false)
    (h : ∀ t : Token, t.kind = .mark m → Prints ds rest fun ts => P (t :: ts)) :
    Prints (cs ++ ds) rest P := by
  rw [hm]
  refine token (lexeme_mark fun d' hd' => ?_) fun t ht _ => h t ht
  rw [List.head?_append, hd, Option.some_or] at hd'
  cases hd'
  exact hgrows

theorem mark {m : Mark} (hm : [c] = m.spelling) (hsolid : solid m = true)
    (h : ∀ t : Token, t.kind = .mark m → Prints ds rest fun ts => P (t :: ts)) :
    Prints (c :: ds) rest P := by
  rw [← List.singleton_append, hm]
  exact token (lexeme_mark fun c' _ => grows_of_solid hsolid c') fun t ht _ => h t ht

theorem markPair {m : Mark} (hm : [c, d] = m.spelling) (hsolid : solid m = true)
    (h : ∀ t : Token, t.kind = .mark m → Prints ds rest fun ts => P (t :: ts)) :
    Prints (c :: d :: ds) rest P := by
  have hcs : c :: d :: ds = [c, d] ++ ds := rfl
  rw [hcs, hm]
  exact token (lexeme_mark fun c' _ => grows_of_solid hsolid c') fun t ht _ => h t ht

theorem keyword (k : Keyword) (hrest : WordEnds (ds ++ rest))
    (h : ∀ t : Token, t.kind = .keyword k → Prints ds rest fun ts => P (t :: ts)) :
    Prints (k.text.toList ++ ds) rest P :=
  token (lexeme_keyword k hrest) fun t ht _ => h t ht

/-- Keywords and names are their own lexemes. -/
theorem text_of_lexeme {t : Token} {s : String} (ht : t.kind ≠ .string) (h : t.lexeme = s.toList) :
    t.text = s := by
  rw [Token.lexeme, if_neg ht] at h
  exact String.toList_inj.mp h

theorem name {x : String} (hx : IsName x) (hrest : WordEnds (ds ++ rest))
    (h : ∀ t : Token, t.kind = .name → t.text = x → Prints ds rest fun ts => P (t :: ts)) :
    Prints (x.toList ++ ds) rest P := by
  refine token (lexeme_name hx hrest) fun t ht htext => h t ht (text_of_lexeme ?_ htext)
  rw [ht]
  decide

end Prints

end Token

end CMinusMinus
