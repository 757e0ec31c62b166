import CMinusMinus.Proofs.Lexing.Escapes
import CMinusMinus.Proofs.Lexing.Stopping
import CMinusMinus.Proofs.Places.Pieces

/-!
# Places on the lines of a text

A text is cut into lines at its line ends.  Wherever reading comes to, its position is on a line of
the text or just behind it (`Position.Reaches.inText`), and a word that is read there stands on that
line (`Token.Stands.spells`).  The scanner refuses a text only at such a position
(`Token.reaches_of_scan`), and its tokens are such words (`Token.stands_of_scan`).
-/

namespace CMinusMinus

/-! ## Lines -/

/-- The lines of a text, cut at its line ends and counted from zero. -/
def Text.rows (cs : List Char) : List (List Char) := cs.splitOn '\n'

/-- The place is at a character of one of the lines, or just behind the last one. -/
def Position.InText (source : String) (p : Position) : Prop :=
  ∃ i line, (Text.rows source.toList)[i]? = some line ∧ p.line = i + 1 ∧
    1 ≤ p.column ∧ p.column ≤ line.length + 1

/-- The place is known, and it is in the text. -/
def Locus.InText (source : String) (l : Locus) : Prop :=
  ∃ p : Position, p.InText source ∧ l.line = some (p.line : Int) ∧ l.column = some (p.column : Int)

/-- From its first column to its last the place holds the word, on one line of the text. -/
def Locus.Spells (source : String) (l : Locus) (word : List Char) : Prop :=
  ∃ i pre post, (Text.rows source.toList)[i]? = some (pre ++ word ++ post) ∧
    l = .ofSpan ⟨i + 1, pre.length + 1, i + 1, pre.length + word.length + 1⟩

namespace Text

variable {before rest opening : List Char}

theorem exists_rows (cs : List Char) : ∃ ls, rows cs = cs.takeWhile (· != '\n') :: ls := by
  induction cs with
  | nil => exact ⟨[], List.splitOn_nil _⟩
  | cons c cs ih =>
    obtain ⟨ls, hls⟩ := ih
    by_cases hc : c = '\n'
    · subst hc
      exact ⟨_, List.splitOn_append_cons_self [] cs⟩
    · refine ⟨ls, ?_⟩
      rw [rows, List.splitOn] at hls
      rw [rows, List.splitOn, List.splitOnP_cons_eq_if_modifyHead, if_neg (by simpa using hc), hls,
        List.takeWhile_cons_of_pos (by simpa using hc)]
      rfl

theorem forall_ne_of_not_mem (h : '\n' ∉ opening) : ∀ c ∈ opening, (c != '\n') = true :=
  fun _ hc => bne_iff_ne.mpr fun heq => h (heq ▸ hc)

/-- Where reading comes to after the beginning of a line and more. -/
theorem rows_after (h : '\n' ∉ opening) (n : Nat) :
    ∃ i pre, (rows (opening ++ before ++ rest))[i]? = some (pre ++ rest.takeWhile (· != '\n')) ∧
      Position.after ⟨n, opening.length + 1⟩ before = ⟨n + i, pre.length + 1⟩ := by
  induction before generalizing opening n with
  | nil =>
    obtain ⟨ls, hls⟩ := exists_rows (opening ++ rest)
    refine ⟨0, opening, ?_, rfl⟩
    rw [List.append_nil, hls, List.getElem?_cons_zero,
      List.takeWhile_append_of_pos (forall_ne_of_not_mem h)]
  | cons c before ih =>
    by_cases hc : c = '\n'
    · obtain ⟨i, pre, hrow, hposition⟩ := ih List.not_mem_nil (n + 1)
      refine ⟨i + 1, pre, ?_, ?_⟩
      · rw [rows, List.append_assoc, hc, List.cons_append, List.splitOn_append_cons_self,
          List.splitOn_eq_singleton h]
        exact hrow
      · rw [Position.after_cons, Position.advance, if_pos hc, Nat.add_left_comm, Nat.add_comm i]
        exact hposition
    · have hopening : '\n' ∉ opening ++ [c] := by simp [h, Ne.symm hc]
      obtain ⟨i, pre, hrow, hposition⟩ := ih hopening n
      refine ⟨i, pre, ?_, ?_⟩
      · rw [← hrow, List.append_cons]
      · rw [Position.after_cons, Position.advance, if_neg hc]
        rw [List.length_append] at hposition
        exact hposition

/-- Where reading comes to, and the line it comes to. -/
theorem rows_following (before rest : List Char) :
    ∃ i pre, (rows (before ++ rest))[i]? = some (pre ++ rest.takeWhile (· != '\n')) ∧
      Position.following before = ⟨i + 1, pre.length + 1⟩ := by
  have hopening : '\n' ∉ ([] : List Char) := List.not_mem_nil
  obtain ⟨i, pre, hrow, hposition⟩ := @rows_after before rest [] hopening 1
  refine ⟨i, pre, hrow, ?_⟩
  rw [← List.nil_append before, Position.following_append, Nat.add_comm i]
  exact hposition

end Text

/-! ## Positions that reading comes to -/

/-- Reading the text from one position comes to the other. -/
def Position.Reaches (p : Position) (cs : List Char) (q : Position) : Prop :=
  ∃ read, read <+: cs ∧ q = p.after read

namespace Position

variable {cs : List Char} {p q : Position} {source : String}

namespace Reaches

theorem refl (p : Position) (cs : List Char) : p.Reaches cs p := ⟨[], List.nil_prefix, rfl⟩

theorem append {ds : List Char} (h : (p.after ds).Reaches cs q) : p.Reaches (ds ++ cs) q := by
  obtain ⟨read, hread, rfl⟩ := h
  exact ⟨ds ++ read, (List.prefix_append_right_inj ds).mpr hread, (after_append _ _ _).symm⟩

theorem cons {c : Char} (h : (p.advance c).Reaches cs q) : p.Reaches (c :: cs) q :=
  show p.Reaches ([c] ++ cs) q from append h

end Reaches

theorem reaches_after (p : Position) (read rest : List Char) :
    p.Reaches (read ++ rest) (p.after read) := ⟨read, List.prefix_append _ _, rfl⟩

theorem following_eq_after (before : List Char) : following before = start.after before := by
  have happend := following_append [] before
  rwa [List.nil_append] at happend

theorem Reaches.inText (h : start.Reaches source.toList p) : p.InText source := by
  obtain ⟨before, ⟨rest, hsource⟩, rfl⟩ := h
  obtain ⟨i, pre, hrow, hposition⟩ := Text.rows_following before rest
  rw [hsource] at hrow
  rw [← following_eq_after, hposition]
  refine ⟨i, _, hrow, rfl, Nat.le_add_left _ _, ?_⟩
  rw [List.length_append]
  exact Nat.succ_le_succ (Nat.le_add_right _ _)

theorem InText.locus (h : p.InText source) : (Locus.ofPosition p).InText source :=
  ⟨p, h, rfl, rfl⟩

theorem InText.locus_span {s : Span} (h : s.start.InText source) :
    (Locus.ofSpan? (some s)).InText source :=
  ⟨s.start, h, rfl, rfl⟩

end Position

/-! ## Refused texts -/

namespace Token

variable {c : Char} {cs : List Char} {p : Position}

theorem reaches_of_closeString {start : Position} {e : LexError}
    (h : closeString start cs p = .error e) :
    e.position = start ∨ p.Reaches cs e.position := by
  fun_induction closeString start cs p generalizing e with
  | case1 => cases h; exact .inl rfl
  | case2 p => cases h; exact .inr (Position.Reaches.refl _ _).cons
  | case3 c cs p hescapable ih =>
    cases hclose : closeString start cs ((p.advance '\\').advance c) with
    | ok => rw [hclose] at h; cases h
    | error =>
      rw [hclose] at h
      cases h
      exact (ih hclose).imp_right fun h => h.cons.cons
  | case4 => cases h; exact .inr (Position.Reaches.refl _ _).cons
  | case5 => cases h
  | case6 => cases h; exact .inl rfl
  | case7 c cs p =>
    rename_i ih
    cases hclose : closeString start cs (p.advance c) with
    | ok => rw [hclose] at h; cases h
    | error =>
      rw [hclose] at h
      cases h
      exact (ih hclose).imp_right fun h => h.cons

theorem reaches_of_checkNumeral {digits rest : List Char} {start next : Position} {e : LexError}
    (h : checkNumeral digits rest start next = .error (.refused e)) :
    e.position = start ∨ e.position = next := by
  unfold checkNumeral at h
  split at h
  · cases h; exact .inr rfl
  · split at h
    · cases h
    · split at h
      · cases h
      · cases h; exact .inl rfl

theorem reaches_of_measure {e : LexError} (h : measure c cs p = .error (.refused e)) :
    p.Reaches (c :: cs) e.position := by
  have hrefl := Position.Reaches.refl p (c :: cs)
  unfold measure at h
  split at h
  · cases h
  split at h
  · cases hcheck : checkNumeral (c :: cs.takeWhile Text.isDigit) (cs.dropWhile Text.isDigit) p
        (p.after (c :: cs.takeWhile Text.isDigit)) with
    | ok => simp only [hcheck] at h; cases h
    | error =>
      simp only [hcheck] at h
      cases h
      have hnext := p.reaches_after (c :: cs.takeWhile Text.isDigit) (cs.dropWhile Text.isDigit)
      rw [List.cons_append, List.takeWhile_append_dropWhile] at hnext
      rcases reaches_of_checkNumeral hcheck with heq | heq <;> rw [heq]
      · exact hrefl
      · exact hnext
  split at h
  · split at h
    · cases h
    · next hclose =>
      cases h
      rcases reaches_of_closeString hclose with heq | hreaches
      · rw [heq]
        exact hrefl
      · exact hreaches.cons
  · split at h
    · cases h
    · cases h
      exact hrefl

/-- The scanner refuses a text at a position that reading comes to. -/
theorem reaches_of_scan {source : String} {e : LexError}
    (h : scan source = .error (.refused e)) : Position.start.Reaches source.toList e.position := by
  obtain ⟨ts, read, cs, hread, hlexed, hgap | ⟨e', gap, c, rest, hrefused⟩⟩ :=
    exists_lexed [] source.toList
  · rw [scan_of_lexed hlexed hgap] at h
    cases h
  · rw [scan_of_refused hread hlexed hrefused] at h
    cases h
    have hreaches := reaches_of_measure hrefused.measure
    rw [List.nil_append, Position.following_eq_after] at hreaches
    rw [hread, hrefused.text, ← List.append_assoc]
    exact hreaches.append

/-! ## Tokens -/

/-- The token stands in the text, at the position of its lexeme. -/
def Stands (source : List Char) (t : Token) : Prop :=
  ∃ before rest, source = before ++ t.lexeme ++ rest ∧ t.position = .following before ∧
    '\n' ∉ t.lexeme

theorem Lexed.stands {before cs rest : List Char} {ts : List Token} (h : Lexed before cs ts rest) :
    ∀ t ∈ ts, t.Stands (before ++ cs) := by
  induction h with
  | nil => exact List.forall_mem_nil _
  | @cons before gap rest rest' t ts hgap hposition hlexeme _ ih =>
    simp only [List.append_assoc] at ih ⊢
    have hline := hlexeme.unbroken.no_lineEnd
    refine List.forall_mem_cons.mpr ⟨⟨before ++ gap, rest, ?_, hposition, hline⟩, ih⟩
    simp only [List.append_assoc]

theorem stands_ending (source : List Char) : (ending source).Stands source :=
  ⟨source, [], by rw [List.append_nil]; exact (List.append_nil _).symm, rfl, List.not_mem_nil⟩

/-- The tokens of a text stand in it. -/
theorem stands_of_scan {source : String} {tokens : List Token} (h : scan source = .ok tokens) :
    ∀ t ∈ tokens, t.Stands source.toList := by
  obtain ⟨ts, gap, hlexed, -, rfl⟩ := lexed_of_scan h
  intro t ht
  rcases List.mem_append.mp ht with ht | ht
  · exact hlexed.stands t ht
  · rw [List.mem_singleton.mp ht]
    exact stands_ending _

theorem length_lexeme (t : Token) :
    t.lexeme.length = if t.kind = .string then t.text.length + 2 else t.text.length := by
  unfold lexeme
  split
  · simp [String.length_toList]
  · exact String.length_toList

namespace Stands

variable {source : String} {t : Token}

theorem inText (h : t.Stands source.toList) : t.position.InText source := by
  obtain ⟨before, rest, hsource, hposition, -⟩ := h
  rw [hposition, Position.following_eq_after]
  refine Position.Reaches.inText ?_
  rw [hsource, List.append_assoc]
  exact Position.start.reaches_after before _

/-- The stretch of a token holds its lexeme. -/
theorem spells (h : t.Stands source.toList) :
    (Locus.ofSpan? (some t.extent)).Spells source t.lexeme := by
  obtain ⟨before, rest, hsource, hposition, hline⟩ := h
  obtain ⟨i, pre, hrow, hfollowing⟩ := Text.rows_following before (t.lexeme ++ rest)
  rw [List.takeWhile_append_of_pos (Text.forall_ne_of_not_mem hline), ← List.append_assoc,
    ← List.append_assoc, ← hsource] at hrow
  refine ⟨i, pre, _, hrow, ?_⟩
  rw [extent, ← length_lexeme, hposition, hfollowing, Span.of, Nat.add_right_comm]
  rfl

end Stands

end Token

end CMinusMinus
