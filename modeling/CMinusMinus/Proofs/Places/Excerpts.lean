import CMinusMinus.Command
import CMinusMinus.Proofs.Nesting.Reading
import CMinusMinus.Proofs.Places.Programs

/-!
# Excerpts

A diagnostic is shown with the line of the text it is about and a row of carets.  Where the line
feed is the only character of a text that ends a line, the line shown is the one that the scanner
counted, and the carets stand under the columns of the diagnostic's place and no others
(`Compilation.excerpts_of_analyze`).  A text may hold other line ends in its comments and string
literals; the scanner does not count these, and a line above or below is shown then.
-/

namespace CMinusMinus

open Outcome

/-! ## Lines and rows -/

namespace Text

theorem rows_cons (c : Char) (cs : List Char) :
    rows (c :: cs) = if c = '\n' then [] :: rows cs else (rows cs).modifyHead (c :: ·) := by
  rw [rows, List.splitOn, List.splitOnP_cons_eq_if_modifyHead]
  by_cases hc : c = '\n'
  · rw [if_pos (by simpa using hc), if_pos hc, rows, List.splitOn]
  · rw [if_neg (by simpa using hc), if_neg hc, rows, List.splitOn]

/-- Where only the line feed ends lines, the lines are the rows, but for an empty last one. -/
theorem rows_eq_lines {cs : List Char} (h : ∀ c ∈ cs, isLineEnd c = true → c = '\n') :
    rows cs = lines cs ∨ rows cs = lines cs ++ [[]] := by
  fun_induction lines cs with
  | case1 => exact .inr (List.splitOn_nil _)
  | case2 cs ih => exact absurd (h '\r' List.mem_cons_self (by decide)) (by decide)
  | case3 c cs _ hend ih =>
    obtain rfl := h c List.mem_cons_self hend
    rw [rows_cons, if_pos rfl]
    exact (ih (List.forall_mem_cons.mp h).2).imp (congrArg ([] :: ·)) (congrArg ([] :: ·))
  | case4 c cs _ hend hnil ih =>
    have hne : c ≠ '\n' := by
      rintro rfl
      exact hend (by decide)
    rw [hnil] at ih
    rw [rows_cons, if_neg hne]
    rcases ih (List.forall_mem_cons.mp h).2 with hrows | hrows
    · obtain ⟨ls, hls⟩ := exists_rows cs
      rw [hls] at hrows
      cases hrows
    · rw [hrows]
      exact .inl rfl
  | case5 c cs _ hend l ls hcons ih =>
    have hne : c ≠ '\n' := by
      rintro rfl
      exact hend (by decide)
    rw [hcons] at ih
    rw [rows_cons, if_neg hne]
    rcases ih (List.forall_mem_cons.mp h).2 with hrows | hrows
    · rw [hrows]
      exact .inl rfl
    · rw [hrows]
      exact .inr rfl

/-- A row is a line too, unless it is the last one and empty. -/
theorem getElem?_lines {cs : List Char} (h : ∀ c ∈ cs, isLineEnd c = true → c = '\n') {n : Nat}
    {row : List Char} (hrow : (rows cs)[n]? = some row) :
    (lines cs)[n]? = some row ∨
      (lines cs)[n]? = none ∧ n + 1 = (rows cs).length ∧ row = [] := by
  rcases rows_eq_lines h with hrows | hrows
  · rw [← hrows]
    exact .inl hrow
  · rw [hrows] at hrow ⊢
    rcases Nat.lt_or_ge n (lines cs).length with hlt | hge
    · rw [List.getElem?_append_left hlt] at hrow
      exact .inl hrow
    · obtain ⟨hlt, hget⟩ := List.getElem?_eq_some_iff.mp hrow
      rw [List.length_append, List.length_singleton] at hlt ⊢
      obtain rfl : n = (lines cs).length := by omega
      rw [List.getElem_append_right (Nat.le_refl _)] at hget
      simp only [Nat.sub_self, List.getElem_cons_zero] at hget
      exact .inr ⟨List.getElem?_eq_none (Nat.le_refl _), rfl, hget.symm⟩

end Text

/-! ## Places of diagnostics -/

/-- The place is no line at all, a position of the text, or a stretch that begins at one and runs
forward. -/
inductive Locus.Points (source : String) : Locus → Prop where
  | nowhere : Points source { line := some 0, column := some 0 }
  | position {p : Position} : p.InText source → Points source (.ofPosition p)
  | stretch {s : Span} :
    s.start.InText source → s.start.NotAfter s.stop → Points source (.ofSpan s)

mutual

/-- A return statement without a value is a node. -/
theorem Stmt.node_of_bareReturn : ∀ (s : Stmt), ∀ r ∈ s.bareReturns,
    ∃ k ∈ s.spans.nodes, k.span = r
  | .return r none, _, hr => by
    rw [List.mem_singleton.mp hr]
    exact ⟨_, List.mem_singleton_self _, rfl⟩
  | .ifThen _ _ b, r, hr | .while _ _ b, r, hr => by
    obtain ⟨k, hk, hspan⟩ := Stmt.node_of_blockBareReturn b r hr
    exact ⟨k, List.mem_cons_of_mem _ (List.mem_append_right _ hk), hspan⟩
  | .ifElse _ _ b₁ b₂, r, hr => by
    rw [Stmt.spans, SpanTree.nodes, SpanTree.listNodes]
    rcases List.mem_append.mp hr with hr | hr
    · obtain ⟨k, hk, hspan⟩ := Stmt.node_of_blockBareReturn b₁ r hr
      obtain ⟨l, hl, hk⟩ := SpanTree.mem_listNodes.mp hk
      have hmem := SpanTree.mem_listNodes.mpr ⟨l, List.mem_append_left (Stmt.blockSpans b₂) hl, hk⟩
      exact ⟨k, List.mem_cons_of_mem _ (List.mem_append_right _ hmem), hspan⟩
    · obtain ⟨k, hk, hspan⟩ := Stmt.node_of_blockBareReturn b₂ r hr
      obtain ⟨l, hl, hk⟩ := SpanTree.mem_listNodes.mp hk
      have hmem := SpanTree.mem_listNodes.mpr ⟨l, List.mem_append_right (Stmt.blockSpans b₁) hl, hk⟩
      exact ⟨k, List.mem_cons_of_mem _ (List.mem_append_right _ hmem), hspan⟩
  | .assign .., _, hr | .increment .., _, hr | .decrement .., _, hr | .read .., _, hr
  | .write .., _, hr | .call .., _, hr | .return _ (some _), _, hr | .unknown _, _, hr =>
    absurd hr List.not_mem_nil

theorem Stmt.node_of_blockBareReturn : ∀ (b : Block Stmt), ∀ r ∈ Stmt.blockBareReturns b,
    ∃ k ∈ SpanTree.listNodes (Stmt.blockSpans b), k.span = r
  | ⟨ds, span, ss⟩, r, hr => by
    obtain ⟨k, hk, hspan⟩ := Stmt.node_of_listBareReturn ss r hr
    refine ⟨k, SpanTree.mem_listNodes.mpr ⟨_, List.mem_cons_of_mem _ List.mem_cons_self, ?_⟩, hspan⟩
    exact List.mem_cons_of_mem _ hk

theorem Stmt.node_of_listBareReturn : ∀ (ss : List Stmt), ∀ r ∈ Stmt.listBareReturns ss,
    ∃ k ∈ SpanTree.listNodes (Stmt.listSpans ss), k.span = r
  | [], _, hr => absurd hr List.not_mem_nil
  | s :: ss, r, hr => by
    rcases List.mem_append.mp hr with hr | hr
    · obtain ⟨k, hk, hspan⟩ := Stmt.node_of_bareReturn s r hr
      exact ⟨k, List.mem_append_left _ hk, hspan⟩
    · obtain ⟨k, hk, hspan⟩ := Stmt.node_of_listBareReturn ss r hr
      exact ⟨k, List.mem_append_right _ hk, hspan⟩

end

/-- Where a return statement without a value stands in a program, a node of the program does. -/
theorem Program.node_of_bareReturn {p : Program} {d : Decl} (hd : d ∈ p.decls) {r : Option Span}
    (hr : r ∈ d.bareReturns) : ∃ k ∈ p.spans.nodes, k.span = r := by
  have hdecl : ∃ k ∈ d.spans.nodes, k.span = r := by
    cases d with
    | fn d =>
      obtain ⟨k, hk, hspan⟩ := Stmt.node_of_blockBareReturn d.body r hr
      have hbody : k ∈ SpanTree.listNodes
          [.node .plain d.bodySpan (Stmt.blockSpans d.body)] :=
        List.mem_cons_of_mem _ (List.mem_append_left _ hk)
      refine ⟨k, List.mem_cons_of_mem _ ?_, hspan⟩
      exact List.mem_append_right _ (List.mem_append_right _ (List.mem_append_right _ hbody))
    | _ => exact absurd hr List.not_mem_nil
  obtain ⟨k, hk, hspan⟩ := hdecl
  have hlist := SpanTree.mem_listNodes.mpr ⟨_, List.mem_map_of_mem (f := Decl.spans) hd, hk⟩
  exact ⟨k, List.mem_cons_of_mem _ (List.mem_append_left _ (List.mem_cons_of_mem _ hlist)), hspan⟩

/-- What is reported of a program is reported at a stretch that begins in the text and runs
forward, but for that `main` is missing. -/
theorem Program.points_reports {file : Option String} {source : String} {p : Program}
    (h : Program.parse file source = .ok p) (hfault : p.resolve.fault = none) (hasMain : Bool) :
    ∀ x ∈ p.resolve.reports ++ (p.resolve.program.check hasMain).reports,
      x.locus.Points source := by
  obtain ⟨tokens, tss, hscan, hsublist, htss⟩ := exists_stretches h
  have hstretch {s : Span} {t : Token} (ht : t ∈ tokens) (hstart : s.start = t.position)
      (hforward : s.start.NotAfter s.stop) : (Locus.ofSpan? (some s)).Points source :=
    .stretch (hstart ▸ (Token.stands_of_scan hscan t ht).inText) hforward
  refine ((parse_formed h).passed hfault).forall_reports (fun d hd env => ?_) .nowhere _
  obtain ⟨ts, hts, hreads⟩ := htss.exists_reads hd
  have hsubset : ts ⊆ tokens := fun t ht => hsublist.subset (List.mem_flatten_of_mem hts ht)
  have hleaves : ∀ s ∈ d.leaves, (Locus.ofSpan? s).Points source := by
    intro s hs
    obtain ⟨t, ht, -, rfl⟩ := hreads.covers.leaves.exists_token hs
    exact hstretch (hsubset ht) rfl (t.position_notAfter_stop.trans t.span_notAfter_extent)
  have hreturns : ∀ s ∈ d.bareReturns, (Locus.ofSpan? s).Points source := by
    intro s hs
    obtain ⟨k, hk, hspan⟩ := node_of_bareReturn hd hs
    obtain ⟨a, ha, hforward⟩ := forward_of_parse h hk
    rw [hspan] at ha
    subst ha
    obtain ⟨t, ht, hstart⟩ := List.mem_map.mp (hreads.beginsAmong.2 _ hs)
    exact hstretch (hsubset ht) (Option.some.inj hstart).symm hforward
  have hat : ∀ x : Report, x.At (fun s => (Locus.ofSpan? s).Points source) →
      x.locus.Points source := by
    rintro x ⟨s, hs, hlocus⟩
    rw [hlocus]
    exact hs
  exact ⟨fun x hx => hat x (Resolve.at_decl env hleaves x hx),
    fun x hx => hat x (Check.at_decl_resolve env hleaves hreturns x hx)⟩

namespace Compilation

/-- Every diagnostic of a text is about its file, and at a place of it. -/
theorem points_of_analyze {file : Option String} {source : String} {c : Compilation}
    (h : analyze file source = .ok c) :
    ∀ d ∈ c.diagnostics, d.file = file ∧ d.locus.Points source := by
  intro d hd
  cases hp : Program.parse file source with
  | ok p =>
    obtain ⟨hfault, rfl⟩ := analysis_of_parse hp h
    obtain ⟨x, hx, rfl⟩ := List.mem_map.mp hd
    exact ⟨rfl, Program.points_reports hp hfault _ x hx⟩
  | error e =>
    rw [analyze, hp] at h
    unfold Program.parse at hp
    cases e with
    | scan e =>
      cases e with
      | unreadable => cases h
      | refused e =>
        cases h
        cases List.mem_singleton.mp hd
        split at hp
        · next hscan =>
          cases hp
          exact ⟨rfl, .position (Token.reaches_of_scan hscan).inText⟩
        · split at hp <;> cases hp
    | syntactic e =>
      cases h
      cases List.mem_singleton.mp hd
      split at hp
      · cases hp
      · next tokens hscan =>
        split at hp
        · next htokens =>
          cases hp
          have hmem := Program.mem_of_refused htokens
          exact ⟨rfl, .position (Token.stands_of_scan hscan _ hmem).inText⟩
        · cases hp

end Compilation

/-! ## Carets -/

/-- The place marks a column of its row: the column where it begins, and the later ones up to where
it ends, or up to the end of the row if it ends on a later line. -/
def Locus.Marks (l : Locus) (row : List Char) (k : Nat) : Prop :=
  ∃ line column : Nat, l.line = some (line : Int) ∧ l.column = some (column : Int) ∧
    (k = column ∨ column ≤ k ∧ ∃ endLine endColumn : Nat, l.endLine = some (endLine : Int) ∧
      l.endColumn = some (endColumn : Int) ∧
      (endLine = line ∧ k < endColumn ∨ line < endLine ∧ k ≤ row.length))

/-- What is shown of a diagnostic in a text: its header, the row that its line counts, and as far to
the right as the row a row of carets at the columns of its place. -/
def Diagnostic.Excerpts (d : Diagnostic) (source : String) (shown : List String) (header : String) :
    Prop :=
  ∃ (n : Nat) (row marks : List Char) (margin : String), d.locus.line = some ((n + 1 : Nat) : Int) ∧
    (Text.rows source.toList)[n]? = some row ∧
    shown = [header, Text.padLeft 5 (toString (n + 1)) ++ " | " ++ String.ofList row,
      margin ++ String.ofList marks] ∧
    margin.length = (Text.padLeft 5 (toString (n + 1)) ++ " | ").length ∧
    (∀ c ∈ margin.toList, c = ' ' ∨ c = '|') ∧ (∀ c ∈ marks, c = ' ' ∨ c = '^') ∧
    ∀ k, marks[k]? = some '^' ↔ d.locus.Marks row (k + 1)

theorem getElem?_carets (start count k : Nat) :
    (List.replicate start ' ' ++ List.replicate count '^')[k]? = some '^' ↔
      start ≤ k ∧ k < start + count := by
  rcases Nat.lt_or_ge k start with hlt | hge
  · rw [List.getElem?_append_left (by simpa using hlt), List.getElem?_replicate_of_lt hlt]
    simp
    omega
  · rw [List.getElem?_append_right (by simpa using hge), List.length_replicate,
      List.getElem?_replicate]
    simp
    omega

/-- The marked columns of a line are those of the place. -/
theorem Diagnostic.marked_iff {source : String} {l : Locus} (h : l.Points source)
    {line column : Nat} (hline : l.line = some (line : Int))
    (hcolumn : l.column = some (column : Int))
    (hpos : 1 ≤ column) (row : List Char) (k : Nat) :
    (marked l line column row.length).1 - 1 ≤ k ∧
        k < (marked l line column row.length).1 - 1 + (marked l line column row.length).2 ↔
      l.Marks row (k + 1) := by
  cases h with
  | nowhere =>
    obtain rfl : 0 = column := Int.ofNat.inj (Option.some.inj hcolumn)
    exact absurd hpos (by decide)
  | @position p =>
    obtain rfl : p.line = line := Int.ofNat.inj (Option.some.inj hline)
    obtain rfl : p.column = column := Int.ofNat.inj (Option.some.inj hcolumn)
    simp [marked, Locus.Marks, Locus.ofPosition]
    omega
  | @stretch s hs hforward =>
    obtain rfl : s.startLine = line := Int.ofNat.inj (Option.some.inj hline)
    obtain rfl : s.startColumn = column := Int.ofNat.inj (Option.some.inj hcolumn)
    have hline : s.startLine < s.endLine ∨ s.startLine = s.endLine :=
      (Position.not_before.mp hforward).imp_right And.left
    rcases hline with hlt | heq
    · have hne : ¬((s.endLine : Int) = s.startLine) := by omega
      simp [marked, Locus.Marks, Locus.ofSpan, hne]
      omega
    · simp [marked, Locus.Marks, Locus.ofSpan, heq]
      omega

namespace Text

theorem padLeft_max (width : Nat) (s : String) :
    padLeft (max width s.length) s = padLeft width s := by
  have hwidth : max width s.length - s.length = width - s.length := by omega
  rw [padLeft, padLeft, hwidth]

end Text

namespace Diagnostic

variable {source directory f : String} {d : Diagnostic} {lines : List (List Char)}

theorem shown_of_file (h : d.fileShown? = some f) :
    d.shown directory (some lines) = d.header directory :: d.excerpt lines := by
  simp only [shown, h]

theorem shown_of_no_file (h : d.fileShown? = none) :
    d.shown directory (some lines) = [d.header directory] := by
  simp only [shown, h]

theorem fileShown?_of_line (hfile : d.file = some f) (hf : f ≠ "") {line : Int}
    (hline : d.locus.line = some line) (hne : line ≠ 0) : d.fileShown? = some f := by
  simp [fileShown?, hfile, hline, hf, hne]

theorem fileShown?_of_nowhere (hline : d.locus.line = some 0) : d.fileShown? = none := by
  simp [fileShown?, hline]

/-- The line that is shown for the row of a place. -/
theorem line_shown {n : Nat} : (if ((n + 1 : Nat) : Int) ≤ 0 then none
    else lines[((n + 1 : Nat) : Int).toNat - 1]?) = lines[n]? := by
  rw [if_neg (by omega)]
  rfl

theorem excerpts_of_row (hpoints : d.locus.Points source) {n column : Nat} {row : List Char}
    (hline : d.locus.line = some ((n + 1 : Nat) : Int))
    (hcolumn : d.locus.column = some (column : Int)) (hpos : 1 ≤ column)
    (hrow : (Text.rows source.toList)[n]? = some row) (hlines : lines[n]? = some row)
    (header : String) : d.Excerpts source (header :: d.excerpt lines) header := by
  have hmarked := marked_iff hpoints hline hcolumn hpos row
  have hexcerpt : d.excerpt lines =
      [Text.padLeft 5 (toString (n + 1)) ++ " | " ++ String.ofList row,
        Text.blanks (max 5 (toString (n + 1)).length) ++ " | " ++
          Text.blanks ((marked d.locus (n + 1 : Nat) column row.length).1 - 1) ++
          String.ofList
            (List.replicate (marked d.locus (n + 1 : Nat) column row.length).2 '^')] := by
    rw [← Text.padLeft_max]
    simp only [excerpt, hline, line_shown, hlines, hcolumn]
    rfl
  generalize marked d.locus ((n + 1 : Nat) : Int) (column : Int) row.length = m at hmarked hexcerpt
  refine ⟨n, row, List.replicate (m.1 - 1) ' ' ++ List.replicate m.2 '^',
    Text.blanks (max 5 (toString (n + 1)).length) ++ " | ", hline, hrow, ?_, ?_, ?_, ?_,
    fun k => ?_⟩
  · rw [hexcerpt, Text.blanks, String.ofList_append, ← String.append_assoc]
    rfl
  · rw [← Text.padLeft_max, String.length_append, String.length_append, Text.length_padLeft,
      Text.blanks, String.length_ofList, List.length_replicate]
    omega
  · rw [Text.blanks, String.toList_append, String.toList_ofList]
    have hbar : ∀ c ∈ (" | ").toList, c = ' ' ∨ c = '|' := by simp
    exact List.forall_mem_append.mpr ⟨fun c hc => .inl (List.mem_replicate.mp hc).2, hbar⟩
  · exact List.forall_mem_append.mpr ⟨fun c hc => .inl (List.mem_replicate.mp hc).2,
      fun c hc => .inr (List.mem_replicate.mp hc).2⟩
  · rw [getElem?_carets]
    exact hmarked k

theorem excerpt_of_no_line {n : Nat} (hline : d.locus.line = some ((n + 1 : Nat) : Int))
    (hlines : lines[n]? = none) : d.excerpt lines = [] := by
  simp only [excerpt, hline, line_shown, hlines]

end Diagnostic

namespace Compilation

/-- Where only the line feed ends lines, each diagnostic of a text is shown with the row that its
line counts and with carets at the columns of its place; the row is left out only where there is
none or it is empty and the last one, or the file has no name. -/
theorem excerpts_of_analyze {file source : String} {c : Compilation}
    (h : analyze (some file) source = .ok c)
    (hends : ∀ ch ∈ source.toList, Text.isLineEnd ch = true → ch = '\n') (directory : String) :
    ∀ d ∈ c.diagnostics, ∀ shown, d.shown directory (FileRead.text source).lines? = shown →
      d.Excerpts source shown (d.header directory) ∨
      shown = [d.header directory] ∧ (file = "" ∨ d.locus.line = some 0 ∨
        ∃ n : Nat, d.locus.line = some ((n + 1 : Nat) : Int) ∧
          n + 1 = (Text.rows source.toList).length ∧ (Text.rows source.toList)[n]? = some []) := by
  rintro d hd _ rfl
  obtain ⟨hfile, hpoints⟩ := points_of_analyze h d hd
  by_cases hf : file = ""
  · subst hf
    exact .inr ⟨Diagnostic.shown_of_no_file (by simp [Diagnostic.fileShown?, hfile]), .inl rfl⟩
  have hplace : d.locus.line = some 0 ∨ ∃ p : Position, p.InText source ∧
      d.locus.line = some (p.line : Int) ∧ d.locus.column = some (p.column : Int) := by
    cases hlocus : d.locus with
    | mk line column endLine endColumn =>
    rw [hlocus] at hpoints
    cases hpoints with
    | nowhere => exact .inl rfl
    | position hp => exact .inr ⟨_, hp, rfl, rfl⟩
    | stretch hs _ => exact .inr ⟨_, hs, rfl, rfl⟩
  rcases hplace with hplace | ⟨p, ⟨n, row, hrow, hp, hpos, -⟩, hline, hcolumn⟩
  · exact .inr ⟨Diagnostic.shown_of_no_file (Diagnostic.fileShown?_of_nowhere hplace),
      .inr (.inl hplace)⟩
  · rw [hp] at hline
    have hshown : d.shown directory (FileRead.text source).lines? =
        d.header directory :: d.excerpt (Text.lines source.toList) :=
      Diagnostic.shown_of_file (Diagnostic.fileShown?_of_line hfile hf hline (by omega))
    rw [hshown]
    rcases Text.getElem?_lines hends hrow with hlines | ⟨hlines, hlast, rfl⟩
    · exact .inl (Diagnostic.excerpts_of_row hpoints hline hcolumn hpos hrow hlines _)
    · rw [Diagnostic.excerpt_of_no_line hline hlines]
      exact .inr ⟨rfl, .inr (.inr ⟨n, hline, hlast, hrow⟩)⟩

set_option maxRecDepth 100000 in
/-- A return statement on two lines without its value, and an assignment to a function. -/
theorem excerpts_of_analyze_of_lines : ∃ source c,
    source = "int f() \x7b\n  return\n  ;\n\x7d\nvoid main() \x7b\n  f = 1;\n\x7d\n" ∧
    analyze (some "a") source = .ok c ∧ c.diagnostics.length = 2 ∧
    (∀ ch ∈ source.toList, Text.isLineEnd ch = true → ch = '\n') ∧
    ∀ d ∈ c.diagnostics, ∀ shown, d.shown "/" (FileRead.text source).lines? = shown →
      d.Excerpts source shown (d.header "/") ∨
      shown = [d.header "/"] ∧ ("a" = "" ∨ d.locus.line = some 0 ∨
        ∃ n : Nat, d.locus.line = some ((n + 1 : Nat) : Int) ∧
          n + 1 = (Text.rows source.toList).length ∧ (Text.rows source.toList)[n]? = some []) := by
  obtain ⟨source, hsource⟩ : ∃ source, source =
    "int f() \x7b\n  return\n  ;\n\x7d\nvoid main() \x7b\n  f = 1;\n\x7d\n" := ⟨_, rfl⟩
  obtain ⟨c, hc, hlength⟩ : ∃ c, analyze (some "a") source = .ok c ∧ c.diagnostics.length = 2 :=
    exists_analyze (hsource.trans rfl) (by decide +kernel)
  have hall : source.toList.all (fun ch => !Text.isLineEnd ch || ch == '\n') = true := by
    rw [hsource]
    cbv
  have hends : ∀ ch ∈ source.toList, Text.isLineEnd ch = true → ch = '\n' := by
    intro ch hch hend
    have hor := List.all_eq_true.mp hall ch hch
    rw [hend] at hor
    exact beq_iff_eq.mp hor
  exact ⟨source, c, hsource, hc, hlength, hends, excerpts_of_analyze hc hends "/"⟩

set_option maxRecDepth 100000 in
/-- A comment with a form feed: the line that is shown is not the one that the scanner counted. -/
theorem shown_of_form_feed : ∃ source c d,
    source = "#\x0c\nvoid main() \x7b x = 1; \x7d\n" ∧ analyze (some "a") source = .ok c ∧
    d ∈ c.diagnostics ∧ d.locus = ⟨some 2, some 15, some 2, some 16⟩ ∧
    (Text.rows source.toList)[1]? = some ("void main() \x7b x = 1; \x7d").toList ∧
    d.shown "/" (FileRead.text source).lines? =
      [d.header "/", "    2 | ", "      |               ^"] := by
  obtain ⟨source, hsource⟩ : ∃ source, source = "#\x0c\nvoid main() \x7b x = 1; \x7d\n" := ⟨_, rfl⟩
  obtain ⟨c, hc, hmap⟩ : ∃ c, analyze (some "a") source = .ok c ∧
      c.diagnostics.map (fun d => (d.file, d.locus)) =
        [(some "a", ⟨some 2, some 15, some 2, some 16⟩)] :=
    exists_analyze (hsource.trans rfl) (by decide +kernel)
  have hrow : (Text.rows source.toList)[1]? = some ("void main() \x7b x = 1; \x7d").toList := by
    rw [hsource]
    cbv
  obtain ⟨d, hd, hfields⟩ := List.mem_map.mp (hmap ▸ List.mem_cons_self)
  obtain ⟨hfile, hlocus⟩ := Prod.mk.inj hfields
  have hlines : d.excerpt (Text.lines source.toList) =
      ["    2 | ", "      |               ^"] := by
    unfold Diagnostic.excerpt
    rw [hlocus, hsource]
    cbv
  have hshown : d.fileShown? = some "a" :=
    Diagnostic.fileShown?_of_line hfile (by decide) (congrArg Locus.line hlocus) (by decide)
  exact ⟨source, c, d, hsource, hc, hd, hlocus, hrow,
    (Diagnostic.shown_of_file hshown).trans (congrArg (_ :: ·) hlines)⟩

end Compilation

end CMinusMinus
