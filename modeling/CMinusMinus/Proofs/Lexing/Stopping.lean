import CMinusMinus.Proofs.Lexing.Scanning

/-!
# Where the scanner gives up

The scanner answers every text with its tokens or with an error at a place of it, but for texts
with a numeral that cannot be read as a number (`Token.scan_eq_unreadable_iff`): one that has more
digits than are ever read, or a digit that has no value, such as a superscript.
-/

namespace CMinusMinus

/-- Only digits without a value keep digits from writing a number. -/
theorem Text.decimal?_eq_none_iff {cs : List Char} :
    decimal? cs = none ↔ ∃ c ∈ cs, digitValue? c = none := by
  have hnone : ∀ cs : List Char, cs.foldl (fun n c => n.bind fun n =>
      (digitValue? c).map (10 * n + ·)) none = none := by
    intro cs
    induction cs with
    | nil => rfl
    | cons c cs ih => exact ih
  have hsome : ∀ n, cs.foldl (fun n c => n.bind fun n => (digitValue? c).map (10 * n + ·)) (some n)
      = none ↔ ∃ c ∈ cs, digitValue? c = none := by
    induction cs with
    | nil => simp
    | cons c cs ih =>
      intro n
      rw [List.foldl_cons, Option.bind_some]
      cases hc : digitValue? c with
      | none => simp [hnone, hc]
      | some d => simp [ih, hc]
  exact hsome 0

namespace Token

variable {c : Char} {cs : List Char} {p : Position} {digits : String}

/-- A numeral that cannot be read as a number: it has too many digits or one without a value. -/
def IsUnreadable (cs : List Char) : Prop :=
  Text.maxDigits < cs.length ∨ ∃ c ∈ cs, Text.digitValue? c = none

/-- After lexemes with gaps between them the text goes on with a numeral that runs into no name and
cannot be read as a number. -/
def GivesUp (source digits : String) : Prop :=
  ∃ ts gap rest, Lexed [] source.toList ts (gap ++ digits.toList ++ rest) ∧
    Gap gap (digits.toList ++ rest) ∧ Longest IsDigits digits.toList rest ∧
    (∀ c, rest.head? = some c → beginsName c = false) ∧ IsUnreadable digits.toList

theorem checkNumeral_eq_unreadable_iff {cs rest : List Char} {p q : Position} :
    checkNumeral cs rest p q = .error (.unreadable digits) ↔
      (∀ c, rest.head? = some c → beginsName c = false) ∧ IsUnreadable cs ∧
        digits = String.ofList cs := by
  have hname : rest.head?.filter beginsName = none ↔
      ∀ c, rest.head? = some c → beginsName c = false := by
    simp [Option.filter_eq_none_iff]
  rw [checkNumeral, ← hname, IsUnreadable, ← Text.decimal?_eq_none_iff]
  cases hfilter : rest.head?.filter beginsName with
  | some c => exact ⟨fun h => (by cases h), fun h => (by cases h.1)⟩
  | none =>
    by_cases hlength : cs.length ≤ Text.maxDigits
    · cases hvalue : Text.decimal? cs with
      | none => simp [hlength, eq_comm]
      | some value =>
        have hnot : ¬ Text.maxDigits < cs.length := Nat.not_lt.mpr hlength
        by_cases hmax : value ≤ intMax <;> simp [hlength, hmax, hnot]
    · simp [hlength, Nat.lt_of_not_le hlength, eq_comm]

theorem measure_eq_unreadable_iff :
    measure c cs p = .error (.unreadable digits) ↔
      Text.isDigit c = true ∧
        (∀ d, (cs.dropWhile Text.isDigit).head? = some d → beginsName d = false) ∧
        IsUnreadable (c :: cs.takeWhile Text.isDigit) ∧
        digits = String.ofList (c :: cs.takeWhile Text.isDigit) := by
  by_cases hname : beginsName c = true
  · have hdigit : ¬ Text.isDigit c = true := fun h => by
      rw [beginsName_of_isDigit h] at hname
      cases hname
    rw [measure, if_pos hname]
    exact ⟨fun h => (by cases h), fun h => absurd h.1 hdigit⟩
  · rw [measure, if_neg hname]
    by_cases hdigit : Text.isDigit c = true
    · rw [if_pos hdigit, ← checkNumeral_eq_unreadable_iff (p := p)
        (q := p.after (c :: cs.takeWhile Text.isDigit))]
      dsimp only
      cases checkNumeral (c :: cs.takeWhile Text.isDigit) (cs.dropWhile Text.isDigit) p
          (p.after (c :: cs.takeWhile Text.isDigit)) with
      | ok => exact ⟨fun h => (by cases h), fun h => (by cases h.2)⟩
      | error e => exact ⟨fun h => ⟨hdigit, congrArg _ (Except.error.inj h)⟩,
          fun h => congrArg _ (Except.error.inj h.2)⟩
    · rw [if_neg hdigit]
      refine ⟨fun h => ?_, fun h => absurd h.1 hdigit⟩
      split at h
      · split at h <;> cases h
      · split at h <;> cases h

/-- The scanner gives up exactly at a numeral that cannot be read as a number. -/
theorem scan_eq_unreadable_iff {source : String} :
    scan source = .error (.unreadable digits) ↔ GivesUp source digits := by
  constructor
  · intro hscan
    obtain ⟨ts, read, cs, hread, hlexed, hgap | ⟨e, gap, c, rest, hrefused⟩⟩ :=
      exists_lexed [] source.toList
    · rw [scan_of_lexed hlexed hgap] at hscan
      cases hscan
    · rw [scan_of_refused hread hlexed hrefused] at hscan
      cases hscan
      obtain ⟨hdigit, hname, hunreadable, rfl⟩ := measure_eq_unreadable_iff.mp hrefused.measure
      obtain ⟨run, rest, rfl, hrun, hrest⟩ := exists_run Text.isDigit rest
      obtain ⟨htake, hdrop⟩ := takeWhile_run hrun hrest
      have hnul : c ≠ nul := ne_of_test hdigit (by decide)
      have hgap := hrefused.separated hnul
      rw [hrefused.text] at hlexed
      rw [htake] at hunreadable ⊢
      rw [hdrop] at hname
      have hdigits : IsDigits (c :: run) :=
        ⟨List.cons_ne_nil _ _, List.forall_mem_cons.mpr ⟨hdigit, hrun⟩⟩
      refine ⟨ts, gap, rest, ?_⟩
      rw [String.toList_ofList, List.append_assoc]
      exact ⟨hlexed, hgap, (longest_isDigits_iff hdigits).mpr hrest, hname, hunreadable⟩
  · rintro ⟨ts, gap, rest, hlexed, hgap, hlongest, hname, hunreadable⟩
    obtain ⟨c, run, hdigits, hdigit, hrun⟩ := isDigits_iff.mp hlongest.is
    have hrest := (longest_isDigits_iff hlongest.is).mp hlongest
    rw [hdigits] at hlexed hgap hunreadable
    rw [List.append_assoc] at hlexed
    obtain ⟨read, hread, -⟩ := scanFrom_of_lexed hlexed
    obtain ⟨htake, hdrop⟩ := takeWhile_run hrun hrest
    have hends := endsGap_of_isDigit hdigit (run ++ rest)
    have hrefused : Refused read (gap ++ (c :: run ++ rest)) (.unreadable digits) gap c
        (run ++ rest) := by
      refine ⟨rfl, fun _ => hgap, ?_, ?_⟩
      · rw [Position.following_append]
        exact hgap.skip hends _
      · rw [measure_eq_unreadable_iff, htake, hdrop, ← hdigits, String.ofList_toList]
        exact ⟨hdigit, hname, hdigits ▸ hunreadable, rfl⟩
    exact scan_of_refused hread hlexed hrefused

end Token

end CMinusMinus
