import CMinusMinus.Asm.Emit
import CMinusMinus.Generate.Label
import CMinusMinus.Proofs.Grammar

/-!
# Labels are distinct

Numbered labels begin with a full stop, the labels of functions and globals do not.  The label
before the end of a function has a full stop further on, which no name has.
-/

namespace CMinusMinus

/-- What no name holds. -/
theorem IsName.notMem {s : String} (h : IsName s) {x : Char} (hbegins : Token.beginsName x = false)
    (hcontinues : Token.continuesName x = false) : x ∉ s.toList := by
  obtain ⟨c, cs, hs, hc, hcs⟩ := h.spelled
  rw [hs]
  refine List.not_mem_cons_of_ne_of_not_mem ?_ fun hx => ?_
  · rintro rfl
    rw [hbegins] at hc
    cases hc
  · exact absurd (hcs x hx) (by rw [hcontinues]; decide)

theorem IsName.no_stop {s : String} (h : IsName s) : '.' ∉ s.toList :=
  h.notMem (by decide) (by decide)

theorem Asm.numbered_injective {m n : Nat} (h : numbered m = numbered n) : m = n := by
  have hdigits : Nat.toDigits 10 m = Nat.toDigits 10 n :=
    String.ofList_inj.mp ((String.append_right_inj _).mp h)
  have hm := Nat.ofDigitChars_ten_toDigits (n := m)
  rw [hdigits, Nat.ofDigitChars_ten_toDigits] at hm
  exact hm.symm

theorem Asm.toList_numbered (n : Nat) :
    (numbered n).toList = '.' :: 'L' :: (toString n).toList := by
  simp [numbered]

namespace Generate

/-- The label of a function begins with a letter or an underscore. -/
theorem toList_functionLabel (name : String) :
    ∃ c cs, (functionLabel name).toList = c :: cs ∧ c ≠ '.' := by
  rw [functionLabel]
  split
  · exact ⟨'m', ['a', 'i', 'n'], by simp, by decide⟩
  · exact ⟨'_', name.toList, by simp, by decide⟩

theorem functionLabel_injective {f g : String} (h : functionLabel f = functionLabel g) :
    f = g := by
  have hlist := congrArg String.toList h
  rw [functionLabel, functionLabel] at hlist
  split at hlist
  · next hf =>
    split at hlist
    · next hg => rw [hf, hg]
    · simp at hlist
  · split at hlist
    · simp at hlist
    · exact String.toList_inj.mp (by simpa using hlist)

theorem exitLabel_injective {f g : String} (h : exitLabel f = exitLabel g) : f = g :=
  functionLabel_injective ((String.append_left_inj _).mp h)

theorem numbered_ne_functionLabel (n : Nat) (name : String) :
    Asm.numbered n ≠ functionLabel name := by
  intro h
  obtain ⟨c, cs, hname, hc⟩ := toList_functionLabel name
  have hlist := congrArg String.toList h
  rw [Asm.toList_numbered, hname] at hlist
  exact hc (List.cons.inj hlist).1.symm

theorem numbered_ne_exitLabel (n : Nat) (name : String) : Asm.numbered n ≠ exitLabel name := by
  intro h
  obtain ⟨c, cs, hname, hc⟩ := toList_functionLabel name
  have hlist := congrArg String.toList h
  rw [Asm.toList_numbered, exitLabel, String.toList_append, hname] at hlist
  exact hc (List.cons.inj hlist).1.symm

theorem functionLabel_ne_exitLabel {name : String} (hname : IsName name) (name' : String) :
    functionLabel name ≠ exitLabel name' := by
  intro h
  have hexit : '.' ∈ (exitLabel name').toList := by
    simp [exitLabel]
  rw [← h, functionLabel] at hexit
  split at hexit
  · simp at hexit
  · simp only [String.toList_append, List.mem_append] at hexit
    rcases hexit with hexit | hexit
    · simp at hexit
    · exact hname.no_stop hexit

end Generate

end CMinusMinus
