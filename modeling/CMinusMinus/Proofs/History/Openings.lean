import CMinusMinus.Proofs.History

/-!
# Open scopes of a history

The scopes that a history leaves open, listed from the innermost outwards (`openings`).  One more
record enters a scope of its own, exits the innermost one or happens within all of them
(`openings_concat`).  From the innermost scope outwards one more scope at a time is open within
(`balance_of_getElem?`) and ever more has happened since the scope was entered
(`pairwise_openings`), so the list begins with the innermost scope and ends with the outermost.
-/

namespace CMinusMinus.Scopes

variable {σ : Type}

namespace History

variable {h after : History σ} {os : List (History σ)} {r : Record σ}

/-! ## Counting -/

theorem balance_concat (h : History σ) (r : Record σ) :
    balance (h ++ [r]) = balance h + r.change := by
  simp [balance]

/-- A declaration belongs to a scope if no scope within it is open. -/
theorem successes_concat (after : History σ) (r : Record σ) :
    successes (after ++ [r]) =
      successes after ++ (if balance after = 0 then r.success else none).toList := by
  have hbefore : ∀ p ∈ after.zipIdx, (after ++ [r]).take p.2 = after.take p.2 := fun p hp =>
    List.take_append_of_le_length (Nat.le_of_lt (List.snd_lt_of_mem_zipIdx hp))
  rw [successes, List.zipIdx_append, List.filterMap_append, successes]
  congr 1
  · refine List.filterMap_congr fun p hp => ?_
    rw [hbefore p hp]
  · rw [List.zipIdx_singleton, Nat.zero_add, List.filterMap_cons, List.filterMap_nil]
    simp only [List.take_left]
    cases (if balance after = 0 then r.success else none) <;> rfl

/-- Records that declare nothing are of no account to what a scope declares. -/
theorem successes_concat_of_none (after : History σ) (hr : r.success = none) :
    successes (after ++ [r]) = successes after := by
  rw [successes_concat, hr, ite_self, Option.toList_none, List.append_nil]

/-! ## Open scopes -/

/-- A scope that is open after one more record was entered by it or was open before. -/
theorem open_concat : Open (h ++ [r]) after ↔
    (after = [] ∧ ∃ reply, r = (.enter, .ok reply)) ∨
      ∃ after', after = after' ++ [r] ∧ Open h after' ∧ 0 ≤ balance after' + r.change := by
  constructor
  · rintro ⟨⟨before, reply, hentered⟩, hkept⟩
    rcases List.eq_nil_or_concat' after with rfl | ⟨after', r', rfl⟩
    · exact .inl ⟨rfl, reply, (List.append_singleton_inj.mp hentered).2⟩
    · rw [← List.cons_append, ← List.append_assoc] at hentered
      obtain ⟨rfl, rfl⟩ := List.append_singleton_inj.mp hentered
      refine .inr ⟨after', rfl, ⟨⟨before, reply, rfl⟩, fun p hp => ?_⟩, ?_⟩
      · exact hkept p (hp.trans (List.prefix_append _ _))
      · rw [← balance_concat]
        exact hkept _ List.prefix_rfl
  · rintro (⟨rfl, reply, rfl⟩ | ⟨after', rfl, ⟨⟨before, reply, rfl⟩, hkept⟩, hbalance⟩)
    · refine ⟨⟨h, reply, rfl⟩, fun p hp => ?_⟩
      rw [List.prefix_nil.mp hp]
      exact Int.le_refl 0
    · refine ⟨⟨before, reply, by rw [List.append_assoc, List.cons_append]⟩, fun p hp => ?_⟩
      rcases List.prefix_concat_iff.mp hp with rfl | hp
      · rwa [balance_concat]
      · exact hkept p hp

/-- The open scopes after one more record. -/
def track (os : List (History σ)) (r : Record σ) : List (History σ) :=
  match r with
  | (.enter, .ok _) => [] :: os.map (· ++ [r])
  | (.exit, .ok _) => os.tail.map (· ++ [r])
  | _ => os.map (· ++ [r])

/-- What happened since the scopes were entered that are open, the innermost first. -/
def openings (h : History σ) : List (History σ) := h.foldl track []

theorem openings_concat (h : History σ) (r : Record σ) :
    openings (h ++ [r]) = track (openings h) r := by
  rw [openings, List.foldl_append]
  rfl

/-- A record enters a scope, exits one or does neither. -/
theorem Record.trichotomy (r : Record σ) : (∃ reply, r = (.enter, .ok reply)) ∨
    (∃ reply, r = (.exit, .ok reply)) ∨
      (∀ reply, r ≠ (.enter, .ok reply)) ∧ r.change = 0 ∧ ∀ os, track os r = os.map (· ++ [r]) := by
  obtain ⟨op, answer⟩ := r
  cases answer with
  | error fault => exact .inr (.inr ⟨by rintro _ ⟨⟩, rfl, fun os => by cases op <;> rfl⟩)
  | ok reply =>
    cases op with
    | enter => exact .inl ⟨reply, rfl⟩
    | exit => exact .inr (.inl ⟨reply, rfl⟩)
    | _ => exact .inr (.inr ⟨by rintro _ ⟨⟩, rfl, fun _ => rfl⟩)

/-- The scope at a place outwards has as many open scopes within it. -/
theorem balance_of_getElem? {i : Nat} (hi : (openings h)[i]? = some after) : balance after = i := by
  induction h using List.reverseRecOn generalizing i after with
  | nil => cases hi
  | append_singleton h r ih =>
    have hmap : ∀ {os : List (History σ)} {i : Nat}, (os.map (· ++ [r]))[i]? = some after →
        ∃ after', os[i]? = some after' ∧ balance after = balance after' + r.change := by
      intro os i hget
      rw [List.getElem?_map] at hget
      obtain ⟨after', hget', rfl⟩ := Option.map_eq_some_iff.mp hget
      exact ⟨after', hget', balance_concat after' r⟩
    rw [openings_concat] at hi
    rcases Record.trichotomy r with ⟨reply, rfl⟩ | ⟨reply, rfl⟩ | ⟨-, hchange, htrack⟩
    · cases i with
      | zero =>
        cases hi
        rfl
      | succ i =>
        obtain ⟨after', hget, hbalance⟩ := hmap hi
        rw [hbalance, ih hget]
        rfl
    · obtain ⟨after', hget, hbalance⟩ := hmap hi
      rw [List.getElem?_tail] at hget
      rw [hbalance, ih hget]
      exact Int.add_neg_cancel_right i 1
    · rw [htrack] at hi
      obtain ⟨after', hget, hbalance⟩ := hmap hi
      rw [hbalance, ih hget, hchange, Int.add_zero]

theorem balance_head (hh : openings h = after :: os) : balance after = 0 :=
  balance_of_getElem? (i := 0) (by rw [hh]; rfl)

theorem balance_nonneg (hmem : after ∈ openings h) : 0 ≤ balance after := by
  obtain ⟨i, hi⟩ := List.mem_iff_getElem?.mp hmem
  rw [balance_of_getElem? hi]
  exact Int.natCast_nonneg i

theorem balance_tail (hh : openings h = after :: os) : ∀ after' ∈ os, 0 < balance after' := by
  intro after' hmem
  obtain ⟨i, hi⟩ := List.mem_iff_getElem?.mp hmem
  have hbalance : balance after' = ((i + 1 : Nat) : Int) := balance_of_getElem? (by rwa [hh])
  omega

/-- The scopes outside the innermost one. -/
theorem mem_tail_openings :
    after ∈ (openings h).tail ↔ after ∈ openings h ∧ 0 < balance after := by
  cases hh : openings h with
  | nil => simp
  | cons inner os =>
    refine ⟨fun hmem => ⟨List.mem_cons_of_mem _ hmem, balance_tail hh after hmem⟩, ?_⟩
    rintro ⟨hmem, hpos⟩
    rcases List.mem_cons.mp hmem with rfl | hmem
    · exact absurd (balance_head hh) (by omega)
    · exact hmem

theorem mem_openings_concat : after ∈ openings (h ++ [r]) ↔
    (after = [] ∧ ∃ reply, r = (.enter, .ok reply)) ∨
      ∃ after', after = after' ++ [r] ∧ after' ∈ openings h ∧ 0 ≤ balance after' + r.change := by
  have hmap : ∀ os : List (History σ), after ∈ os.map (· ++ [r]) ↔
      ∃ after', after = after' ++ [r] ∧ after' ∈ os := by
    intro os
    simp only [List.mem_map, eq_comm, and_comm]
  rw [openings_concat]
  rcases Record.trichotomy r with ⟨reply, rfl⟩ | ⟨reply, rfl⟩ | ⟨hr, hchange, htrack⟩
  · rw [track, List.mem_cons, hmap]
    refine or_congr ⟨fun hnil => ⟨hnil, reply, rfl⟩, And.left⟩
      (exists_congr fun after' => and_congr_right fun _ => ⟨fun hmem => ⟨hmem, ?_⟩, And.left⟩)
    exact Int.add_nonneg (balance_nonneg hmem) Int.one_nonneg
  · rw [track, hmap, or_iff_right (by rintro ⟨-, _, ⟨⟩⟩)]
    refine exists_congr fun after' => and_congr_right fun _ =>
      mem_tail_openings.trans (and_congr_right fun _ => ?_)
    show 0 < balance after' ↔ 0 ≤ balance after' + -1
    omega
  · rw [htrack, hmap, or_iff_right fun ⟨_, reply, heq⟩ => hr reply heq]
    refine exists_congr fun after' => and_congr_right fun _ => ⟨fun hmem => ⟨hmem, ?_⟩, And.left⟩
    rw [hchange, Int.add_zero]
    exact balance_nonneg hmem

/-- The list has all open scopes and nothing else. -/
theorem mem_openings : after ∈ openings h ↔ Open h after := by
  induction h using List.reverseRecOn generalizing after with
  | nil =>
    constructor
    · rintro ⟨⟩
    · rintro ⟨⟨before, reply, hnil⟩, -⟩
      exact absurd hnil.symm (List.append_ne_nil_of_right_ne_nil _ (List.cons_ne_nil _ _))
  | append_singleton h r ih =>
    rw [mem_openings_concat, open_concat]
    simp only [ih]

/-! ## The order of scopes -/

/-- More has happened since a scope was entered than since those within it were. -/
theorem pairwise_openings (h : History σ) :
    (openings h).Pairwise fun after after' => after.length < after'.length := by
  induction h using List.reverseRecOn with
  | nil => exact .nil
  | append_singleton h r ih =>
    have hmap : ∀ {os : List (History σ)},
        os.Pairwise (fun after after' => after.length < after'.length) →
        (os.map (· ++ [r])).Pairwise fun after after' => after.length < after'.length := by
      intro os hos
      refine List.pairwise_map.mpr (hos.imp fun hlt => ?_)
      rw [List.length_append, List.length_append]
      exact Nat.add_lt_add_right hlt _
    rw [openings_concat]
    rcases Record.trichotomy r with ⟨reply, rfl⟩ | ⟨reply, rfl⟩ | ⟨-, -, htrack⟩
    · refine List.pairwise_cons.mpr ⟨fun after hmem => ?_, hmap ih⟩
      obtain ⟨after', -, rfl⟩ := List.mem_map.mp hmem
      rw [List.length_append]
      exact Nat.succ_pos _
    · exact hmap (ih.sublist (List.tail_sublist _))
    · rw [htrack]
      exact hmap ih

theorem not_open (hh : openings h = []) (after : History σ) : ¬ Open h after := by
  rw [← mem_openings, hh]
  exact List.not_mem_nil

/-- The list begins with the innermost scope. -/
theorem innermost_iff (hh : openings h = after :: os) {after' : History σ} :
    Innermost h after' ↔ after' = after := by
  have hpairwise := pairwise_openings h
  rw [hh] at hpairwise
  have hopen : ∀ {o}, Open h o ↔ o = after ∨ o ∈ os := by
    intro o
    rw [← mem_openings, hh, List.mem_cons]
  constructor
  · rintro ⟨hafter', hleast⟩
    rcases hopen.mp hafter' with rfl | hmem
    · rfl
    · have hlt := List.rel_of_pairwise_cons hpairwise hmem
      exact absurd (hleast after (hopen.mpr (.inl rfl))) (Nat.not_le_of_lt hlt)
  · rintro rfl
    refine ⟨hopen.mpr (.inl rfl), fun o ho => ?_⟩
    rcases hopen.mp ho with rfl | hmem
    · exact Nat.le_refl _
    · exact Nat.le_of_lt (List.rel_of_pairwise_cons hpairwise hmem)

/-- The list ends with the outermost scope. -/
theorem outermost_iff (hh : openings h = os ++ [after]) {after' : History σ} :
    Outermost h after' ↔ after' = after := by
  have hpairwise := pairwise_openings h
  rw [hh, List.pairwise_append] at hpairwise
  have hlast : ∀ o ∈ os, o.length < after.length := fun o ho =>
    hpairwise.2.2 o ho after List.mem_cons_self
  have hopen : ∀ {o}, Open h o ↔ o ∈ os ∨ o = after := by
    intro o
    rw [← mem_openings, hh, List.mem_append, List.mem_singleton]
  constructor
  · rintro ⟨hafter', hgreatest⟩
    rcases hopen.mp hafter' with hmem | rfl
    · exact absurd (hgreatest after (hopen.mpr (.inr rfl))) (Nat.not_le_of_lt (hlast _ hmem))
    · rfl
  · rintro rfl
    refine ⟨hopen.mpr (.inr rfl), fun o ho => ?_⟩
    rcases hopen.mp ho with hmem | rfl
    · exact Nat.le_of_lt (hlast o hmem)
    · exact Nat.le_refl _

end History

end CMinusMinus.Scopes
