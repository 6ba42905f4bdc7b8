import Mathlib
import LinearProgram.Proofs.Canonical

/-!
# Simplifying by sorting

`simplify` puts one term after the other into an ascending list. Sorting all terms first,
joining each with the last one when both are on the same variable, and dropping zero
coefficients at the end leaves the same terms, over any scalars:

* `foldl_joinLast`: on sorted terms, joining with the last one is collecting;
* `first?_foldl_collect`, `filter_mergeSort`: what is collected on a variable depends on the
  order of its own terms alone, which a stable sort keeps;
* `simplify_terms`: hence both ways end with one list;
* `simplify_normal`: over the rational numbers it is a normal form of the total coefficients.
-/

namespace LinearProgram

deriving instance ReflBEq, LawfulBEq for Term

deriving instance ReflBEq, LawfulBEq for LinearForm

namespace LinearForm

section Reading

variable {α : Type} {t : Term α} {terms terms' : List (Term α)} {i : Nat}

/-- The coefficient of the first term with the given index, if there is one. -/
def first? (i : Nat) (terms : List (Term α)) : Option α :=
  (terms.find? (·.index == i)).map Term.coefficient

/-- The coefficients on one variable, in their order. -/
def coefficientsOn (i : Nat) (terms : List (Term α)) : List α :=
  (terms.filter (·.index == i)).map Term.coefficient

theorem first?_cons (t : Term α) (terms : List (Term α)) :
    first? i (t :: terms) = if t.index = i then some t.coefficient else first? i terms := by
  by_cases same : t.index = i <;> simp [first?, same]

theorem first?_eq_none (other : ∀ u ∈ terms, u.index ≠ i) : first? i terms = none := by
  simpa [first?] using other

/-- In an ascending list every term is the first one with its index. -/
theorem mem_iff_first? (ascending : terms.Pairwise (·.index < ·.index)) :
    t ∈ terms ↔ first? t.index terms = some t.coefficient := by
  induction terms with
  | nil => simp [first?]
  | cons u rest ih =>
    obtain ⟨below, ascending⟩ := List.pairwise_cons.1 ascending
    rw [first?_cons, List.mem_cons]
    split
    · rename_i same
      constructor
      · rintro (rfl | later)
        · rfl
        · exact absurd same (below t later).ne
      · intro coefficient
        obtain ⟨i, x⟩ := t
        obtain ⟨j, y⟩ := u
        exact .inl (congrArg₂ Term.mk same.symm (Option.some.inj coefficient).symm)
    · rename_i different
      rw [← ih ascending, or_iff_right]
      rintro rfl
      exact different rfl

/-- An ascending list is determined by what it holds on every variable. -/
theorem eq_of_first? (ascending : terms.Pairwise (·.index < ·.index))
    (ascending' : terms'.Pairwise (·.index < ·.index))
    (same : ∀ i, first? i terms = first? i terms') : terms = terms' :=
  eq_of_ascending ascending ascending' fun t => by
    rw [mem_iff_first? ascending, mem_iff_first? ascending', same]

/-- Terms in ascending order of the index, those on one variable as they were. -/
def sorted (terms : List (Term α)) : List (Term α) := terms.mergeSort fun t u => t.index ≤ u.index

theorem pairwise_sorted (terms : List (Term α)) : (sorted terms).Pairwise (·.index ≤ ·.index) :=
  (List.pairwise_mergeSort (by grind) (by grind) terms).imp of_decide_eq_true

theorem coefficientsOn_sorted (terms : List (Term α)) (i : Nat) :
    coefficientsOn i (sorted terms) = coefficientsOn i terms := by
  -- the terms on one variable are in order already, so a stable sort keeps that order
  have own : (terms.filter (·.index == i)).Pairwise
      fun t u => decide (t.index ≤ u.index) = true := by
    refine List.pairwise_iff_forall_sublist.2 fun {t u} pair => ?_
    have ht : t ∈ terms.filter (·.index == i) := pair.subset (by simp)
    have hu : u ∈ terms.filter (·.index == i) := pair.subset (by simp)
    simp only [List.mem_filter, beq_iff_eq] at ht hu
    exact decide_eq_true (by omega)
  have kept := (List.sublist_mergeSort (by grind) (by grind) own List.filter_sublist).filter
    (·.index == i)
  simp only [List.filter_filter, Bool.and_self] at kept
  have length := ((List.mergeSort_perm terms fun t u => t.index ≤ u.index).filter
    (·.index == i)).length_eq
  rw [coefficientsOn, coefficientsOn, sorted, kept.eq_of_length length.symm]

end Reading

section Joining

variable {α : Type} [Scalar α] {t : Term α} {terms terms' : List (Term α)} {i : Nat}

/-- Appends a term to a list, or joins it with the last term if that has the same index. -/
def joinLast (merged : List (Term α)) (t : Term α) : List (Term α) :=
  match merged.getLast? with
  | none => [t]
  | some last =>
    if last.index = t.index then
      merged.dropLast ++ [⟨last.index, last.coefficient + t.coefficient⟩]
    else merged ++ [t]

/-- Terms in front of the new one are passed over. -/
theorem collect_append (below : ∀ u ∈ terms, u.index < t.index) :
    collect t (terms ++ terms') = terms ++ collect t terms' := by
  induction terms with
  | nil => rfl
  | cons u rest ih =>
    obtain ⟨less, below⟩ := List.forall_mem_cons.1 below
    rw [List.cons_append, collect, if_neg less.not_gt, if_neg less.ne', ih below, List.cons_append]

/-- At the end of an ascending list, collecting looks at the last term only. -/
theorem joinLast_eq_collect (ascending : terms.Pairwise (·.index < ·.index))
    (le : ∀ u ∈ terms, u.index ≤ t.index) : joinLast terms t = collect t terms := by
  rcases List.eq_nil_or_concat' terms with rfl | ⟨front, last, rfl⟩
  · rfl
  · obtain ⟨_, _, below⟩ := List.pairwise_append.1 ascending
    have last_le : last.index ≤ t.index := le last (by simp)
    have front_lt : ∀ u ∈ front, u.index < t.index := fun u hu =>
      (below u hu last (by simp)).trans_le last_le
    rw [collect_append front_lt, joinLast, List.getLast?_concat, collect, if_neg last_le.not_gt]
    by_cases same : last.index = t.index
    · simp only [if_pos same, if_pos same.symm, List.dropLast_concat]
    · simp only [if_neg same, if_neg (Ne.symm same), collect, List.append_assoc,
        List.singleton_append]

/-- On sorted terms, joining with the last one is collecting. -/
theorem foldl_joinLast {merged : List (Term α)} (sorted : terms.Pairwise (·.index ≤ ·.index))
    (ascending : merged.Pairwise (·.index < ·.index))
    (le : ∀ u ∈ merged, ∀ t ∈ terms, u.index ≤ t.index) :
    terms.foldl joinLast merged = terms.foldl (fun merged t => collect t merged) merged := by
  induction terms generalizing merged with
  | nil => rfl
  | cons t rest ih =>
    obtain ⟨above, sorted⟩ := List.pairwise_cons.1 sorted
    rw [List.foldl_cons, List.foldl_cons,
      joinLast_eq_collect ascending fun u hu => le u hu t List.mem_cons_self]
    -- what is collected stays at or below the indices still to come
    refine ih sorted (ascending_collect ascending) fun u hu t' ht' => ?_
    rcases index_of_mem_collect hu with same | ⟨u', mem, same⟩
    · exact same ▸ above t' ht'
    · exact same ▸ le u' mem t' (List.mem_cons_of_mem t ht')

/-- A sum so far, if there is one, and one more coefficient. -/
def gather (sofar : Option α) (coefficient : α) : Option α :=
  some (sofar.elim coefficient (· + coefficient))

theorem first?_collect (ascending : terms.Pairwise (·.index < ·.index)) :
    first? i (collect t terms) =
      if t.index = i then gather (first? i terms) t.coefficient else first? i terms := by
  induction terms with
  | nil => exact first?_cons t []
  | cons u rest ih =>
    obtain ⟨below, later⟩ := List.pairwise_cons.1 ascending
    rw [collect]
    split
    · rename_i less
      have absent : first? t.index (u :: rest) = none :=
        first?_eq_none (List.forall_mem_cons.2 ⟨less.ne', fun v hv => (less.trans (below v hv)).ne'⟩)
      rw [first?_cons]
      split
      · rename_i same
        rw [← same, absent]
        rfl
      · rfl
    · split
      · rename_i same
        rw [first?_cons, first?_cons, ← same]
        split <;> rfl
      · rename_i different
        rw [first?_cons, first?_cons, ih later]
        by_cases here : u.index = i
        · rw [if_pos here, if_pos here, if_neg fun same => different (same.trans here.symm)]
        · rw [if_neg here, if_neg here]

/-- What is collected on a variable is the sum of its own coefficients, from left to right. -/
theorem first?_foldl_collect {merged : List (Term α)}
    (ascending : merged.Pairwise (·.index < ·.index)) :
    first? i (terms.foldl (fun merged t => collect t merged) merged) =
      (coefficientsOn i terms).foldl gather (first? i merged) := by
  induction terms generalizing merged with
  | nil => rfl
  | cons t rest ih =>
    rw [List.foldl_cons, ih (ascending_collect ascending), first?_collect ascending, coefficientsOn,
      coefficientsOn, List.filter_cons]
    by_cases same : t.index = i <;> simp [same]

/-- Simplifying is sorting, joining the terms on one variable and dropping zeros. -/
theorem simplify_terms (f : LinearForm α) : f.simplify.terms =
    ((sorted f.terms).foldl joinLast []).filter fun t => t.coefficient != 0 := by
  have ascending (terms : List (Term α)) :
      (terms.foldl (fun merged t => collect t merged) []).Pairwise (·.index < ·.index) :=
    ascending_foldl_collect .nil
  rw [foldl_joinLast (pairwise_sorted f.terms) .nil (by simp), simplify]
  refine congrArg (List.filter _) (eq_of_first? (ascending _) (ascending _) fun i => ?_)
  rw [first?_foldl_collect .nil, first?_foldl_collect .nil, coefficientsOn_sorted]

end Joining

/-- A simplified form is ascending, without zeros, and keeps all total coefficients, and two
forms are simplified to the same terms exactly when their total coefficients are the same. -/
theorem simplify_normal (f g : LinearForm Rat) :
    f.simplify.terms.Pairwise (·.index < ·.index) ∧
      (∀ t ∈ f.simplify.terms, t.coefficient ≠ 0) ∧
      (∀ i, f.simplify.coefficient i = f.coefficient i) ∧
      ((f.simplify == g.simplify) = true ↔ ∀ i, f.coefficient i = g.coefficient i) ∧
      f.simplify.simplify = f.simplify ∧
      f.simplify.terms =
        ((sorted f.terms).foldl joinLast []).filter fun t => t.coefficient != 0 := by
  obtain ⟨ascending, nonzero⟩ := canonical_simplify f
  refine ⟨ascending, nonzero, coefficient_simplify f, ?_, ?_, simplify_terms f⟩
  · rw [beq_iff_eq, simplify_eq_iff]
  · rw [simplify_eq_iff]
    exact coefficient_simplify f

end LinearForm

end LinearProgram
