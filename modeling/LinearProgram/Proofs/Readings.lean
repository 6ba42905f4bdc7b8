import Mathlib
import LinearProgram.Proofs.Canonical
import LinearProgram.Proofs.Tableau.Sized

/-!
# Readings of a form

Single coefficients, rows of coefficients and values under an assignment are read by loops
of their own, which come to the same on every layout of the terms:

* `denseRow_eq_ok`, `eval_eq_dot`: a row holds the single coefficients, and a value is the
  product of a row with the assignment;
* `IsLinear`, `readings_agree`: so all readings follow the operations on forms, as far as
  there are rows (`wideRow_unread`);
* `all_near_occurring_iff`, `all_near_rows_iff`: the indices that occur, or two rows that are
  wide enough for both, show every difference between two forms;
* `isEquivalent_eq_rows`, `isEquivalent_iff`: hence equivalence is a comparison of rows, and
  is decided by the total coefficients alone.
-/

namespace LinearProgram.LinearForm

variable {f g f' g' : LinearForm Rat} {ε : Rat} {i width : Nat}

theorem coefficients_eq_map (f : LinearForm Rat) (width : Nat) :
    f.coefficients width = (List.range width).map f.coefficient := by
  rw [Tableau.eq_map_range (f.coefficients width) 0, length_coefficients]
  apply List.map_congr_left
  intro i hi
  rw [f.getD_coefficients (List.mem_range.1 hi), coefficient_eq_value]

/-- A row that can be stored holds the single coefficients. -/
theorem denseRow_eq_ok {row : List Rat} : f.denseRow width = .ok row ↔
    width < widthLimit ∧ row = (List.range width).map f.coefficient := by
  rw [denseRow, coefficients_eq_map]
  split
  · rename_i narrow
    rw [Except.ok.injEq, eq_comm, and_iff_right narrow]
  · rename_i wide
    simp [wide]

theorem denseRow_of_lt (narrow : width < widthLimit) (f : LinearForm Rat) :
    f.denseRow width = .ok ((List.range width).map f.coefficient) := denseRow_eq_ok.2 ⟨narrow, rfl⟩

/-- An assignment is the sum of its values on the unit vectors. -/
theorem valuation_eq_sum (assignment : List Rat) : valuation assignment =
    ∑ i ∈ Finset.range assignment.length, valuation assignment i • Pi.single i 1 := by
  funext j
  by_cases inside : j < assignment.length
  · simp [Finset.sum_apply, Pi.single_apply, inside]
  · simp [Finset.sum_apply, Pi.single_apply, inside, valuation]

/-- The value of a form is the product of its row of coefficients with the assignment. -/
theorem eval_eq_dot {assignment row : List Rat} (reads : f.denseRow assignment.length = .ok row) :
    f.eval assignment = (List.zipWith (· * ·) row assignment).sum := by
  obtain ⟨_, rfl⟩ := denseRow_eq_ok.1 reads
  have values : assignment = (List.range assignment.length).map (valuation assignment) :=
    Tableau.eq_map_range assignment 0
  calc f.eval assignment
      = ∑ i ∈ Finset.range assignment.length, valuation assignment i * f.coefficient i := by
        rw [eval_eq_value]
        conv_lhs => rw [valuation_eq_sum, map_sum]
        simp only [map_smul, smul_eq_mul, coefficient_eq_value]
    _ = ((List.range assignment.length).map fun i =>
          f.coefficient i * valuation assignment i).sum := by
        simp only [mul_comm (valuation assignment _)]
        rfl
    _ = (List.zipWith (· * ·) ((List.range assignment.length).map f.coefficient)
          assignment).sum := by
        conv_rhs => rw [values]
        simp only [List.length_map, List.length_range, List.zipWith_map, List.zipWith_self]

theorem value_add (f g : LinearForm Rat) : (f + g).value = f.value + g.value :=
  total_append f.terms g.terms

theorem value_sub (f g : LinearForm Rat) : (f - g).value = f.value - g.value := by
  rw [sub_eq_add_neg, ← value_neg]
  exact value_add f (-g)

/-- A reading takes the operations on forms to those on numbers. -/
structure IsLinear (read : LinearForm Rat → Rat) : Prop where
  add : ∀ f g, read (f + g) = read f + read g
  sub : ∀ f g, read (f - g) = read f - read g
  scale : ∀ f k, read (f.scale k) = k * read f
  neg : ∀ f, read (-f) = -read f

theorem isLinear_value (v : Nat → Rat) : IsLinear (·.value v) where
  add f g := by simp [value_add]
  sub f g := by simp [value_sub]
  scale f k := by simp [value_scale]
  neg f := by simp [value_neg]

theorem isLinear_coefficient (i : Nat) : IsLinear (·.coefficient i) := by
  simp only [coefficient_eq_value]
  exact isLinear_value _

theorem isLinear_eval (assignment : List Rat) : IsLinear (·.eval assignment) := by
  simp only [eval_eq_value]
  exact isLinear_value _

section Rows

variable {row row' : List Rat}

/-- What holds of single coefficients holds of the entries of two rows. -/
theorem denseRow_zipWith (reads : f.denseRow width = .ok row) (reads' : g.denseRow width = .ok row')
    {op : Rat → Rat → Rat} (single : ∀ i, f'.coefficient i = op (f.coefficient i) (g.coefficient i)) :
    f'.denseRow width = .ok (List.zipWith op row row') := by
  obtain ⟨narrow, rfl⟩ := denseRow_eq_ok.1 reads
  obtain ⟨_, rfl⟩ := denseRow_eq_ok.1 reads'
  refine denseRow_eq_ok.2 ⟨narrow, ?_⟩
  rw [List.zipWith_map, List.zipWith_self]
  exact List.map_congr_left fun i _ => (single i).symm

theorem denseRow_map (reads : f.denseRow width = .ok row) {op : Rat → Rat}
    (single : ∀ i, f'.coefficient i = op (f.coefficient i)) :
    f'.denseRow width = .ok (row.map op) := by
  obtain ⟨narrow, rfl⟩ := denseRow_eq_ok.1 reads
  refine denseRow_eq_ok.2 ⟨narrow, ?_⟩
  rw [List.map_map]
  exact List.map_congr_left fun i _ => (single i).symm

end Rows

/-- Forms have rows of every width that can be stored. A row holds the single coefficients, and
adding, subtracting, scaling and negating forms does the same to their rows. The value under an
assignment is its product with the row as wide as it is long. Single coefficients and values
follow the operations on forms too. -/
theorem readings_agree (f g : LinearForm Rat) (k : Rat) (assignment : List Rat)
    (narrow : width < widthLimit) (stored : assignment.length < widthLimit) :
    (∃ row row', f.denseRow width = .ok row ∧ g.denseRow width = .ok row' ∧
        row.length = width ∧ (∀ i < width, row[i]? = some (f.coefficient i)) ∧
        (f + g).denseRow width = .ok (List.zipWith (· + ·) row row') ∧
        (f - g).denseRow width = .ok (List.zipWith (· - ·) row row') ∧
        (f.scale k).denseRow width = .ok (row.map (k * ·)) ∧
        (-f).denseRow width = .ok (row.map (-·))) ∧
      (∃ row, f.denseRow assignment.length = .ok row ∧
        f.eval assignment = (List.zipWith (· * ·) row assignment).sum) ∧
      (∀ i, IsLinear (·.coefficient i)) ∧
      (∀ values, IsLinear (·.eval values)) := by
  have reads := denseRow_of_lt narrow f
  have reads' := denseRow_of_lt narrow g
  have whole := denseRow_of_lt stored f
  refine ⟨⟨_, _, reads, reads', by simp, fun i inside => by simp [inside], ?_, ?_, ?_, ?_⟩,
    ⟨_, whole, eval_eq_dot whole⟩, isLinear_coefficient, isLinear_eval⟩
  · exact denseRow_zipWith reads reads' fun i => (isLinear_coefficient i).add f g
  · exact denseRow_zipWith reads reads' fun i => (isLinear_coefficient i).sub f g
  · exact denseRow_map reads fun i => (isLinear_coefficient i).scale f k
  · exact denseRow_map reads fun i => (isLinear_coefficient i).neg f

/-- Twice the first variable, in two terms, and a little of the fourth. -/
def scattered : LinearForm Rat := ⟨[⟨0, 1⟩, ⟨3, 1 / 10 ^ 9⟩, ⟨0, 1⟩]⟩

/-- Twice the first variable. -/
def doubled : LinearForm Rat := ⟨[⟨0, 2⟩]⟩

/-- The term past the row and the assignment is in neither, and the two terms on the first
variable are added up in both. -/
theorem scattered_readings : 2 < widthLimit ∧ [(5 : Rat)].length < widthLimit ∧
    scattered.denseRow 2 = .ok [2, 0] ∧ doubled.denseRow 2 = .ok [2, 0] ∧
    (scattered + doubled).denseRow 2 = .ok [4, 0] ∧ (scattered.scale 3).denseRow 2 = .ok [6, 0] ∧
    scattered.eval [5] = 10 ∧ (scattered - doubled).eval [5] = 0 := by
  have narrow : 2 < widthLimit := by decide
  have stored : [(5 : Rat)].length < widthLimit := by decide
  have first : scattered.denseRow 2 = .ok [2, 0] := by decide +kernel
  have second : doubled.denseRow 2 = .ok [2, 0] := by decide +kernel
  have value : scattered.eval [5] = 10 := by decide +kernel
  have value' : doubled.eval [5] = 10 := by decide +kernel
  obtain ⟨⟨row, row', reads, reads', _, _, add, _, scale, _⟩, _, _, linear⟩ :=
    readings_agree scattered doubled 3 [5] narrow stored
  obtain rfl := Except.ok.inj (first.symm.trans reads)
  obtain rfl := Except.ok.inj (second.symm.trans reads')
  refine ⟨narrow, stored, first, second, add.trans ?_, scale.trans ?_, value, ?_⟩
  · decide +kernel
  · decide +kernel
  · rw [(linear [5]).sub, value, value', sub_self]

/-- A word can ask for a row that does not exist. -/
theorem wideRow_unread : widthLimit < Nat.pow 2 64 ∧
    (single 0 1 : LinearForm Rat).denseRow widthLimit = .error (.tooWide widthLimit) ∧
    ¬ ∀ (f : LinearForm Rat) (width : Nat), width < Nat.pow 2 64 →
      ∃ row, f.denseRow width = .ok row ∧ ∀ i < width, row[i]? = some (f.coefficient i) := by
  have word : widthLimit < Nat.pow 2 64 := by decide
  have refused : (single 0 1 : LinearForm Rat).denseRow widthLimit = .error (.tooWide widthLimit) :=
    if_neg (lt_irrefl _)
  refine ⟨word, refused, fun every => ?_⟩
  obtain ⟨row, reads, _⟩ := every (single 0 1) widthLimit word
  exact nomatch refused.symm.trans reads

theorem coefficient_eq_zero (absent : ∀ t ∈ f.terms, t.index ≠ i) : f.coefficient i = 0 := by
  rw [coefficient_eq_value]
  exact total_single_of_ne absent

/-- Forms do not differ on a variable that occurs in neither. -/
theorem close_of_absent (nonneg : 0 ≤ ε) (absent : ∀ t ∈ (f + g).terms, t.index ≠ i) :
    |f.coefficient i - g.coefficient i| ≤ ε := by
  obtain ⟨left, right⟩ := List.forall_mem_append.1 absent
  rwa [coefficient_eq_zero left, coefficient_eq_zero right, sub_self, abs_zero]

theorem all_near_occurring_iff (nonneg : 0 ≤ ε) (f g : LinearForm Rat) :
    ((f + g).terms.all fun t => near ε (f.coefficient t.index) (g.coefficient t.index)) = true ↔
      ∀ i, |f.coefficient i - g.coefficient i| ≤ ε := by
  simp only [List.all_eq_true, near_iff]
  constructor
  · intro close i
    by_cases occurs : ∃ t ∈ (f + g).terms, t.index = i
    · obtain ⟨t, ht, rfl⟩ := occurs
      exact close t ht
    · exact close_of_absent nonneg fun t ht same => occurs ⟨t, ht, same⟩
  · exact fun close t _ => close t.index

theorem all_near_rows_iff (nonneg : 0 ≤ ε) (within : (f + g).Within width) :
    ((((List.range width).map f.coefficient).zip ((List.range width).map g.coefficient)).all
        fun x => near ε x.1 x.2) = true ↔ ∀ i, |f.coefficient i - g.coefficient i| ≤ ε := by
  simp only [List.zip_map', List.all_map, List.all_eq_true, List.mem_range, Function.comp_apply,
    near_iff]
  constructor
  · intro close i
    by_cases inside : i < width
    · exact close i inside
    · exact close_of_absent nonneg fun t ht same => inside (same ▸ within t ht)
  · exact fun close i _ => close i

/-- The least width of rows that hold every variable of two forms. -/
def rowWidth {α : Type} (f g : LinearForm α) : Nat :=
  (max f.maxIndex? g.maxIndex?).elim 0 (· + 1)

theorem maxIndex?_add {α : Type} (f g : LinearForm α) :
    (f + g).maxIndex? = max f.maxIndex? g.maxIndex? := by
  have append (xs ys : List Nat) : (xs ++ ys).max? = max xs.max? ys.max? := by
    induction xs with
    | nil => simp
    | cons x xs ih =>
      rw [List.cons_append, List.max?_cons, List.max?_cons, ih]
      cases xs.max? <;> cases ys.max? <;> simp [max_assoc]
  change ((f.terms ++ g.terms).map Term.index).max? = _
  rw [List.map_append, append]
  rfl

/-- Looking at the indices that occur is comparing rows wide enough for both forms. -/
theorem isEquivalent_eq_rows (nonneg : 0 ≤ ε) (f g : LinearForm Rat) :
    f.isEquivalent ε g = (do
      let row ← f.denseRow (rowWidth f g)
      let row' ← g.denseRow (rowWidth f g)
      .ok ((row.zip row').all fun x => near ε x.1 x.2)) := by
  rw [isEquivalent, rowWidth, ← maxIndex?_add]
  cases largest : (f + g).maxIndex? with
  | none =>
    rw [Option.elim_none, denseRow_of_lt (by decide), denseRow_of_lt (by decide)]
    rfl
  | some last =>
    have within : (f + g).Within (last + 1) := within_of_maxIndex? (by simp [largest])
    rw [Option.elim_some]
    by_cases narrow : last + 1 < widthLimit
    · rw [denseRow_of_lt narrow, denseRow_of_lt narrow, ok_bind, ok_bind]
      refine (if_pos narrow).trans (congrArg Except.ok (Bool.eq_iff_iff.2 ?_))
      rw [all_near_occurring_iff nonneg, all_near_rows_iff nonneg within]
    · rw [denseRow, if_neg narrow]
      exact if_neg narrow

/-- Forms without too large an index get an answer, which the total coefficients decide. -/
theorem exists_isEquivalent (nonneg : 0 ≤ ε) (narrow : f.Within (widthLimit - 1))
    (narrow' : g.Within (widthLimit - 1)) : ∃ same, f.isEquivalent ε g = .ok same ∧
      (same = true ↔ ∀ i, |f.coefficient i - g.coefficient i| ≤ ε) := by
  refine ⟨_, ?_, all_near_occurring_iff nonneg f g⟩
  rw [isEquivalent]
  cases largest : (f + g).maxIndex? with
  | none =>
    have empty : (f + g).terms = [] := by simpa [maxIndex?] using largest
    rw [empty]
    rfl
  | some last =>
    obtain ⟨t, ht, rfl⟩ := List.mem_map.1 (List.max?_mem largest)
    have below : t.index < widthLimit - 1 := (List.mem_append.1 ht).elim (narrow t) (narrow' t)
    exact if_pos (by omega)

/-- Forms that differ as much on every variable get the same answer. -/
theorem isEquivalent_congr (nonneg : 0 ≤ ε) (narrow : f.Within (widthLimit - 1))
    (narrow' : g.Within (widthLimit - 1)) {f' g' : LinearForm Rat}
    (other : f'.Within (widthLimit - 1)) (other' : g'.Within (widthLimit - 1))
    (same : ∀ i, |f'.coefficient i - g'.coefficient i| = |f.coefficient i - g.coefficient i|) :
    f'.isEquivalent ε g' = f.isEquivalent ε g := by
  obtain ⟨answer, computed, means⟩ := exists_isEquivalent nonneg narrow narrow'
  obtain ⟨answer', computed', means'⟩ := exists_isEquivalent nonneg other other'
  rw [computed, computed', Except.ok.injEq, Bool.eq_iff_iff, means, means']
  simp only [same]

theorem coefficient_perm (perm : f'.terms.Perm f.terms) (i : Nat) :
    f'.coefficient i = f.coefficient i := by
  rw [coefficient, coefficient, sum_eq_sum, sum_eq_sum]
  exact ((perm.filter _).map _).sum_eq

/-- As long as a row that holds all variables can be stored, two forms are equivalent exactly
when their total coefficients differ by no more than the tolerance on every variable. So it
matters neither which form comes first nor how the terms are arranged or simplified, and
the answer is that of comparing two rows as wide as the larger of the forms. -/
theorem isEquivalent_iff (nonneg : 0 ≤ ε) (narrow : f.Within (widthLimit - 1))
    (narrow' : g.Within (widthLimit - 1)) :
    (∃ same, f.isEquivalent ε g = .ok same ∧
        (same = true ↔ ∀ i, |f.coefficient i - g.coefficient i| ≤ ε)) ∧
      g.isEquivalent ε f = f.isEquivalent ε g ∧
      f.simplify.isEquivalent ε g = f.isEquivalent ε g ∧
      f.isEquivalent ε g.simplify = f.isEquivalent ε g ∧
      (∀ f' g' : LinearForm Rat, f'.terms.Perm f.terms → g'.terms.Perm g.terms →
        f'.isEquivalent ε g' = f.isEquivalent ε g) ∧
      f.isEquivalent ε g = (do
        let row ← f.denseRow (rowWidth f g)
        let row' ← g.denseRow (rowWidth f g)
        .ok ((row.zip row').all fun x => near ε x.1 x.2)) := by
  refine ⟨exists_isEquivalent nonneg narrow narrow', ?_, ?_, ?_, ?_, isEquivalent_eq_rows nonneg f g⟩
  · exact isEquivalent_congr nonneg narrow narrow' narrow' narrow fun i => abs_sub_comm _ _
  · refine isEquivalent_congr nonneg narrow narrow' narrow.simplify narrow' fun i => ?_
    rw [coefficient_simplify]
  · refine isEquivalent_congr nonneg narrow narrow' narrow narrow'.simplify fun i => ?_
    rw [coefficient_simplify]
  · intro f' g' perm perm'
    refine isEquivalent_congr nonneg narrow narrow' (fun t ht => narrow t (perm.subset ht))
      (fun t ht => narrow' t (perm'.subset ht)) fun i => ?_
    rw [coefficient_perm perm, coefficient_perm perm']

/-- The little that only one side has is just within the tolerance. -/
theorem scattered_isEquivalent_iff : (0 : Rat) ≤ 1 / 10 ^ 9 ∧
    scattered.Within (widthLimit - 1) ∧ doubled.Within (widthLimit - 1) ∧
    scattered.isEquivalent (1 / 10 ^ 9) doubled = .ok true ∧
    doubled.isEquivalent (1 / 10 ^ 9) scattered = .ok true ∧
    ∀ i, |scattered.coefficient i - doubled.coefficient i| ≤ 1 / 10 ^ 9 := by
  have nonneg : (0 : Rat) ≤ 1 / 10 ^ 9 := by norm_num
  have narrow : scattered.Within (widthLimit - 1) := by
    unfold Within
    decide
  have narrow' : doubled.Within (widthLimit - 1) := by
    unfold Within
    decide
  have computed : scattered.isEquivalent (1 / 10 ^ 9) doubled = .ok true := by decide +kernel
  obtain ⟨⟨same, answer, means⟩, swapped, _⟩ := isEquivalent_iff nonneg narrow narrow'
  obtain rfl : true = same := Except.ok.inj (computed.symm.trans answer)
  exact ⟨nonneg, narrow, narrow', computed, swapped.trans computed, means.1 rfl⟩

/-- The least index that no row can reach, although it fits into a word. -/
def distant : LinearForm Rat := single (widthLimit - 1) 1

/-- A form whose row would be too wide is not even found equivalent to itself. -/
theorem distant_unanswered : widthLimit - 1 < Nat.pow 2 64 - 1 ∧
    distant.isEquivalent (1 / 10 ^ 9) distant = .error (.tooWide widthLimit) ∧
    ¬ (distant.isEquivalent (1 / 10 ^ 9) distant = .ok true ↔
      ∀ i, |distant.coefficient i - distant.coefficient i| ≤ 1 / 10 ^ 9) := by
  have refused : distant.isEquivalent (1 / 10 ^ 9) distant = .error (.tooWide widthLimit) := by
    decide +kernel
  refine ⟨by decide, refused, fun decides => ?_⟩
  have close (i : Nat) : |distant.coefficient i - distant.coefficient i| ≤ 1 / 10 ^ 9 := by
    rw [sub_self, abs_zero]
    norm_num
  exact nomatch refused.symm.trans (decides.2 close)

end LinearProgram.LinearForm
