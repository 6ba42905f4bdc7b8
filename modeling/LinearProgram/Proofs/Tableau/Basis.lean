import Mathlib
import LinearProgram.Proofs.Tableau.Elimination
import LinearProgram.Tableau.Basis

/-!
# Reading the basis off the columns

Without a tolerance the least number, the greatest number and the sum of a
column recognise exactly the unit columns:

* `unitRow_eq_some_iff`: what is recognised; `unitRow_of_unit`, `unitRow_eq_none_of_lt`:
  what is and what is not recognised under a tolerance;
* `Sized.basis_eq_ok`, `Sized.exists_assignment`: over any scalars and under any
  tolerance, a sized table has a basis and an assignment to read;
* `ReadsBasis`, `Sized.basis`: a row gets its last unit column, or none when it
  has none;
* `combination`, `Sized.equation_combination`: the value of every equation at a
  combination of unit columns;
* `Sized.assignment`: the values that are read are such a combination.
-/

namespace LinearProgram.Tableau

/-- A unit column of the constraint rows, with its one in row `i`. -/
def UnitIn (t : Tableau Rat) (i c : Nat) : Prop :=
  ∀ k, 0 < k → t.get k c = if k = i then 1 else 0

/-- A unit column of the whole table, row 0 included. -/
def UnitColumn (t : Tableau Rat) (i c : Nat) : Prop := ∀ k, t.get k c = if k = i then 1 else 0

theorem unitIn_succ_iff {t : Tableau Rat} {i c : Nat} :
    t.UnitIn (i + 1) c ↔ ∀ k, t.get (k + 1) c = if k = i then 1 else 0 := by
  constructor
  · intro unit k
    simp [unit (k + 1) (Nat.succ_pos k)]
  · intro entries k pos
    obtain ⟨k, rfl⟩ := Nat.exists_eq_succ_of_ne_zero pos.ne'
    simp [entries]

theorem UnitColumn.unitIn {t : Tableau Rat} {i c : Nat} (h : t.UnitColumn i c) : t.UnitIn i c :=
  fun k _ => h k

theorem UnitIn.unitColumn {t : Tableau Rat} {i c : Nat} (h : t.UnitIn i c) (hi : 0 < i)
    (cost : t.get 0 c = 0) : t.UnitColumn i c := by
  intro k
  rcases Nat.eq_zero_or_pos k with rfl | hk
  · rw [cost, if_neg hi.ne]
  · exact h k hk

theorem UnitIn.row_eq {t : Tableau Rat} {i i' c : Nat} (h : t.UnitIn i c) (h' : t.UnitIn i' c)
    (hi : 0 < i) : i = i' := by
  have one := h i hi
  rw [h' i hi, if_pos rfl] at one
  by_contra different
  rw [if_neg different] at one
  exact zero_ne_one one

section Recognition

theorem spread_least (xs : List Rat) (least greatest total : Rat) :
    (spread least greatest total xs).1 ≤ least ∧
      (∀ x ∈ xs, (spread least greatest total xs).1 ≤ x) ∧
      ((spread least greatest total xs).1 = least ∨ (spread least greatest total xs).1 ∈ xs) := by
  induction xs generalizing least greatest total with
  | nil => simp [spread]
  | cons x xs ih =>
    rw [spread]
    obtain ⟨le, all, mem⟩ :=
      ih (if x < least then x else least) (if greatest < x then x else greatest) (total + x)
    split at le
    · rename_i less
      simp only [less, if_true] at all mem ⊢
      exact ⟨le.trans less.le, List.forall_mem_cons.2 ⟨le, all⟩, .inr (List.mem_cons.2 mem)⟩
    · rename_i notLess
      simp only [notLess, if_false] at all mem ⊢
      exact ⟨le, List.forall_mem_cons.2 ⟨le.trans (not_lt.1 notLess), all⟩,
        mem.imp_right (List.mem_cons_of_mem x)⟩

theorem spread_greatest (xs : List Rat) (least greatest total : Rat) :
    greatest ≤ (spread least greatest total xs).2.1 ∧
      (∀ x ∈ xs, x ≤ (spread least greatest total xs).2.1) ∧
      ((spread least greatest total xs).2.1 = greatest ∨
        (spread least greatest total xs).2.1 ∈ xs) := by
  induction xs generalizing least greatest total with
  | nil => simp [spread]
  | cons x xs ih =>
    rw [spread]
    obtain ⟨le, all, mem⟩ :=
      ih (if x < least then x else least) (if greatest < x then x else greatest) (total + x)
    split at le
    · rename_i more
      simp only [more, if_true] at all mem ⊢
      exact ⟨more.le.trans le, List.forall_mem_cons.2 ⟨le, all⟩, .inr (List.mem_cons.2 mem)⟩
    · rename_i notMore
      simp only [notMore, if_false] at all mem ⊢
      exact ⟨le, List.forall_mem_cons.2 ⟨(not_lt.1 notMore).trans le, all⟩,
        mem.imp_right (List.mem_cons_of_mem x)⟩

theorem spread_total (xs : List Rat) (least greatest total : Rat) :
    (spread least greatest total xs).2.2 = total + xs.sum := by
  induction xs generalizing least greatest total with
  | nil => simp [spread]
  | cons x xs ih => rw [spread, ih, List.sum_cons, add_assoc]

theorem isUnit_zero_iff {xs : List Rat} : isUnit 0 xs = true ↔
    (0 ∈ xs ∧ ∀ x ∈ xs, 0 ≤ x) ∧ (1 ∈ xs ∧ ∀ x ∈ xs, x ≤ 1) ∧ xs.sum = 1 := by
  cases xs with
  | nil => simp [isUnit]
  | cons x xs =>
    obtain ⟨le, all, mem⟩ := spread_least xs x x (0 + x)
    obtain ⟨ge, all', mem'⟩ := spread_greatest xs x x (0 + x)
    have total : (spread x x (0 + x) xs).2.2 = x + xs.sum := by rw [spread_total, zero_add]
    have least : ∀ y ∈ x :: xs, (spread x x (0 + x) xs).1 ≤ y := List.forall_mem_cons.2 ⟨le, all⟩
    have greatest : ∀ y ∈ x :: xs, y ≤ (spread x x (0 + x) xs).2.1 :=
      List.forall_mem_cons.2 ⟨ge, all'⟩
    have attained := List.mem_cons.2 mem
    have attained' := List.mem_cons.2 mem'
    simp only [isUnit, Bool.and_eq_true, near_zero_iff, total, List.sum_cons]
    constructor
    · rintro ⟨⟨zero, one⟩, sum⟩
      rw [zero] at least attained
      rw [one] at greatest attained'
      exact ⟨⟨attained, least⟩, ⟨attained', greatest⟩, sum⟩
    · rintro ⟨⟨zero, nonneg⟩, ⟨one, atMost⟩, sum⟩
      exact ⟨⟨le_antisymm (least 0 zero) (nonneg _ attained),
        le_antisymm (atMost _ attained') (greatest 1 one)⟩, sum⟩

theorem sum_range_map (f : Nat → Rat) (k : Nat) :
    ((List.range k).map f).sum = ∑ q ∈ Finset.range k, f q := rfl

/-- A tolerance only adds to what is recognised. -/
theorem isUnit_of_zero {ε : Rat} (nonneg : 0 ≤ ε) {xs : List Rat} (h : isUnit 0 xs = true) :
    isUnit ε xs = true := by
  cases xs with
  | nil => exact h
  | cons x xs =>
    simp only [isUnit, Bool.and_eq_true, near_zero_iff] at h
    obtain ⟨⟨least, greatest⟩, total⟩ := h
    simp only [isUnit, Bool.and_eq_true, near_iff, least, greatest, total, sub_self, abs_zero]
    exact ⟨⟨nonneg, nonneg⟩, nonneg⟩

/-- Below one, a tolerance does not hide a unit column or move its one. -/
theorem unitRow_of_unit (f : Nat → Rat) {ε : Rat} (nonneg : 0 ≤ ε) (small : ε < 1) {k p : Nat}
    (hp : 0 < p) (hpk : p < k) (unit : ∀ q < k, f q = if q = p then 1 else 0) :
    unitRow ε ((List.range k).map f) = some p := by
  have isUnit : isUnit 0 ((List.range k).map f) = true := by
    refine isUnit_zero_iff.2 ⟨⟨?_, ?_⟩, ⟨?_, ?_⟩, ?_⟩
    · exact List.mem_map.2
        ⟨0, List.mem_range.2 (by omega), by rw [unit 0 (by omega), if_neg hp.ne]⟩
    · intro x hx
      obtain ⟨q, hq, rfl⟩ := List.mem_map.1 hx
      rw [unit q (List.mem_range.1 hq)]
      split <;> norm_num
    · exact List.mem_map.2 ⟨p, List.mem_range.2 hpk, by rw [unit p hpk, if_pos rfl]⟩
    · intro x hx
      obtain ⟨q, hq, rfl⟩ := List.mem_map.1 hx
      rw [unit q (List.mem_range.1 hq)]
      split <;> norm_num
    · rw [sum_range_map, Finset.sum_congr rfl fun q hq => unit q (Finset.mem_range.1 hq),
        Finset.sum_ite_eq', if_pos (Finset.mem_range.2 hpk)]
  rw [unitRow, if_pos (isUnit_of_zero nonneg isUnit), List.findIdx?_eq_some_iff_getElem]
  refine ⟨by simpa using hpk, ?_, ?_⟩
  · rw [List.getElem_map, List.getElem_range, near_iff, unit p hpk, if_pos rfl, sub_self, abs_zero]
    exact nonneg
  · intro q hq
    rw [List.getElem_map, List.getElem_range, near_iff, unit q (by omega), if_neg hq.ne, zero_sub,
      abs_neg, abs_one]
    exact not_le.2 small

/-- A column with a number below minus the tolerance is not recognised. -/
theorem unitRow_eq_none_of_lt (f : Nat → Rat) {ε : Rat} {k q : Nat} (hq : q < k)
    (low : f q < -ε) : unitRow ε ((List.range k).map f) = none := by
  rw [unitRow, if_neg]
  intro recognised
  have member : f q ∈ (List.range k).map f := List.mem_map.2 ⟨q, List.mem_range.2 hq, rfl⟩
  cases column : (List.range k).map f with
  | nil => simp [column] at member
  | cons x xs =>
    obtain ⟨le, all, _⟩ := spread_least xs x x (0 + x)
    rw [column] at member recognised
    have least : (spread x x (0 + x) xs).1 ≤ f q := List.forall_mem_cons.2 ⟨le, all⟩ _ member
    simp only [isUnit, Bool.and_eq_true, near_iff, sub_zero] at recognised
    linarith [neg_abs_le (spread x x (0 + x) xs).1]

/-- A column is recognised in a row after the first exactly when it is a unit column there. -/
theorem unitRow_eq_some_iff (f : Nat → Rat) {k p : Nat} (hp : 0 < p) :
    unitRow 0 ((List.range k).map f) = some p ↔
      p < k ∧ ∀ q < k, f q = if q = p then 1 else 0 := by
  refine ⟨fun h => ?_, fun ⟨hpk, unit⟩ => unitRow_of_unit f le_rfl zero_lt_one hp hpk unit⟩
  unfold unitRow at h
  split at h
  · rename_i isUnit
    obtain ⟨⟨_, nonneg⟩, _, sum⟩ := isUnit_zero_iff.1 isUnit
    obtain ⟨hpk, one, _⟩ := List.findIdx?_eq_some_iff_getElem.1 h
    simp only [List.length_map, List.length_range] at hpk
    simp only [List.getElem_map, List.getElem_range, near_zero_iff] at one
    have nonneg : ∀ q ∈ Finset.range k, 0 ≤ f q := fun q hq =>
      nonneg _ (List.mem_map.2 ⟨q, List.mem_range.2 (Finset.mem_range.1 hq), rfl⟩)
    rw [sum_range_map, ← Finset.add_sum_erase _ _ (Finset.mem_range.2 hpk), one,
      add_eq_left, Finset.sum_eq_zero_iff_of_nonneg
        fun q hq => nonneg q (Finset.mem_of_mem_erase hq)] at sum
    refine ⟨hpk, fun q hq => ?_⟩
    split
    · rename_i same
      rw [same, one]
    · rename_i different
      exact sum q (Finset.mem_erase.2 ⟨different, Finset.mem_range.2 hq⟩)
  · exact nomatch h

theorem basicColumn_eq_some {units : List (Option Nat)} {row c : Nat}
    (h : basicColumn units row = some c) :
    units[c]? = some (some row) ∧ ∀ c', units[c']? = some (some row) → c' ≤ c := by
  obtain ⟨⟨found, c⟩, last, rfl⟩ := Option.map_eq_some_iff.1 h
  obtain ⟨before, split⟩ := List.getLast?_eq_some_iff.1 last
  have listed (e : Option Nat × Nat) :
      e ∈ before ++ [(found, c)] ↔ units[e.2]? = some e.1 ∧ e.1 = some row := by
    rw [← split, List.mem_filter, List.mem_zipIdx_iff_getElem?, beq_iff_eq]
  have sorted : ((before ++ [(found, c)]).map Prod.snd).Pairwise (· < ·) := by
    rw [← split]
    refine List.Pairwise.sublist (List.filter_sublist.map Prod.snd) ?_
    rw [List.zipIdx_map_snd]
    exact List.pairwise_lt_range'
  obtain ⟨at_c, rfl⟩ := (listed (found, c)).1 (by simp)
  refine ⟨at_c, fun c' hc' => ?_⟩
  have member := (listed (some row, c')).2 ⟨hc', rfl⟩
  rw [List.map_append, List.pairwise_append] at sorted
  rcases List.mem_append.1 member with early | same
  · exact (sorted.2.2 c' (List.mem_map.2 ⟨_, early, rfl⟩) c (by simp)).le
  · simp only [List.mem_singleton, Prod.mk.injEq, true_and] at same
    exact same.le

theorem basicColumn_eq_none {units : List (Option Nat)} {row : Nat}
    (h : basicColumn units row = none) (c : Nat) : units[c]? ≠ some (some row) := by
  intro hc
  have empty := List.getLast?_eq_none_iff.1 (Option.map_eq_none_iff.1 h)
  have member : (some row, c) ∈ units.zipIdx.filter fun unit => unit.1 == some row :=
    List.mem_filter.2 ⟨List.mk_mem_zipIdx_iff_getElem?.2 hc, beq_self_eq_true _⟩
  rw [empty] at member
  exact nomatch member

/-- The last column of a row is its basic one. -/
theorem basicColumn_eq_of_last {units : List (Option Nat)} {row c : Nat}
    (here : units[c]? = some (some row)) (last : ∀ c', c < c' → units[c']? ≠ some (some row)) :
    basicColumn units row = some c := by
  cases found : basicColumn units row with
  | none => exact absurd here (basicColumn_eq_none found c)
  | some c' =>
    obtain ⟨there, after⟩ := basicColumn_eq_some found
    rcases (after c here).eq_or_lt with same | later
    · rw [same]
    · exact absurd there (last c' later)

end Recognition

section Reading

variable {α : Type} [Scalar α] {t : Tableau α} {m n : Nat}

theorem Sized.column (sized : t.Sized m n) {j : Nat} (hj : j ≤ n) :
    t.column j = .ok ((List.range (m + 1)).map (t.get · j)) := by
  rw [Tableau.column, mapM_eq_ok (g := fun r => r[j]?.getD 0), sized.rows_eq, List.map_map]
  · rfl
  · intro r hr
    apply cell_eq_ok
    rw [sized.columns r hr]
    omega

theorem Sized.unitRows (sized : t.Sized m n) (ε : α) :
    t.unitRows ε =
      .ok ((List.range n).map fun j => unitRow ε ((List.range (m + 1)).map (t.get · j))) := by
  rw [Tableau.unitRows, sized.rhsColumn,
    mapM_eq_ok (g := fun j => (List.range (m + 1)).map (t.get · j)), ok_bind, List.map_map]
  · rfl
  · intro j hj
    exact sized.column (List.mem_range.1 hj).le

/-- Every constraint row is looked at, whatever the tolerance. -/
theorem Sized.basis_eq_ok (sized : t.Sized m n) (ε : α) :
    ∃ basis, t.basis ε = .ok basis ∧ basis.length = m := by
  rw [Tableau.basis, sized.unitRows, ok_bind, sized.height, Nat.add_sub_cancel]
  exact ⟨_, rfl, by simp⟩

theorem Sized.basis_length (sized : t.Sized m n) {ε : α} {basis : List (Option Nat)}
    (h : t.basis ε = .ok basis) : basis.length = m := by
  obtain ⟨basis', read, length⟩ := sized.basis_eq_ok ε
  obtain rfl : basis' = basis := by simpa [read] using h
  exact length

/-- Rows whose last recognised columns are known have these as their basic columns. -/
theorem Sized.basis_eq_of_last (sized : t.Sized m n) {ε : α} {basic : Nat → Nat}
    (inside : ∀ i < m, basic i < n)
    (here : ∀ i < m, unitRow ε ((List.range (m + 1)).map (t.get · (basic i))) = some (i + 1))
    (last : ∀ i < m, ∀ c < n, basic i < c →
      unitRow ε ((List.range (m + 1)).map (t.get · c)) ≠ some (i + 1)) :
    t.basis ε = .ok ((List.range m).map fun i => some (basic i)) := by
  rw [Tableau.basis, sized.unitRows, ok_bind, sized.height, Nat.add_sub_cancel]
  congr 1
  refine List.map_congr_left fun i hi => ?_
  have hi := List.mem_range.1 hi
  refine basicColumn_eq_of_last (map_range_eq_some.2 ⟨inside i hi, here i hi⟩) ?_
  intro c after found
  obtain ⟨hc, column⟩ := map_range_eq_some.1 found
  exact last i hi c hc after column

/-- Only columns of the variables are read. -/
theorem Sized.basis_lt (sized : t.Sized m n) {ε : α} {basis : List (Option Nat)}
    (h : t.basis ε = .ok basis) {i c : Nat} (found : basis[i]? = some (some c)) : c < n := by
  rw [Tableau.basis, sized.unitRows, ok_bind, sized.height, Nat.add_sub_cancel] at h
  injection h with h
  rw [← h] at found
  obtain ⟨_, column⟩ := map_range_eq_some.1 found
  exact (map_range_eq_some.1 (basicColumn_eq_some column).1).1

/-- What is assigned to columns one after the other. -/
def assign (values : List α) (item : Option Nat × α) : List α :=
  match item.1 with
  | some c => values.set c item.2
  | none => values

omit [Scalar α] in
theorem length_assign_foldl (items : List (Option Nat × α)) (values : List α) :
    (items.foldl assign values).length = values.length := by
  induction items generalizing values with
  | nil => rfl
  | cons e rest ih =>
    rw [List.foldl_cons, ih]
    unfold assign
    split <;> simp

theorem settle_eq_ok {items : List (Option Nat × List α)}
    (inside : ∀ e ∈ items, n < e.2.length) (values : List α) :
    settle n items values =
      .ok ((items.map fun e => (e.1, e.2[n]?.getD 0)).foldl assign values) := by
  induction items generalizing values with
  | nil => rfl
  | cons e rest ih =>
    have hrest : ∀ e ∈ rest, n < e.2.length := fun e he => inside e (List.mem_cons_of_mem _ he)
    obtain ⟨basic, r⟩ := e
    cases basic with
    | none => exact ih hrest values
    | some c =>
      rw [settle, cell_eq_ok (inside _ List.mem_cons_self), ok_bind]
      exact ih hrest _

theorem Sized.assignment_eq (sized : t.Sized m n) {ε : α} {basis : List (Option Nat)}
    (h : t.basis ε = .ok basis) : t.assignment ε =
      .ok (((basis.zip t.constraintRows).map fun e => (e.1, e.2[n]?.getD 0)).foldl assign
        (List.replicate n 0)) := by
  rw [Tableau.assignment, h, ok_bind, sized.rhsColumn, settle_eq_ok]
  rintro ⟨_, r⟩ he
  have := sized.columns r (List.mem_of_mem_tail (List.of_mem_zip he).2)
  simp only
  omega

/-- Every column is given a value, whatever the tolerance. -/
theorem Sized.exists_assignment (sized : t.Sized m n) (ε : α) :
    ∃ values, t.assignment ε = .ok values ∧ values.length = n := by
  obtain ⟨basis, read, _⟩ := sized.basis_eq_ok ε
  exact ⟨_, sized.assignment_eq read, by rw [length_assign_foldl, List.length_replicate]⟩

end Reading

variable {t : Tableau Rat} {m n : Nat}

/-- Every constraint row with its last unit column, if it has one. -/
structure ReadsBasis (t : Tableau Rat) (m n : Nat) (basis : List (Option Nat)) : Prop where
  length : basis.length = m
  found : ∀ i c, basis[i]? = some (some c) →
    c < n ∧ t.UnitColumn (i + 1) c ∧ ∀ c' < n, t.UnitColumn (i + 1) c' → c' ≤ c
  missing : ∀ i, basis[i]? = some none → ∀ c < n, ¬ t.UnitColumn (i + 1) c

theorem Sized.unitRow_iff (sized : t.Sized m n) {i j : Nat} :
    unitRow 0 ((List.range (m + 1)).map (t.get · j)) = some (i + 1) ↔
      i < m ∧ t.UnitColumn (i + 1) j := by
  rw [unitRow_eq_some_iff _ (Nat.succ_pos i), Nat.succ_lt_succ_iff]
  refine and_congr_right fun hi => ⟨fun unit k => ?_, fun unit k _ => unit k⟩
  by_cases hk : k < m + 1
  · exact unit k hk
  · rw [sized.get_eq_zero (.inl (by omega)), if_neg (by omega)]

/-- Without a tolerance the basis is read off exactly. -/
theorem Sized.basis (sized : t.Sized m n) :
    ∃ basis, t.basis 0 = .ok basis ∧ t.ReadsBasis m n basis := by
  let units := (List.range n).map fun j => unitRow 0 ((List.range (m + 1)).map (t.get · j))
  have unit_iff (i j : Nat) : units[j]? = some (some (i + 1)) ↔
      j < n ∧ i < m ∧ t.UnitColumn (i + 1) j := by
    rw [map_range_eq_some, sized.unitRow_iff]
  refine ⟨(List.range m).map fun i => basicColumn units (i + 1), ?_, ⟨by simp, ?_, ?_⟩⟩
  · rw [Tableau.basis, sized.unitRows, ok_bind, sized.height, Nat.add_sub_cancel]
  · intro i c h
    obtain ⟨hi, h⟩ := map_range_eq_some.1 h
    obtain ⟨at_c, last⟩ := basicColumn_eq_some h
    obtain ⟨hc, _, unit⟩ := (unit_iff i c).1 at_c
    exact ⟨hc, unit, fun c' hc' unit' => last c' ((unit_iff i c').2 ⟨hc', hi, unit'⟩)⟩
  · intro i h c hc unit
    obtain ⟨hi, h⟩ := map_range_eq_some.1 h
    exact basicColumn_eq_none h c ((unit_iff i c).2 ⟨hc, hi, unit⟩)

/-- A weight on the basic column of every row. -/
def combination (m : Nat) (basic : Nat → Option Nat) (weight : Nat → Rat) : Nat → Rat := fun j =>
  ∑ i ∈ Finset.range m, if basic (i + 1) = some j then weight (i + 1) else 0

/-- Only columns that are listed have a weight. -/
theorem exists_of_combination_ne_zero {basic : Nat → Option Nat} {weight : Nat → Rat} {j : Nat}
    (h : combination m basic weight j ≠ 0) : ∃ i < m, basic (i + 1) = some j := by
  obtain ⟨i, hi, nonzero⟩ := Finset.exists_ne_zero_of_sum_ne_zero h
  refine ⟨i, Finset.mem_range.1 hi, ?_⟩
  by_contra other
  exact nonzero (if_neg other)

theorem combination_eq_sum (basic : Nat → Option Nat) (weight : Nat → Rat) :
    combination m basic weight =
      ∑ i ∈ Finset.range m, (basic (i + 1)).elim 0 fun c => weight (i + 1) • unit c := by
  funext j
  rw [Finset.sum_apply]
  apply Finset.sum_congr rfl
  intro i _
  cases basic (i + 1) with
  | none => rfl
  | some c => simp [Pi.single_apply, eq_comm]

/-- At a combination of unit columns, a constraint row has its own weight. -/
theorem Sized.equation_combination (sized : t.Sized m n) {basic : Nat → Option Nat}
    (inside : ∀ i c, 0 < i → i ≤ m → basic i = some c → c < n) (weight : Nat → Rat) (k : Nat) :
    t.equation k (combination m basic weight) =
      ∑ i ∈ Finset.range m, (basic (i + 1)).elim 0 fun c => t.get k c * weight (i + 1) := by
  rw [sized.equation_apply]
  simp only [combination, Finset.mul_sum]
  rw [Finset.sum_comm]
  apply Finset.sum_congr rfl
  intro i hi
  cases h : basic (i + 1) with
  | none => simp
  | some c =>
    have hc := inside (i + 1) c (Nat.succ_pos i) (Finset.mem_range.1 hi) h
    simp only [Option.some.injEq, mul_ite, mul_zero, Option.elim_some]
    rw [Finset.sum_ite_eq, if_pos (Finset.mem_range.2 (by omega))]

/-- At a combination of unit columns, a constraint row has the weight of its own. -/
theorem Sized.equation_combination_unitIn (sized : t.Sized m n) {basic : Nat → Option Nat}
    (units : ∀ i c, 0 < i → i ≤ m → basic i = some c → c < n ∧ t.UnitIn i c)
    (weight : Nat → Rat) {k : Nat} (hk : 0 < k) (hkm : k ≤ m) :
    t.equation k (combination m basic weight) = if (basic k).isSome then weight k else 0 := by
  obtain ⟨k, rfl⟩ := Nat.exists_eq_succ_of_ne_zero hk.ne'
  rw [sized.equation_combination fun i c hi hm h => (units i c hi hm h).1,
    Finset.sum_eq_single_of_mem k (Finset.mem_range.2 hkm)]
  · cases h : basic (k + 1) with
    | none => simp
    | some c => simp [(units (k + 1) c hk hkm h).2 (k + 1) hk]
  · intro i hi different
    cases h : basic (i + 1) with
    | none => rfl
    | some c =>
      have unit := (units (i + 1) c (Nat.succ_pos i) (Finset.mem_range.1 hi) h).2
      rw [Option.elim_some, unit (k + 1) hk, if_neg (by omega), zero_mul]

/-- At a combination of unit columns of the whole table, row 0 vanishes. -/
theorem Sized.price_combination (sized : t.Sized m n) {basic : Nat → Option Nat}
    (units : ∀ i c, 0 < i → i ≤ m → basic i = some c → c < n ∧ t.UnitColumn i c)
    (weight : Nat → Rat) : t.equation 0 (combination m basic weight) = 0 := by
  rw [sized.equation_combination fun i c hi hm h => (units i c hi hm h).1]
  apply Finset.sum_eq_zero
  intro i hi
  cases h : basic (i + 1) with
  | none => rfl
  | some c =>
    have unit := (units (i + 1) c (Nat.succ_pos i) (Finset.mem_range.1 hi) h).2
    rw [Option.elim_some, unit 0, if_neg (by omega), zero_mul]

theorem combination_nonneg {basic : Nat → Option Nat} {weight : Nat → Rat}
    (nonneg : ∀ i, 0 < i → i ≤ m → 0 ≤ weight i) (j : Nat) : 0 ≤ combination m basic weight j := by
  apply Finset.sum_nonneg
  intro i hi
  split
  · exact nonneg (i + 1) (Nat.succ_pos i) (Finset.mem_range.1 hi)
  · exact le_rfl

/-- When no column is assigned twice, every column has the sum of what it is assigned. -/
theorem assign_foldl (items : List (Option Nat × Rat)) (values : List Rat) {j : Nat}
    (hj : j < values.length)
    (once : items.Pairwise fun e e' => e.1 = some j → e'.1 ≠ some j)
    (fresh : (∃ e ∈ items, e.1 = some j) → values[j]?.getD 0 = 0) :
    (items.foldl assign values)[j]?.getD 0 =
      values[j]?.getD 0 + (items.map fun e => if e.1 = some j then e.2 else 0).sum := by
  induction items generalizing values with
  | nil => simp
  | cons e rest ih =>
    obtain ⟨later, onceRest⟩ := List.pairwise_cons.1 once
    rw [List.foldl_cons, List.map_cons, List.sum_cons]
    obtain ⟨basic, r⟩ := e
    by_cases here : basic = some j
    · subst here
      have none (e) (he : e ∈ rest) : e.1 ≠ some j := later e he rfl
      have rest_zero : (rest.map fun e => if e.1 = some j then e.2 else 0).sum = 0 := by
        apply List.sum_eq_zero
        intro x hx
        obtain ⟨e, he, rfl⟩ := List.mem_map.1 hx
        rw [if_neg (none e he)]
      rw [ih _ (by simpa [assign] using hj) onceRest
        (fun ⟨e, he, same⟩ => absurd same (none e he)), rest_zero,
        fresh ⟨_, List.mem_cons_self, rfl⟩]
      simp [assign, hj]
    · have same : (assign values (basic, r))[j]?.getD 0 = values[j]?.getD 0 := by
        unfold assign
        cases basic with
        | none => rfl
        | some c => rw [List.getElem?_set_ne (fun h => here (by rw [h]))]
      have length : j < (assign values (basic, r)).length := by
        have := length_assign_foldl [(basic, r)] values
        simp only [List.foldl_cons, List.foldl_nil] at this
        omega
      rw [ih _ length onceRest
        (fun ⟨e, he, h⟩ => same ▸ fresh ⟨e, List.mem_cons_of_mem _ he, h⟩), same, if_neg here,
        zero_add]

/-- The values that are read give the columns of the basis the right-hand sides of
their rows. -/
theorem Sized.assignment (sized : t.Sized m n) {basis : List (Option Nat)}
    (h : t.basis 0 = .ok basis) (reads : t.ReadsBasis m n basis) :
    ∃ values, t.assignment 0 = .ok values ∧ values.length = n ∧
      ∀ j, values[j]?.getD 0 =
        combination m (fun i => (basis[i - 1]?).join) (t.get · n) j := by
  have pairs : (basis.zip t.constraintRows).map (fun e => (e.1, e.2[n]?.getD 0)) =
      (List.range m).map fun i => ((basis[i]?).join, t.get (i + 1) n) := by
    have listed : basis = (List.range m).map fun i => (basis[i]?).join := by
      conv_lhs => rw [eq_map_range basis none, reads.length]
      exact List.map_congr_left fun i _ => by cases basis[i]? <;> rfl
    conv_lhs => rw [listed, sized.constraintRows, List.zip_map', List.map_map]
    rfl
  have basic (i c : Nat) (h : (basis[i]?).join = some c) : t.UnitColumn (i + 1) c :=
    (reads.found i c (Option.join_eq_some_iff.1 h)).2.1
  refine ⟨((basis.zip t.constraintRows).map fun e => (e.1, e.2[n]?.getD 0)).foldl assign
    (List.replicate n 0), ?_, ?_, fun j => ?_⟩
  · exact sized.assignment_eq h
  · rw [length_assign_foldl, List.length_replicate]
  · by_cases hj : j < n
    · rw [pairs, assign_foldl _ _ (by simpa using hj) _ (fun _ => by simp [hj]), List.map_map]
      · simp only [List.getElem?_replicate, hj, if_true, Option.getD_some, zero_add]
        exact sum_range_map _ m
      · rw [List.pairwise_map]
        refine List.nodup_range.imp_of_mem fun _ _ different first second => different ?_
        exact Nat.succ_injective
          ((basic _ j first).unitIn.row_eq (basic _ j second).unitIn (Nat.succ_pos _))
    · rw [List.getElem?_eq_none (by rw [length_assign_foldl, List.length_replicate]; omega)]
      symm
      apply Finset.sum_eq_zero
      intro i _
      rw [if_neg]
      intro same
      exact hj (reads.found i j (Option.join_eq_some_iff.1 same)).1

end LinearProgram.Tableau
