import Mathlib
import LinearProgram.Proofs.Rational
import LinearProgram.Proofs.Tableau.Sized
import LinearProgram.Tableau.Pivot

/-!
# Elimination keeps the system

A row of a table is a linear functional on vectors of columns, `equation`. A
point with value `-1` in the right-hand column satisfies a constraint row when
its equation vanishes there, so one statement covers points, directions and
differences of columns:

* `Sized.pivot`, `Sized.get_pivot`, `Sized.get_pivot_column`: the numbers of a
  pivoted table;
* `Sized.canonicalize`: the constraint rows stay and row 0 loses a combination
  of the listed ones, which leaves at most the tolerance in listed columns;
* `Equivalent`: two tables have the same solutions and price them alike;
  `equivalent_pivot`, `equivalent_canonicalize`.
-/

namespace LinearProgram.Tableau

section Shape

variable {α : Type} [Scalar α] {t : Tableau α} {m n : Nat}

@[simp] theorem length_subtractMultiple {factor : α} {source row : List α}
    (h : source.length = row.length) :
    (subtractMultiple factor source row).length = row.length := by
  simp [subtractMultiple, h]

theorem get_subtractMultiple {factor : α} {source row : List α} {j : Nat}
    (h : source.length = row.length) (hj : j < row.length) :
    (subtractMultiple factor source row)[j]?.getD 0 =
      row[j]?.getD 0 - factor * source[j]?.getD 0 := by
  simp [subtractMultiple, hj, h]

/-- What clearing a column does to the row at one position. -/
def eliminated (t : Tableau α) (i c k : Nat) (r : List α) : List α :=
  if k = i then (t.line i).map (· / t.get i c)
  else if r[c]?.getD 0 == 0 then r
  else subtractMultiple (r[c]?.getD 0) ((t.line i).map (· / t.get i c)) r

theorem Sized.pivot_eq (sized : t.Sized m n) {i c : Nat} (hi : i ≤ m) (hc : c ≤ n) :
    t.pivot i c = .ok ⟨t.rows.zipIdx.map fun (r, k) => t.eliminated i c k r⟩ := by
  rw [Tableau.pivot, sized.row hi, ok_bind, sized.cell_line hi hc, ok_bind]
  dsimp only
  rw [mapM_eq_ok (g := fun e => t.eliminated i c e.2 e.1), ok_bind]
  rintro ⟨r, k⟩ hr
  have hlen := sized.columns r (List.fst_mem_of_mem_zipIdx hr)
  by_cases hk : k = i
  · simp [hk, eliminated]
  · simp only [hk, if_false, clear, eliminated]
    rw [cell_eq_ok (by omega), ok_bind]

theorem Sized.length_eliminated (sized : t.Sized m n) {i c k : Nat} (hi : i ≤ m) {r : List α}
    (hr : r.length = n + 1) : (t.eliminated i c k r).length = n + 1 := by
  unfold eliminated
  split
  · rw [List.length_map, sized.line_length hi]
  · split
    · exact hr
    · rw [length_subtractMultiple (by simp [sized.line_length hi, hr]), hr]

/-- A pivot inside the table succeeds and keeps the sizes. -/
theorem Sized.pivot (sized : t.Sized m n) {i c : Nat} (hi : i ≤ m) (hc : c ≤ n) :
    ∃ u, t.pivot i c = .ok u ∧ u.Sized m n ∧
      ∀ k ≤ m, u.line k = t.eliminated i c k (t.line k) := by
  refine ⟨_, sized.pivot_eq hi hc, ⟨by simp [sized.rows], ?_⟩, ?_⟩
  · intro r hr
    obtain ⟨⟨r, k⟩, hmem, rfl⟩ := List.mem_map.1 hr
    exact sized.length_eliminated hi (sized.columns r (List.fst_mem_of_mem_zipIdx hmem))
  · intro k hk
    have := sized.rows
    have hk : k < t.rows.length := by omega
    simp [line, hk]

theorem reduceCosts_eq_ok (sized : t.Sized m n) (tolerance : α) (items : List (Option Nat × Nat))
    (inRange : ∀ e ∈ items, e.2 < m) {costs : List α} (hcosts : costs.length = n + 1) :
    ∃ reduced, reduceCosts tolerance t.constraintRows n items costs = .ok reduced ∧
      reduced.length = n + 1 := by
  induction items generalizing costs with
  | nil => exact ⟨costs, rfl, hcosts⟩
  | cons e rest ih =>
    have hrest : ∀ e ∈ rest, e.2 < m := fun e he => inRange e (List.mem_cons_of_mem _ he)
    obtain ⟨basic, k⟩ := e
    cases basic with
    | none => exact ih hrest hcosts
    | some c =>
      unfold reduceCosts
      split
      · exact ih hrest hcosts
      · rw [cell_eq_ok (by omega), ok_bind]
        split
        · exact ih hrest hcosts
        · have hk : k < m := inRange _ List.mem_cons_self
          have hrow : t.constraintRows[k]? = some (t.line (k + 1)) := by
            simp [sized.constraintRows, hk]
          rw [hrow, orFault_some, ok_bind]
          have := sized.line_length (show k + 1 ≤ m by omega)
          exact ih hrest (by rw [length_subtractMultiple (by omega), hcosts])

theorem Sized.canonicalize_eq (sized : t.Sized m n) (tolerance : α) (basis : List (Option Nat)) :
    t.canonicalize tolerance basis =
      (reduceCosts tolerance t.constraintRows n basis.zipIdx (t.line 0)).bind fun reduced =>
        .ok ⟨reduced :: t.constraintRows⟩ := by
  have hn := sized.rhsColumn
  have := sized.rows
  unfold canonicalize
  cases h : t.rows with
  | nil => simp [h] at this
  | cons costs constraints =>
    rw [hn]
    simp only [Tableau.constraintRows, h, line, List.tail_cons, List.getElem?_cons_zero,
      Option.getD_some]
    rfl

/-- Clearing costs against a basis that is not too long succeeds, keeps the sizes
and touches row 0 only. -/
theorem Sized.canonicalize (sized : t.Sized m n) (tolerance : α) {basis : List (Option Nat)}
    (hbasis : basis.length ≤ m) :
    ∃ u reduced, t.canonicalize tolerance basis = .ok u ∧ u.Sized m n ∧
      reduceCosts tolerance t.constraintRows n basis.zipIdx (t.line 0) = .ok reduced ∧
      u.line 0 = reduced ∧ ∀ k, u.line (k + 1) = t.line (k + 1) := by
  obtain ⟨reduced, hreduced, hlen⟩ := reduceCosts_eq_ok sized tolerance basis.zipIdx
    (fun e he => by have := List.snd_lt_of_mem_zipIdx he; omega)
    (sized.line_length (Nat.zero_le m))
  refine ⟨⟨reduced :: t.constraintRows⟩, reduced, ?_, ⟨?_, ?_⟩, hreduced, by simp [line], ?_⟩
  · rw [sized.canonicalize_eq, hreduced, bind_ok]
  · simp [sized.constraintRows]
  · intro r hr
    rcases List.mem_cons.1 hr with rfl | hr
    · exact hlen
    · exact sized.columns r (List.mem_of_mem_tail hr)
  · intro k
    simp [line, Tableau.constraintRows]

end Shape

section Equations

variable {t u w : Tableau Rat} {m n : Nat}

/-- Row `i` as a linear functional on vectors of columns, right-hand side included. -/
noncomputable def equation (t : Tableau Rat) (i : Nat) : (Nat → Rat) →ₗ[Rat] Rat :=
  ∑ j ∈ Finset.range t.width, coordinate (t.get i j) j

theorem equation_apply (t : Tableau Rat) (i : Nat) (v : Nat → Rat) :
    t.equation i v = ∑ j ∈ Finset.range t.width, t.get i j * v j := by
  simp [equation]

/-- The left side of a row at values of the columns. -/
def leftSide (t : Tableau Rat) (i : Nat) (x : Nat → Rat) : Rat :=
  ∑ j ∈ Finset.range t.rhsColumn, t.get i j * x j

/-- The unit vector of a column. -/
abbrev unit (j : Nat) : Nat → Rat := Pi.single j 1

/-- A point of the columns before column `n`, ready to be put into equations. -/
def atPoint (n : Nat) (x : Nat → Rat) : Nat → Rat := Function.update x n (-1)

namespace Sized

theorem equation_apply (sized : t.Sized m n) (i : Nat) (v : Nat → Rat) :
    t.equation i v = ∑ j ∈ Finset.range (n + 1), t.get i j * v j := by
  rw [Tableau.equation_apply, sized.width]

theorem equation_eq_zero (sized : t.Sized m n) {i : Nat} (h : m < i) (v : Nat → Rat) :
    t.equation i v = 0 := by
  rw [sized.equation_apply]
  exact Finset.sum_eq_zero fun j _ => by rw [sized.get_eq_zero (.inl h), zero_mul]

theorem equation_unit (sized : t.Sized m n) (i : Nat) {j : Nat} (h : j ≤ n) :
    t.equation i (unit j) = t.get i j := by
  rw [sized.equation_apply]
  simp [Pi.single_apply, Nat.lt_succ_iff.2 h]

theorem equation_atPoint (sized : t.Sized m n) (i : Nat) (x : Nat → Rat) :
    t.equation i (atPoint n x) = ∑ j ∈ Finset.range n, t.get i j * x j - t.get i n := by
  rw [sized.equation_apply, Finset.sum_range_succ]
  have : ∑ j ∈ Finset.range n, t.get i j * atPoint n x j =
      ∑ j ∈ Finset.range n, t.get i j * x j := by
    apply Finset.sum_congr rfl
    intro j hj
    rw [atPoint, Function.update_of_ne (Nat.ne_of_lt (Finset.mem_range.1 hj))]
  rw [this, atPoint, Function.update_self]
  ring

theorem equation_atPoint_leftSide (sized : t.Sized m n) (i : Nat) (x : Nat → Rat) :
    t.equation i (atPoint n x) = t.leftSide i x - t.get i n := by
  rw [sized.equation_atPoint, leftSide, sized.rhsColumn]

/-- The right-hand column can be left out when it is not used. -/
theorem equation_eq_leftSide (sized : t.Sized m n) (i : Nat) {x : Nat → Rat} (h : x n = 0) :
    t.equation i x = t.leftSide i x := by
  rw [sized.equation_apply, leftSide, sized.rhsColumn, Finset.sum_range_succ, h, mul_zero, add_zero]

theorem leftSide_congr (sized : t.Sized m n) (i : Nat) {x x' : Nat → Rat}
    (h : ∀ j < n, x j = x' j) : t.leftSide i x = t.leftSide i x' := by
  rw [leftSide, leftSide, sized.rhsColumn]
  apply Finset.sum_congr rfl
  intro j hj
  rw [h j (Finset.mem_range.1 hj)]

end Sized

/-- The constraint rows vanish at a vector. -/
def Vanishes (t : Tableau Rat) (v : Nat → Rat) : Prop := ∀ i, 0 < i → t.equation i v = 0

/-- The constraint rows vanish at a point that satisfies them as equations. -/
theorem Sized.vanishes_atPoint_iff (sized : t.Sized m n) {x : Nat → Rat} :
    t.Vanishes (atPoint n x) ↔
      ∀ i, 0 < i → i < t.height → t.leftSide i x = t.get i t.rhsColumn := by
  simp only [Vanishes, sized.equation_atPoint_leftSide, sub_eq_zero, sized.rhsColumn, sized.height]
  refine forall₂_congr fun i pos => ⟨fun same _ => same, fun same => ?_⟩
  by_cases inside : i < m + 1
  · exact same inside
  · have zero := sized.equation_eq_zero (i := i) (by omega) (atPoint n x)
    rwa [sized.equation_atPoint_leftSide, sub_eq_zero] at zero

/-- Every solution of one table is a solution of another, at the same price. -/
def Entails (t u : Tableau Rat) : Prop :=
  ∀ v, t.Vanishes v → u.Vanishes v ∧ u.equation 0 v = t.equation 0 v

/-- Both tables have the same solutions, at the same prices. -/
def Equivalent (t u : Tableau Rat) : Prop := t.Entails u ∧ u.Entails t

theorem Entails.refl (t : Tableau Rat) : t.Entails t := fun _ h => ⟨h, rfl⟩

theorem Entails.trans (h : t.Entails u) (h' : u.Entails w) : t.Entails w := by
  intro v hv
  obtain ⟨hu, price⟩ := h v hv
  obtain ⟨hw, price'⟩ := h' v hu
  exact ⟨hw, price'.trans price⟩

theorem Equivalent.refl (t : Tableau Rat) : t.Equivalent t := ⟨.refl t, .refl t⟩

theorem Equivalent.trans (h : t.Equivalent u) (h' : u.Equivalent w) : t.Equivalent w :=
  ⟨h.1.trans h'.1, h'.2.trans h.2⟩

theorem Equivalent.symm (h : t.Equivalent u) : u.Equivalent t := ⟨h.2, h.1⟩

theorem Equivalent.vanishes_iff (h : t.Equivalent u) (v : Nat → Rat) :
    t.Vanishes v ↔ u.Vanishes v := ⟨fun hv => (h.1 v hv).1, fun hv => (h.2 v hv).1⟩

theorem Equivalent.price (h : t.Equivalent u) {v : Nat → Rat} (hv : t.Vanishes v) :
    u.equation 0 v = t.equation 0 v := (h.1 v hv).2

/-- Every number of a pivoted table. -/
theorem Sized.get_pivot (sized : t.Sized m n) {i c : Nat} (hi : i ≤ m) (hc : c ≤ n)
    (h : t.pivot i c = .ok u) : u.Sized m n ∧ ∀ k j, u.get k j =
      if k = i then t.get i j / t.get i c
      else t.get k j - t.get k c * (t.get i j / t.get i c) := by
  obtain ⟨u', h', sized', lines⟩ := sized.pivot hi hc
  obtain rfl : u' = u := by simpa [h'] using h
  refine ⟨sized', fun k j => ?_⟩
  by_cases inside : k ≤ m ∧ j ≤ n
  · obtain ⟨hk, hj⟩ := inside
    have hk' := sized.line_length hk
    have hi' := sized.line_length hi
    rw [get, lines k hk, eliminated]
    split
    · simp [get, show j < (t.line i).length by omega]
    · split
      · rename_i zero
        have zero : t.get k c = 0 := beq_iff_eq.1 zero
        rw [zero, zero_mul, sub_zero]
        rfl
      · rw [get_subtractMultiple (by simp [hi', hk']) (by omega)]
        simp [get, show j < (t.line i).length by omega]
  · have outside : m < k ∨ n < j := by omega
    rw [sized'.get_eq_zero outside]
    split
    · rename_i same
      rw [sized.get_eq_zero (i := i) (by omega), zero_div]
    · rcases outside with hk | hj
      · simp [sized.get_eq_zero (i := k) (.inl hk)]
      · simp [sized.get_eq_zero (j := j) (.inr hj)]

/-- The column becomes a unit column with its one in the row. -/
theorem Sized.get_pivot_column (sized : t.Sized m n) {i c : Nat} (hi : i ≤ m) (hc : c ≤ n)
    (h : t.pivot i c = .ok u) (nonzero : t.get i c ≠ 0) (k : Nat) :
    u.get k c = if k = i then 1 else 0 := by
  rw [(sized.get_pivot hi hc h).2, div_self nonzero, mul_one, sub_self]

/-- A pivot on a row whose right-hand side is zero moves no right-hand side. -/
theorem Sized.get_pivot_degenerate (sized : t.Sized m n) {i c : Nat} (hi : i ≤ m) (hc : c ≤ n)
    (h : t.pivot i c = .ok u) (zero : t.get i n = 0) (k : Nat) : u.get k n = t.get k n := by
  rw [(sized.get_pivot hi hc h).2, zero, zero_div, mul_zero, sub_zero]
  split
  · rename_i same
    rw [same, zero]
  · rfl

theorem Sized.equation_pivot (sized : t.Sized m n) {i c : Nat} (hi : i ≤ m) (hc : c ≤ n)
    (h : t.pivot i c = .ok u) (k : Nat) (v : Nat → Rat) : u.equation k v =
      if k = i then t.equation i v / t.get i c
      else t.equation k v - t.get k c * (t.equation i v / t.get i c) := by
  obtain ⟨sized', entries⟩ := sized.get_pivot hi hc h
  simp only [sized'.equation_apply, sized.equation_apply, entries]
  split
  · rw [Finset.sum_div]
    exact Finset.sum_congr rfl fun j _ => by ring
  · rw [Finset.sum_div, Finset.mul_sum, ← Finset.sum_sub_distrib]
    exact Finset.sum_congr rfl fun j _ => by ring

/-- A pivot in a constraint row on a number that is not zero changes neither the
solutions nor their prices. -/
theorem Sized.equivalent_pivot (sized : t.Sized m n) {i c : Nat} (hpos : 0 < i) (hi : i ≤ m)
    (hc : c ≤ n) (h : t.pivot i c = .ok u) (nonzero : t.get i c ≠ 0) : t.Equivalent u := by
  have rows := sized.equation_pivot hi hc h
  constructor
  · intro v hv
    refine ⟨fun k hk => ?_, ?_⟩
    · rw [rows, hv i hpos, hv k hk]
      simp
    · rw [rows, if_neg (by omega), hv i hpos]
      simp
  · intro v hv
    have source : t.equation i v = 0 := by
      have := hv i hpos
      rw [rows, if_pos rfl, div_eq_zero_iff] at this
      exact this.resolve_right nonzero
    refine ⟨fun k hk => ?_, ?_⟩
    · by_cases hki : k = i
      · rw [hki, source]
      · have := hv k hk
        rw [rows, if_neg hki, source] at this
        simpa using this
    · rw [rows, if_neg (by omega), source]
      simp

/-- Either nothing is done for the first item, or its row is taken off. -/
theorem reduceCosts_cases (sized : t.Sized m n) {tolerance : Rat} {basic : Option Nat} {k : Nat}
    {rest : List (Option Nat × Nat)} (hk : k < m) {costs reduced : List Rat}
    (hcosts : costs.length = n + 1)
    (h : reduceCosts tolerance t.constraintRows n ((basic, k) :: rest) costs = .ok reduced) :
    (reduceCosts tolerance t.constraintRows n rest costs = .ok reduced ∧
      ∀ c < n, basic = some c → |costs[c]?.getD 0| ≤ tolerance) ∨
    ∃ c < n, basic = some c ∧ tolerance < |costs[c]?.getD 0| ∧
      reduceCosts tolerance t.constraintRows n rest
        (subtractMultiple (costs[c]?.getD 0) (t.line (k + 1)) costs) = .ok reduced := by
  cases basic with
  | none => exact .inl ⟨h, by simp⟩
  | some c =>
    unfold reduceCosts at h
    split at h
    · rename_i outside
      exact .inl ⟨h, fun c' hc' same => by injection same; omega⟩
    · rename_i inside
      rw [cell_eq_ok (by omega), ok_bind] at h
      split at h
      · rename_i small
        rw [magnitude_eq_abs] at small
        exact .inl ⟨h, fun c' _ same => by injection same with same; exact same ▸ small⟩
      · rename_i large
        rw [magnitude_eq_abs, not_le] at large
        have hrow : t.constraintRows[k]? = some (t.line (k + 1)) := by
          simp [sized.constraintRows, hk]
        rw [hrow, orFault_some, ok_bind] at h
        exact .inr ⟨c, by omega, rfl, large, h⟩

/-- Clearing costs takes multiples of listed constraint rows off the costs. -/
theorem reduceCosts_combination (sized : t.Sized m n) {tolerance : Rat}
    {items : List (Option Nat × Nat)} (inRange : ∀ e ∈ items, e.2 < m) {costs reduced : List Rat}
    (hcosts : costs.length = n + 1)
    (h : reduceCosts tolerance t.constraintRows n items costs = .ok reduced) :
    ∃ weight : Nat → Rat, (∀ k, weight k ≠ 0 → ∃ c < n, (some c, k) ∈ items) ∧
      ∀ j ≤ n, reduced[j]?.getD 0 =
        costs[j]?.getD 0 - ∑ k ∈ Finset.range m, weight k * t.get (k + 1) j := by
  induction items generalizing costs with
  | nil =>
    obtain rfl : costs = reduced := by simpa [reduceCosts] using h
    exact ⟨fun _ => 0, by simp, by simp⟩
  | cons e rest ih =>
    have hrest : ∀ e ∈ rest, e.2 < m := fun e he => inRange e (List.mem_cons_of_mem _ he)
    obtain ⟨basic, i⟩ := e
    have hi : i < m := inRange _ List.mem_cons_self
    rcases reduceCosts_cases sized hi hcosts h with ⟨next, _⟩ | ⟨c, hc, rfl, _, next⟩
    · obtain ⟨weight, listed, sums⟩ := ih hrest hcosts next
      refine ⟨weight, fun k hk => ?_, sums⟩
      obtain ⟨c, hc, mem⟩ := listed k hk
      exact ⟨c, hc, List.mem_cons_of_mem _ mem⟩
    · have hline := sized.line_length (show i + 1 ≤ m by omega)
      obtain ⟨weight, listed, sums⟩ :=
        ih hrest (by rw [length_subtractMultiple (by omega), hcosts]) next
      refine ⟨fun k => weight k + if k = i then costs[c]?.getD 0 else 0, ?_, ?_⟩
      · intro k hk
        by_cases hki : k = i
        · exact ⟨c, hc, by simp [hki]⟩
        · obtain ⟨c', hc', mem⟩ := listed k (by simpa [hki] using hk)
          exact ⟨c', hc', List.mem_cons_of_mem _ mem⟩
      · intro j hj
        rw [sums j hj, get_subtractMultiple (by omega) (by omega)]
        simp only [add_mul, Finset.sum_add_distrib, ite_mul, zero_mul]
        rw [Finset.sum_ite_eq' (Finset.range m) i, if_pos (Finset.mem_range.2 hi)]
        simp only [get]
        ring

/-- In a unit column, a combination of the constraint rows has the weight of its own row. -/
theorem sum_unit_column {weight : Nat → Rat} {c k : Nat}
    (basic : ∀ i < m, t.get (i + 1) c = if i = k then 1 else 0) :
    ∑ i ∈ Finset.range m, weight i * t.get (i + 1) c = if k < m then weight k else 0 := by
  have own : ∀ i ∈ Finset.range m, weight i * t.get (i + 1) c = if i = k then weight i else 0 := by
    intro i hi
    rw [basic i (Finset.mem_range.1 hi), mul_ite, mul_one, mul_zero]
  simp only [Finset.sum_congr rfl own, Finset.sum_ite_eq', Finset.mem_range]

/-- A listed column keeps a cost within the tolerance and loses any other one. All rows that
are taken off, its own one apart, have a zero there. -/
theorem reduceCosts_listed (sized : t.Sized m n) {tolerance : Rat}
    {items : List (Option Nat × Nat)} (nodup : (items.map Prod.snd).Nodup)
    (inRange : ∀ e ∈ items, e.2 < m) {costs reduced : List Rat} (hcosts : costs.length = n + 1)
    (h : reduceCosts tolerance t.constraintRows n items costs = .ok reduced) {c k : Nat}
    (listed : (some c, k) ∈ items) (hc : c < n)
    (basic : ∀ i < m, t.get (i + 1) c = if i = k then 1 else 0) :
    reduced[c]?.getD 0 =
      if |costs[c]?.getD 0| ≤ tolerance then costs[c]?.getD 0 else 0 := by
  induction items generalizing costs with
  | nil => simp at listed
  | cons e rest ih =>
    have hrest : ∀ e ∈ rest, e.2 < m := fun e he => inRange e (List.mem_cons_of_mem _ he)
    obtain ⟨basic', i⟩ := e
    have hi : i < m := inRange _ List.mem_cons_self
    obtain ⟨new, distinct⟩ := List.nodup_cons.1 nodup
    have hline := sized.line_length (show i + 1 ≤ m by omega)
    have taken (factor : Rat) :
        (subtractMultiple factor (t.line (i + 1)) costs).length = n + 1 := by
      rw [length_subtractMultiple (by omega), hcosts]
    have entry (factor : Rat) : (subtractMultiple factor (t.line (i + 1)) costs)[c]?.getD 0 =
        costs[c]?.getD 0 - factor * if i = k then 1 else 0 := by
      rw [get_subtractMultiple (by omega) (by omega), ← basic i hi]
      rfl
    have settled {costs' : List Rat} (hcosts' : costs'.length = n + 1) (same : i = k)
        (h' : reduceCosts tolerance t.constraintRows n rest costs' = .ok reduced) :
        reduced[c]?.getD 0 = costs'[c]?.getD 0 := by
      obtain ⟨weight, fromRest, sums⟩ := reduceCosts_combination sized hrest hcosts' h'
      have unweighted : weight k = 0 := by
        by_contra nonzero
        obtain ⟨c', _, mem⟩ := fromRest k nonzero
        exact new (List.mem_map.2 ⟨_, mem, same.symm⟩)
      rw [sums c hc.le, sum_unit_column basic, unweighted, ite_self, sub_zero]
    rcases List.mem_cons.1 listed with first | later
    · obtain ⟨rfl, rfl⟩ := Prod.mk.inj first
      rcases reduceCosts_cases sized hi hcosts h with ⟨next, small⟩ | ⟨c', hc', same, large, next⟩
      · rw [settled hcosts rfl next, if_pos (small c hc rfl)]
      · obtain rfl : c = c' := by injection same
        rw [settled (taken _) rfl next, entry, if_pos rfl, mul_one, sub_self,
          if_neg (not_le.2 large)]
    · have other : i ≠ k := fun same => new (List.mem_map.2 ⟨_, later, same.symm⟩)
      rcases reduceCosts_cases sized hi hcosts h with ⟨next, _⟩ | ⟨c', hc', rfl, _, next⟩
      · exact ih distinct hrest hcosts next later
      · rw [ih distinct hrest (taken _) next later, entry, if_neg other, mul_zero, sub_zero]

/-- Every number of a table with cleared costs. -/
theorem Sized.get_canonicalize (sized : t.Sized m n) {tolerance : Rat}
    {basis : List (Option Nat)} (hbasis : basis.length ≤ m)
    (h : t.canonicalize tolerance basis = .ok u) :
    u.Sized m n ∧ (∀ k j, u.get (k + 1) j = t.get (k + 1) j) ∧
      ∃ weight : Nat → Rat, (∀ k, weight k ≠ 0 → ∃ c < n, basis[k]? = some (some c)) ∧
        ∀ j, u.get 0 j = t.get 0 j - ∑ k ∈ Finset.range m, weight k * t.get (k + 1) j := by
  obtain ⟨u', reduced, h', sized', hreduced, line0, lines⟩ := sized.canonicalize tolerance hbasis
  obtain rfl : u' = u := by simpa [h'] using h
  obtain ⟨weight, listed, sums⟩ := reduceCosts_combination sized
    (fun e he => by have := List.snd_lt_of_mem_zipIdx he; omega)
    (sized.line_length (Nat.zero_le m)) hreduced
  refine ⟨sized', fun k j => by rw [get, get, lines], weight, fun k hk => ?_, fun j => ?_⟩
  · obtain ⟨c, hc, mem⟩ := listed k hk
    exact ⟨c, hc, List.mk_mem_zipIdx_iff_getElem?.1 mem⟩
  · by_cases hj : j ≤ n
    · rw [get, line0, sums j hj]
      rfl
    · have outside (i : Nat) : t.get i j = 0 := sized.get_eq_zero (.inr (by omega))
      simp [outside, sized'.get_eq_zero (.inr (Nat.lt_of_not_le hj))]

theorem Sized.equivalent_canonicalize (sized : t.Sized m n) {tolerance : Rat}
    {basis : List (Option Nat)} (hbasis : basis.length ≤ m)
    (h : t.canonicalize tolerance basis = .ok u) : t.Equivalent u := by
  obtain ⟨sized', same, weight, _, sums⟩ := sized.get_canonicalize hbasis h
  have rows (k : Nat) (v : Nat → Rat) : u.equation (k + 1) v = t.equation (k + 1) v := by
    simp only [sized.equation_apply, sized'.equation_apply, same]
  have vanishes (v : Nat → Rat) : u.Vanishes v ↔ t.Vanishes v := by
    constructor <;> intro hv i hi <;> obtain ⟨k, rfl⟩ := Nat.exists_eq_succ_of_ne_zero hi.ne'
    · rw [← rows, hv _ hi]
    · rw [rows, hv _ hi]
  have price (v : Nat → Rat) : u.equation 0 v =
      t.equation 0 v - ∑ k ∈ Finset.range m, weight k * t.equation (k + 1) v := by
    simp only [sized.equation_apply, sized'.equation_apply, sums, sub_mul, Finset.sum_mul,
      Finset.sum_sub_distrib, Finset.mul_sum]
    rw [Finset.sum_comm]
    simp only [mul_assoc]
  have unchanged (v : Nat → Rat) (hv : t.Vanishes v) : u.equation 0 v = t.equation 0 v := by
    rw [price, Finset.sum_eq_zero, sub_zero]
    intro k _
    rw [hv (k + 1) (Nat.succ_pos k), mul_zero]
  constructor
  · intro v hv
    exact ⟨(vanishes v).2 hv, unchanged v hv⟩
  · intro v hv
    have hv := (vanishes v).1 hv
    exact ⟨hv, (unchanged v hv).symm⟩

/-- A unit column of a constraint row that is not listed keeps its cost. -/
theorem Sized.canonicalize_keeps (sized : t.Sized m n) {tolerance : Rat}
    {basis : List (Option Nat)} (hbasis : basis.length ≤ m)
    (h : t.canonicalize tolerance basis = .ok u) {c k : Nat}
    (unlisted : ∀ c', basis[k]? ≠ some (some c'))
    (basic : ∀ i < m, t.get (i + 1) c = if i = k then 1 else 0) : u.get 0 c = t.get 0 c := by
  obtain ⟨_, _, weight, weighted, sums⟩ := sized.get_canonicalize hbasis h
  have unweighted : weight k = 0 := by
    by_contra nonzero
    obtain ⟨c', _, listed⟩ := weighted k nonzero
    exact unlisted c' listed
  rw [sums, sum_unit_column basic, unweighted, ite_self, sub_zero]

/-- A listed column that is a unit column of the constraint rows keeps a cost within the
tolerance and loses any other one. -/
theorem Sized.get_canonicalize_listed (sized : t.Sized m n) {tolerance : Rat}
    {basis : List (Option Nat)} (hbasis : basis.length ≤ m)
    (h : t.canonicalize tolerance basis = .ok u) {c k : Nat} (listed : basis[k]? = some (some c))
    (hc : c < n) (basic : ∀ i < m, t.get (i + 1) c = if i = k then 1 else 0) :
    u.get 0 c = if |t.get 0 c| ≤ tolerance then t.get 0 c else 0 := by
  obtain ⟨u', reduced, h', _, hreduced, line0, _⟩ := sized.canonicalize tolerance hbasis
  obtain rfl : u' = u := by simpa [h'] using h
  rw [get, line0]
  apply reduceCosts_listed sized _ _ (sized.line_length (Nat.zero_le m)) hreduced
    (List.mk_mem_zipIdx_iff_getElem?.2 listed) hc basic
  · rw [List.zipIdx_map_snd]
    exact List.nodup_range'
  · intro e he
    have := List.snd_lt_of_mem_zipIdx he
    omega

/-- So it is cleared up to the tolerance. -/
theorem Sized.canonicalize_clears (sized : t.Sized m n) {tolerance : Rat}
    (nonneg : 0 ≤ tolerance) {basis : List (Option Nat)} (hbasis : basis.length ≤ m)
    (h : t.canonicalize tolerance basis = .ok u) {c k : Nat} (listed : basis[k]? = some (some c))
    (hc : c < n) (basic : ∀ i < m, t.get (i + 1) c = if i = k then 1 else 0) :
    |u.get 0 c| ≤ tolerance := by
  rw [sized.get_canonicalize_listed hbasis h listed hc basic]
  split
  · assumption
  · rwa [abs_zero]

end Equations

end LinearProgram.Tableau
