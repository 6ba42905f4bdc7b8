import Mathlib
import LinearProgram.Proofs.Rational
import LinearProgram.Constraint

/-!
# Linear forms as functionals

A form stands for the functional that its terms add up to, `value`, on
valuations of all indices. Every reading of the form is a reading of it:

* `eval_eq_value`, `getD_coefficients`: evaluation and dense coefficients;
* `value_neg`, `value_addTerm`, `value_simplify`: what the operations do;
* `Within`: all indices are below a bound, so later ones do not count,
  `value_congr`, `value_eq_sum`.
-/

namespace LinearProgram

namespace LinearForm

/-- The functional that a list of terms adds up to. -/
noncomputable def total (terms : List (Term Rat)) : (Nat → Rat) →ₗ[Rat] Rat :=
  (terms.map fun t => coordinate t.coefficient t.index).sum

noncomputable def value (f : LinearForm Rat) : (Nat → Rat) →ₗ[Rat] Rat := total f.terms

@[simp] theorem total_nil : total [] = 0 := rfl

theorem total_cons (t : Term Rat) (terms : List (Term Rat)) :
    total (t :: terms) = coordinate t.coefficient t.index + total terms := by
  simp [total]

theorem total_append (terms terms' : List (Term Rat)) :
    total (terms ++ terms') = total terms + total terms' := by
  simp [total]

theorem total_cons_apply (t : Term Rat) (terms : List (Term Rat)) (v : Nat → Rat) :
    total (t :: terms) v = t.coefficient * v t.index + total terms v := by
  rw [total_cons]
  rfl

theorem total_apply (terms : List (Term Rat)) (v : Nat → Rat) :
    total terms v = (terms.map fun t => t.coefficient * v t.index).sum := by
  induction terms with
  | nil => rfl
  | cons t terms ih => rw [total_cons_apply, ih, List.map_cons, List.sum_cons]

/-- An assignment gives every index a value, zero past its end. -/
def valuation (assignment : List Rat) : Nat → Rat := fun i => assignment[i]?.getD 0

theorem valuation_nonneg {assignment : List Rat} (nonneg : ∀ value ∈ assignment, 0 ≤ value)
    (i : Nat) : 0 ≤ valuation assignment i := by
  unfold valuation
  cases found : assignment[i]? with
  | none => exact le_rfl
  | some value => exact nonneg value (List.mem_of_getElem? found)

theorem eval_eq_value (f : LinearForm Rat) (assignment : List Rat) :
    f.eval assignment = f.value (valuation assignment) := by
  rw [eval, sum_eq_sum, value, total_apply]
  simp only [valuation, List.getD_eq_getElem?_getD]

theorem value_scale (f : LinearForm Rat) (k : Rat) : (f.scale k).value = k • f.value := by
  ext v
  change total (f.terms.map fun t => ⟨t.index, t.coefficient * k⟩) v = k * total f.terms v
  rw [total_apply, total_apply, List.map_map, ← List.sum_map_mul_left]
  congr 2
  funext t
  simp only [Function.comp_apply]
  ring

theorem value_neg (f : LinearForm Rat) : (-f).value = -f.value :=
  (f.value_scale (-1)).trans (neg_one_smul Rat f.value)

theorem value_addTerm (f : LinearForm Rat) (i : Nat) (κ : Rat) (v : Nat → Rat) :
    (f.addTerm i κ).value v = f.value v + κ * v i := by
  rw [value, addTerm, total_append, total_cons, total_nil, add_zero]
  rfl

theorem total_collect (t : Term Rat) (terms : List (Term Rat)) :
    total (collect t terms) = coordinate t.coefficient t.index + total terms := by
  induction terms with
  | nil => rw [collect, total_cons]
  | cons u terms ih =>
    rw [collect]
    split
    · rw [total_cons]
    · split
      · rename_i same
        rw [total_cons, total_cons, same, coordinate_add]
        abel
      · rw [total_cons, ih, total_cons]
        abel

theorem total_filter (terms : List (Term Rat)) :
    total (terms.filter fun t => t.coefficient != 0) = total terms := by
  induction terms with
  | nil => rfl
  | cons t terms ih =>
    rw [List.filter_cons]
    split
    · rw [total_cons, ih, total_cons]
    · rename_i zero
      have zero : t.coefficient = 0 := by simpa using zero
      rw [ih, total_cons, zero, coordinate_zero, zero_add]

theorem value_simplify (f : LinearForm Rat) : f.simplify.value = f.value := by
  have merged (terms merged : List (Term Rat)) :
      total (terms.foldl (fun merged t => collect t merged) merged) =
        total merged + total terms := by
    induction terms generalizing merged with
    | nil => rw [List.foldl_nil, total_nil, add_zero]
    | cons t terms ih =>
      rw [List.foldl_cons, ih, total_collect, total_cons]
      abel
  rw [value, simplify, total_filter, merged, total_nil, zero_add]
  rfl

/-- All indices of the form are below `n`. -/
def Within {α : Type} (n : Nat) (f : LinearForm α) : Prop := ∀ t ∈ f.terms, t.index < n

theorem Within.mono {α : Type} {n n' : Nat} {f : LinearForm α} (h : f.Within n) (le : n ≤ n') :
    f.Within n' := fun t ht => (h t ht).trans_le le

theorem Within.neg {α : Type} [Scalar α] {n : Nat} {f : LinearForm α} (h : f.Within n) : (-f).Within n := by
  intro t ht
  obtain ⟨u, hu, rfl⟩ := List.mem_map.1 ht
  exact h u hu

theorem collect_index {α : Type} [Scalar α] {n : Nat} {t : Term α} {terms : List (Term α)}
    (ht : t.index < n) (h : ∀ u ∈ terms, u.index < n) : ∀ u ∈ collect t terms, u.index < n := by
  induction terms with
  | nil => exact List.forall_mem_cons.2 ⟨ht, h⟩
  | cons head rest ih =>
    obtain ⟨hhead, hrest⟩ := List.forall_mem_cons.1 h
    rw [collect]
    split
    · exact List.forall_mem_cons.2 ⟨ht, h⟩
    · split
      · exact List.forall_mem_cons.2 ⟨hhead, hrest⟩
      · exact List.forall_mem_cons.2 ⟨hhead, ih hrest⟩

theorem Within.simplify {α : Type} [Scalar α] {n : Nat} {f : LinearForm α} (h : f.Within n) :
    f.simplify.Within n := by
  have merged (terms merged : List (Term α)) (hterms : ∀ t ∈ terms, t.index < n)
      (hmerged : ∀ t ∈ merged, t.index < n) :
      ∀ t ∈ terms.foldl (fun merged t => collect t merged) merged, t.index < n := by
    induction terms generalizing merged with
    | nil => exact hmerged
    | cons t terms ih =>
      obtain ⟨ht, hterms⟩ := List.forall_mem_cons.1 hterms
      exact ih _ hterms (collect_index ht hmerged)
  intro t ht
  exact merged f.terms [] h (by simp) t (List.mem_of_mem_filter ht)

theorem within_of_maxIndex? {α : Type} {n : Nat} {f : LinearForm α}
    (h : ∀ i, f.maxIndex? = some i → i < n) : f.Within n := by
  intro t ht
  have mem : t.index ∈ f.terms.map Term.index := List.mem_map.2 ⟨t, ht, rfl⟩
  cases largest : f.maxIndex? with
  | none =>
    rw [maxIndex?, List.max?_eq_none_iff] at largest
    rw [largest] at mem
    exact nomatch mem
  | some i =>
    obtain ⟨_, le⟩ := List.max?_eq_some_iff.1 largest
    exact (le _ mem).trans_lt (h i largest)

/-- Only the variables below the bound count. -/
theorem value_congr {n : Nat} {f : LinearForm Rat} (within : f.Within n) {v v' : Nat → Rat}
    (h : ∀ i < n, v i = v' i) : f.value v = f.value v' := by
  rw [value, total_apply, total_apply]
  congr 1
  apply List.map_congr_left
  intro t ht
  rw [h t.index (within t ht)]

/-- A form does not see a variable behind the bound. -/
theorem value_single_of_le {n u : Nat} {f : LinearForm Rat} (within : f.Within n) (h : n ≤ u) :
    f.value (Pi.single u 1) = 0 := by
  have zero : ∀ j < n, (Pi.single u 1 : Nat → Rat) j = (0 : Nat → Rat) j := by
    intro j hj
    rw [Pi.single_apply, if_neg (by omega)]
    rfl
  rw [value_congr within zero, map_zero]

/-- A form is the sum of its total coefficients times the variables. -/
theorem value_eq_sum {n : Nat} {f : LinearForm Rat} (within : f.Within n) (v : Nat → Rat) :
    f.value v = ∑ j ∈ Finset.range n, f.value (Pi.single j 1) * v j := by
  have split : f.value v = f.value (∑ j ∈ Finset.range n, v j • Pi.single j 1) := by
    apply value_congr within
    intro i hi
    simp [Finset.sum_apply, Pi.single_apply, hi]
  rw [split, map_sum]
  apply Finset.sum_congr rfl
  intro j _
  rw [map_smul, smul_eq_mul, mul_comm]

@[simp] theorem length_coefficients {α : Type} [Scalar α] (f : LinearForm α) (width : Nat) :
    (f.coefficients width).length = width := by
  have modified (terms : List (Term α)) (dense : List α) : (terms.foldl
      (fun dense t => dense.modify t.index (· + t.coefficient)) dense).length = dense.length := by
    induction terms generalizing dense with
    | nil => rfl
    | cons t terms ih => rw [List.foldl_cons, ih, List.length_modify]
  rw [coefficients, modified, List.length_replicate]

/-- A dense coefficient is the value at the unit vector of its variable. -/
theorem getD_coefficients (f : LinearForm Rat) {width j : Nat} (hj : j < width) :
    (f.coefficients width)[j]?.getD 0 = f.value (Pi.single j 1) := by
  have modified (terms : List (Term Rat)) (dense : List Rat) (h : j < dense.length) :
      (terms.foldl (fun dense t => dense.modify t.index (· + t.coefficient)) dense)[j]?.getD 0 =
        dense[j]?.getD 0 + total terms (Pi.single j 1) := by
    induction terms generalizing dense with
    | nil => simp
    | cons t terms ih =>
      rw [List.foldl_cons, ih _ (by rwa [List.length_modify]), total_cons_apply,
        List.getElem?_modify]
      by_cases same : t.index = j
      · simp [same, h, add_assoc]
      · simp [same]
  rw [coefficients, modified _ _ (by rwa [List.length_replicate]), value]
  simp [hj]

end LinearForm

end LinearProgram
