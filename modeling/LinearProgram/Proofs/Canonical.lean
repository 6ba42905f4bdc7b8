import Mathlib
import LinearProgram.Proofs.LinearForm

/-!
# Simplified forms are canonical

Over the rational numbers `simplify` brings all forms with the same total coefficients
to one list of terms:

* `Canonical`, `canonical_simplify`: what a simplified form looks like;
* `Canonical.mem_iff`, `Canonical.eq_of_coefficient`: its terms are read off the total
  coefficients, so it is determined by them;
* `simplify_eq_iff`, `simplify_eq_neg`, `simplify_scale`: forms with equal, opposite or
  proportional totals.
-/

namespace LinearProgram.LinearForm

/-- An ascending list of terms is determined by its members. -/
theorem eq_of_ascending {α : Type} {terms terms' : List (Term α)}
    (h : terms.Pairwise (·.index < ·.index)) (h' : terms'.Pairwise (·.index < ·.index))
    (same : ∀ t, t ∈ terms ↔ t ∈ terms') : terms = terms' := by
  have distinct {us : List (Term α)} (h : us.Pairwise (·.index < ·.index)) : us.Nodup :=
    h.imp fun less same => less.ne (congrArg Term.index same)
  have perm : terms.Perm terms' := (List.perm_ext_iff_of_nodup (distinct h) (distinct h')).2 same
  exact perm.eq_of_pairwise (fun _ _ _ _ less more => absurd more less.asymm) h h'

section Ascending

variable {α : Type} [Scalar α] {t : Term α} {terms : List (Term α)}

theorem index_of_mem_collect {u : Term α} (h : u ∈ collect t terms) :
    u.index = t.index ∨ ∃ u' ∈ terms, u'.index = u.index := by
  induction terms with
  | nil => exact .inl (congrArg Term.index (List.mem_singleton.1 h))
  | cons head rest ih =>
    rw [collect] at h
    split at h
    · rcases List.mem_cons.1 h with rfl | old
      · exact .inl rfl
      · exact .inr ⟨u, old, rfl⟩
    · split at h
      · rcases List.mem_cons.1 h with rfl | old
        · exact .inr ⟨head, List.mem_cons_self, rfl⟩
        · exact .inr ⟨u, List.mem_cons_of_mem _ old, rfl⟩
      · rcases List.mem_cons.1 h with rfl | later
        · exact .inr ⟨u, List.mem_cons_self, rfl⟩
        · rcases ih later with same | ⟨u', mem, same⟩
          · exact .inl same
          · exact .inr ⟨u', List.mem_cons_of_mem _ mem, same⟩

theorem ascending_collect (h : terms.Pairwise (·.index < ·.index)) :
    (collect t terms).Pairwise (·.index < ·.index) := by
  induction terms with
  | nil => exact List.pairwise_singleton _ _
  | cons head rest ih =>
    obtain ⟨below, ascending⟩ := List.pairwise_cons.1 h
    rw [collect]
    split
    · rename_i less
      refine List.pairwise_cons.2 ⟨fun u hu => ?_, h⟩
      rcases List.mem_cons.1 hu with rfl | later
      · exact less
      · exact less.trans (below u later)
    · split
      · exact List.pairwise_cons.2 ⟨below, ascending⟩
      · rename_i notLess notSame
        refine List.pairwise_cons.2 ⟨fun u hu => ?_, ih ascending⟩
        rcases index_of_mem_collect hu with same | ⟨u', mem, same⟩
        · omega
        · exact same ▸ below u' mem

theorem ascending_foldl_collect {merged : List (Term α)} (h : merged.Pairwise (·.index < ·.index)) :
    (terms.foldl (fun merged t => collect t merged) merged).Pairwise (·.index < ·.index) := by
  induction terms generalizing merged with
  | nil => exact h
  | cons t terms ih => exact ih (ascending_collect h)

end Ascending

/-- One term for every variable that occurs, ascending, and none of them zero. -/
structure Canonical (f : LinearForm Rat) : Prop where
  ascending : f.terms.Pairwise (·.index < ·.index)
  nonzero : ∀ t ∈ f.terms, t.coefficient ≠ 0

variable {f g : LinearForm Rat}

theorem canonical_simplify (f : LinearForm Rat) : f.simplify.Canonical := by
  refine ⟨(ascending_foldl_collect .nil).filter _, fun t ht => ?_⟩
  simpa using (List.mem_filter.1 ht).2

/-- Every coefficient changes by a factor and nothing else does. -/
theorem Canonical.scale (canonical : f.Canonical) {k : Rat} (nonzero : k ≠ 0) :
    (f.scale k).Canonical := by
  refine ⟨List.pairwise_map.2 canonical.ascending, fun t ht => ?_⟩
  obtain ⟨u, hu, rfl⟩ := List.mem_map.1 ht
  exact mul_ne_zero (canonical.nonzero u hu) nonzero

theorem Canonical.neg (canonical : f.Canonical) : (-f).Canonical :=
  canonical.scale (neg_ne_zero.2 one_ne_zero)

theorem scale_neg (f : LinearForm Rat) (k : Rat) : -(f.scale k) = (-f).scale k := by
  change LinearForm.mk ((f.terms.map _).map _) = LinearForm.mk ((f.terms.map _).map _)
  rw [List.map_map, List.map_map]
  congr 2
  funext t
  simp

theorem neg_neg_form (f : LinearForm Rat) : -(-f) = f := by
  change LinearForm.mk ((f.terms.map _).map _) = f
  rw [List.map_map]
  conv_rhs => rw [show f = ⟨f.terms.map id⟩ by simp]
  congr 2
  funext t
  simp

/-- A total coefficient is the value at the unit vector of its variable. -/
theorem coefficient_eq_value (f : LinearForm Rat) (j : Nat) :
    f.coefficient j = f.value (Pi.single j 1) := by
  rw [coefficient, sum_eq_sum, value]
  induction f.terms with
  | nil => rfl
  | cons t terms ih =>
    rw [total_cons_apply, ← ih, List.filter_cons]
    by_cases same : t.index = j
    · simp [same]
    · simp [same]

theorem coefficient_scale (f : LinearForm Rat) (k : Rat) (j : Nat) :
    (f.scale k).coefficient j = k * f.coefficient j := by
  simp [coefficient_eq_value, value_scale]

theorem coefficient_neg (f : LinearForm Rat) (j : Nat) : (-f).coefficient j = -f.coefficient j := by
  simp [coefficient_eq_value, value_neg]

theorem coefficient_simplify (f : LinearForm Rat) (j : Nat) :
    f.simplify.coefficient j = f.coefficient j := by
  simp [coefficient_eq_value, value_simplify]

theorem total_single_of_ne {terms : List (Term Rat)} {j : Nat} (h : ∀ t ∈ terms, t.index ≠ j) :
    total terms (Pi.single j 1) = 0 := by
  rw [total_apply]
  apply List.sum_eq_zero
  intro x hx
  obtain ⟨t, ht, rfl⟩ := List.mem_map.1 hx
  rw [Pi.single_eq_of_ne (h t ht), mul_zero]

theorem total_single_of_mem {terms : List (Term Rat)}
    (ascending : terms.Pairwise (·.index < ·.index)) {t : Term Rat} (h : t ∈ terms) :
    total terms (Pi.single t.index 1) = t.coefficient := by
  induction terms with
  | nil => exact nomatch h
  | cons u rest ih =>
    obtain ⟨below, ascending⟩ := List.pairwise_cons.1 ascending
    rw [total_cons_apply]
    rcases List.mem_cons.1 h with rfl | later
    · rw [Pi.single_eq_same, mul_one, total_single_of_ne fun u hu => (below u hu).ne', add_zero]
    · rw [Pi.single_eq_of_ne (below t later).ne, mul_zero, zero_add, ih ascending later]

/-- The terms of a canonical form are its total coefficients that are not zero. -/
theorem Canonical.mem_iff (canonical : f.Canonical) (t : Term Rat) :
    t ∈ f.terms ↔ t.coefficient ≠ 0 ∧ f.coefficient t.index = t.coefficient := by
  have own {u : Term Rat} (hu : u ∈ f.terms) : f.coefficient u.index = u.coefficient := by
    rw [coefficient_eq_value]
    exact total_single_of_mem canonical.ascending hu
  constructor
  · exact fun h => ⟨canonical.nonzero t h, own h⟩
  · rintro ⟨nonzero, same⟩
    by_contra absent
    have none : ∀ u ∈ f.terms, u.index ≠ t.index := by
      intro u hu index
      obtain rfl : u = t := by
        obtain ⟨i, x⟩ := u
        obtain ⟨j, y⟩ := t
        have x_eq := own hu
        simp only at index same x_eq
        rw [← x_eq, index, same, ← index]
      exact absent hu
    rw [coefficient_eq_value, value, total_single_of_ne none] at same
    exact nonzero same.symm

/-- A canonical form is determined by its total coefficients. -/
theorem Canonical.eq_of_coefficient (canonical : f.Canonical) (canonical' : g.Canonical)
    (same : ∀ j, f.coefficient j = g.coefficient j) : f = g := by
  have terms : f.terms = g.terms := by
    refine eq_of_ascending canonical.ascending canonical'.ascending fun t => ?_
    rw [canonical.mem_iff, canonical'.mem_iff, same]
  exact congrArg LinearForm.mk terms

theorem simplify_eq_iff :
    f.simplify = g.simplify ↔ ∀ j, f.coefficient j = g.coefficient j := by
  constructor
  · intro same j
    rw [← coefficient_simplify, same, coefficient_simplify]
  · intro same
    refine (canonical_simplify f).eq_of_coefficient (canonical_simplify g) fun j => ?_
    rw [coefficient_simplify, coefficient_simplify, same]

/-- Simplifying commutes with a factor. -/
theorem simplify_scale (f : LinearForm Rat) {k : Rat} (nonzero : k ≠ 0) :
    (f.scale k).simplify = f.simplify.scale k := by
  refine (canonical_simplify _).eq_of_coefficient ((canonical_simplify f).scale nonzero) fun j => ?_
  rw [coefficient_simplify, coefficient_scale, coefficient_scale, coefficient_simplify]

/-- Simplifying commutes with changing all signs. -/
theorem simplify_eq_neg (opposite : ∀ j, g.coefficient j = -f.coefficient j) :
    g.simplify = -f.simplify := by
  refine (canonical_simplify g).eq_of_coefficient (canonical_simplify f).neg fun j => ?_
  rw [coefficient_neg, coefficient_simplify, coefficient_simplify, opposite]

/-- Equal total coefficients make equal values. -/
theorem value_eq_of_coefficient (same : ∀ j, g.coefficient j = f.coefficient j) :
    g.value = f.value := by
  rw [← value_simplify, simplify_eq_iff.2 same, value_simplify]

theorem value_eq_neg (opposite : ∀ j, g.coefficient j = -f.coefficient j) :
    g.value = -f.value := by
  rw [← value_simplify, simplify_eq_neg opposite, value_neg, value_simplify]

end LinearProgram.LinearForm
