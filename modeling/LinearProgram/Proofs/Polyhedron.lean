import Mathlib

/-!
# Polyhedra without an improving ray

The non-negative points of an affine space with finitely many coordinates:

* `exists_smaller_support`: along a direction that leaves the non-negative
  points, one coordinate more becomes zero;
* `exists_vertex`: some point that is worth as much is alone on its support;
* `bounded_of_no_ray`: a functional that grows along no ray is bounded.
-/

namespace LinearProgram

variable {V : Submodule Rat (Nat → Rat)} {f : (Nat → Rat) →ₗ[Rat] Rat} {x : Nat → Rat}
  {S : Finset Nat}

theorem exists_smaller_support (nonneg : ∀ j, 0 ≤ x j) (support : ∀ j, x j ≠ 0 ↔ j ∈ S)
    {v : Nat → Rat} (inside : ∀ j, v j ≠ 0 → j ∈ S) (leaves : ∃ j, v j < 0) :
    ∃ a, 0 ≤ a ∧ (∀ j, 0 ≤ x j + a * v j) ∧ ∃ i ∈ S, ∀ j, j ∉ S.erase i → x j + a * v j = 0 := by
  obtain ⟨j₀, hj₀⟩ := leaves
  have candidate : j₀ ∈ S.filter fun j => v j < 0 :=
    Finset.mem_filter.2 ⟨inside j₀ hj₀.ne, hj₀⟩
  obtain ⟨i, hi, least⟩ :=
    Finset.exists_min_image (S.filter fun j => v j < 0) (fun j => x j / -v j) ⟨j₀, candidate⟩
  obtain ⟨hiS, negative⟩ := Finset.mem_filter.1 hi
  refine ⟨x i / -v i, div_nonneg (nonneg i) (neg_nonneg.2 negative.le), fun j => ?_, i, hiS,
    fun j hj => ?_⟩
  · by_cases falls : v j < 0
    · have ratio := least j (Finset.mem_filter.2 ⟨inside j falls.ne, falls⟩)
      rw [le_div_iff₀ (neg_pos.2 falls)] at ratio
      linarith
    · have := mul_nonneg (div_nonneg (nonneg i) (neg_nonneg.2 negative.le)) (not_lt.1 falls)
      have := nonneg j
      linarith
  · by_cases same : j = i
    · rw [same]
      field_simp [negative.ne]
      ring
    · have outside : j ∉ S := fun mem => hj (Finset.mem_erase.2 ⟨same, mem⟩)
      have zero : x j = 0 := by
        by_contra nonzero
        exact outside ((support j).1 nonzero)
      have still : v j = 0 := by
        by_contra nonzero
        exact outside (inside j nonzero)
      rw [zero, still, mul_zero, add_zero]

/-- No other point of the space has its support in `S`. -/
def Rigid (V : Submodule Rat (Nat → Rat)) (S : Finset Nat) : Prop :=
  ∀ v ∈ V, (∀ j, v j ≠ 0 → j ∈ S) → v = 0

/-- Without an improving ray, one of the two directions along a line is not worse
and leaves the non-negative points. -/
theorem exists_leaving (noRay : ∀ d ∈ V, (∀ j, 0 ≤ d j) → f d ≤ 0) {v : Nat → Rat} (hv : v ∈ V)
    (nonzero : v ≠ 0) : ∃ w ∈ V, (w = v ∨ w = -v) ∧ 0 ≤ f w ∧ ∃ j, w j < 0 := by
  have improving {w : Nat → Rat} (hw : w ∈ V) (gains : 0 < f w) : ∃ j, w j < 0 := by
    by_contra none
    push Not at none
    exact absurd (noRay w hw none) (not_le.2 gains)
  rcases lt_trichotomy (f v) 0 with falls | flat | grows
  · have gains : 0 < f (-v) := by
      rw [map_neg]
      exact neg_pos.2 falls
    exact ⟨-v, V.neg_mem hv, .inr rfl, gains.le, improving (V.neg_mem hv) gains⟩
  · obtain ⟨j, hj⟩ := Function.ne_iff.1 nonzero
    rcases lt_or_gt_of_ne hj with negative | positive
    · exact ⟨v, hv, .inl rfl, flat.ge, j, negative⟩
    · refine ⟨-v, V.neg_mem hv, .inr rfl, ?_, j, neg_neg_of_pos positive⟩
      rw [map_neg, flat, neg_zero]
  · exact ⟨v, hv, .inl rfl, grows.le, improving hv grows⟩

theorem exists_vertex (noRay : ∀ d ∈ V, (∀ j, 0 ≤ d j) → f d ≤ 0) (nonneg : ∀ j, 0 ≤ x j)
    (support : ∀ j, x j ≠ 0 ↔ j ∈ S) :
    ∃ T ⊆ S, Rigid V T ∧ ∃ y, (∀ j, 0 ≤ y j) ∧ (∀ j, y j ≠ 0 → j ∈ T) ∧ y - x ∈ V ∧ f x ≤ f y := by
  induction S using Finset.strongInduction generalizing x with
  | H S ih =>
    by_cases rigid : Rigid V S
    · exact ⟨S, subset_rfl, rigid, x, nonneg, fun j => (support j).1, by simp, le_rfl⟩
    · unfold Rigid at rigid
      push Not at rigid
      obtain ⟨v, hv, inside, nonzero⟩ := rigid
      obtain ⟨w, hw, sign, gains, leaves⟩ := exists_leaving noRay hv nonzero
      have insideW : ∀ j, w j ≠ 0 → j ∈ S := by
        intro j hj
        apply inside j
        rcases sign with rfl | rfl
        · exact hj
        · exact neg_ne_zero.1 hj
      obtain ⟨a, positive, nonneg', i, hi, zero⟩ :=
        exists_smaller_support nonneg support insideW leaves
      have nonneg' : ∀ j, 0 ≤ (x + a • w) j := nonneg'
      have smaller : (S.filter fun j => (x + a • w) j ≠ 0) ⊂ S := by
        refine Finset.filter_ssubset.2 ⟨i, hi, not_not.2 ?_⟩
        exact zero i (Finset.notMem_erase i S)
      obtain ⟨T, hT, rigid, y, hy, supportY, same, better⟩ := ih _ smaller nonneg' fun j => by
        rw [Finset.mem_filter]
        refine ⟨fun nonzero => ⟨?_, nonzero⟩, And.right⟩
        by_contra outside
        exact nonzero (zero j fun mem => outside (Finset.mem_of_mem_erase mem))
      refine ⟨T, hT.trans smaller.subset, rigid, y, hy, supportY, ?_, ?_⟩
      · have step := V.add_mem same (V.smul_mem a hw)
        rwa [← sub_sub, sub_add_cancel] at step
      · rw [map_add, map_smul, smul_eq_mul] at better
        have := mul_nonneg positive gains
        linarith

/-- Points that are alone on their supports are finitely many, so a functional
without an improving ray is bounded. -/
theorem bounded_of_no_ray (noRay : ∀ d ∈ V, (∀ j, 0 ≤ d j) → f d ≤ 0) (n : Nat) (x₀ : Nat → Rat) :
    ∃ bound, ∀ x : Nat → Rat, (∀ j, 0 ≤ x j) → (∀ j, n ≤ j → x j = 0) → x - x₀ ∈ V →
      f x ≤ bound := by
  -- The value at the one point on a support, if there is one.
  have value : ∀ T : Finset Nat, ∃ b, Rigid V T → ∀ y : Nat → Rat, (∀ j, y j ≠ 0 → j ∈ T) →
      y - x₀ ∈ V → f y = b := by
    intro T
    by_cases point : ∃ y : Nat → Rat, (∀ j, y j ≠ 0 → j ∈ T) ∧ y - x₀ ∈ V
    · obtain ⟨y, support, mem⟩ := point
      refine ⟨f y, fun rigid z supportZ memZ => ?_⟩
      have alone : z - y = 0 := by
        apply rigid
        · have := V.sub_mem memZ mem
          rwa [sub_sub_sub_cancel_right] at this
        · intro j hj
          by_contra outside
          have zeroY : y j = 0 := by
            by_contra nonzero
            exact outside (support j nonzero)
          have zeroZ : z j = 0 := by
            by_contra nonzero
            exact outside (supportZ j nonzero)
          exact hj (by rw [Pi.sub_apply, zeroY, zeroZ, sub_zero])
      rw [sub_eq_zero.1 alone]
    · exact ⟨0, fun _ y support mem => absurd ⟨y, support, mem⟩ point⟩
  choose b value using value
  refine ⟨∑ T ∈ (Finset.range n).powerset, |b T|, fun x nonneg outside mem => ?_⟩
  obtain ⟨T, hT, rigid, y, _, support, same, better⟩ :=
    exists_vertex (S := (Finset.range n).filter fun j => x j ≠ 0) noRay nonneg fun j => by
      rw [Finset.mem_filter, Finset.mem_range]
      refine ⟨fun nonzero => ⟨?_, nonzero⟩, And.right⟩
      by_contra notLt
      exact nonzero (outside j (not_lt.1 notLt))
  have memY : y - x₀ ∈ V := by
    have := V.add_mem same mem
    rwa [sub_add_sub_cancel] at this
  have listed : T ∈ (Finset.range n).powerset :=
    Finset.mem_powerset.2 (hT.trans (Finset.filter_subset _ _))
  calc f x ≤ f y := better
    _ = b T := value T rigid y support memY
    _ ≤ |b T| := le_abs_self _
    _ ≤ ∑ T ∈ (Finset.range n).powerset, |b T| :=
        Finset.single_le_sum (f := fun T => |b T|) (fun _ _ => abs_nonneg _) listed

end LinearProgram
