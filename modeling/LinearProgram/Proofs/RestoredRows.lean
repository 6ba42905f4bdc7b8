import Mathlib
import LinearProgram.Proofs.Canonical
import LinearProgram.Proofs.StartingBasis

/-!
# The rows that phase two starts from

`restore` pivots on numbers of any sign, drops rows and takes columns out. Whatever row 0
says after that, the constraint rows are the equations of the standard form without
repetition:

* `Tableau.coefficients`, `Model.coefficients`: the coefficients as matrices;
* `FeasibleBasis.linearIndependent`: rows with a unit column each are independent;
* `Represents.rank_eq`: a tableau with the solutions of the standard form has its rank;
* `restored_rows`: the solutions, the right-hand sides and the independence of the rows
  that `restore` leaves; `doubledRow_restored` for a model.
-/

namespace LinearProgram

open Matrix
open LinearForm (valuation)

/-- The coefficients of the constraint rows, without the right-hand sides. -/
def Tableau.coefficients (t : Tableau Rat) (m n : Nat) : Matrix (Fin m) (Fin n) Rat :=
  .of fun i j => t.get (i + 1) j

/-- The total coefficients of the constraints. -/
def Model.coefficients (m : Model Rat) :
    Matrix (Fin m.constraints.length) (Fin m.vars.length) Rat :=
  .of fun i j => m.constraints[i].form.coefficient j

/-- Matrices with the same kernel have the same rank. -/
theorem rank_eq_of_mulVec_eq_zero_iff {m k n : Nat} {A : Matrix (Fin m) (Fin n) Rat}
    {B : Matrix (Fin k) (Fin n) Rat} (same : ∀ w, A *ᵥ w = 0 ↔ B *ᵥ w = 0) : A.rank = B.rank := by
  have kernel : LinearMap.ker A.mulVecLin = LinearMap.ker B.mulVecLin := by
    ext w
    simp only [LinearMap.mem_ker, Matrix.mulVecLin_apply, same]
  have dims := A.mulVecLin.finrank_range_add_finrank_ker
  rw [kernel, ← B.mulVecLin.finrank_range_add_finrank_ker] at dims
  exact Nat.add_right_cancel dims

namespace Tableau

variable {t : Tableau Rat} {m n : Nat} {basic : Nat → Nat} {Loose : Nat → Prop}

theorem Sized.coefficients_mulVec (sized : t.Sized m n) (v : Nat → Rat) (i : Fin m) :
    (t.coefficients m n *ᵥ fun j => v j) i = t.leftSide (i + 1) v := by
  rw [leftSide, sized.rhsColumn, Finset.sum_range]
  rfl

theorem Sized.coefficients_mulVec_eq_zero_iff (sized : t.Sized m n) {v : Nat → Rat}
    (last : v n = 0) : (t.coefficients m n *ᵥ fun j => v j) = 0 ↔ t.Vanishes v := by
  rw [funext_iff]
  simp only [sized.coefficients_mulVec, ← sized.equation_eq_leftSide _ last, Pi.zero_apply]
  constructor
  · intro zero i pos
    obtain ⟨i, rfl⟩ := Nat.exists_eq_succ_of_ne_zero pos.ne'
    by_cases inside : i < m
    · exact zero ⟨i, inside⟩
    · exact sized.equation_eq_zero (by omega) v
  · exact fun vanishes i => vanishes (i + 1) (Nat.succ_pos _)

/-- In a combination of the rows, the column of a row shows the factor of that row. -/
theorem FeasibleBasis.linearIndependent (basis : t.FeasibleBasis m n basic Loose) :
    LinearIndependent Rat (t.coefficients m n).row := by
  rw [Fintype.linearIndependent_iff]
  intro factors combined i
  have inside := basis.inside (i + 1) (Nat.succ_pos _) (by omega)
  have unit := Tableau.unitIn_succ_iff.1 (basis.unit (i + 1) (Nat.succ_pos _) (by omega))
  have shown := congrFun combined ⟨basic (i + 1), inside⟩
  simpa [coefficients, unit, Fin.val_inj] using shown

end Tableau

theorem Model.coefficients_mulVec {m : Model Rat}
    (within : ∀ c ∈ m.constraints, c.form.Within m.vars.length) (v : Nat → Rat)
    (i : Fin m.constraints.length) :
    (m.coefficients *ᵥ fun j => v j) i = m.constraints[i].form.value v := by
  rw [Fin.getElem_fin, LinearForm.value_eq_sum (within _ (List.getElem_mem i.2)), Finset.sum_range]
  simp only [← LinearForm.coefficient_eq_value]
  rfl

theorem StandardForm.coefficients_mulVec_eq_zero_iff {s : StandardForm Rat}
    (within : ∀ c ∈ s.model.constraints, c.form.Within s.model.vars.length) {v : Nat → Rat}
    (last : v s.model.vars.length = 0) :
    (s.model.coefficients *ᵥ fun j => v j) = 0 ↔ Tableau.Solves s v := by
  rw [funext_iff]
  simp only [Model.coefficients_mulVec within, Pi.zero_apply, Tableau.Solves, last, mul_zero,
    add_zero]
  constructor
  · intro zero c mem
    obtain ⟨i, inside, rfl⟩ := List.getElem_of_mem mem
    exact zero ⟨i, inside⟩
  · exact fun solves i => solves _ (List.getElem_mem i.2)

/-- The rank is that of the solutions with the right-hand sides zero. -/
theorem Tableau.Represents.rank_eq {t : Tableau Rat} {m : Model Rat} {s : StandardForm Rat}
    {k : Nat} (represents : t.Represents m s k)
    (within : ∀ c ∈ s.model.constraints, c.form.Within s.model.vars.length) :
    (t.coefficients k s.model.vars.length).rank = s.model.coefficients.rank := by
  apply rank_eq_of_mulVec_eq_zero_iff
  intro w
  obtain ⟨v, last, rfl⟩ :
      ∃ v : Nat → Rat, v s.model.vars.length = 0 ∧ (fun j : Fin _ => v j) = w := by
    refine ⟨Function.extend Fin.val w 0, ?_, ?_⟩
    · rw [Function.extend_apply', Pi.zero_apply]
      rintro ⟨j, same⟩
      exact j.2.ne same
    · funext j
      exact Fin.val_injective.extend_apply w 0 j
  rw [represents.sized.coefficients_mulVec_eq_zero_iff last, represents.vanishes,
    StandardForm.coefficients_mulVec_eq_zero_iff within last]

/-- The constraint rows that `restore` leaves of an accepted table have the solutions of the
equations of the standard form and right-hand sides that are not negative. They are
independent and as many as the rank of these equations, so that just the redundant rows are
gone. -/
theorem restored_rows {m : Model Rat} {s : StandardForm Rat} {last : Tableau Rat}
    {limit : Option Nat} (built : m.Built) (standard : m.standardForm = .ok s)
    (accepted : Solver.Accepts ⟨0, limit⟩ s last) :
    ∃ restored sides, (s.phaseOne.restore 0 s last).outcome = .ok restored ∧
      restored.Sized s.model.coefficients.rank s.model.vars.length ∧
      (∀ x : List Rat, (∀ i, 0 < i → i < restored.height →
          restored.leftSide i (valuation x) = restored.get i restored.rhsColumn) ↔
        ∀ c ∈ s.model.constraints, c.form.eval x = c.bound) ∧
      restored.rightSides = .ok sides ∧ (∀ side ∈ sides, 0 ≤ side) ∧
      LinearIndependent Rat
        (restored.coefficients s.model.coefficients.rank s.model.vars.length).row := by
  have indexed := built.indexed
  have std := Model.standardForm_standardizes indexed standard
  obtain ⟨⟨⟨raw, auxiliary, same⟩, _, phaseBasis⟩, zero⟩ := accepted.inPhaseOne std indexed
  obtain ⟨restored, made, _⟩ :=
    PhaseOne.exists_restore s 0 (s.phaseOne_covers.vars ▸ phaseBasis.sized)
  obtain ⟨k, basic, Loose, ω, basis, represents, _⟩ :=
    restored_start std indexed auxiliary same phaseBasis zero (PhaseOne.restore_eq_ok made)
  have independent := basis.linearIndependent
  obtain rfl : k = s.model.coefficients.rank := by
    rw [← represents.rank_eq std.within, independent.rank_matrix, Fintype.card_fin]
  refine ⟨restored, _, made, basis.sized, fun x => ?_, basis.sized.rightSides, ?_, independent⟩
  · rw [← basis.sized.vanishes_atPoint_iff, represents.vanishes, std.solves_atPoint]
    simp only [LinearForm.eval_eq_value]
  · simp only [List.forall_mem_map, List.mem_range]
    exact fun i lt => basis.nonneg (i + 1) (Nat.succ_pos i) lt

/-- Maximises `x + 2 y` and asks twice that the sum of both is two. -/
def doubledRow : Model Rat :=
  ⟨"doubled row", [⟨"x", 0⟩, ⟨"y", 1⟩],
    [⟨⟨[⟨0, 1⟩, ⟨1, 1⟩]⟩, .equal, 2, 0⟩, ⟨⟨[⟨0, 2⟩, ⟨1, 2⟩]⟩, .equal, 4, 1⟩],
    some ⟨⟨[⟨0, 1⟩, ⟨1, 2⟩]⟩, .maximize⟩⟩

/-- One row is left, with the solutions of both. -/
theorem doubledRow_restored : doubledRow.Built ∧ ∃ s last restored,
    doubledRow.standardForm = .ok s ∧ Solver.Accepts ⟨0, none⟩ s last ∧
    (s.phaseOne.restore 0 s last).outcome = .ok restored ∧ restored.height = 2 ∧
    s.model.coefficients.rank = 1 ∧
    ∀ x : List Rat, restored.leftSide 1 (valuation x) = restored.get 1 restored.rhsColumn ↔
      ∀ c ∈ s.model.constraints, c.form.eval x = c.bound := by
  have built : doubledRow.Built := Model.built_of_rebuilt rfl
  obtain ⟨s, last, restored, standard, accepted, made, read⟩ :=
    Solver.restoredBasis_eq_some (show Solver.restoredBasis ⟨0, none⟩ 5 doubledRow =
      some [some 1] by decide +kernel)
  obtain ⟨restored', sides, made', sized, solutions, _⟩ := restored_rows built standard accepted
  obtain rfl : restored' = restored := by simpa [made'] using made
  have rank : s.model.coefficients.rank = 1 := (sized.basis_length read).symm
  have height : restored'.height = 2 := by rw [sized.height, rank]
  refine ⟨built, s, last, restored', standard, accepted, made, height, rank, fun x => ?_⟩
  rw [← solutions x]
  constructor
  · intro holds i pos below
    obtain rfl : i = 1 := by omega
    exact holds
  · exact fun rows => rows 1 (by omega) (by omega)

end LinearProgram
