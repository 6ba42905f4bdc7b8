import Mathlib
import LinearProgram.Proofs.Start

/-!
# Feasible points on their way through the solver

Under any tolerance that is not negative, no table that the solver passes cuts a
feasible point off:

* `Solver.Passes`: the tables that are passed, from the first one of phase one to
  the last one of phase two, also between the steps of `restore`;
* `Tableau.Admits`: a point satisfies the constraint rows, and row 0 as an equation
  for the objective;
* `Solver.Passes.admits`: every table that is passed admits every feasible point
  with its gaps;
* `feasible_admitted_and_bounded`: the same for whole answers, with the bound that
  an optimal one gives.
-/

namespace LinearProgram

open LinearForm (valuation)
open Tableau (atPoint)

/-- Row 0 is about the sum of the artificial variables first, then about the
objective. -/
inductive Phase where
  | one
  | two

/-- What row 0 does not contain of the value it shows. -/
noncomputable def Phase.offset (m : Model Rat) (x : List Rat) : Phase → Rat
  | .one => 0
  | .two => m.gain (valuation x)

namespace Solver

variable {solver : Solver Rat} {s : StandardForm Rat}

/-- Phase one has ended without a positive artificial variable. -/
inductive Accepts (solver : Solver Rat) (s : StandardForm Rat) (last : Tableau Rat) : Prop
  | mk {first : Tableau Rat} {fuel : Nat} (uncovered : s.needsPhaseOne = true)
      (table : s.phaseOne.initialTableau solver.tolerance = .ok first)
      (run : (first.run solver.tolerance solver.limit fuel).Decides (.optimal last))
      (zero : s.phaseOne.artificialsPositive solver.tolerance last = .ok false)

/-- The artificial variables have been driven out. -/
inductive Clears (solver : Solver Rat) (s : StandardForm Rat) (cleared : Tableau Rat)
    (redundant : List Nat) : Prop
  | mk {last : Tableau Rat} {listed : List (Option Nat)} (accepted : solver.Accepts s last)
      (read : last.basis solver.tolerance = .ok listed)
      (driven : (s.phaseOne.driveOut solver.tolerance (listed.zipIdx 1) last).outcome =
        .ok (cleared, redundant))

/-- The redundant rows have been dropped and the artificial columns taken out. -/
inductive Strips (solver : Solver Rat) (s : StandardForm Rat) (kept stripped : Tableau Rat) : Prop
  | mk {cleared : Tableau Rat} {redundant : List Nat} (clears : solver.Clears s cleared redundant)
      (dropped : (PhaseOne.dropRows redundant.reverse cleared).outcome = .ok kept)
      (strip : kept.withoutColumns s.phaseOne.artificials.keys = .ok stripped)

/-- The tables that a solver passes with a model in standard form. A loop that goes
through a list passes one table for every part of the list it has done. -/
inductive Passes (solver : Solver Rat) (s : StandardForm Rat) : Phase → Tableau Rat → Prop
  | written {costs : List Rat} {basis : List (Option Nat)} {raw t : Tableau Rat} (done : Nat)
      (uncovered : s.needsPhaseOne = true) (priced : s.phaseOne.costs = .ok costs)
      (write : Tableau.ofModel costs s.phaseOne.model = .ok raw)
      (listed : s.phaseOne.startBasis = .ok basis)
      (clear : raw.canonicalize solver.tolerance (basis.take done) = .ok t) :
      Passes solver s .one t
  | auxiliary {first : Tableau Rat} (fuel : Nat) (uncovered : s.needsPhaseOne = true)
      (table : s.phaseOne.initialTableau solver.tolerance = .ok first) :
      Passes solver s .one (first.run solver.tolerance solver.limit fuel).last
  | driven {last t : Tableau Rat} {listed : List (Option Nat)} {redundant : List Nat} (done : Nat)
      (accepted : solver.Accepts s last) (read : last.basis solver.tolerance = .ok listed)
      (drive : (s.phaseOne.driveOut solver.tolerance ((listed.zipIdx 1).take done) last).outcome =
        .ok (t, redundant)) : Passes solver s .one t
  | dropped {cleared t : Tableau Rat} {redundant : List Nat} (done : Nat)
      (clears : solver.Clears s cleared redundant)
      (drop : (PhaseOne.dropRows (redundant.reverse.take done) cleared).outcome = .ok t) :
      Passes solver s .one t
  | stripped {kept t : Tableau Rat} (strips : solver.Strips s kept t) : Passes solver s .one t
  | priced {kept stripped priced t : Tableau Rat} {listed : List (Option Nat)} (done : Nat)
      (strips : solver.Strips s kept stripped)
      (price : stripped.setObjectiveRow s.objectiveRow = .ok priced)
      (reread : kept.basis solver.tolerance = .ok listed)
      (clear : priced.canonicalize solver.tolerance ((s.phaseOne.realBasis listed).take done) =
        .ok t) : Passes solver s .two t
  | improved {first : Tableau Rat} (fuel fuel' : Nat)
      (starts : solver.Starts fuel s (.feasible first)) :
      Passes solver s .two (first.run solver.tolerance solver.limit fuel').last

end Solver

namespace Tableau

variable {t u : Tableau Rat} {m k n : Nat} {offset : Rat} {x : Nat → Rat}

/-- A point satisfies all constraint rows, and row 0 up to an offset. -/
structure Admits (t : Tableau Rat) (offset : Rat) (x : Nat → Rat) : Prop where
  rows : ∀ i, 0 < i → t.leftSide i x = t.get i t.rhsColumn
  value : ∃ value, t.objectiveValue = .ok value ∧ offset + t.leftSide 0 x = value

theorem Sized.admits_iff (sized : t.Sized m n) : t.Admits offset x ↔
    t.Vanishes (atPoint n x) ∧ t.equation 0 (atPoint n x) = -offset := by
  have equation (i : Nat) : t.equation i (atPoint n x) = t.leftSide i x - t.get i t.rhsColumn := by
    rw [sized.equation_atPoint_leftSide, sized.rhsColumn]
  constructor
  · rintro ⟨rows, value, shown, same⟩
    rw [sized.objectiveValue] at shown
    injection shown with shown
    refine ⟨fun i pos => by rw [equation, rows i pos, sub_self], ?_⟩
    rw [equation, sized.rhsColumn, shown, ← same]
    ring
  · rintro ⟨vanishes, price⟩
    refine ⟨fun i pos => sub_eq_zero.1 ((equation i).symm.trans (vanishes i pos)), _,
      sized.objectiveValue, ?_⟩
    rw [equation, sized.rhsColumn] at price
    linarith

theorem Admits.entails (admits : t.Admits offset x) (sized : t.Sized m n) (sized' : u.Sized k n)
    (entails : t.Entails u) : u.Admits offset x := by
  obtain ⟨vanishes, price⟩ := sized.admits_iff.1 admits
  obtain ⟨vanishes', same⟩ := entails _ vanishes
  exact sized'.admits_iff.2 ⟨vanishes', same.trans price⟩

/-- If no reduced cost is below minus the tolerance, the value that row 0 shows is
a bound up to the tolerance. -/
theorem Admits.offset_le (admits : t.Admits offset x) (sized : t.Sized m n) {ε : Rat}
    (optimal : ∀ j < n, -ε ≤ t.get 0 j) (nonneg : ∀ j, 0 ≤ x j) :
    ∃ value, t.objectiveValue = .ok value ∧ offset ≤ value + ε * ∑ j ∈ Finset.range n, x j := by
  obtain ⟨_, value, shown, same⟩ := admits
  have least : -ε * ∑ j ∈ Finset.range n, x j ≤ t.leftSide 0 x := by
    rw [leftSide, sized.rhsColumn, Finset.mul_sum]
    apply Finset.sum_le_sum
    intro j hj
    exact mul_le_mul_of_nonneg_right (optimal j (Finset.mem_range.1 hj)) (nonneg j)
  refine ⟨value, shown, ?_⟩
  linarith

end Tableau

section Passage

variable {m : Model Rat} {s : StandardForm Rat} (std : m.Standardizes s) (indexed : m.Indexed)
  {x : List Rat} (feasible : m.Feasible x)

include std indexed feasible

namespace Tableau

theorem Auxiliary.admits {raw : Tableau Rat} (auxiliary : raw.Auxiliary s) :
    raw.Admits 0 (s.extend m x) := by
  obtain ⟨vanishes, price⟩ := auxiliary.extend_satisfies std indexed feasible
  exact auxiliary.sized.admits_iff.2 ⟨vanishes, by rw [price, neg_zero]⟩

theorem Represents.admits {t : Tableau Rat} {k : Nat} (represents : t.Represents m s k) :
    t.Admits (m.gain (valuation x)) (s.extend m x) :=
  represents.sized.admits_iff.2 (represents.extend_satisfies std indexed feasible)

end Tableau

namespace Solver

variable {solver : Solver Rat} (nonneg : 0 ≤ solver.tolerance)

include nonneg

theorem auxiliary_admits {first : Tableau Rat}
    (table : s.phaseOne.initialTableau solver.tolerance = .ok first) (fuel : Nat) :
    (first.run solver.tolerance solver.limit fuel).last.Sized s.model.constraints.length
        s.phaseOneWidth ∧
      (first.run solver.tolerance solver.limit fuel).last.Admits 0 (s.extend m x) := by
  obtain ⟨raw, auxiliary, same, sized⟩ := StandardForm.auxiliary_start std table
  obtain ⟨sized', same', _⟩ := sized.run nonneg solver.limit fuel
  exact ⟨sized', (auxiliary.admits std indexed feasible).entails auxiliary.sized sized'
    (same.trans same').1⟩

theorem Accepts.admits {last : Tableau Rat} (accepts : solver.Accepts s last) :
    last.Sized s.model.constraints.length s.phaseOneWidth ∧ last.Admits 0 (s.extend m x) := by
  cases accepts with
  | mk _ table run _ =>
    cases run
    exact auxiliary_admits std indexed feasible nonneg table _

/-- Between two rows that are driven out, and after the last. -/
theorem driven_admits {last t : Tableau Rat} {listed : List (Option Nat)} {redundant : List Nat}
    {done : Nat} (accepted : solver.Accepts s last)
    (read : last.basis solver.tolerance = .ok listed)
    (drive : (s.phaseOne.driveOut solver.tolerance ((listed.zipIdx 1).take done) last).outcome =
      .ok (t, redundant)) :
    t.Sized s.model.constraints.length s.phaseOneWidth ∧ t.Admits 0 (s.extend m x) ∧
      redundant.Sublist (List.range' 1 s.model.constraints.length) := by
  obtain ⟨sized, admits⟩ := accepted.admits std indexed feasible nonneg
  have length := sized.basis_length read
  have rows : ∀ e ∈ (listed.zipIdx 1).take done, 0 < e.2 ∧ e.2 ≤ s.model.constraints.length :=
    fun e he => PhaseOne.rows_of_mem_zipIdx length e (List.mem_of_mem_take he)
  have drives := PhaseOne.driveOut_drives sized rows drive
  obtain ⟨sized', same⟩ := drives.equivalent nonneg sized rows
  refine ⟨sized', admits.entails sized sized' same.1, ?_⟩
  have sublist := drives.sublist.trans ((List.take_sublist done _).map Prod.snd)
  rwa [List.zipIdx_map_snd, length] at sublist

theorem Clears.admits {cleared : Tableau Rat} {redundant : List Nat}
    (clears : solver.Clears s cleared redundant) :
    cleared.Sized s.model.constraints.length s.phaseOneWidth ∧
      cleared.Admits 0 (s.extend m x) ∧
      redundant.Sublist (List.range' 1 s.model.constraints.length) := by
  cases clears with
  | mk accepted read driven =>
    rw [← List.take_length (l := List.zipIdx _ 1)] at driven
    exact driven_admits std indexed feasible nonneg accepted read driven

/-- Between two rows that are dropped, and after the last. -/
theorem dropped_admits {cleared t : Tableau Rat} {redundant : List Nat} {done : Nat}
    (clears : solver.Clears s cleared redundant)
    (drop : (PhaseOne.dropRows (redundant.reverse.take done) cleared).outcome = .ok t) :
    ∃ k, t.Sized k s.phaseOneWidth ∧ t.Admits 0 (s.extend m x) := by
  obtain ⟨sized, admits, sublist⟩ := clears.admits std indexed feasible nonneg
  obtain ⟨descending, inside⟩ := PhaseOne.descending_reverse sublist
  obtain ⟨k, _, keeps⟩ := Tableau.dropRows_keeps sized
    (descending.sublist (List.take_sublist done _))
    (fun r hr => inside r (List.mem_of_mem_take hr)) drop
  exact ⟨k, keeps.sized, admits.entails sized keeps.sized (keeps.entails sized)⟩

/-- The artificial columns are zero at the point. -/
theorem Strips.admits {kept stripped : Tableau Rat} (strips : solver.Strips s kept stripped) :
    ∃ k, kept.Sized k s.phaseOneWidth ∧ kept.Admits 0 (s.extend m x) ∧
      kept.Strips stripped k s.phaseOneWidth s.model.vars.length ∧
      stripped.Admits 0 (s.extend m x) := by
  cases strips with
  | mk clears dropped strip =>
    rw [← List.take_length (l := List.reverse _)] at dropped
    obtain ⟨k, sized, admits⟩ := dropped_admits std indexed feasible nonneg clears dropped
    have wide : s.model.vars.length ≤ s.phaseOneWidth := Nat.le_add_right _ _
    obtain ⟨stripped', strip', strips⟩ := sized.withoutColumns
    rw [s.phaseOne_covers.keys, strip'] at strip
    obtain rfl : stripped' = stripped := by simpa using strip
    have strips : kept.Strips stripped' k s.phaseOneWidth s.model.vars.length := strips
    refine ⟨k, sized, admits, strips, strips.sized.admits_iff.2 ?_⟩
    have equation (i : Nat) : stripped'.equation i (atPoint s.model.vars.length (s.extend m x)) =
        kept.equation i (atPoint s.phaseOneWidth (s.extend m x)) := by
      rw [strips.equation sized wide, std.lift_extend x wide]
    obtain ⟨vanishes, price⟩ := sized.admits_iff.1 admits
    exact ⟨fun i pos => (equation i).trans (vanishes i pos), (equation 0).trans price⟩

/-- Between two columns whose costs are cleared, and after the last. -/
theorem priced_admits {kept stripped priced t : Tableau Rat} {listed : List (Option Nat)}
    {done : Nat} (strips : solver.Strips s kept stripped)
    (price : stripped.setObjectiveRow s.objectiveRow = .ok priced)
    (reread : kept.basis solver.tolerance = .ok listed)
    (clear : priced.canonicalize solver.tolerance ((s.phaseOne.realBasis listed).take done) =
      .ok t) :
    ∃ k, t.Sized k s.model.vars.length ∧
      t.Admits (m.gain (valuation x)) (s.extend m x) := by
  obtain ⟨k, sized, admits, columns, _⟩ := strips.admits std indexed feasible nonneg
  have wide : s.model.vars.length ≤ s.phaseOneWidth := Nat.le_add_right _ _
  have table := columns.priced sized wide s.length_objectiveRow price
  have length : ((s.phaseOne.realBasis listed).take done).length ≤ k := by
    rw [← sized.basis_length reread, ← s.phaseOne.length_realBasis listed]
    exact List.length_take_le' _ _
  obtain ⟨sized', _⟩ := table.sized.get_canonicalize length clear
  have same := table.sized.equivalent_canonicalize length clear
  have old : priced.Admits (m.gain (valuation x)) (s.extend m x) := by
    rw [table.sized.admits_iff, table.vanishes_iff, std.lift_extend x wide,
      table.price std indexed, std.gain_extend indexed]
    exact ⟨(sized.admits_iff.1 admits).1, rfl⟩
  exact ⟨k, sized', old.entails table.sized sized' same.1⟩

theorem Starts.admits {first : Tableau Rat} {fuel : Nat}
    (starts : solver.Starts fuel s (.feasible first)) :
    ∃ k, first.Sized k s.model.vars.length ∧
      first.Admits (m.gain (valuation x)) (s.extend m x) := by
  cases starts with
  | slack _ table =>
    obtain ⟨first', written, _, represents⟩ := std.tableau_represents indexed
    obtain rfl : first' = first := by simpa [written] using table
    exact ⟨_, represents.sized, represents.admits std indexed feasible⟩
  | restored uncovered table run zero restore =>
    cases PhaseOne.restore_eq_ok restore with
    | mk read driven dropped reread strip price clear =>
      have clears := Clears.mk (.mk uncovered table run zero) read driven
      rw [← List.take_length (l := s.phaseOne.realBasis _)] at clear
      exact priced_admits std indexed feasible nonneg (.mk clears dropped strip) price reread clear

theorem improved_admits {first : Tableau Rat} {fuel : Nat}
    (starts : solver.Starts fuel s (.feasible first)) (fuel' : Nat) :
    ∃ k, (first.run solver.tolerance solver.limit fuel').last.Sized k s.model.vars.length ∧
      (first.run solver.tolerance solver.limit fuel').last.Admits (m.gain (valuation x))
        (s.extend m x) ∧
      Tableau.Ends solver.tolerance k s.model.vars.length
        (first.run solver.tolerance solver.limit fuel') := by
  obtain ⟨k, sized, admits⟩ := starts.admits std indexed feasible nonneg
  obtain ⟨sized', same, ends⟩ := sized.run nonneg solver.limit fuel'
  exact ⟨k, sized', admits.entails sized sized' same.1, ends⟩

/-- No table that is passed cuts a feasible point off. -/
theorem Passes.admits {phase : Phase} {t : Tableau Rat} (passes : solver.Passes s phase t) :
    t.Admits (phase.offset m x) (s.extend m x) := by
  cases passes with
  | written done _ priced write listed clear =>
    have covers := s.phaseOne_covers
    have auxiliary := covers.auxiliary std priced write
    have length : (List.take done _).length ≤ s.model.constraints.length :=
      (List.length_take_le' _ _).trans (covers.startBasis_eq_ok listed).1.le
    exact (auxiliary.admits std indexed feasible).entails auxiliary.sized
      (auxiliary.sized.get_canonicalize length clear).1
      (auxiliary.sized.equivalent_canonicalize length clear).1
  | auxiliary fuel _ table => exact (auxiliary_admits std indexed feasible nonneg table fuel).2
  | driven _ accepted read drive =>
    exact (driven_admits std indexed feasible nonneg accepted read drive).2.1
  | dropped _ clears drop =>
    obtain ⟨_, _, admits⟩ := dropped_admits std indexed feasible nonneg clears drop
    exact admits
  | stripped strips =>
    obtain ⟨_, _, _, _, admits⟩ := strips.admits std indexed feasible nonneg
    exact admits
  | priced _ strips price reread clear =>
    obtain ⟨_, _, admits⟩ := priced_admits std indexed feasible nonneg strips price reread clear
    exact admits
  | improved _ fuel' starts =>
    obtain ⟨_, _, admits, _⟩ := improved_admits std indexed feasible nonneg starts fuel'
    exact admits

end Solver

end Passage

namespace Solver

variable {solver : Solver Rat} {m : Model Rat} {s : StandardForm Rat} {fuel : Nat}
  {solution : Solution Rat}

/-- Both tables of an answer are among those that are passed. -/
theorem Answers.passes (answers : solver.Answers fuel m s solution) :
    (∃ phase, solver.Passes s phase solution.initialTableau) ∧
      ∃ phase, solver.Passes s phase solution.finalTableau := by
  have phaseTwo {first : Tableau Rat} (starts : solver.Starts fuel s (.feasible first)) :
      (∃ phase, solver.Passes s phase first) ∧ ∃ phase, solver.Passes s phase
        (first.run solver.tolerance solver.limit fuel).last :=
    ⟨⟨.two, .improved fuel 0 starts⟩, .two, .improved fuel fuel starts⟩
  cases answers with
  | infeasible start =>
    cases start with
    | unbounded uncovered table run =>
      have last : ∃ phase, solver.Passes s phase _ := ⟨.one, .auxiliary fuel uncovered table⟩
      cases run <;> exact ⟨last, last⟩
    | positive uncovered table run _ =>
      have last : ∃ phase, solver.Passes s phase _ := ⟨.one, .auxiliary fuel uncovered table⟩
      cases run
      exact ⟨last, last⟩
  | unbounded start run => cases run <;> exact phaseTwo start
  | optimal start run _ =>
    cases run
    exact phaseTwo start

variable {x : List Rat}

/-- Every table that is passed admits every feasible point with its gaps, and the
last table of an optimal answer bounds its gain. -/
theorem feasible_admitted_and_bounded (built : m.Built) (standard : m.standardForm = .ok s)
    (nonneg : 0 ≤ solver.tolerance) (feasible : m.Feasible x) :
    (∀ phase t, solver.Passes s phase t → t.Admits (phase.offset m x) (s.extend m x)) ∧
      ∀ fuel solution, (solver.solve fuel m).outcome = .ok solution →
        (∃ phase, solver.Passes s phase solution.initialTableau) ∧
        (∃ phase, solver.Passes s phase solution.finalTableau) ∧
        (solution.status = .optimal →
          ∃ value, solution.finalTableau.objectiveValue = .ok value ∧
            m.gain (valuation x) ≤ value + solver.tolerance *
              ∑ j ∈ Finset.range s.model.vars.length, s.extend m x j) := by
  have indexed := built.indexed
  have std := Model.standardForm_standardizes indexed standard
  refine ⟨fun phase t passes => passes.admits std indexed feasible nonneg,
    fun fuel solution solved => ?_⟩
  obtain ⟨s', _, standard', answers⟩ := Solver.solve_eq_ok solved
  obtain rfl : s' = s := by simpa [standard] using standard'.symm
  obtain ⟨initial, final⟩ := answers.passes
  refine ⟨initial, final, fun optimal => ?_⟩
  cases answers with
  | infeasible start => exact nomatch optimal
  | unbounded start run => exact nomatch optimal
  | optimal start run values =>
    obtain ⟨k, sized, admits, ends⟩ := improved_admits std indexed feasible nonneg start fuel
    cases run with
    | optimal ending =>
      exact admits.offset_le sized (ends.optimal ending) (s'.extend_nonneg feasible)

end Solver

/-- Maximises a variable between one and two. -/
def narrowRange : Model Rat :=
  ⟨"narrow range", [⟨"x", 0⟩],
    [⟨⟨[⟨0, 1⟩]⟩, .atLeast, 1, 0⟩, ⟨⟨[⟨0, 1⟩]⟩, .atMost, 2, 1⟩],
    some ⟨⟨[⟨0, 1⟩]⟩, .maximize⟩⟩

theorem narrowRange_feasible : narrowRange.Feasible [2] where
  length := rfl
  nonneg := by decide
  satisfied := by decide +kernel

/-- Solved under a positive tolerance, the narrow range has an answer that bounds
the value two. -/
theorem narrowRange_bounded :
    ∃ s solution value, narrowRange.standardForm = .ok s ∧
      (Solver.solve ⟨1 / 1000000000, none⟩ 10 narrowRange).outcome = .ok solution ∧
      solution.status = .optimal ∧ solution.finalTableau.objectiveValue = .ok value ∧
      narrowRange.gain (valuation [2]) ≤ value + 1 / 1000000000 *
        ∑ j ∈ Finset.range s.model.vars.length, s.extend narrowRange [2] j := by
  have built : narrowRange.Built := Model.built_of_rebuilt rfl
  obtain ⟨s, standard, _⟩ := exists_ok_of_map (f := fun _ => ()) (c := ())
    (x := narrowRange.standardForm) (by decide +kernel)
  obtain ⟨solution, solved, status⟩ := exists_ok_of_map (f := Solution.status) (c := .optimal)
    (x := (Solver.solve ⟨1 / 1000000000, none⟩ 10 narrowRange).outcome) (by decide +kernel)
  have nonneg : 0 ≤ (⟨1 / 1000000000, none⟩ : Solver Rat).tolerance := by norm_num
  obtain ⟨_, answers⟩ :=
    Solver.feasible_admitted_and_bounded built standard nonneg narrowRange_feasible
  obtain ⟨value, shown, bound⟩ := (answers 10 solution solved).2.2 status
  exact ⟨s, solution, value, standard, solved, status, shown, bound⟩

end LinearProgram
