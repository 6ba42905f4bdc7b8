import Mathlib
import LinearProgram.Proofs.Outcome
import LinearProgram.Solver

/-!
# What the solver can do

An answer of the solver has come about in one of few ways, and every test it has
passed on the way is known afterwards:

* `Run.Decides`, `Run.verdict_eq_ok`: the ways a run of the pivot loop counts as an
  answer;
* `Starts`, `start_eq_ok`: how phase two is reached, or not;
* `Answers`, `solve_eq_ok`: how a model is answered.
-/

namespace LinearProgram

variable {α : Type}

@[simp] theorem outcome_ofTable {β : Type} (r : Except Fault β) :
    (Solving.ofTable r : Solving α β).outcome = r.mapError .fault := rfl

@[simp] theorem outcome_ofModel {β : Type} (r : Except ModelError β) :
    (Solving.ofModel r : Solving α β).outcome = r.mapError .model := rfl

/-- The last table of a run and why it counts as an answer. -/
inductive Run.Decides (r : Run α) : Verdict α → Prop
  | optimal (ending : r.ending = .optimal) : Decides r (.optimal r.last)
  | unbounded {c : Nat} (ending : r.ending = .unbounded c) : Decides r (.unbounded r.last)
  | blocked (ending : r.ending = .blocked) : Decides r (.unbounded r.last)

theorem Run.verdict_eq_ok {r : Run α} {v : Verdict α} (h : r.verdict = .ok v) : r.Decides v := by
  unfold Run.verdict at h
  cases ending : r.ending with
  | optimal =>
    rw [ending] at h
    injection h with h
    exact h ▸ .optimal ending
  | unbounded c =>
    rw [ending] at h
    injection h with h
    exact h ▸ .unbounded ending
  | blocked =>
    rw [ending] at h
    injection h with h
    exact h ▸ .blocked ending
  | limitReached limit =>
    rw [ending] at h
    exact nomatch h
  | unfinished =>
    rw [ending] at h
    exact nomatch h
  | fault cause =>
    rw [ending] at h
    exact nomatch h

/-- A model that is answered has an objective. -/
theorem Model.objective_of_validate {m : Model α} (h : m.validate = .ok ()) :
    ∃ o, m.objective = some o := by
  unfold Model.validate at h
  split at h
  · exact nomatch h
  · split at h
    · exact nomatch h
    · rename_i present
      exact Option.ne_none_iff_exists'.1 fun none => present (by rw [none]; rfl)

namespace Solver

variable [Scalar α] {solver : Solver α} {fuel : Nat} {m : Model α} {s : StandardForm α}

theorem outcome_optimize (t : Tableau α) :
    (solver.optimize fuel t).outcome = (t.run solver.tolerance solver.limit fuel).verdict := rfl

/-- How phase two is reached, or why it is not. -/
inductive Starts (solver : Solver α) (fuel : Nat) (s : StandardForm α) : Start α → Prop
  | slack {first : Tableau α} (covered : s.needsPhaseOne = false) (table : s.tableau = .ok first) :
      Starts solver fuel s (.feasible first)
  | unbounded {first last : Tableau α} (uncovered : s.needsPhaseOne = true)
      (table : s.phaseOne.initialTableau solver.tolerance = .ok first)
      (run : (first.run solver.tolerance solver.limit fuel).Decides (.unbounded last)) :
      Starts solver fuel s (.infeasible last)
  | positive {first last : Tableau α} (uncovered : s.needsPhaseOne = true)
      (table : s.phaseOne.initialTableau solver.tolerance = .ok first)
      (run : (first.run solver.tolerance solver.limit fuel).Decides (.optimal last))
      (positive : s.phaseOne.artificialsPositive solver.tolerance last = .ok true) :
      Starts solver fuel s (.infeasible last)
  | restored {first last restored : Tableau α} (uncovered : s.needsPhaseOne = true)
      (table : s.phaseOne.initialTableau solver.tolerance = .ok first)
      (run : (first.run solver.tolerance solver.limit fuel).Decides (.optimal last))
      (zero : s.phaseOne.artificialsPositive solver.tolerance last = .ok false)
      (restore : (s.phaseOne.restore solver.tolerance s last).outcome = .ok restored) :
      Starts solver fuel s (.feasible restored)

theorem start_eq_ok {start : Start α} (h : (solver.start fuel s).outcome = .ok start) :
    Starts solver fuel s start := by
  unfold Solver.start at h
  split at h
  · rename_i uncovered
    simp only [Traced.outcome_bind, outcome_ofTable, Traced.outcome_note, except_bind_eq_ok,
      mapError_eq_ok, outcome_optimize] at h
    obtain ⟨_, _, first, table, verdict, run, h⟩ := h
    have decides := Run.verdict_eq_ok run
    cases verdict with
    | unbounded last =>
      injection h with h
      exact h ▸ .unbounded uncovered table decides
    | optimal last =>
      simp only [Traced.outcome_bind, outcome_ofTable, except_bind_eq_ok, mapError_eq_ok] at h
      obtain ⟨positive, tested, h⟩ := h
      cases positive with
      | true =>
        injection h with h
        exact h ▸ .positive uncovered table decides tested
      | false =>
        simp only [Bool.false_eq_true, if_false, Traced.outcome_bind, Traced.outcome_mapError,
          except_bind_eq_ok, mapError_eq_ok] at h
        obtain ⟨restored, restore, h⟩ := h
        injection h with h
        exact h ▸ .restored uncovered table decides tested restore
  · rename_i covered
    simp only [Traced.outcome_bind, outcome_ofTable, except_bind_eq_ok, mapError_eq_ok] at h
    obtain ⟨first, table, h⟩ := h
    injection h with h
    exact h ▸ .slack (Bool.eq_false_iff.2 covered) table

/-- How a model in standard form is answered. -/
inductive Answers (solver : Solver α) (fuel : Nat) (m : Model α) (s : StandardForm α) :
    Solution α → Prop
  | infeasible {last : Tableau α} (start : Starts solver fuel s (.infeasible last)) :
      Answers solver fuel m s (.infeasible m last last)
  | unbounded {first last : Tableau α} (start : Starts solver fuel s (.feasible first))
      (run : (first.run solver.tolerance solver.limit fuel).Decides (.unbounded last)) :
      Answers solver fuel m s (.unbounded m first last)
  | optimal {first last : Tableau α} {columns : List α}
      (start : Starts solver fuel s (.feasible first))
      (run : (first.run solver.tolerance solver.limit fuel).Decides (.optimal last))
      (values : last.assignment solver.tolerance = .ok columns) :
      Answers solver fuel m s (.optimal m columns first last)

theorem solve_eq_ok {solution : Solution α} (h : (solver.solve fuel m).outcome = .ok solution) :
    ∃ s, m.validate = .ok () ∧ m.standardForm = .ok s ∧ Answers solver fuel m s solution := by
  unfold Solver.solve at h
  simp only [Traced.outcome_bind, outcome_ofModel, outcome_ofTable, Traced.outcome_note,
    except_bind_eq_ok, mapError_eq_ok] at h
  obtain ⟨_, valid, s, standard, _, _, start, started, h⟩ := h
  refine ⟨s, valid, standard, ?_⟩
  have starts := start_eq_ok started
  cases start with
  | infeasible last =>
    injection h with h
    exact h ▸ .infeasible starts
  | feasible first =>
    simp only [Traced.outcome_bind, outcome_optimize, except_bind_eq_ok] at h
    obtain ⟨verdict, run, h⟩ := h
    have decides := Run.verdict_eq_ok run
    cases verdict with
    | unbounded last =>
      injection h with h
      exact h ▸ .unbounded starts decides
    | optimal last =>
      simp only [Traced.outcome_bind, outcome_ofTable, Traced.outcome_note, except_bind_eq_ok,
        mapError_eq_ok] at h
      obtain ⟨columns, values, _, _, _, _, h⟩ := h
      injection h with h
      exact h ▸ .optimal starts decides values

end Solver

end LinearProgram
