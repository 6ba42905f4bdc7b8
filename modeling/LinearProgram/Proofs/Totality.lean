import Mathlib
import LinearProgram.Proofs.Limit
import LinearProgram.Proofs.Projection
import LinearProgram.Proofs.Start

/-!
# Solving does not fault

Over any scalars, whatever their comparisons say, every table that solving meets has
the size that the model gives it, so that nothing is looked up past an end:

* `Unfaulted`: a computation that fulfils a condition or fails without a fault, put
  together by `Unfaulted.bind`;
* `optimize_unfaulted`, `start_unfaulted`, `solve_unfaulted`: the solver, stage by stage;
* `solve_total`: on a model that was built, solving answers, refuses the model or
  reaches its limit, and the positions it uses unchecked exist.
-/

namespace LinearProgram

variable {α β γ : Type}

/-- The result fulfils a condition, or there is none for another reason than a fault. -/
def Unfaulted (post : β → Prop) : Except Failure β → Prop
  | .ok b => post b
  | .error e => ∀ cause, e ≠ .fault cause

namespace Unfaulted

variable {post : β → Prop} {post' : γ → Prop}

theorem bind {x : Except Failure β} {f : β → Except Failure γ} (first : Unfaulted post x)
    (rest : ∀ b, post b → Unfaulted post' (f b)) : Unfaulted post' (x.bind f) := by
  cases x with
  | error e => exact first
  | ok b => exact rest b first

/-- What is known of every result of a computation that does not fault. -/
theorem of_ok {x : Except Failure β} (unfaulted : Unfaulted (fun _ => True) x)
    (holds : ∀ b, x = .ok b → post b) : Unfaulted post x := by
  cases x with
  | error e => exact unfaulted
  | ok b => exact holds b rfl

/-- A look-up that succeeds. -/
theorem table {x : Except Fault β} (found : ∃ b, x = .ok b ∧ post b) :
    Unfaulted post (x.mapError .fault) := by
  obtain ⟨b, rfl, holds⟩ := found
  exact holds

/-- The model itself is never the cause of a fault. -/
theorem model (x : Except ModelError β) :
    Unfaulted (fun _ => True) (x.mapError .model) := by
  cases x with
  | error e => exact fun _ => nofun
  | ok b => trivial

theorem ne_fault {x : Except Failure β} (unfaulted : Unfaulted post x) (cause : Fault) :
    x ≠ .error (.fault cause) := by
  rintro rfl
  exact unfaulted cause rfl

end Unfaulted

/-- The table that a verdict is about. -/
def Verdict.table : Verdict α → Tableau α
  | .optimal last | .unbounded last => last

theorem Run.Decides.table_eq {r : Run α} {v : Verdict α} (decides : r.Decides v) :
    v.table = r.last := by
  cases decides <;> rfl

namespace Solver

variable [Scalar α] {solver : Solver α} {fuel k n : Nat} {t : Tableau α} {s : StandardForm α}
  {m : Model α}

theorem optimize_unfaulted (sized : t.Sized k n) :
    Unfaulted (fun verdict => verdict.table.Sized k n) (solver.optimize fuel t).outcome := by
  obtain ⟨sized', unfaulted⟩ := sized.run_total solver.tolerance solver.limit fuel
  rw [outcome_optimize, Run.verdict]
  split
  · exact sized'
  · exact sized'
  · exact sized'
  · exact fun _ => by simp
  · exact fun _ => by simp
  · rename_i ending
    exact absurd ending (unfaulted _)

/-- The table that phase one ends with has the size of its first one. -/
theorem sized_of_phaseOne {first : Tableau α} {v : Verdict α}
    (table : s.phaseOne.initialTableau solver.tolerance = .ok first)
    (run : (first.run solver.tolerance solver.limit fuel).Decides v) :
    v.table.Sized s.model.constraints.length s.phaseOne.model.vars.length := by
  obtain ⟨first', table', sized⟩ := s.exists_initialTableau solver.tolerance
  obtain rfl : first' = first := Except.ok.inj (table'.symm.trans table)
  rw [run.table_eq]
  exact (sized.run_total solver.tolerance solver.limit fuel).1

/-- Phase two starts from a table over the variables of the standard form, with no more rows
than there are constraints. -/
theorem Starts.sized {first : Tableau α} (starts : Starts solver fuel s (.feasible first)) :
    ∃ k ≤ s.model.constraints.length, first.Sized k s.model.vars.length := by
  cases starts with
  | slack _ table =>
    obtain ⟨first', table', sized⟩ := s.exists_tableau
    obtain rfl : first' = first := Except.ok.inj (table'.symm.trans table)
    exact ⟨_, le_rfl, sized⟩
  | restored _ table run _ restore =>
    obtain ⟨restored, restore', sized⟩ :=
      PhaseOne.exists_restore s solver.tolerance (sized_of_phaseOne table run)
    obtain rfl : restored = first := Except.ok.inj (restore'.symm.trans restore)
    exact sized

theorem start_unfaulted : Unfaulted (Starts solver fuel s) (solver.start fuel s).outcome := by
  refine Unfaulted.of_ok ?_ fun start => start_eq_ok
  unfold start
  split
  · simp only [Traced.outcome_bind, Traced.outcome_note, outcome_ofTable, bind_ok]
    refine (Unfaulted.table (s.exists_initialTableau solver.tolerance)).bind fun first sized => ?_
    refine (optimize_unfaulted sized).bind fun verdict sized' => ?_
    cases verdict with
    | unbounded last => trivial
    | optimal last =>
      obtain ⟨values, assigned, _⟩ := sized'.exists_assignment solver.tolerance
      have tested : ∃ positive,
          s.phaseOne.artificialsPositive solver.tolerance last = .ok positive ∧ True := by
        simp [PhaseOne.artificialsPositive, show last.assignment _ = _ from assigned]
      simp only [Traced.outcome_bind, outcome_ofTable]
      refine (Unfaulted.table tested).bind fun positive _ => ?_
      cases positive with
      | true => trivial
      | false =>
        have restored := PhaseOne.exists_restore s solver.tolerance sized'
        simp only [Bool.false_eq_true, if_false, Traced.outcome_bind, Traced.outcome_mapError]
        exact (Unfaulted.table restored).bind fun _ _ => trivial
  · simp only [Traced.outcome_bind, outcome_ofTable]
    exact (Unfaulted.table s.exists_tableau).bind fun _ _ => trivial

theorem exists_sized_of_start {first : Tableau α}
    (started : (solver.start fuel s).outcome = .ok (.feasible first)) :
    ∃ k, first.Sized k s.model.vars.length := by
  obtain ⟨k, _, sized⟩ := (start_eq_ok started).sized
  exact ⟨k, sized⟩

theorem solve_unfaulted (indexed : m.Indexed) :
    Unfaulted (fun _ => True) (solver.solve fuel m).outcome := by
  have standard : ∃ s, m.standardForm = .ok s ∧ True := by
    simpa using Model.exists_standardForm indexed
  unfold solve
  simp only [Traced.outcome_bind, Traced.outcome_note, outcome_ofModel, outcome_ofTable, bind_ok]
  refine (Unfaulted.model _).bind fun _ _ => (Unfaulted.table standard).bind fun s _ => ?_
  refine start_unfaulted.bind fun start starts => ?_
  cases start with
  | infeasible last => trivial
  | feasible first =>
    obtain ⟨k, _, sized⟩ := starts.sized
    simp only [Traced.outcome_bind]
    refine (optimize_unfaulted sized).bind fun verdict sized' => ?_
    cases verdict with
    | unbounded last => trivial
    | optimal last =>
      simp only [Traced.outcome_bind, Traced.outcome_note, outcome_ofTable, bind_ok]
      refine (Unfaulted.table (sized'.exists_assignment solver.tolerance)).bind fun _ _ => ?_
      have value : ∃ value, last.objectiveValue = .ok value ∧ True :=
        ⟨_, Tableau.Sized.objectiveValue sized', trivial⟩
      exact (Unfaulted.table value).bind fun _ _ => trivial

end Solver

section Unchecked

variable [Scalar α] (s : StandardForm α)

/-- No more artificial columns are before a column than there are columns before it. -/
theorem StandardForm.countP_phaseOne_keys_le (column : Nat) :
    s.phaseOne.artificials.keys.countP (· < column) ≤ column := by
  have distinct : (s.phaseOne.artificials.keys.filter (· < column)).Nodup :=
    (s.phaseOne_keys ▸ List.nodup_range').filter _
  have below : s.phaseOne.artificials.keys.filter (· < column) ⊆ List.range column := by
    intro j hj
    simpa using (List.mem_filter.1 hj).2
  have fewer := (distinct.subperm below).length_le
  rwa [← List.countP_eq_length_filter, List.length_range] at fewer

end Unchecked

/-- On a model that was built, no stage of solving looks past an end or meets rows of
different lengths, whatever the numbers are. Under a limit, solving therefore answers,
refuses the model or says that the limit was reached. What the solver uses without a
check is there: the constraint of an artificial variable, the column that a basic
variable is read from, and the column that remains when artificial ones are taken out. -/
theorem solve_total [Scalar α] {m : Model α} (built : m.Built) (tolerance : α) :
    (∀ limit fuel cause,
      (Solver.solve ⟨tolerance, limit⟩ fuel m).outcome ≠ .error (.fault cause)) ∧
    (∀ n fuel, n < fuel →
      (∃ solution, (Solver.solve ⟨tolerance, some n⟩ fuel m).outcome = .ok solution) ∨
      (∃ cause, (Solver.solve ⟨tolerance, some n⟩ fuel m).outcome = .error (.model cause)) ∨
      (Solver.solve ⟨tolerance, some n⟩ fuel m).outcome = .error (.iterationLimit n)) ∧
    ∃ s, m.standardForm = .ok s ∧
      (∀ i ∈ s.phaseOne.artificials.values, i < s.model.constraints.length) ∧
      (∀ column, s.phaseOne.artificials.keys.countP (· < column) ≤ column) ∧
      ∀ (t : Tableau α) k n basis, t.Sized k n → t.basis tolerance = .ok basis →
        ∀ i c, basis[i]? = some (some c) → i < k ∧ c < t.rhsColumn := by
  have unfaulted limit fuel : Unfaulted _ (Solver.solve ⟨tolerance, limit⟩ fuel m).outcome :=
    Solver.solve_unfaulted built.indexed
  refine ⟨fun limit fuel => (unfaulted limit fuel).ne_fault, fun n fuel enough => ?_, ?_⟩
  · have finished := Solver.solve_finished enough tolerance m
    cases outcome : (Solver.solve ⟨tolerance, some n⟩ fuel m).outcome with
    | ok solution => exact .inl ⟨solution, rfl⟩
    | error e =>
      cases e with
      | model cause => exact .inr (.inl ⟨cause, rfl⟩)
      | iterationLimit k =>
        obtain rfl : n = k := Option.some.inj (Solver.limit_of_outcome outcome)
        exact .inr (.inr rfl)
      | fault cause => exact absurd outcome ((unfaulted _ fuel).ne_fault cause)
      | unfinished => exact absurd outcome finished
  · obtain ⟨s, standard⟩ := Model.exists_standardForm built.indexed
    refine ⟨s, standard, fun i => s.phaseOne_row_lt, s.countP_phaseOne_keys_le,
      fun t k n basis sized read i c found => ?_⟩
    rw [sized.rhsColumn]
    have row := (List.getElem?_eq_some_iff.1 found).1
    exact ⟨sized.basis_length read ▸ row, sized.basis_lt read found⟩

/-- One variable under bounds that are not numbers. -/
def notNumbers : Model Float :=
  ⟨"not numbers", [⟨"x", 0⟩],
    [⟨⟨[⟨0, 0 / 0⟩]⟩, .atLeast, 1 / 0, 0⟩, ⟨⟨[⟨0, -1 / 0⟩, ⟨0, 1 / 0⟩]⟩, .equal, 0 / 0, 1⟩],
    some ⟨⟨[⟨0, 0 / 0⟩]⟩, .minimize⟩⟩

/-- The floating-point solver never looks past an end on it. -/
theorem notNumbers_unfaulted : notNumbers.Built ∧ ∀ limit fuel cause,
    ((Solver.standard limit).solve fuel notNumbers).outcome ≠ .error (.fault cause) := by
  have built : notNumbers.Built := Model.built_of_rebuilt rfl
  exact ⟨built, (solve_total built standardTolerance).1⟩

end LinearProgram
