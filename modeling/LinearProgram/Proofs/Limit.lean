import Mathlib
import LinearProgram.Proofs.Solver
import LinearProgram.Proofs.Tableau.Run

/-!
# What a limit does

A limit ends a run early and does nothing else:

* `runFrom_limit`: a run under a limit is the run without one, or it has made as
  many pivots as the limit allows;
* `Unless`: two computations agree unless the first ended with one given error;
  `solve_unless` carries this from the runs of the solver to its results;
* `Returns`: what solving comes to once there is fuel enough; `Returns.more_fuel`,
  `exists_returns`;
* `solve_truncates`: what a limit can change about a result.
-/

namespace LinearProgram

variable {α : Type}

section Agreement

variable {ε β γ : Type}

/-- Two computations agree, unless the first has ended with the given error. -/
def Unless (e : ε) (x y : Except ε β) : Prop := x = .error e ∨ x = y

theorem Unless.refl (e : ε) (x : Except ε β) : Unless e x x := .inr rfl

theorem Unless.bind {e : ε} {x y : Except ε β} {f g : β → Except ε γ} (first : Unless e x y)
    (rest : ∀ b, Unless e (f b) (g b)) : Unless e (x.bind f) (y.bind g) := by
  rcases first with rfl | rfl
  · exact .inl rfl
  · cases x with
    | error e' => exact .refl e _
    | ok b => exact rest b

theorem Unless.eq {e : ε} {x y : Except ε β} (agree : Unless e x y) (other : x ≠ .error e) :
    x = y := agree.resolve_left other

end Agreement

namespace Tableau

variable [Scalar α] {tolerance : α} {t : Tableau α} {n count fuel : Nat}

omit [Scalar α] in
theorem length_cons (e : Exchange α) (r : Run α) : (r.cons e).length = r.length + 1 := rfl

/-- A run under a limit is the whole run if that is short enough. Otherwise it has
stopped at the limit. -/
theorem runFrom_limit (tolerance : α) (t : Tableau α) (fuel : Nat) (le : count ≤ n) :
    (count + (t.runFrom tolerance none count fuel).length ≤ n ∧
      t.runFrom tolerance (some n) count fuel = t.runFrom tolerance none count fuel) ∨
    (n < count + (t.runFrom tolerance none count fuel).length ∧
      (t.runFrom tolerance (some n) count fuel).ending = .limitReached n ∧
      count + (t.runFrom tolerance (some n) count fuel).length = n) := by
  induction fuel generalizing count t with
  | zero => exact .inl ⟨le, rfl⟩
  | succ fuel ih =>
    rcases t.stopsAt_or_goesOn tolerance with ⟨_, stops⟩ | ⟨e, next, goes⟩
    · rw [stops.run, stops.run]
      exact .inl ⟨le, rfl⟩
    · rw [goes.run (show reached none count = none from rfl)]
      by_cases stops : n ≤ count
      · rw [goes.halt (show reached (some n) count = some n by simpa [reached] using stops)]
        refine .inr ⟨?_, rfl, Nat.le_antisymm le stops⟩
        rw [length_cons]
        omega
      · rw [goes.run (show reached (some n) count = none by simpa [reached] using stops)]
        have later := ih next (show count + 1 ≤ n by omega)
        rw [Nat.add_right_comm, Nat.add_right_comm _ 1] at later
        exact later.imp (fun ⟨short, same⟩ => ⟨short, congrArg (Run.cons e) same⟩) id

/-- No more pivots than the limit allows. -/
theorem length_run_le (tolerance : α) (t : Tableau α) (n fuel : Nat) :
    (t.run tolerance (some n) fuel).length ≤ n := by
  rcases runFrom_limit tolerance t fuel (Nat.zero_le n) with ⟨short, same⟩ | ⟨_, _, length⟩
  · rw [run, same]
    rwa [Nat.zero_add] at short
  · rw [Nat.zero_add] at length
    exact length.le

/-- A run that is short enough is the same under the limit. -/
theorem run_limit_eq (short : (t.run tolerance none fuel).length ≤ n) :
    t.run tolerance (some n) fuel = t.run tolerance none fuel := by
  rcases runFrom_limit tolerance t fuel (Nat.zero_le n) with ⟨_, same⟩ | ⟨long, _⟩
  · exact same
  · rw [Nat.zero_add] at long
    exact absurd short (Nat.not_le_of_lt long)

/-- A run that is too long stops at the limit. -/
theorem ending_of_lt_length (long : n < (t.run tolerance none fuel).length) :
    (t.run tolerance (some n) fuel).ending = .limitReached n := by
  rcases runFrom_limit tolerance t fuel (Nat.zero_le n) with ⟨short, _⟩ | ⟨_, ending, _⟩
  · rw [Nat.zero_add] at short
    exact absurd long (Nat.not_lt_of_le short)
  · exact ending

/-- More fuel changes only runs that were not finished. -/
theorem runFrom_more_fuel (tolerance : α) (limit : Option Nat) (t : Tableau α)
    (count fuel more : Nat) : (t.runFrom tolerance limit count fuel).ending = .unfinished ∨
      t.runFrom tolerance limit count (fuel + more) = t.runFrom tolerance limit count fuel := by
  induction fuel generalizing count t with
  | zero => exact .inl rfl
  | succ fuel ih =>
    rw [Nat.succ_add]
    rcases t.stopsAt_or_goesOn tolerance with ⟨_, stops⟩ | ⟨e, next, goes⟩
    · rw [stops.run, stops.run]
      exact .inr rfl
    · cases stop : reached limit count with
      | some k =>
        rw [goes.halt stop, goes.halt stop]
        exact .inr rfl
      | none =>
        rw [goes.run stop, goes.run stop]
        exact (ih next (count + 1)).imp id (congrArg (Run.cons e))

/-- Every pivot takes one of the fuel. -/
theorem length_of_unfinished {limit : Option Nat}
    (unfinished : (t.runFrom tolerance limit count fuel).ending = .unfinished) :
    (t.runFrom tolerance limit count fuel).length = fuel := by
  induction fuel generalizing count t with
  | zero => rfl
  | succ fuel ih =>
    rcases t.stopsAt_or_goesOn tolerance with ⟨_, stops⟩ | ⟨e, next, goes⟩
    · rw [stops.run] at unfinished
      exact absurd unfinished stops.finished
    · cases stop : reached limit count with
      | some k =>
        rw [goes.halt stop] at unfinished
        exact nomatch unfinished
      | none =>
        rw [goes.run stop] at unfinished ⊢
        exact congrArg (· + 1) (ih unfinished)

/-- Only the limit of a run stops it. -/
theorem limit_of_limitReached {limit : Option Nat} {k : Nat}
    (stopped : (t.runFrom tolerance limit count fuel).ending = .limitReached k) :
    limit = some k := by
  induction fuel generalizing count t with
  | zero => exact nomatch stopped
  | succ fuel ih =>
    rcases t.stopsAt_or_goesOn tolerance with ⟨_, stops⟩ | ⟨e, next, goes⟩
    · rw [stops.run] at stopped
      exact absurd stopped (stops.unlimited k)
    · cases stop : reached limit count with
      | some k' =>
        rw [goes.halt stop] at stopped
        injection stopped with same
        exact same ▸ (Option.filter_eq_some_iff.1 stop).1
      | none =>
        rw [goes.run stop] at stopped
        exact ih stopped

/-- A run that its limit stops has made as many pivots as that allows. -/
theorem length_of_limitReached {limit : Option Nat} {k : Nat}
    (stopped : (t.run tolerance limit fuel).ending = .limitReached k) :
    (t.run tolerance limit fuel).length = k := by
  obtain rfl := limit_of_limitReached stopped
  rcases runFrom_limit tolerance t fuel (Nat.zero_le k) with ⟨_, same⟩ | ⟨_, _, length⟩
  · rw [run, same] at stopped
    exact nomatch limit_of_limitReached stopped
  · rwa [Nat.zero_add] at length

/-- Under a limit, one more fuel than the limit is enough. -/
theorem run_finished (enough : n < fuel) :
    (t.run tolerance (some n) fuel).ending ≠ .unfinished := by
  intro unfinished
  have length : (t.run tolerance (some n) fuel).length = fuel := length_of_unfinished unfinished
  have := length_run_le tolerance t n fuel
  omega

end Tableau

namespace Solver

variable [Scalar α] {solver : Solver α} {fuel fuel' : Nat} {m : Model α} {s : StandardForm α}

section Congruence

variable {e : Failure} {tolerance : α} {limit limit' : Option Nat}
  (runs : ∀ t, Unless e (optimize ⟨tolerance, limit⟩ fuel t).outcome
    (optimize ⟨tolerance, limit'⟩ fuel' t).outcome)

include runs

/-- Solvers whose runs agree on every table agree on where phase two starts. -/
theorem start_unless (s : StandardForm α) : Unless e (start ⟨tolerance, limit⟩ fuel s).outcome
    (start ⟨tolerance, limit'⟩ fuel' s).outcome := by
  unfold start
  split
  · simp only [Traced.outcome_bind]
    refine (Unless.refl e _).bind fun _ => (Unless.refl e _).bind fun first => ?_
    refine (runs first).bind fun verdict => ?_
    cases verdict <;> exact .refl e _
  · exact .refl e _

/-- Solvers whose runs agree on every table agree on every model. -/
theorem solve_unless (m : Model α) : Unless e (solve ⟨tolerance, limit⟩ fuel m).outcome
    (solve ⟨tolerance, limit'⟩ fuel' m).outcome := by
  unfold solve
  simp only [Traced.outcome_bind]
  refine (Unless.refl e _).bind fun _ => (Unless.refl e _).bind fun s => ?_
  refine (Unless.refl e _).bind fun _ => (start_unless runs s).bind fun start => ?_
  cases start with
  | infeasible last => exact .refl e _
  | feasible first =>
    simp only [Traced.outcome_bind]
    refine (runs first).bind fun verdict => ?_
    cases verdict <;> exact .refl e _

end Congruence

/-- A verdict under a limit is the one under a greater limit or under none, unless
the limit was reached. -/
theorem optimize_unless_limit {n : Nat} {limit : Option Nat} (le : ∀ k ∈ limit, n ≤ k)
    (tolerance : α) (fuel : Nat) (t : Tableau α) : Unless (.iterationLimit n)
      (optimize ⟨tolerance, some n⟩ fuel t).outcome (optimize ⟨tolerance, limit⟩ fuel t).outcome := by
  rw [outcome_optimize, outcome_optimize]
  by_cases short : (t.run tolerance none fuel).length ≤ n
  · refine .inr ?_
    rw [Tableau.run_limit_eq short]
    cases limit with
    | none => rfl
    | some k => rw [Tableau.run_limit_eq (short.trans (le k rfl))]
  · refine .inl ?_
    rw [Run.verdict, Tableau.ending_of_lt_length (Nat.lt_of_not_le short)]

theorem optimize_unless_unfinished (solver : Solver α) (le : fuel ≤ fuel') (t : Tableau α) :
    Unless .unfinished (solver.optimize fuel t).outcome (solver.optimize fuel' t).outcome := by
  obtain ⟨more, rfl⟩ := Nat.exists_eq_add_of_le le
  rw [outcome_optimize, outcome_optimize]
  rcases Tableau.runFrom_more_fuel solver.tolerance solver.limit t 0 fuel more with ending | same
  · refine .inl ?_
    rw [Run.verdict, Tableau.run, ending]
  · exact .inr (congrArg Run.verdict same.symm)

/-- An error that no run ends with, and that is not of the table, is not where the
start fails. -/
theorem start_ne_error {e : Failure} (notFault : ∀ cause, e ≠ .fault cause)
    (runs : ∀ t, (solver.optimize fuel t).outcome ≠ .error e) :
    (solver.start fuel s).outcome ≠ .error e := by
  have table {β : Type} (x : Except Fault β) : x.mapError .fault ≠ .error e :=
    mapError_ne_error fun cause => (notFault cause).symm
  unfold start
  split
  · simp only [Traced.outcome_bind, Traced.outcome_note, outcome_ofTable, bind_ok]
    refine bind_ne_error (table _) fun first => bind_ne_error (runs first) fun verdict => ?_
    cases verdict with
    | unbounded last => exact nofun
    | optimal last =>
      simp only [Traced.outcome_bind, outcome_ofTable]
      refine bind_ne_error (table _) fun positive => ?_
      cases positive with
      | true => exact nofun
      | false =>
        simp only [Bool.false_eq_true, if_false, Traced.outcome_bind, Traced.outcome_mapError]
        exact bind_ne_error (table _) fun _ => nofun
  · simp only [Traced.outcome_bind, outcome_ofTable]
    exact bind_ne_error (table _) fun _ => nofun

/-- Solving ends with an error of the model, a fault, or an error of a run. -/
theorem solve_ne_error {e : Failure} (notModel : ∀ cause, e ≠ .model cause)
    (notFault : ∀ cause, e ≠ .fault cause)
    (runs : ∀ t, (solver.optimize fuel t).outcome ≠ .error e) (m : Model α) :
    (solver.solve fuel m).outcome ≠ .error e := by
  have table {β : Type} (x : Except Fault β) : x.mapError .fault ≠ .error e :=
    mapError_ne_error fun cause => (notFault cause).symm
  unfold solve
  simp only [Traced.outcome_bind, Traced.outcome_note, outcome_ofModel, outcome_ofTable, bind_ok]
  refine bind_ne_error (mapError_ne_error fun cause => (notModel cause).symm) fun _ =>
    bind_ne_error (table _) fun s => bind_ne_error (start_ne_error notFault runs) fun start => ?_
  cases start with
  | infeasible last => exact nofun
  | feasible first =>
    simp only [Traced.outcome_bind]
    refine bind_ne_error (runs first) fun verdict => ?_
    cases verdict with
    | unbounded last => exact nofun
    | optimal last =>
      simp only [Traced.outcome_bind, Traced.outcome_note, outcome_ofTable, bind_ok]
      exact bind_ne_error (table _) fun _ => bind_ne_error (table _) fun _ => nofun

/-- What solving comes to: its outcome once there is fuel enough. -/
def Returns (solver : Solver α) (m : Model α) (r : Except Failure (Solution α)) : Prop :=
  r ≠ .error .unfinished ∧ ∃ fuel, (solver.solve fuel m).outcome = r

/-- More fuel changes no result. -/
theorem Returns.more_fuel {r : Except Failure (Solution α)} (returns : solver.Returns m r) :
    ∃ fuel, ∀ fuel' ≥ fuel, (solver.solve fuel' m).outcome = r := by
  obtain ⟨finished, fuel, rfl⟩ := returns
  refine ⟨fuel, fun fuel' le => ?_⟩
  exact ((solve_unless (optimize_unless_unfinished solver le) m).eq finished).symm

theorem Returns.unique {r r' : Except Failure (Solution α)} (returns : solver.Returns m r)
    (returns' : solver.Returns m r') : r = r' := by
  obtain ⟨fuel, outcome⟩ := returns.more_fuel
  obtain ⟨fuel', outcome'⟩ := returns'.more_fuel
  rw [← outcome _ (Nat.le_max_left fuel fuel'), outcome' _ (Nat.le_max_right fuel fuel')]

/-- The limit in an error is the one of the solver. -/
theorem limit_of_outcome {k : Nat}
    (outcome : (solver.solve fuel m).outcome = .error (.iterationLimit k)) :
    solver.limit = some k := by
  by_contra other
  refine solve_ne_error (e := .iterationLimit k) (fun _ => nofun) (fun _ => nofun)
    (fun t ended => ?_) m outcome
  rw [outcome_optimize, Run.verdict] at ended
  split at ended
  case h_4 stopped =>
    injection ended with ended
    injection ended with same
    exact other (same ▸ Tableau.limit_of_limitReached stopped)
  all_goals exact nomatch ended

/-- Under a limit, one more fuel than the limit is enough to come to a result. -/
theorem solve_finished {n : Nat} (enough : n < fuel) (tolerance : α) (m : Model α) :
    (solve ⟨tolerance, some n⟩ fuel m).outcome ≠ .error .unfinished := by
  refine solve_ne_error (e := .unfinished) (fun _ => nofun) (fun _ => nofun)
    (fun t ended => ?_) m
  rw [outcome_optimize, Run.verdict] at ended
  split at ended
  case h_5 unfinished => exact Tableau.run_finished enough unfinished
  all_goals exact nomatch ended

/-- Under a limit, solving always comes to a result. -/
theorem exists_returns (tolerance : α) (n : Nat) (m : Model α) :
    ∃ r, Returns ⟨tolerance, some n⟩ m r :=
  ⟨_, solve_finished (Nat.lt_succ_self n) tolerance m, n + 1, rfl⟩

/-- A limit that was not reached can be raised or lifted. -/
theorem Returns.raise {tolerance : α} {n : Nat} {limit : Option Nat} (le : ∀ k ∈ limit, n ≤ k)
    {r : Except Failure (Solution α)} (returns : Returns ⟨tolerance, some n⟩ m r)
    (below : r ≠ .error (.iterationLimit n)) : Returns ⟨tolerance, limit⟩ m r := by
  obtain ⟨finished, fuel, outcome⟩ := returns
  have agree := solve_unless (optimize_unless_limit le tolerance fuel) m
  exact ⟨finished, fuel, (agree.eq (outcome ▸ below)).symm.trans outcome⟩

/-- A limit only cuts a run short. A result that is not the limit's own stays under a
greater limit and under none, and when a greater limit is reached, so is the smaller.
Each call of the pivot loop makes at most as many pivots as the limit allows, and comes
to its verdict when it needs exactly as many. -/
theorem solve_truncates {n k : Nat} (le : n ≤ k) (tolerance : α) (m : Model α) :
    (∃! r, Returns ⟨tolerance, some n⟩ m r) ∧
    (∀ r, Returns ⟨tolerance, some n⟩ m r → (∀ limit, r ≠ .error (.iterationLimit limit)) →
      Returns ⟨tolerance, some k⟩ m r ∧ Returns ⟨tolerance, none⟩ m r) ∧
    (Returns ⟨tolerance, some k⟩ m (.error (.iterationLimit k)) →
      Returns ⟨tolerance, some n⟩ m (.error (.iterationLimit n))) ∧
    (∀ fuel (t : Tableau α), (t.run tolerance (some n) fuel).length ≤ n) ∧
    ∀ fuel (t : Tableau α) v, (optimize ⟨tolerance, none⟩ fuel t).outcome = .ok v →
      (t.run tolerance none fuel).length = n →
        (optimize ⟨tolerance, some n⟩ fuel t).outcome = .ok v := by
  have greater : ∀ k' ∈ some k, n ≤ k' := fun k' same => Option.some.inj same ▸ le
  obtain ⟨r, returns⟩ := exists_returns tolerance n m
  refine ⟨⟨r, returns, fun r' returns' => returns'.unique returns⟩,
    fun r' returns' below => ⟨returns'.raise greater (below n), returns'.raise (by simp) (below n)⟩,
    fun limited => ?_, fun fuel t => Tableau.length_run_le tolerance t n fuel,
    fun fuel t v verdict exact => ?_⟩
  · by_cases reached : r = .error (.iterationLimit n)
    · exact reached ▸ returns
    · -- The greater limit comes to the same result, and that names the smaller limit.
      obtain rfl := (returns.raise greater reached).unique limited
      obtain ⟨_, fuel, outcome⟩ := returns
      cases limit_of_outcome outcome
      exact absurd rfl reached
  · rw [outcome_optimize] at verdict ⊢
    rwa [Tableau.run_limit_eq exact.le]

end Solver

/-- Maximises `3x + 2y` under `x + y ≤ 4` and `x ≤ 3`. -/
def twoPivots : Model Rat :=
  ⟨"two pivots", [⟨"x", 0⟩, ⟨"y", 1⟩],
    [⟨⟨[⟨0, 1⟩, ⟨1, 1⟩]⟩, .atMost, 4, 0⟩, ⟨⟨[⟨0, 1⟩]⟩, .atMost, 3, 1⟩],
    some ⟨⟨[⟨0, 3⟩, ⟨1, 2⟩]⟩, .maximize⟩⟩

/-- Two pivots are enough and one is not, which decides all other limits. -/
theorem twoPivots_truncates :
    (∃ solution, solution.objectiveValue = some 11 ∧
      Solver.Returns ⟨0, some 2⟩ twoPivots (.ok solution) ∧
      Solver.Returns ⟨0, some 7⟩ twoPivots (.ok solution) ∧
      Solver.Returns ⟨0, none⟩ twoPivots (.ok solution)) ∧
    Solver.Returns ⟨0, some 1⟩ twoPivots (.error (.iterationLimit 1)) ∧
    Solver.Returns ⟨0, some 0⟩ twoPivots (.error (.iterationLimit 0)) := by
  constructor
  · obtain ⟨solution, solved, value⟩ := exists_ok_of_map (f := Solution.objectiveValue)
      (c := some 11) (x := (Solver.solve ⟨0, some 2⟩ 3 twoPivots).outcome) (by decide +kernel)
    have returns : Solver.Returns ⟨0, some 2⟩ twoPivots (.ok solution) := ⟨nofun, 3, solved⟩
    obtain ⟨_, raise, _⟩ := Solver.solve_truncates (show 2 ≤ 7 by decide) (0 : Rat) twoPivots
    exact ⟨solution, value, returns, raise _ returns fun _ => nofun⟩
  · have limited : Solver.Returns ⟨0, some 1⟩ twoPivots (.error (.iterationLimit 1)) :=
      ⟨nofun, 2, eq_error_of_swap (by decide +kernel)⟩
    obtain ⟨_, _, lower, _⟩ := Solver.solve_truncates (show 0 ≤ 1 by decide) (0 : Rat) twoPivots
    exact ⟨limited, lower limited⟩

end LinearProgram
