import Mathlib
import LinearProgram.Proofs.PivotLoop

/-!
# Progress of the pivot loop

A pivot makes progress when the right-hand side of the row that leaves is positive. All
other pivots leave the value of the objective where it is, and only they can be repeated
for ever.

* `ChoosesBasis`: a unit column chosen for every constraint row, above right-hand sides
  that are not negative; `ChoosesBasis.pivot_improves`: what a selected pivot does to it
  and to the objective;
* `Performs`, `leavingSides`: the exchanges of a run, and the right-hand sides of their
  rows at the time;
* `Shows`, `Shows.unique`: the value of the objective is given by the set of the basic
  columns, whatever pivots have led there;
* `exists_bases`: the pivots of a run that make progress pass different sets of columns;
* `CanonicalFeasible.progress_lt_choose`: so there are fewer of them than sets.
-/

namespace LinearProgram

namespace Tableau

/-- `chosen` names a unit column over the whole table, row 0 included, for every constraint
row, and no right-hand side is negative. -/
structure ChoosesBasis (t : Tableau Rat) (chosen : Nat → Nat) : Prop where
  rectangular : t.Rectangular
  columns : ∀ i, 0 < i → i < t.height → chosen i < t.rhsColumn ∧ t.UnitColumn i (chosen i)
  nonneg : ∀ i, 0 < i → i < t.height → 0 ≤ t.get i t.rhsColumn

variable {t u w : Tableau Rat} {m n : Nat} {basic chosen : Nat → Nat}

/-- A column is a unit column if it is one as far as the table goes. -/
theorem unitColumn_of_lt {i c : Nat} (hi : i < t.height)
    (entries : ∀ k < t.height, t.get k c = if k = i then 1 else 0) : t.UnitColumn i c := by
  intro k
  by_cases hk : k < t.height
  · exact entries k hk
  · rw [get, line_eq_nil (not_lt.1 hk), if_neg (by omega)]
    rfl

/-- A table that can be improved has an objective row with a right-hand side. -/
theorem sized_of_improvable {ε : Rat} (rectangular : t.Rectangular)
    (improvable : t.isOptimal ε = .ok false) : t.Sized (t.height - 1) t.rhsColumn := by
  obtain ⟨costs, reduced, some⟩ := bind_eq_ok.1 improvable
  obtain ⟨first, _, taken⟩ := bind_eq_ok.1 reduced
  obtain rfl := Except.ok.inj taken
  refine rectangular.sized (Nat.pos_of_ne_zero fun none => ?_)
  simp [rhsColumn, none] at some

theorem ChoosesBasis.feasibleBasis (basis : t.ChoosesBasis chosen) (sized : t.Sized m n) :
    t.FeasibleBasis m n chosen fun _ => False := by
  have column (i : Nat) (pos : 0 < i) (le : i ≤ m) : chosen i < n ∧ t.UnitColumn i (chosen i) := by
    rw [← sized.rhsColumn]
    exact basis.columns i pos (by rw [sized.height]; omega)
  refine ⟨sized, fun i pos le => (column i pos le).1, fun i pos le => (column i pos le).2.unitIn,
    fun i pos le => .inl ?_, fun i pos le => ?_⟩
  · rw [(column i pos le).2 0, if_neg pos.ne]
  · rw [← sized.rhsColumn]
    exact basis.nonneg i pos (by rw [sized.height]; omega)

namespace FeasibleBasis

/-- A selected pivot leaves the value of the objective exactly when its row has the
right-hand side zero. -/
theorem objective_eq_iff (basis : t.FeasibleBasis m n basic fun _ => False) {e : Exchange Rat}
    (move : t.move 0 = .ok (.pivot e u)) : u.get 0 n = t.get 0 n ↔ t.get e.row n = 0 := by
  obtain ⟨_, _, entry, cost, value⟩ := basis.sized.objective_move move
  rw [value, add_eq_left, mul_eq_zero, div_eq_zero_iff, neg_eq_zero]
  simp [cost.ne, entry.ne']

variable (basis : t.FeasibleBasis m n basic fun _ => False)

include basis

theorem choosesBasis : t.ChoosesBasis basic := by
  have sized := basis.sized
  refine ⟨sized.rectangular, fun i pos lt => ?_, fun i pos lt => ?_⟩
  · rw [sized.height, Nat.lt_succ_iff] at lt
    rw [sized.rhsColumn]
    exact ⟨basis.inside i pos lt, basis.unitColumn id pos lt⟩
  · rw [sized.height, Nat.lt_succ_iff] at lt
    rw [sized.rhsColumn]
    exact basis.nonneg i pos lt

/-- The basic columns are as many different columns of the variables as there are rows. -/
theorem columns_mem : (Finset.Icc 1 m).image basic ∈ (Finset.range n).powersetCard m := by
  have inside : (Finset.Icc 1 m).image basic ⊆ Finset.range n := by
    intro c hc
    obtain ⟨i, hi, rfl⟩ := Finset.mem_image.1 hc
    obtain ⟨pos, le⟩ := Finset.mem_Icc.1 hi
    exact Finset.mem_range.2 (basis.inside i pos le)
  have different : Set.InjOn basic (Finset.Icc 1 m) := by
    intro i hi i' hi' same
    obtain ⟨pos, le⟩ := Finset.mem_Icc.1 hi
    obtain ⟨pos', le'⟩ := Finset.mem_Icc.1 hi'
    have unit := basis.unit i' pos' le'
    rw [← same] at unit
    exact (basis.unit i pos le).row_eq unit pos
  refine Finset.mem_powersetCard.2 ⟨inside, ?_⟩
  rw [Finset.card_image_of_injOn different, Nat.card_Icc, Nat.add_sub_cancel]

end FeasibleBasis

/-- A pivot that the rules select keeps the chosen unit columns, with the entering column in
the place of the one of its row, and no right-hand side becomes negative. The value of the
objective grows by minus the cost of the entering column times the ratio of its row, so it
never falls, and it stays exactly when the right-hand side of that row is zero. -/
theorem ChoosesBasis.pivot_improves (basis : t.ChoosesBasis chosen) {c r : Nat}
    (improvable : t.isOptimal 0 = .ok false) (enters : t.entering = .ok c)
    (leaves : t.leaving 0 c = .ok (some r)) :
    ∃ u old new, t.pivot r c = .ok u ∧ u.ChoosesBasis (Function.update chosen r c) ∧
      u.height = t.height ∧ u.width = t.width ∧ 0 < r ∧ r < t.height ∧ 0 < t.get r c ∧
      t.objectiveValue = .ok old ∧ u.objectiveValue = .ok new ∧
      new = old + -t.get 0 c * (t.get r t.rhsColumn / t.get r c) ∧
      old ≤ new ∧ (new = old ↔ t.get r t.rhsColumn = 0) := by
  have sized := sized_of_improvable basis.rectangular improvable
  have feasible := basis.feasibleBasis sized
  obtain ⟨u, next, move⟩ := sized.move_of_rules improvable enters leaves
  obtain ⟨pos, le, entry, _, value⟩ := sized.objective_move move
  obtain ⟨sized', _⟩ := sized.pivot_move le_rfl move
  have below : r < t.height := by
    rw [sized.height]
    exact Nat.lt_succ_of_le le
  exact ⟨u, t.get 0 t.rhsColumn, u.get 0 t.rhsColumn, next,
    (feasible.pivot_move move).choosesBasis, sized'.height.trans sized.height.symm,
    sized'.width.trans sized.width.symm, pos, below, entry, sized.objectiveValue,
    sized'.objectiveValue, value, feasible.objective_le move, feasible.objective_eq_iff move⟩

/-- Maximises `3 x + 2 y` under `x + y ≤ 4`, `x ≤ 3` and `y ≤ 3`, from the slacks. -/
def threeBounds : Tableau Rat :=
  ⟨[[-3, -2, 0, 0, 0, 0], [1, 1, 1, 0, 0, 4], [1, 0, 0, 1, 0, 3], [0, 1, 0, 0, 1, 3]]⟩

theorem threeBounds_choosesBasis : threeBounds.ChoosesBasis (· + 1) where
  rectangular := by decide
  columns i pos lt := by
    have lt : i < 4 := lt
    refine ⟨show i + 1 < 5 by omega, unitColumn_of_lt lt fun k hk => ?_⟩
    have hk : k < 4 := hk
    interval_cases i <;> interval_cases k <;> rfl
  nonneg i pos lt := by
    have lt : i < 4 := lt
    interval_cases i <;> decide

/-- `x` enters in the place of the second slack and brings the objective to nine. -/
theorem threeBounds_pivot_improves : threeBounds.ChoosesBasis (· + 1) ∧
    threeBounds.isOptimal 0 = .ok false ∧ threeBounds.entering = .ok 0 ∧
    threeBounds.leaving 0 0 = .ok (some 2) ∧
    ∃ u, threeBounds.pivot 2 0 = .ok u ∧ u.ChoosesBasis (Function.update (· + 1) 2 0) ∧
      u.objectiveValue = .ok 9 := by
  have improvable : threeBounds.isOptimal 0 = .ok false := by decide +kernel
  have enters : threeBounds.entering = .ok 0 := by decide +kernel
  have leaves : threeBounds.leaving 0 0 = .ok (some 2) := by decide +kernel
  obtain ⟨u, old, new, next, chosen, _, _, _, _, _, start, value, grown, _, _⟩ :=
    threeBounds_choosesBasis.pivot_improves improvable enters leaves
  have zero : threeBounds.objectiveValue = .ok 0 := by decide +kernel
  obtain rfl : old = 0 := Except.ok.inj (start.symm.trans zero)
  refine ⟨threeBounds_choosesBasis, improvable, enters, leaves, u, next, chosen, ?_⟩
  rw [value, grown]
  decide +kernel

section Performs

variable {α : Type} [Scalar α] {ε : α}

/-- The exchanges are the pivots that the rules select one after the other on the way from
one table to another. -/
inductive Performs (ε : α) : Tableau α → List (Exchange α) → Tableau α → Prop
  | nil (t : Tableau α) : Performs ε t [] t
  | cons {t u w : Tableau α} {e : Exchange α} {rest : List (Exchange α)}
      (move : t.move ε = .ok (.pivot e u)) (later : Performs ε u rest w) :
      Performs ε t (e :: rest) w

theorem performs_run (t : Tableau α) (limit : Option Nat) (fuel : Nat) :
    t.Performs ε (t.run ε limit fuel).exchanges (t.run ε limit fuel).last := by
  unfold run
  generalize 0 = count
  induction fuel generalizing t count with
  | zero => exact .nil t
  | succ fuel ih =>
    rcases t.stopsAt_or_goesOn ε with ⟨_, stops⟩ | ⟨e, next, goes⟩
    · rw [stops.run]
      exact .nil t
    · cases stop : reached limit count with
      | some k =>
        rw [goes.halt stop]
        exact .nil t
      | none =>
        rw [goes.run stop]
        exact .cons goes.move (ih next (count + 1))

/-- The right-hand sides of the rows that leave, each at the time of its exchange. -/
def leavingSides (t : Tableau α) : List (Exchange α) → Except Fault (List α)
  | [] => .ok []
  | e :: rest => do
    let side ← t.entry e.row t.rhsColumn
    let next ← t.pivot e.row e.column
    .ok (side :: (← next.leavingSides rest))

end Performs

/-- Some table with the solutions and the prices of `t` has these basic columns and this
value of the objective. -/
def Shows (t : Tableau Rat) (m n : Nat) (columns : Finset Nat) (value : Rat) : Prop :=
  ∃ u basic, t.Equivalent u ∧ u.FeasibleBasis m n basic (fun _ => False) ∧
    (Finset.Icc 1 m).image basic = columns ∧ u.get 0 n = value

namespace Shows

variable {columns : Finset Nat} {value value' : Rat}

theorem of_equivalent (same : t.Equivalent u) (shows : u.Shows m n columns value) :
    t.Shows m n columns value := by
  obtain ⟨w, basic, same', rest⟩ := shows
  exact ⟨w, basic, same.trans same', rest⟩

/-- The basic point of one table solves the other, and there only basic columns are used,
which cost nothing. -/
theorem unique (shows : t.Shows m n columns value) (shows' : t.Shows m n columns value') :
    value = value' := by
  obtain ⟨u, basic, same, basis, image, rfl⟩ := shows
  obtain ⟨u', basic', same', basis', image', rfl⟩ := shows'
  have price := (same.symm.trans same').price basis.point_vanishes
  rw [basis.point_price fun _ => id, basis'.sized.equation_atPoint] at price
  have free : ∑ j ∈ Finset.range n, u'.get 0 j * u.basicPoint m n basic j = 0 := by
    apply Finset.sum_eq_zero
    intro j _
    by_cases used : u.basicPoint m n basic j = 0
    · rw [used, mul_zero]
    · obtain ⟨i, hi, column⟩ := exists_of_combination_ne_zero used
      have mem : j ∈ columns := by
        rw [← image]
        exact Finset.mem_image.2 ⟨i + 1, Finset.mem_Icc.2 ⟨by omega, hi⟩, Option.some.inj column⟩
      rw [← image'] at mem
      obtain ⟨i', hi', rfl⟩ := Finset.mem_image.1 mem
      obtain ⟨pos, le⟩ := Finset.mem_Icc.1 hi'
      rw [(basis'.cost i' pos le).resolve_right id, zero_mul]
  rw [free, zero_sub, neg_inj] at price
  exact price.symm

end Shows

namespace FeasibleBasis

theorem shows (basis : t.FeasibleBasis m n basic fun _ => False) :
    t.Shows m n ((Finset.Icc 1 m).image basic) (t.get 0 n) :=
  ⟨t, basic, .refl t, basis, rfl, rfl⟩

/-- The columns before a pivot that makes progress are shown by no table of a later value. -/
theorem columns_not_mem (basis : t.FeasibleBasis m n basic fun _ => False) {e : Exchange Rat}
    (move : t.move 0 = .ok (.pivot e u)) (progress : 0 < t.get e.row n) {columns : Finset Nat}
    {value : Rat} (later : u.get 0 n ≤ value) (shows : u.Shows m n columns value) :
    (Finset.Icc 1 m).image basic ≠ columns := by
  rintro rfl
  obtain ⟨_, same⟩ := basis.sized.pivot_move le_rfl move
  have value_eq : t.get 0 n = value := basis.shows.unique (shows.of_equivalent same)
  have stays : u.get 0 n = t.get 0 n :=
    le_antisymm (value_eq ▸ later) (basis.objective_le move)
  exact progress.ne' ((basis.objective_eq_iff move).1 stays)

/-- The pivots that make progress, and the last table, have different basic columns, none at
a value below the one to start with. -/
theorem exists_bases {exchanges : List (Exchange Rat)} (performs : t.Performs 0 exchanges w)
    (basis : t.FeasibleBasis m n basic fun _ => False) :
    ∃ sides, t.leavingSides exchanges = .ok sides ∧ sides.length = exchanges.length ∧
      ∃ family ⊆ (Finset.range n).powersetCard m,
        family.card = sides.countP (fun side => 0 < side) + 1 ∧
        ∀ columns ∈ family, ∃ value, t.get 0 n ≤ value ∧ t.Shows m n columns value := by
  induction performs generalizing basic with
  | nil t =>
    refine ⟨[], rfl, rfl, {(Finset.Icc 1 m).image basic}, ?_, rfl, fun columns mem => ?_⟩
    · exact Finset.singleton_subset_iff.2 basis.columns_mem
    · obtain rfl := Finset.mem_singleton.1 mem
      exact ⟨_, le_rfl, basis.shows⟩
  | @cons t u w e rest move _ ih =>
    obtain ⟨sides, read, length, family, subset, card, shown⟩ := ih (basis.pivot_move move)
    obtain ⟨pos, le, _⟩ := basis.sized.objective_move move
    obtain ⟨sized', same⟩ := basis.sized.pivot_move le_rfl move
    have read' : t.leavingSides (e :: rest) = .ok (t.get e.row n :: sides) := by
      have next : t.pivot e.row e.column = .ok u := by
        cases basis.sized.moves_of_move move with
        | pivot _ _ next => exact next
      rw [leavingSides, basis.sized.rhsColumn, basis.sized.entry le le_rfl, ok_bind, next, ok_bind,
        read, ok_bind]
    have rest_shown :
        ∀ columns ∈ family, ∃ value, t.get 0 n ≤ value ∧ t.Shows m n columns value := by
      intro columns mem
      obtain ⟨value, later, shows⟩ := shown columns mem
      exact ⟨value, (basis.objective_le move).trans later, shows.of_equivalent same⟩
    refine ⟨_, read', by rw [List.length_cons, List.length_cons, length], ?_⟩
    by_cases progress : 0 < t.get e.row n
    · have new : (Finset.Icc 1 m).image basic ∉ family := by
        intro mem
        obtain ⟨value, later, shows⟩ := shown _ mem
        exact basis.columns_not_mem move progress later shows rfl
      refine ⟨insert ((Finset.Icc 1 m).image basic) family, ?_, ?_, fun columns mem => ?_⟩
      · exact Finset.insert_subset basis.columns_mem subset
      · rw [Finset.card_insert_of_notMem new, card,
          List.countP_cons_of_pos (by simpa using progress)]
      · rcases Finset.mem_insert.1 mem with rfl | old
        · exact ⟨_, le_rfl, basis.shows⟩
        · exact rest_shown columns old
    · refine ⟨family, subset, ?_, rest_shown⟩
      rw [card, List.countP_cons_of_neg (by simpa using progress)]

end FeasibleBasis

end Tableau

theorem Run.ending_of_iterationLimit {α : Type} {r : Run α} {k : Nat}
    (failed : r.verdict = .error (.iterationLimit k)) : r.ending = .limitReached k := by
  unfold Run.verdict at failed
  cases ending : r.ending with
  | limitReached limit =>
    rw [ending] at failed
    simpa using failed
  | _ => simp [ending] at failed

/-- A run that ended by itself has a verdict. -/
theorem Run.exists_verdict {α : Type} {r : Run α} (finished : r.ending ≠ .unfinished)
    (unlimited : ∀ k, r.ending ≠ .limitReached k) (sound : ∀ cause, r.ending ≠ .fault cause) :
    ∃ v, r.verdict = .ok v := by
  unfold Run.verdict
  cases ending : r.ending with
  | optimal => exact ⟨_, rfl⟩
  | unbounded c => exact ⟨_, rfl⟩
  | blocked => exact ⟨_, rfl⟩
  | limitReached k => exact absurd ending (unlimited k)
  | unfinished => exact absurd ending finished
  | fault cause => exact absurd ending (sound cause)

namespace Tableau

/-- However long the pivot loop runs, fewer of its pivots make progress than there are sets of
as many columns as there are constraint rows. So when all of them do, a limit of as many pivots
never stops the loop, and as much fuel brings it to a verdict. -/
theorem CanonicalFeasible.progress_lt_choose {t : Tableau Rat} (canonical : t.CanonicalFeasible)
    (limit : Option Nat) (fuel : Nat) :
    ∃ sides, t.leavingSides (t.run 0 limit fuel).exchanges = .ok sides ∧
      sides.length = (t.run 0 limit fuel).length ∧
      sides.countP (fun side => 0 < side) < t.rhsColumn.choose (t.height - 1) ∧
      ((∀ side ∈ sides, 0 < side) → (∀ k ∈ limit, t.rhsColumn.choose (t.height - 1) ≤ k) →
        (∀ k, (Solver.optimize ⟨0, limit⟩ fuel t).outcome ≠ .error (.iterationLimit k)) ∧
        (t.rhsColumn.choose (t.height - 1) ≤ fuel →
          ∃ verdict, (Solver.optimize ⟨0, limit⟩ fuel t).outcome = .ok verdict)) := by
  obtain ⟨basic, basis⟩ := canonical.exists_basis
  obtain ⟨sides, read, length, family, subset, card, -⟩ :=
    basis.exists_bases (performs_run t limit fuel)
  have fewer : sides.countP (fun side => 0 < side) < t.rhsColumn.choose (t.height - 1) := by
    have all := Finset.card_le_card subset
    rwa [Finset.card_powersetCard, Finset.card_range, card] at all
  refine ⟨sides, read, length, fewer, fun progress roomy => ?_⟩
  have short : (t.run 0 limit fuel).length < t.rhsColumn.choose (t.height - 1) := by
    have count : sides.countP (fun side => 0 < side) = sides.length :=
      List.countP_eq_length.2 fun side mem => decide_eq_true (progress side mem)
    rw [count, length] at fewer
    exact fewer
  have unlimited (k : Nat) : (t.run 0 limit fuel).ending ≠ .limitReached k := by
    intro stopped
    have made := length_of_limitReached stopped
    have enough := roomy k (limit_of_limitReached stopped)
    omega
  rw [Solver.outcome_optimize]
  refine ⟨fun k failed => unlimited k (Run.ending_of_iterationLimit failed), fun fuelled => ?_⟩
  refine Run.exists_verdict (fun unfinished => ?_) unlimited
    (canonical.sized.run_total 0 limit fuel).2
  have made : (t.run 0 limit fuel).length = fuel := length_of_unfinished unfinished
  omega

/-- Both pivots of the run make progress, and ten sets of columns are there. -/
theorem threeBounds_progress : threeBounds.CanonicalFeasible ∧
    ∃ sides, threeBounds.leavingSides (threeBounds.run 0 (some 10) 10).exchanges = .ok sides ∧
      (∀ side ∈ sides, 0 < side) ∧ sides.countP (fun side => 0 < side) < 10 ∧
      ∃ verdict, (Solver.optimize ⟨0, some 10⟩ 10 threeBounds).outcome = .ok verdict := by
  have sized : threeBounds.Sized 3 5 := ⟨rfl, by decide⟩
  have canonical := (threeBounds_choosesBasis.feasibleBasis sized).canonicalFeasible
  obtain ⟨sides, read, _, fewer, ends⟩ := canonical.progress_lt_choose (some 10) 10
  have computed : threeBounds.leavingSides (threeBounds.run 0 (some 10) 10).exchanges =
      .ok [3, 1] := by decide +kernel
  obtain rfl : [3, 1] = sides := Except.ok.inj (computed.symm.trans read)
  have progress : ∀ side ∈ [(3 : Rat), 1], 0 < side := by decide
  obtain ⟨_, verdict⟩ := ends progress (by decide)
  exact ⟨canonical, _, read, progress, fewer, verdict (by decide)⟩

end Tableau

end LinearProgram
