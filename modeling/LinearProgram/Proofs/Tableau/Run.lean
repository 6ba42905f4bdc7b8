import Mathlib
import LinearProgram.Proofs.Tableau.Basis
import LinearProgram.Proofs.Tableau.Selection

/-!
# Runs of the pivot loop

* `Reaches`: the tables that pivots lead to, which `reaches_iff` shows are the
  last ones of runs without a limit; `Reaches.invariant`: what every pivot keeps,
  all of them have;
* `stopsAt_or_goesOn`: what a run does with one table, and from it what whole runs do;
* `runFrom_spec`: a run with a limit ends with a table it reaches, and its ending
  is a move of that table; `Sized.run_total`: it does not fault;
* `Sized.run`: a run changes neither the solutions nor their prices, under any
  tolerance that is not negative;
* `FeasibleBasis`: every constraint row has a unit column and no right-hand side
  is negative; `FeasibleBasis.pivot`, `FeasibleBasis.objective_le`,
  `FeasibleBasis.run`;
* `basicPoint`, `ray`: the point and the directions that such a table shows.
-/

namespace LinearProgram

deriving instance DecidableEq for Tableau

deriving instance DecidableEq for Exchange

deriving instance DecidableEq for Move

/-- The move of the last table that a run ended with. -/
def Ending.Justified {α : Type} [Scalar α] (tolerance : α) (last : Tableau α) : Ending → Prop
  | .optimal => last.move tolerance = .ok .optimal
  | .unbounded column => last.move tolerance = .ok (.unbounded column)
  | .blocked => last.move tolerance = .ok .blocked
  | _ => True

namespace Tableau

section Reaches

variable {α : Type} [Scalar α] {tolerance : α}

/-- Pivots, each as the selection rules say, lead from one table to another. -/
inductive Reaches (tolerance : α) : Tableau α → Tableau α → Prop
  | refl (t : Tableau α) : Reaches tolerance t t
  | step {t u w : Tableau α} {e : Exchange α} (move : t.move tolerance = .ok (.pivot e u))
      (later : Reaches tolerance u w) : Reaches tolerance t w

theorem Reaches.invariant {P : Tableau α → Prop}
    (step : ∀ t e u, P t → t.move tolerance = .ok (.pivot e u) → P u) {t u : Tableau α}
    (reaches : Reaches tolerance t u) (start : P t) : P u := by
  induction reaches with
  | refl => exact start
  | step move _ ih => exact ih (step _ _ _ start move)

/-- One more pivot at the end. -/
theorem Reaches.snoc {t u w : Tableau α} {e : Exchange α} (reaches : Reaches tolerance t u)
    (move : u.move tolerance = .ok (.pivot e w)) : Reaches tolerance t w := by
  induction reaches with
  | refl => exact .step move (.refl w)
  | step first _ ih => exact .step first (ih move)

/-- A run that has fuel ends at the table, whatever its limit, for the given reason. -/
structure StopsAt (t : Tableau α) (tolerance : α) (ending : Ending) : Prop where
  justified : ending.Justified tolerance t
  fault : ∀ cause, ending = .fault cause → t.move tolerance = .error cause
  finished : ending ≠ .unfinished
  unlimited : ∀ k, ending ≠ .limitReached k
  run : ∀ limit count fuel, t.runFrom tolerance limit count (fuel + 1) = .here t ending

/-- A run that has fuel makes the pivot, unless its limit forbids that. -/
structure GoesOn (t : Tableau α) (tolerance : α) (e : Exchange α) (next : Tableau α) : Prop where
  move : t.move tolerance = .ok (.pivot e next)
  halt : ∀ {limit count fuel k}, reached limit count = some k →
    t.runFrom tolerance limit count (fuel + 1) = .here t (.limitReached k)
  run : ∀ {limit count fuel}, reached limit count = none →
    t.runFrom tolerance limit count (fuel + 1) =
      (next.runFrom tolerance limit (count + 1) fuel).cons e

theorem stopsAt_or_goesOn (t : Tableau α) (tolerance : α) :
    (∃ ending, t.StopsAt tolerance ending) ∨ ∃ e next, t.GoesOn tolerance e next := by
  cases move : t.move tolerance with
  | error cause =>
    refine .inl ⟨.fault cause, trivial, ?_, by simp, by simp, by simp [runFrom, move]⟩
    rintro _ ⟨⟩
    exact move
  | ok mv =>
    cases mv with
    | optimal =>
      exact .inl ⟨.optimal, move, by simp, by simp, by simp, by simp [runFrom, move]⟩
    | unbounded c =>
      exact .inl ⟨.unbounded c, move, by simp, by simp, by simp, by simp [runFrom, move]⟩
    | blocked =>
      exact .inl ⟨.blocked, move, by simp, by simp, by simp, by simp [runFrom, move]⟩
    | pivot e next =>
      refine .inr ⟨e, next, move, fun stop => ?_, fun go => ?_⟩
      · simp only [runFrom, move, stop]
      · simp only [runFrom, move, go]

theorem runFrom_spec (tolerance : α) (limit : Option Nat) (count fuel : Nat) (t : Tableau α) :
    Reaches tolerance t (t.runFrom tolerance limit count fuel).last ∧
      (t.runFrom tolerance limit count fuel).ending.Justified tolerance
        (t.runFrom tolerance limit count fuel).last := by
  induction fuel generalizing count t with
  | zero => exact ⟨.refl t, trivial⟩
  | succ fuel ih =>
    rcases t.stopsAt_or_goesOn tolerance with ⟨ending, stops⟩ | ⟨e, next, goes⟩
    · rw [stops.run]
      exact ⟨.refl t, stops.justified⟩
    · cases stop : reached limit count with
      | some k =>
        rw [goes.halt stop]
        exact ⟨.refl t, trivial⟩
      | none =>
        rw [goes.run stop]
        obtain ⟨later, justified⟩ := ih (count + 1) next
        exact ⟨.step goes.move later, justified⟩

theorem reaches_run (t : Tableau α) (limit : Option Nat) (fuel : Nat) :
    Reaches tolerance t (t.run tolerance limit fuel).last :=
  (runFrom_spec tolerance limit 0 fuel t).1

/-- A run faults where a step does. -/
theorem move_of_fault {limit : Option Nat} {count fuel : Nat} {t : Tableau α} {cause : Fault}
    (ending : (t.runFrom tolerance limit count fuel).ending = .fault cause) :
    (t.runFrom tolerance limit count fuel).last.move tolerance = .error cause := by
  induction fuel generalizing count t with
  | zero => exact nomatch ending
  | succ fuel ih =>
    rcases t.stopsAt_or_goesOn tolerance with ⟨_, stops⟩ | ⟨e, next, goes⟩
    · rw [stops.run] at ending ⊢
      exact stops.fault cause ending
    · cases stop : reached limit count with
      | some k =>
        rw [goes.halt stop] at ending
        exact nomatch ending
      | none =>
        rw [goes.run stop] at ending ⊢
        exact ih ending

theorem Sized.of_reaches {t u : Tableau α} {m n : Nat} (sized : t.Sized m n)
    (reaches : Reaches tolerance t u) : u.Sized m n := by
  refine reaches.invariant (P := fun u => u.Sized m n) (fun t e u sized move => ?_) sized
  cases sized.guarded_of_move move with
  | pivot _ _ _ _ _ _ _ sized' => exact sized'

/-- A run from a sized table does not fault and keeps the sizes. -/
theorem Sized.run_total {t : Tableau α} {m n : Nat} (sized : t.Sized m n) (tolerance : α)
    (limit : Option Nat) (fuel : Nat) : (t.run tolerance limit fuel).last.Sized m n ∧
      ∀ cause, (t.run tolerance limit fuel).ending ≠ .fault cause := by
  have sized' : (t.run tolerance limit fuel).last.Sized m n :=
    sized.of_reaches (reaches_run t limit fuel)
  refine ⟨sized', fun cause ending => ?_⟩
  obtain ⟨mv, move, _⟩ := sized'.exists_move tolerance
  exact nomatch move.symm.trans (move_of_fault ending)

/-- Without a limit, fuel decides which of the tables a run ends with. -/
theorem reaches_iff {t u : Tableau α} :
    Reaches tolerance t u ↔ ∃ fuel, (t.run tolerance none fuel).last = u := by
  constructor
  · intro reaches
    suffices ∃ fuel, ∀ count, (t.runFrom tolerance none count fuel).last = u by
      obtain ⟨fuel, last⟩ := this
      exact ⟨fuel, last 0⟩
    induction reaches with
    | refl t => exact ⟨0, fun _ => rfl⟩
    | step move _ ih =>
      obtain ⟨fuel, last⟩ := ih
      refine ⟨fuel + 1, fun count => ?_⟩
      rw [runFrom, move]
      exact last (count + 1)
  · rintro ⟨fuel, rfl⟩
    exact reaches_run t none fuel

end Reaches

variable {t u : Tableau Rat} {m n : Nat} {ε : Rat} {limit : Option Nat} {fuel : Nat}

/-- What is known about the last table of a run. -/
structure Ends (ε : Rat) (m n : Nat) (r : Run Rat) : Prop where
  optimal : r.ending = .optimal → ∀ j < n, -ε ≤ r.last.get 0 j
  unbounded : ∀ c, r.ending = .unbounded c →
    r.last.Enters ε n c ∧ ∀ i < m, r.last.get (i + 1) c ≤ ε
  notBlocked : r.ending ≠ .blocked

/-- On sized tables an ending says what the selection rules have found. -/
theorem Sized.ends {r : Run Rat} (sized : r.last.Sized m n)
    (justified : r.ending.Justified ε r.last) : Ends ε m n r := by
  refine ⟨fun ending => ?_, fun c ending => ?_, fun ending => ?_⟩
  · rw [ending] at justified
    cases sized.moves_of_move justified with
    | optimal nonneg => exact nonneg
  · rw [ending] at justified
    cases sized.moves_of_move justified with
    | unbounded enters free => exact ⟨enters, free⟩
  · rw [ending] at justified
    exact nomatch sized.moves_of_move justified

/-- A selected pivot keeps the sizes and the solutions. -/
theorem Sized.pivot_move (sized : t.Sized m n) (nonneg : 0 ≤ ε) {e : Exchange Rat}
    (move : t.move ε = .ok (.pivot e u)) : u.Sized m n ∧ t.Equivalent u := by
  cases sized.moves_of_move move with
  | pivot enters leaves next =>
    have hr := Nat.lt_succ_iff.1 leaves.lt
    have nonzero := (nonneg.trans_lt leaves.entry).ne'
    exact ⟨(sized.get_pivot hr enters.lt.le next).1,
      sized.equivalent_pivot leaves.pos hr enters.lt.le next nonzero⟩

/-- A selected pivot has a positive entry below a negative cost. The entering column grows
to the ratio of its row, and the value in row 0 by as much as that is worth. -/
theorem Sized.objective_move (sized : t.Sized m n) {e : Exchange Rat}
    (move : t.move 0 = .ok (.pivot e u)) :
    0 < e.row ∧ e.row ≤ m ∧ 0 < t.get e.row e.column ∧ t.get 0 e.column < 0 ∧
      u.get 0 n = t.get 0 n + -t.get 0 e.column * (t.get e.row n / t.get e.row e.column) := by
  cases sized.moves_of_move move with
  | @pivot c r _ enters leaves next =>
    have le := Nat.lt_succ_iff.1 leaves.lt
    have cost := enters.cost
    rw [neg_zero] at cost
    refine ⟨leaves.pos, le, leaves.entry, cost, ?_⟩
    rw [(sized.get_pivot le enters.lt.le next).2, if_neg leaves.pos.ne, neg_mul, sub_eq_add_neg]

theorem Sized.reaches (sized : t.Sized m n) (nonneg : 0 ≤ ε) (reaches : t.Reaches ε u) :
    u.Sized m n ∧ t.Equivalent u := by
  refine reaches.invariant (P := fun u => u.Sized m n ∧ t.Equivalent u) ?_ ⟨sized, .refl t⟩
  rintro u e w ⟨sized, same⟩ move
  obtain ⟨sized', next⟩ := sized.pivot_move nonneg move
  exact ⟨sized', same.trans next⟩

theorem Sized.run (sized : t.Sized m n) (nonneg : 0 ≤ ε) (limit : Option Nat) (fuel : Nat) :
    (t.run ε limit fuel).last.Sized m n ∧ t.Equivalent (t.run ε limit fuel).last ∧
      Ends ε m n (t.run ε limit fuel) := by
  obtain ⟨reaches, justified⟩ := runFrom_spec ε limit 0 fuel t
  obtain ⟨sized', same⟩ := sized.reaches nonneg reaches
  exact ⟨sized', same, sized'.ends justified⟩

/-- The right-hand column is met at the end only. -/
theorem Sized.equation_atPoint_eq (sized : t.Sized m n) (i : Nat) {y : Nat → Rat} (h : y n = 0) :
    t.equation i (atPoint n y) = t.equation i y - t.get i n := by
  rw [sized.equation_atPoint, sized.equation_apply, Finset.sum_range_succ, h, mul_zero, add_zero]

/-- The basic columns have the right-hand sides of their rows. -/
noncomputable def basicPoint (t : Tableau Rat) (m n : Nat) (basic : Nat → Nat) : Nat → Rat :=
  combination m (fun i => some (basic i)) (t.get · n)

/-- One column grows and the basic columns make up for it. -/
noncomputable def ray (t : Tableau Rat) (m : Nat) (basic : Nat → Nat) (c : Nat) : Nat → Rat :=
  unit c + combination m (fun i => some (basic i)) fun i => -t.get i c

/-- The basic columns only grow along a column without positive entries. -/
theorem ray_nonneg {c : Nat} {basic : Nat → Nat} (free : ∀ i < m, t.get (i + 1) c ≤ 0) (j : Nat) :
    0 ≤ t.ray m basic c j := by
  apply add_nonneg
  · rw [unit, Pi.single_apply]
    split
    · exact zero_le_one
    · exact le_rfl
  · apply combination_nonneg
    intro i pos le
    obtain ⟨i, rfl⟩ := Nat.exists_eq_succ_of_ne_zero pos.ne'
    exact neg_nonneg.2 (free i le)

/-- Every constraint row has a unit column of the constraint rows whose cost is
cleared, unless the column is loose, and no right-hand side is negative. -/
structure FeasibleBasis (t : Tableau Rat) (m n : Nat) (basic : Nat → Nat) (Loose : Nat → Prop) :
    Prop where
  sized : t.Sized m n
  inside : ∀ i, 0 < i → i ≤ m → basic i < n
  unit : ∀ i, 0 < i → i ≤ m → t.UnitIn i (basic i)
  cost : ∀ i, 0 < i → i ≤ m → t.get 0 (basic i) = 0 ∨ Loose (basic i)
  nonneg : ∀ i, 0 < i → i ≤ m → 0 ≤ t.get i n

namespace FeasibleBasis

variable {basic : Nat → Nat} {Loose : Nat → Prop} (basis : t.FeasibleBasis m n basic Loose)

/-- A basis is given by a column for every row. -/
theorem exists_of_columns (sized : t.Sized m n)
    (columns : ∀ i < m, ∃ c < n, t.UnitIn (i + 1) c ∧ (t.get 0 c = 0 ∨ Loose c))
    (nonneg : ∀ i < m, 0 ≤ t.get (i + 1) n) : ∃ basic, t.FeasibleBasis m n basic Loose := by
  have total : ∀ i, ∃ c, 0 < i → i ≤ m → c < n ∧ t.UnitIn i c ∧ (t.get 0 c = 0 ∨ Loose c) := by
    intro i
    by_cases row : 0 < i ∧ i ≤ m
    · obtain ⟨c, column⟩ := columns (i - 1) (by omega)
      rw [Nat.sub_add_cancel row.1] at column
      exact ⟨c, fun _ _ => column⟩
    · exact ⟨0, fun pos le => absurd ⟨pos, le⟩ row⟩
  choose basic column using total
  refine ⟨basic, sized, fun i pos le => (column i pos le).1, fun i pos le => (column i pos le).2.1,
    fun i pos le => (column i pos le).2.2, fun i pos le => ?_⟩
  obtain ⟨i, rfl⟩ := Nat.exists_eq_succ_of_ne_zero pos.ne'
  exact nonneg i le

include basis

/-- Other columns can be loose, if those that were have costs that are cleared. -/
theorem relax {Loose' : Nat → Prop}
    (cost : ∀ i, 0 < i → i ≤ m → t.get 0 (basic i) = 0 ∨ Loose' (basic i)) :
    t.FeasibleBasis m n basic Loose' :=
  ⟨basis.sized, basis.inside, basis.unit, cost, basis.nonneg⟩

/-- Unless it is loose, a basic column is a unit column of the whole table. -/
theorem unitColumn {i : Nat} (cleared : ¬ Loose (basic i)) (pos : 0 < i) (le : i ≤ m) :
    t.UnitColumn i (basic i) :=
  (basis.unit i pos le).unitColumn pos ((basis.cost i pos le).resolve_right cleared)

/-- The pivot row has a zero in every other basic column, so these columns stay as
they are. -/
theorem get_pivot_basic {r c : Nat} (pos : 0 < r) (le : r ≤ m) (hc : c < n)
    (next : t.pivot r c = .ok u) {i : Nat} (hi : 0 < i) (him : i ≤ m) (other : i ≠ r) (k : Nat) :
    u.get k (basic i) = t.get k (basic i) := by
  obtain ⟨_, entries⟩ := basis.sized.get_pivot le hc.le next
  have zero : t.get r (basic i) = 0 := by rw [basis.unit i hi him r pos, if_neg other.symm]
  rw [entries, zero, zero_div, mul_zero, sub_zero]
  split
  · rename_i same
    rw [same, zero]
  · rfl

/-- A pivot puts its column into the basis in place of the one of its row. -/
theorem pivot {r c : Nat} (pos : 0 < r) (le : r ≤ m) (hc : c < n)
    (next : t.pivot r c = .ok u) (nonzero : t.get r c ≠ 0)
    (nonneg : ∀ i, 0 < i → i ≤ m → 0 ≤ u.get i n) :
    u.FeasibleBasis m n (Function.update basic r c) Loose := by
  have sized' := (basis.sized.get_pivot le hc.le next).1
  have entered := basis.sized.get_pivot_column le hc.le next nonzero
  have kept {i : Nat} (hi : 0 < i) (him : i ≤ m) (other : i ≠ r) (k : Nat) :=
    basis.get_pivot_basic pos le hc next hi him other k
  refine ⟨sized', fun i hi him => ?_, fun i hi him => ?_, fun i hi him => ?_, nonneg⟩
  · by_cases same : i = r
    · rw [same, Function.update_self]
      exact hc
    · rw [Function.update_of_ne same]
      exact basis.inside i hi him
  · by_cases same : i = r
    · subst same
      rw [Function.update_self]
      exact fun k _ => entered k
    · rw [Function.update_of_ne same]
      intro k hk
      rw [kept hi him same, basis.unit i hi him k hk]
  · by_cases same : i = r
    · subst same
      rw [Function.update_self, entered, if_neg hi.ne]
      exact .inl rfl
    · rw [Function.update_of_ne same, kept hi him same]
      exact basis.cost i hi him

/-- A pivot on a row with right-hand side zero moves no right-hand side. -/
theorem pivot_degenerate {r c : Nat} (pos : 0 < r) (le : r ≤ m) (hc : c < n)
    (next : t.pivot r c = .ok u) (nonzero : t.get r c ≠ 0) (zero : t.get r n = 0) :
    u.FeasibleBasis m n (Function.update basic r c) Loose ∧ ∀ i, u.get i n = t.get i n := by
  have rhs := basis.sized.get_pivot_degenerate le hc.le next zero
  refine ⟨basis.pivot pos le hc next nonzero fun i hi him => ?_, rhs⟩
  rw [rhs]
  exact basis.nonneg i hi him

/-- The ratio test keeps all right-hand sides from becoming negative. -/
theorem pivot_move {e : Exchange Rat} (move : t.move 0 = .ok (.pivot e u)) :
    u.FeasibleBasis m n (Function.update basic e.row e.column) Loose := by
  cases basis.sized.moves_of_move move with
  | @pivot c r _ enters leaves next =>
    have le := Nat.lt_succ_iff.1 leaves.lt
    obtain ⟨_, entries⟩ := basis.sized.get_pivot le enters.lt.le next
    have ratio : 0 ≤ t.get r n / t.get r c :=
      div_nonneg (basis.nonneg r leaves.pos le) leaves.entry.le
    refine basis.pivot leaves.pos le enters.lt next leaves.entry.ne' fun i hi him => ?_
    rw [entries]
    split
    · exact ratio
    · have rhs := basis.nonneg i hi him
      rw [sub_nonneg]
      by_cases positive : 0 < t.get i c
      · have least := leaves.least i hi (Nat.lt_succ_iff.2 him) positive
        calc t.get i c * (t.get r n / t.get r c)
            ≤ t.get i c * (t.get i n / t.get i c) := mul_le_mul_of_nonneg_left least positive.le
          _ = t.get i n := mul_div_cancel₀ _ positive.ne'
      · exact (mul_nonpos_of_nonpos_of_nonneg (not_lt.1 positive) ratio).trans rhs

/-- What a selected pivot does to the basic columns: one becomes a unit column in
place of the one of its row, the others stay. -/
theorem get_pivot_move {e : Exchange Rat} (move : t.move 0 = .ok (.pivot e u)) :
    (∀ k, u.get k e.column = if k = e.row then 1 else 0) ∧
      ∀ i, 0 < i → i ≤ m → i ≠ e.row → ∀ k, u.get k (basic i) = t.get k (basic i) := by
  cases basis.sized.moves_of_move move with
  | @pivot c r _ enters leaves next =>
    have le := Nat.lt_succ_iff.1 leaves.lt
    exact ⟨basis.sized.get_pivot_column le enters.lt.le next leaves.entry.ne',
      fun i hi him other => basis.get_pivot_basic leaves.pos le enters.lt next hi him other⟩

/-- The cost of the entering column is negative and its value is not, so the value
of the objective does not fall. -/
theorem objective_le {e : Exchange Rat} (move : t.move 0 = .ok (.pivot e u)) :
    t.get 0 n ≤ u.get 0 n := by
  obtain ⟨pos, le, entry, cost, value⟩ := basis.sized.objective_move move
  have ratio : 0 ≤ t.get e.row n / t.get e.row e.column :=
    div_nonneg (basis.nonneg e.row pos le) entry.le
  rw [value]
  exact le_add_of_nonneg_right (mul_nonneg (neg_nonneg.2 cost.le) ratio)

theorem reaches (reaches : t.Reaches 0 u) : ∃ basic', u.FeasibleBasis m n basic' Loose :=
  reaches.invariant (P := fun u => ∃ basic, u.FeasibleBasis m n basic Loose)
    (fun _ _ _ ⟨_, basis⟩ move => ⟨_, basis.pivot_move move⟩) ⟨basic, basis⟩

theorem run (limit : Option Nat) (fuel : Nat) :
    ∃ basic', (t.run 0 limit fuel).last.FeasibleBasis m n basic' Loose :=
  basis.reaches (reaches_run t limit fuel)

/-- At a combination of basic columns, a constraint row has its own weight. -/
theorem equation_weights (weight : Nat → Rat) {k : Nat} (pos : 0 < k) (le : k ≤ m) :
    t.equation k (combination m (fun i => some (basic i)) weight) = weight k := by
  rw [basis.sized.equation_combination_unitIn _ weight pos le]
  · rfl
  · intro i c hi him same
    obtain rfl := Option.some.inj same
    exact ⟨basis.inside i hi him, basis.unit i hi him⟩

theorem weights_outside (weight : Nat → Rat) {j : Nat} (h : n ≤ j) :
    combination m (fun i => some (basic i)) weight j = 0 := by
  apply Finset.sum_eq_zero
  intro i hi
  have := basis.inside (i + 1) (Nat.succ_pos i) (Finset.mem_range.1 hi)
  rw [if_neg]
  intro same
  have := Option.some.inj same
  omega

theorem price_weights (cleared : ∀ c, ¬ Loose c) (weight : Nat → Rat) :
    t.equation 0 (combination m (fun i => some (basic i)) weight) = 0 := by
  apply basis.sized.price_combination
  intro i c hi him same
  obtain rfl := Option.some.inj same
  exact ⟨basis.inside i hi him, basis.unitColumn (cleared _) hi him⟩

/-- The basic solution satisfies the constraint rows. -/
theorem point_vanishes : t.Vanishes (atPoint n (t.basicPoint m n basic)) := by
  intro k pos
  by_cases le : k ≤ m
  · rw [basicPoint, basis.sized.equation_atPoint_eq k (basis.weights_outside _ le_rfl),
      basis.equation_weights _ pos le, sub_self]
  · exact basis.sized.equation_eq_zero (Nat.lt_of_not_le le) _

theorem point_nonneg (j : Nat) : 0 ≤ t.basicPoint m n basic j :=
  combination_nonneg basis.nonneg j

/-- The basic solution has the price that row 0 shows. -/
theorem point_price (cleared : ∀ c, ¬ Loose c) :
    t.equation 0 (atPoint n (t.basicPoint m n basic)) = -t.get 0 n := by
  rw [basicPoint, basis.sized.equation_atPoint_eq 0 (basis.weights_outside _ le_rfl),
    basis.price_weights cleared, zero_sub]

section Ray

variable {c : Nat} (hc : c < n)

include hc

/-- Moving along a column, with the basic columns following, keeps the constraint rows. -/
theorem ray_vanishes : t.Vanishes (t.ray m basic c) := by
  intro k pos
  rw [ray, map_add, basis.sized.equation_unit k hc.le]
  by_cases le : k ≤ m
  · rw [basis.equation_weights _ pos le, add_neg_cancel]
  · rw [basis.sized.equation_eq_zero (Nat.lt_of_not_le le),
      basis.sized.get_eq_zero (.inl (Nat.lt_of_not_le le)), add_zero]

theorem ray_outside {j : Nat} (h : n ≤ j) : t.ray m basic c j = 0 := by
  rw [ray, Pi.add_apply, basis.weights_outside _ h, Tableau.unit, Pi.single_apply,
    if_neg (by omega), add_zero]

theorem ray_price (cleared : ∀ c, ¬ Loose c) : t.equation 0 (t.ray m basic c) = t.get 0 c := by
  rw [ray, map_add, basis.sized.equation_unit 0 hc.le, basis.price_weights cleared, add_zero]

end Ray

/-- A basis without loose columns is read off the columns, up to the choice among
several unit columns of one row, and so are the values of its basic solution. -/
theorem reads (cleared : ∀ c, ¬ Loose c) :
    ∃ basic' values, t.FeasibleBasis m n basic' Loose ∧
      t.basis 0 = .ok ((List.range m).map fun i => some (basic' (i + 1))) ∧
      t.assignment 0 = .ok values ∧ values.length = n ∧
      ∀ j, values[j]?.getD 0 = t.basicPoint m n basic' j := by
  obtain ⟨listed, read, reads⟩ := basis.sized.basis
  have found : ∀ i, ∃ c, i < m → listed[i]? = some (some c) := by
    intro i
    by_cases row : i < m
    · have inside : i < listed.length := by rwa [reads.length]
      have entry := List.getElem?_eq_getElem inside
      cases column : listed[i] with
      | none =>
        rw [column] at entry
        exact absurd (basis.unitColumn (cleared _) (Nat.succ_pos i) row)
          (reads.missing i entry _ (basis.inside (i + 1) (Nat.succ_pos i) row))
      | some c => exact ⟨c, fun _ => column ▸ entry⟩
    · exact ⟨0, fun h => absurd h row⟩
  choose column found using found
  have unit (i : Nat) (row : i < m) : column i < n ∧ t.UnitColumn (i + 1) (column i) := by
    obtain ⟨inside, unit, -⟩ := reads.found i _ (found i row)
    exact ⟨inside, unit⟩
  have list : listed = (List.range m).map fun i => some (column i) := by
    apply List.ext_getElem?
    intro i
    by_cases row : i < m
    · rw [found i row]
      simp [row]
    · rw [List.getElem?_eq_none (by rw [reads.length]; omega)]
      simp [row]
  obtain ⟨values, assigned, length, value⟩ := basis.sized.assignment read reads
  refine ⟨fun i => column (i - 1), values, ⟨basis.sized, fun i pos le => ?_, fun i pos le => ?_,
    fun i pos le => ?_, basis.nonneg⟩, list ▸ read, assigned, length, fun j => ?_⟩
  · exact (unit (i - 1) (by omega)).1
  · have column := (unit (i - 1) (by omega)).2.unitIn
    rwa [Nat.sub_add_cancel pos] at column
  · have cost := (unit (i - 1) (by omega)).2 0
    rw [if_neg (Nat.succ_ne_zero _).symm] at cost
    exact .inl cost
  · rw [value, basicPoint, combination, combination]
    apply Finset.sum_congr rfl
    intro i hi
    rw [Nat.add_sub_cancel, found i (Finset.mem_range.1 hi)]
    rfl

/-- A basic column has at least the right-hand side of its row. -/
theorem le_basicPoint {i : Nat} (pos : 0 < i) (le : i ≤ m) :
    t.get i n ≤ t.basicPoint m n basic (basic i) := by
  obtain ⟨i, rfl⟩ := Nat.exists_eq_succ_of_ne_zero pos.ne'
  have single := Finset.single_le_sum
    (f := fun k => if some (basic (k + 1)) = some (basic (i + 1)) then t.get (k + 1) n else 0)
    (fun k hk => by
      split
      · exact basis.nonneg (k + 1) (Nat.succ_pos k) (Finset.mem_range.1 hk)
      · exact le_rfl) (Finset.mem_range.2 le)
  rw [if_pos rfl] at single
  exact single

end FeasibleBasis

end Tableau

end LinearProgram
