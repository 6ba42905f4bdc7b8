import Mathlib
import LinearProgram.Proofs.Redundancy
import LinearProgram.Proofs.Solver

/-!
# Where phase two starts

* `Restores`, `restore_eq_ok`, `exists_restore`: the stages of `restore`, which
  never faults;
* `Priced`: the table of phase one without its artificial columns, below the
  real objective;
* `StartsFeasible`: a feasible basis of a table that represents the model, with
  the loose columns told apart; `onStartBasis_slacks`, `slack_basis`, `slack_start`,
  `restored_start`;
* `phaseOne_infeasible`: phase one gives up on a model without feasible points only;
* `starts_spec`: every start of the solver is one of these.
-/

namespace LinearProgram

open Tableau (atPoint unit Solves)

namespace PhaseOne

/-- The columns that were read, without the artificial ones, as they are
numbered when these are gone. -/
def realBasis {α : Type} (p : PhaseOne α) (listed : List (Option Nat)) : List (Option Nat) :=
  listed.map fun basic =>
    (basic.filter fun column => !p.artificials.keys.contains column).map
      (renumber p.artificials.keys)

/-- The stages of `restore`. -/
inductive Restores (ε : Rat) (p : PhaseOne Rat) (s : StandardForm Rat) (t restored : Tableau Rat) :
    Prop
  | mk {listed listed' : List (Option Nat)} {cleared kept stripped priced : Tableau Rat}
      {redundant : List Nat} (read : t.basis ε = .ok listed)
      (driven : (p.driveOut ε (listed.zipIdx 1) t).outcome = .ok (cleared, redundant))
      (dropped : (dropRows redundant.reverse cleared).outcome = .ok kept)
      (reread : kept.basis ε = .ok listed')
      (strip : kept.withoutColumns p.artificials.keys = .ok stripped)
      (price : stripped.setObjectiveRow s.objectiveRow = .ok priced)
      (clear : priced.canonicalize ε (p.realBasis listed') = .ok restored) :
      Restores ε p s t restored

theorem restore_eq_ok {ε : Rat} {p : PhaseOne Rat} {s : StandardForm Rat} {t restored : Tableau Rat}
    (h : (p.restore ε s t).outcome = .ok restored) : Restores ε p s t restored := by
  unfold restore at h
  simp only [Traced.outcome_bind, Traced.outcome_ofExcept, except_bind_eq_ok] at h
  obtain ⟨listed, read, ⟨cleared, redundant⟩, driven, kept, dropped, listed', reread, stripped,
    strip, priced, price, clear⟩ := h
  exact .mk read driven dropped reread strip price clear

/-- Dropping the rows that were given up, from the last to the first, keeps the others. -/
theorem exists_keeps {α : Type} [Scalar α] {t u : Tableau α} {m n : Nat} {redundant : List Nat}
    (sized : t.Sized m n) (sublist : redundant.Sublist (List.range' 1 m))
    (dropped : (dropRows redundant.reverse t).outcome = .ok u) :
    ∃ k old, Tableau.Keeps t u m k n redundant old := by
  obtain ⟨descending, inside⟩ := descending_reverse sublist
  obtain ⟨k, old, keeps⟩ := Tableau.dropRows_keeps sized descending inside dropped
  refine ⟨k, old, keeps.sized, keeps.line, keeps.zero, keeps.injective, fun i pos le => ?_,
    fun r pos le stays => keeps.onto r pos le (mt List.mem_reverse.1 stays)⟩
  obtain ⟨oldPos, oldLe, stays⟩ := keeps.inside i pos le
  exact ⟨oldPos, oldLe, mt List.mem_reverse.2 stays⟩

/-- On a table of the size that phase one has, `restore` never faults and adds no row. -/
theorem exists_restore {α : Type} [Scalar α] (s : StandardForm α) {t : Tableau α} (ε : α)
    (sized : t.Sized s.model.constraints.length s.phaseOne.model.vars.length) :
    ∃ restored, (s.phaseOne.restore ε s t).outcome = .ok restored ∧
      ∃ k ≤ s.model.constraints.length, restored.Sized k s.model.vars.length := by
  obtain ⟨listed, read, length⟩ := sized.basis_eq_ok ε
  have rows := rows_of_mem_zipIdx length
  obtain ⟨cleared, redundant, driven, sizedCleared, sublist⟩ :=
    exists_driveOut ε s.phaseOne sized rows
  rw [List.zipIdx_map_snd, length] at sublist
  have dropped := Tableau.outcome_dropRows redundant.reverse cleared
  obtain ⟨k, _, keeps⟩ := exists_keeps sizedCleared sublist dropped
  obtain ⟨listed', reread, length'⟩ := keeps.sized.basis_eq_ok ε
  obtain ⟨stripped, strip, strips⟩ := (s.phaseOne_vars ▸ keeps.sized).withoutColumns
  rw [← s.phaseOne_keys] at strip
  obtain ⟨priced, price, sizedPriced, _⟩ := strips.sized.setObjectiveRow s.length_objectiveRow
  have short : (s.phaseOne.realBasis listed').length ≤ k := by simp [realBasis, length']
  obtain ⟨restored, _, clear, sizedRestored, _⟩ := sizedPriced.canonicalize ε short
  rw [realBasis] at clear
  refine ⟨restored, ?_, k, keeps.le, sizedRestored⟩
  simp only [restore, Traced.outcome_bind, Traced.outcome_ofExcept, read, driven, dropped, reread,
    strip, price, clear, bind_ok]

theorem length_realBasis {α : Type} (p : PhaseOne α) (listed : List (Option Nat)) :
    (p.realBasis listed).length = listed.length := List.length_map _

/-- Columns before the artificial ones keep their numbers. -/
theorem realBasis_of_lt {s : StandardForm Rat} {listed : List (Option Nat)} {i c : Nat}
    (h : listed[i]? = some (some c)) (hc : c < s.model.vars.length) :
    (s.phaseOne.realBasis listed)[i]? = some (some c) := by
  have keys := s.phaseOne_covers.keys
  have real : c ∉ s.phaseOne.artificials.keys := by
    rw [keys, List.mem_range'_1]
    omega
  have before : s.phaseOne.artificials.keys.countP (· < c) = 0 := by
    rw [List.countP_eq_zero]
    intro j hj
    rw [keys, List.mem_range'_1] at hj
    simp only [decide_eq_true_eq, not_lt]
    omega
  rw [realBasis, List.getElem?_map, h]
  simp [real, renumber, before]

/-- The test looks at the value of every artificial variable. -/
theorem artificialsPositive_iff {p : PhaseOne Rat} {t : Tableau Rat} {values : List Rat}
    (assigned : t.assignment 0 = .ok values) {answer : Bool}
    (h : p.artificialsPositive 0 t = .ok answer) : answer = true ↔
      ∃ j, p.artificials.contains j = true ∧ 0 < values[j]?.getD 0 := by
  rw [artificialsPositive, assigned, ok_bind] at h
  injection h with h
  rw [← h, List.any_eq_true]
  refine exists_congr fun j => and_congr ?_ ?_
  · rw [IndexMap.contains, List.contains_iff_mem]
  · cases values[j]? with
    | none => simp
    | some value => simp

/-- When no artificial variable is positive, the basic ones are zero. -/
theorem rhs_eq_zero {p : PhaseOne Rat} {t : Tableau Rat} {k n : Nat} {basic : Nat → Nat}
    {Loose : Nat → Prop} (basis : t.FeasibleBasis k n basic Loose) {values : List Rat}
    (assigned : t.assignment 0 = .ok values)
    (value : ∀ j, values[j]?.getD 0 = t.basicPoint k n basic j)
    (zero : p.artificialsPositive 0 t = .ok false) {i : Nat} (pos : 0 < i) (le : i ≤ k)
    (artificial : p.artificials.contains (basic i) = true) : t.get i n = 0 := by
  have none := mt (artificialsPositive_iff assigned zero).2 Bool.false_ne_true
  have notPositive : ¬ 0 < values[basic i]?.getD 0 := fun positive =>
    none ⟨basic i, artificial, positive⟩
  rw [value] at notPositive
  exact le_antisymm ((basis.le_basicPoint pos le).trans (not_lt.1 notPositive))
    (basis.nonneg i pos le)

end PhaseOne

namespace Tableau

/-- `u` has the constraint rows of `t` without the columns from `N` up to the
right-hand side at `n`, below given costs. -/
structure Priced (t u : Tableau Rat) (k n N : Nat) (costs : List Rat) : Prop where
  sized : u.Sized k N
  cost : ∀ j, u.get 0 j = costs[j]?.getD 0
  get : ∀ i, ∀ j < N, u.get (i + 1) j = t.get (i + 1) j
  rhs : ∀ i, u.get (i + 1) N = t.get (i + 1) n
  equation : ∀ i v, u.equation (i + 1) v = t.equation (i + 1) (lift N n v)

theorem Strips.priced {t u w : Tableau Rat} {k n N : Nat} (strips : Strips t u k n N)
    (sized : t.Sized k n) (le : N ≤ n) {costs : List Rat} (length : costs.length = N + 1)
    (h : u.setObjectiveRow costs = .ok w) : Priced t w k n N costs := by
  obtain ⟨w', h', sized', cost, rows⟩ := strips.sized.setObjectiveRow length
  obtain rfl : w' = w := by simpa [h'] using h
  have equation (i : Nat) (v : Nat → Rat) : w'.equation (i + 1) v = u.equation (i + 1) v := by
    rw [sized'.equation_apply, strips.sized.equation_apply]
    simp only [rows]
  refine ⟨sized', cost, fun i j hj => ?_, fun i => ?_, fun i v => ?_⟩
  · rw [rows, strips.get _ j hj]
  · rw [rows, strips.rhs]
  · rw [equation, strips.equation sized le]

theorem Priced.vanishes_iff {t u : Tableau Rat} {k n N : Nat} {costs : List Rat}
    (priced : Priced t u k n N costs) (v : Nat → Rat) :
    u.Vanishes v ↔ t.Vanishes (lift N n v) := by
  constructor
  · intro vanishes i pos
    obtain ⟨i, rfl⟩ := Nat.exists_eq_succ_of_ne_zero pos.ne'
    exact (priced.equation i v).symm.trans (vanishes (i + 1) pos)
  · intro vanishes i pos
    obtain ⟨i, rfl⟩ := Nat.exists_eq_succ_of_ne_zero pos.ne'
    exact (priced.equation i v).trans (vanishes (i + 1) pos)

/-- Below the objective of the standard form, every vector costs minus its gain. -/
theorem Priced.price {m : Model Rat} {s : StandardForm Rat} {t u : Tableau Rat} {k n : Nat}
    (priced : Priced t u k n s.model.vars.length s.objectiveRow) (std : m.Standardizes s)
    (indexed : m.Indexed) (v : Nat → Rat) : u.equation 0 v = -m.gain v := by
  rw [priced.sized.equation_apply]
  simp only [priced.cost]
  exact std.sum_objectiveRow indexed v

end Tableau

/-- The table of phase one without its redundant rows. The rows that stay have
basic columns that are not artificial. -/
structure Reduction (s : StandardForm Rat) (cleared kept : Tableau Rat) (basic : Nat → Nat)
    (redundant : List Nat) (k : Nat) (old : Nat → Nat) : Prop where
  redundancy : Redundancy s cleared basic redundant
  keeps : Tableau.Keeps cleared kept s.model.constraints.length k s.phaseOneWidth redundant old
  real : ∀ i, 0 < i → i ≤ s.model.constraints.length → i ∉ redundant →
    basic i < s.model.vars.length

theorem exists_reduction {s : StandardForm Rat} {last cleared kept : Tableau Rat}
    {basic : Nat → Nat} {listed : List (Option Nat)} {redundant : List Nat}
    (basis : last.FeasibleBasis s.model.constraints.length s.phaseOneWidth basic fun _ => False)
    (zero : s.phaseOne.artificialsPositive 0 last = .ok false) (read : last.basis 0 = .ok listed)
    (driven : (s.phaseOne.driveOut 0 (listed.zipIdx 1) last).outcome = .ok (cleared, redundant))
    (dropped : (PhaseOne.dropRows redundant.reverse cleared).outcome = .ok kept) :
    ∃ basic' k old, Reduction s cleared kept basic' redundant k old ∧ last.Equivalent cleared := by
  have covers := s.phaseOne_covers
  obtain ⟨basic₁, values, basis₁, read₁, assigned, _, value⟩ := basis.reads fun _ => id
  obtain rfl : (List.range s.model.constraints.length).map (fun i => some (basic₁ (i + 1))) =
      listed := by simpa [read₁] using read
  have length : ((List.range s.model.constraints.length).map
      fun i => some (basic₁ (i + 1))).length = s.model.constraints.length := by simp
  have rows := PhaseOne.rows_of_mem_zipIdx length
  have items : ∀ e ∈ ((List.range s.model.constraints.length).map
      fun i => some (basic₁ (i + 1))).zipIdx 1, e.1 = some (basic₁ e.2) := by
    intro e he
    obtain ⟨le, _, entry⟩ := List.mem_zipIdx he
    rw [entry, List.getElem_map, List.getElem_range, Nat.sub_add_cancel le]
  have positions : (((List.range s.model.constraints.length).map
      fun i => some (basic₁ (i + 1))).zipIdx 1).map Prod.snd =
        List.range' 1 s.model.constraints.length := by
    rw [List.zipIdx_map_snd, length]
  have drives := PhaseOne.driveOut_drives basis₁.sized rows driven
  obtain ⟨basic₂, clears⟩ := drives.cleared basis₁ rows (positions ▸ List.nodup_range')
    items fun e he artificial =>
      PhaseOne.rhs_eq_zero basis₁ assigned value zero (rows e he).1 (rows e he).2 artificial
  obtain ⟨sized, same⟩ := drives.equivalent le_rfl basis₁.sized rows
  have sublist := drives.sublist
  rw [positions] at sublist
  obtain ⟨k, old, keeps⟩ := PhaseOne.exists_keeps sized sublist dropped
  have inside : ∀ d ∈ redundant, 0 < d ∧ d ≤ s.model.constraints.length :=
    fun d hd => (PhaseOne.descending_reverse sublist).2 d (List.mem_reverse.2 hd)
  refine ⟨basic₂, k, old, ⟨⟨clears.basis, inside, clears.spent⟩, keeps, fun i pos le stays => ?_⟩,
    same⟩
  have listed := List.mem_range'_1.2 ⟨pos, show i < 1 + s.model.constraints.length by omega⟩
  have real := clears.real i (positions ▸ listed) stays
  have column := clears.basis.inside i pos le
  rw [Bool.eq_false_iff, ne_eq, covers.contains_iff] at real
  omega

namespace Reduction

variable {s : StandardForm Rat} {cleared kept : Tableau Rat} {basic : Nat → Nat}
  {redundant : List Nat} {k : Nat} {old : Nat → Nat}
  (reduction : Reduction s cleared kept basic redundant k old)

include reduction

/-- The redundant rows vanish without artificial variables, so nothing is lost with them. -/
theorem vanishes_iff (v : Nat → Rat) :
    kept.Vanishes (Tableau.lift s.model.vars.length s.phaseOneWidth v) ↔
      cleared.Vanishes (Tableau.lift s.model.vars.length s.phaseOneWidth v) := by
  have sized := reduction.redundancy.basis.sized
  have wide : s.model.vars.length ≤ s.phaseOneWidth := Nat.le_add_right _ _
  constructor
  · refine reduction.keeps.vanishes sized fun d hd => ?_
    rw [sized.equation_apply]
    apply Finset.sum_eq_zero
    intro j hj
    have hj := Finset.mem_range.1 hj
    by_cases own : j < s.model.vars.length
    · rw [reduction.redundancy.get_eq_zero hd own, zero_mul]
    · by_cases last : j = s.phaseOneWidth
      · rw [last, (reduction.redundancy.spent d hd).2.2, zero_mul]
      · rw [Tableau.lift_between (by omega) (by omega), mul_zero]
  · exact fun vanishes => (reduction.keeps.entails sized _ vanishes).1

/-- The basic columns of the rows that stay. -/
theorem basis : kept.FeasibleBasis k s.phaseOneWidth (fun i => basic (old i)) fun _ => False := by
  have basis := reduction.redundancy.basis
  have keeps := reduction.keeps
  refine ⟨keeps.sized, fun i pos le => ?_, fun i pos le => ?_, fun i pos le => ?_,
    fun i pos le => ?_⟩
  · obtain ⟨oldPos, oldLe, _⟩ := keeps.inside i pos le
    exact basis.inside _ oldPos oldLe
  · obtain ⟨oldPos, oldLe, _⟩ := keeps.inside i pos le
    intro r hr
    have positive : 0 < old r := by
      apply Nat.pos_of_ne_zero
      intro zero
      have := keeps.injective (zero.trans keeps.zero.symm)
      omega
    rw [keeps.get, basis.unit _ oldPos oldLe _ positive]
    simp only [keeps.injective.eq_iff]
  · obtain ⟨oldPos, oldLe, _⟩ := keeps.inside i pos le
    rw [keeps.get, keeps.zero]
    exact basis.cost _ oldPos oldLe
  · obtain ⟨oldPos, oldLe, _⟩ := keeps.inside i pos le
    rw [keeps.get]
    exact basis.nonneg _ oldPos oldLe

/-- A column is read for every row that stays. -/
theorem listed {listed : List (Option Nat)} (read : kept.basis 0 = .ok listed) {i : Nat}
    (hi : i < k) :
    ∃ c < s.phaseOneWidth, listed[i]? = some (some c) ∧ kept.UnitColumn (i + 1) c := by
  obtain ⟨basic', _, basis, read', _⟩ := reduction.basis.reads fun _ => id
  obtain rfl : (List.range k).map (fun i => some (basic' (i + 1))) = listed := by
    simpa [read'] using read
  refine ⟨basic' (i + 1), basis.inside (i + 1) (Nat.succ_pos i) hi, ?_,
    basis.unitColumn id (Nat.succ_pos i) hi⟩
  rw [List.getElem?_map, List.getElem?_range hi, Option.map_some]

/-- Every row that stays has a column that was read for it, unless an artificial
column was read instead; then its own basic column is loose. -/
theorem column {listed : List (Option Nat)} (read : kept.basis 0 = .ok listed) {i : Nat}
    (hi : i < k) : ∃ c < s.model.vars.length, kept.UnitIn (i + 1) c ∧
      (listed[i]? = some (some c) ∨ Redundancy.Loose s cleared basic redundant c) := by
  have keeps := reduction.keeps
  obtain ⟨c, inside, found, unit⟩ := reduction.listed read hi
  obtain ⟨oldPos, oldLe, stays⟩ := keeps.inside (i + 1) (Nat.succ_pos i) hi
  by_cases own : c < s.model.vars.length
  · exact ⟨c, own, unit.unitIn, .inl found⟩
  · have real := reduction.real (old (i + 1)) oldPos oldLe stays
    refine ⟨basic (old (i + 1)), real, reduction.basis.unit (i + 1) (Nat.succ_pos i) hi, .inr ?_⟩
    refine .mk (old (i + 1)) c oldPos oldLe stays rfl real
      ((s.phaseOne_covers.contains_iff _).2 ⟨by omega, inside⟩) (fun r hr hrest => ?_) ?_
    · by_cases range : r ≤ s.model.constraints.length
      · obtain ⟨i', hi', _, rfl⟩ := keeps.onto r hr range hrest
        rw [← keeps.get, unit]
        simp only [keeps.injective.eq_iff]
      · rw [reduction.redundancy.basis.sized.get_eq_zero (.inl (by omega)), if_neg (by omega)]
    · rw [← keeps.zero, ← keeps.get, unit, if_neg (Nat.succ_ne_zero i).symm]

theorem length_realBasis {listed : List (Option Nat)} (read : kept.basis 0 = .ok listed) :
    (s.phaseOne.realBasis listed).length ≤ k := by
  rw [PhaseOne.realBasis, List.length_map, reduction.keeps.sized.basis_length read]

/-- Without artificial columns, the rows that stay are put below the objective. -/
theorem priced {stripped priced : Tableau Rat}
    (strip : kept.withoutColumns s.phaseOne.artificials.keys = .ok stripped)
    (price : stripped.setObjectiveRow s.objectiveRow = .ok priced) :
    Tableau.Priced kept priced k s.phaseOneWidth s.model.vars.length s.objectiveRow := by
  obtain ⟨stripped', strip', strips⟩ := reduction.keeps.sized.withoutColumns
  rw [s.phaseOne_covers.keys, strip'] at strip
  obtain rfl : stripped' = stripped := by simpa using strip
  exact strips.priced reduction.keeps.sized (Nat.le_add_right _ _) s.length_objectiveRow price

section Costs

variable {listed : List (Option Nat)} {priced restored : Tableau Rat} {costs : List Rat}
  (read : kept.basis 0 = .ok listed)
  (table : Tableau.Priced kept priced k s.phaseOneWidth s.model.vars.length costs)
  (clear : priced.canonicalize 0 (s.phaseOne.realBasis listed) = .ok restored)

include read table clear

/-- Below new costs, the rows that stay are as they were. -/
theorem get_restored : restored.Sized k s.model.vars.length ∧
    (∀ i, ∀ j < s.model.vars.length, restored.get (i + 1) j = kept.get (i + 1) j) ∧
    ∀ i, restored.get (i + 1) s.model.vars.length = kept.get (i + 1) s.phaseOneWidth := by
  obtain ⟨sized, rows, _⟩ := table.sized.get_canonicalize (reduction.length_realBasis read) clear
  exact ⟨sized, fun i j hj => by rw [rows, table.get i j hj], fun i => by rw [rows, table.rhs]⟩

theorem unitIn_restored {i c : Nat} (hc : c < s.model.vars.length) :
    restored.UnitIn (i + 1) c ↔ kept.UnitIn (i + 1) c := by
  obtain ⟨_, rows, _⟩ := reduction.get_restored read table clear
  simp only [Tableau.unitIn_succ_iff, rows _ c hc]

/-- The cost of a column that was read is cleared. -/
theorem cost_listed {i c : Nat} (hc : c < s.model.vars.length)
    (found : listed[i]? = some (some c)) (unit : kept.UnitIn (i + 1) c) :
    restored.get 0 c = 0 := by
  have small := table.sized.canonicalize_clears le_rfl (reduction.length_realBasis read) clear
    (PhaseOne.realBasis_of_lt found hc) hc fun r _ =>
      (table.get r c hc).trans (Tableau.unitIn_succ_iff.1 unit r)
  exact abs_nonpos_iff.1 small

/-- Unit columns of the rows that stay are a feasible basis, whatever costs are loose. -/
theorem exists_basis {Loose : Nat → Prop} (columns : ∀ i < k, ∃ c < s.model.vars.length,
      kept.UnitIn (i + 1) c ∧ (restored.get 0 c = 0 ∨ Loose c)) :
    ∃ basic', restored.FeasibleBasis k s.model.vars.length basic' Loose := by
  obtain ⟨sized, _, rhs⟩ := reduction.get_restored read table clear
  refine Tableau.FeasibleBasis.exists_of_columns sized (fun i hi => ?_) fun i hi => ?_
  · obtain ⟨c, hc, unit, cost⟩ := columns i hi
    exact ⟨c, hc, (reduction.unitIn_restored read table clear hc).2 unit, cost⟩
  · rw [rhs]
    exact reduction.basis.nonneg (i + 1) (Nat.succ_pos i) hi

/-- Clearing the costs of the columns that were read leaves a feasible basis, loose
columns apart. The constraint rows are still those of the table of phase one. -/
theorem basis_canonicalize :
    ∃ basic', restored.FeasibleBasis k s.model.vars.length basic'
      (Redundancy.Loose s cleared basic redundant) := by
  refine reduction.exists_basis read table clear fun i hi => ?_
  obtain ⟨c, hc, unit, found⟩ := reduction.column read hi
  exact ⟨c, hc, unit,
    found.imp (fun found => reduction.cost_listed read table clear hc found unit) id⟩

end Costs

end Reduction

/-- A table that phase two can start from. No column is loose if every constraint
has a row. -/
def StartsFeasible (m : Model Rat) (s : StandardForm Rat) (first : Tableau Rat) : Prop :=
  ∃ k basic Loose ω, first.FeasibleBasis k s.model.vars.length basic Loose ∧
    first.Represents m s k ∧ Separates m s Loose ω ∧
    (k = m.constraints.length → ∀ c, ¬ Loose c)

/-- The sum of the artificial variables cannot fall without bound. -/
theorem phaseOne_bounded {s : StandardForm Rat} {raw last : Tableau Rat} {k c : Nat}
    {basic : Nat → Nat}
    (auxiliary : raw.Auxiliary s) (same : raw.Equivalent last)
    (basis : last.FeasibleBasis k s.phaseOneWidth basic fun _ => False)
    (enters : last.Enters 0 s.phaseOneWidth c) (free : ∀ i < k, last.get (i + 1) c ≤ 0) :
    False := by
  have vanishes := basis.ray_vanishes enters.lt
  have price := basis.ray_price enters.lt fun _ => id
  rw [← (same.symm.price vanishes), auxiliary.price] at price
  have nonneg : 0 ≤ ∑ j ∈ Finset.Ico s.model.vars.length s.phaseOneWidth, last.ray k basic c j :=
    Finset.sum_nonneg fun j _ => Tableau.ray_nonneg free j
  have cost := enters.cost
  linarith

section Start

variable {m : Model Rat} {s : StandardForm Rat} (std : m.Standardizes s) (indexed : m.Indexed)

include std

/-- If phase one is not needed, every constraint has a slack. -/
theorem covered_of_needsPhaseOne (covered : s.needsPhaseOne = false) {i : Nat}
    (hi : i < s.model.constraints.length) : ∃ u, (u, i) ∈ s.slacks.entries := by
  have many : s.model.constraints.length ≤ s.slacks.values.length := by
    have := of_decide_eq_false covered
    rw [IndexMap.values, List.length_map]
    exact Nat.not_lt.1 this
  have subset : s.slacks.values ⊆ List.range s.model.constraints.length := by
    intro j hj
    obtain ⟨u, hu⟩ := IndexMap.mem_values.1 hj
    exact List.mem_range.2 (std.slack_lt_length hu)
  have perm : s.slacks.values.Perm (List.range s.model.constraints.length) :=
    (std.slackDistinct.subperm subset).perm_of_length_le (by rwa [List.length_range])
  exact IndexMap.mem_values.1 (perm.mem_iff.2 (List.mem_range.2 hi))

theorem phaseOneWidth_of_covered (covered : s.needsPhaseOne = false) :
    s.phaseOneWidth = s.model.vars.length := by
  rw [StandardForm.phaseOneWidth, Nat.add_eq_left, StandardForm.artificialCount,
    List.length_eq_zero_iff, List.eq_nil_iff_forall_not_mem]
  rintro ⟨u, i⟩ listed
  obtain ⟨hi, uncovered⟩ := (s.phaseOne_covers.row i).1 (IndexMap.mem_values.2 ⟨u, listed⟩)
  exact uncovered (IndexMap.mem_values.2 (covered_of_needsPhaseOne std covered hi))

include indexed

/-- The objective does not see the slacks. -/
theorem onStartBasis_slacks {first : Tableau Rat} (covered : s.needsPhaseOne = false)
    (written : s.tableau = .ok first) : s.OnStartBasis first := by
  obtain ⟨first', written', tabulates, -⟩ := std.tableau_represents indexed
  obtain rfl : first' = first := by simpa [written'] using written
  have width := phaseOneWidth_of_covered std covered
  have carries := tabulates.carries
  refine ⟨width ▸ carries, fun i u start => ?_⟩
  cases start with
  | slack listed =>
    refine (carries.slack_unitIn std indexed listed).unitColumn (Nat.succ_pos i) ?_
    have price := std.sum_objectiveRow indexed (unit u)
    rw [Model.gain_single_of_le indexed (std.slack_bounds listed).1, neg_zero] at price
    rw [← carries.sized.equation_unit 0 (std.slack_lt listed).le, carries.sized.equation_apply]
    simp only [tabulates.cost]
    exact price
  | artificial _ listed =>
    have := s.phaseOne_covers.key_bounds listed
    omega

/-- The slacks form a feasible basis of the standard form. -/
theorem slack_basis {first : Tableau Rat} (covered : s.needsPhaseOne = false)
    (written : s.tableau = .ok first) :
    ∃ basic, first.FeasibleBasis s.model.constraints.length s.model.vars.length basic
      fun _ => False := by
  rw [← phaseOneWidth_of_covered std covered]
  exact (onStartBasis_slacks std indexed covered written).feasibleBasis std

theorem slack_start {first : Tableau Rat} (covered : s.needsPhaseOne = false)
    (written : s.tableau = .ok first) : StartsFeasible m s first := by
  obtain ⟨first', written', _, represents⟩ := std.tableau_represents indexed
  obtain rfl : first' = first := by simpa [written'] using written
  obtain ⟨basic, basis⟩ := slack_basis std indexed covered written
  exact ⟨_, basic, _, 0, basis, represents, .zero m s fun _ => id, fun _ _ => id⟩

/-- What `restore` makes of the last table of phase one. -/
theorem restored_start {raw last restored : Tableau Rat} {basic : Nat → Nat}
    (auxiliary : raw.Auxiliary s) (same : raw.Equivalent last)
    (basis : last.FeasibleBasis s.model.constraints.length s.phaseOneWidth basic fun _ => False)
    (zero : s.phaseOne.artificialsPositive 0 last = .ok false)
    (restores : PhaseOne.Restores 0 s.phaseOne s last restored) : StartsFeasible m s restored := by
  cases restores with
  | @mk listed listed' cleared kept stripped priced redundant read driven dropped reread strip price
    clear =>
  obtain ⟨basic', k, old, reduction, same'⟩ := exists_reduction basis zero read driven dropped
  obtain ⟨ω, separates⟩ :=
    reduction.redundancy.separates std indexed auxiliary (same.trans same')
  have table := reduction.priced strip price
  have cleared_iff :=
    table.sized.equivalent_canonicalize (reduction.length_realBasis reread) clear
  obtain ⟨basic'', basis''⟩ := reduction.basis_canonicalize reread table clear
  refine ⟨k, basic'', _, ω, basis'', ⟨basis''.sized, fun v => ?_, fun v vanishes => ?_⟩, separates,
    fun whole => ?_⟩
  · calc restored.Vanishes v
        ↔ kept.Vanishes (Tableau.lift s.model.vars.length s.phaseOneWidth v) :=
          (cleared_iff.vanishes_iff v).symm.trans (table.vanishes_iff v)
      _ ↔ raw.Vanishes (Tableau.lift s.model.vars.length s.phaseOneWidth v) :=
          (reduction.vanishes_iff v).trans ((same.trans same').vanishes_iff _).symm
      _ ↔ Solves s v := auxiliary.vanishes_lift std v
  · rw [cleared_iff.price ((cleared_iff.vanishes_iff v).2 vanishes), table.price std indexed]
  · rw [← std.length] at whole
    subst whole
    exact reduction.redundancy.not_loose std auxiliary (same.trans same')
      (reduction.keeps.eq_nil reduction.redundancy.inside)

/-- A feasible point has no artificial part, so the optimum of phase one is not negative. -/
theorem phaseOne_optimum_nonneg {raw last : Tableau Rat} {k : Nat} (auxiliary : raw.Auxiliary s)
    (same : raw.Equivalent last) (sized : last.Sized k s.phaseOneWidth)
    (optimal : ∀ j < s.phaseOneWidth, 0 ≤ last.get 0 j) {x : List Rat} (feasible : m.Feasible x) :
    0 ≤ last.get 0 s.phaseOneWidth := by
  obtain ⟨vanishes, price⟩ := auxiliary.extend_satisfies std indexed feasible
  rw [← same.price vanishes, sized.equation_atPoint, sub_eq_zero] at price
  rw [← price]
  apply Finset.sum_nonneg
  intro j hj
  exact mul_nonneg (optimal j (Finset.mem_range.1 hj)) (s.extend_nonneg feasible j)

/-- An artificial variable that stays positive at the optimum of phase one leaves
no feasible point. -/
theorem phaseOne_infeasible {raw last : Tableau Rat} {k : Nat} {basic : Nat → Nat}
    (auxiliary : raw.Auxiliary s) (same : raw.Equivalent last)
    (basis : last.FeasibleBasis k s.phaseOneWidth basic fun _ => False)
    (optimal : ∀ j < s.phaseOneWidth, 0 ≤ last.get 0 j)
    (positive : s.phaseOne.artificialsPositive 0 last = .ok true) : ¬ ∃ x, m.Feasible x := by
  rintro ⟨x, feasible⟩
  obtain ⟨basic', values, basis', _, assigned, _, value⟩ := basis.reads fun _ => id
  have optimum := phaseOne_optimum_nonneg std indexed auxiliary same basis.sized optimal feasible
  obtain ⟨j, artificial, large⟩ := (PhaseOne.artificialsPositive_iff assigned positive).1 rfl
  rw [value] at large
  have sum := auxiliary.sum_basicPoint same basis'
  have single := Finset.single_le_sum (fun i _ => basis'.point_nonneg i)
    (Finset.mem_Ico.2 ((s.phaseOne_covers.contains_iff j).1 artificial))
  linarith

/-- Phase two starts from a table that represents the model, or not at all, and
then the model has no feasible point. -/
theorem starts_spec {limit : Option Nat} {fuel : Nat} {start : Start Rat}
    (starts : Solver.Starts ⟨0, limit⟩ fuel s start) :
    match start with
    | .feasible first => StartsFeasible m s first
    | .infeasible _ => ¬ ∃ x, m.Feasible x := by
  have phaseOne {first : Tableau Rat} (table : s.phaseOne.initialTableau 0 = .ok first) :
      s.InPhaseOne (first.run 0 limit fuel).last ∧
        Tableau.Ends 0 s.model.constraints.length s.phaseOneWidth (first.run 0 limit fuel) := by
    have inside := StandardForm.inPhaseOne_start std indexed table
    obtain ⟨_, basis⟩ := inside.basis
    obtain ⟨_, _, ends⟩ := basis.sized.run le_rfl limit fuel
    exact ⟨inside.reaches (Tableau.reaches_run first limit fuel), ends⟩
  cases starts with
  | slack covered table => exact slack_start std indexed covered table
  | unbounded _ table run =>
    obtain ⟨⟨⟨raw, auxiliary, same⟩, basic, basis⟩, ends⟩ := phaseOne table
    cases run with
    | unbounded ending =>
      obtain ⟨enters, free⟩ := ends.unbounded _ ending
      exact absurd (phaseOne_bounded auxiliary same basis enters free) id
    | blocked ending => exact absurd ending ends.notBlocked
  | positive _ table run positive =>
    obtain ⟨⟨⟨raw, auxiliary, same⟩, basic, basis⟩, ends⟩ := phaseOne table
    cases run with
    | optimal ending =>
      have nonneg := ends.optimal ending
      rw [neg_zero] at nonneg
      exact phaseOne_infeasible std indexed auxiliary same basis nonneg positive
  | restored _ table run zero restore =>
    obtain ⟨⟨⟨raw, auxiliary, same⟩, basic, basis⟩, ends⟩ := phaseOne table
    cases run with
    | optimal ending =>
      exact restored_start std indexed auxiliary same basis zero (PhaseOne.restore_eq_ok restore)

end Start

end LinearProgram
