import Mathlib
import LinearProgram.Proofs.Tableau.Basis
import LinearProgram.Proofs.Tableau.Selection
import LinearProgram.Solver

/-!
# Row 0 under a positive factor

A run of the pivot loop does not see a positive factor on row 0:

* `scaleCosts`, `get_scaleCosts`: the table with row 0 multiplied;
* `isOptimal_scaleCosts`, `entering_scaleCosts`, `leaving_scaleCosts`,
  `pivot_scaleCosts`: every part of a step; `move_scaleCosts`: the step;
* `runFrom_scaleCosts`: whole runs go in step, `Run.verdict_scale`: to the same verdict;
* `basis_scaleCosts`, `assignment_scaleCosts`: what is read off the columns;
* `canonicalize_scaleCosts`, `setObjectiveRow_scaleCosts`, `ofModel_scaleCosts`: the
  stages that make row 0.
-/

namespace LinearProgram

/-- The table with row 0 multiplied by a factor. -/
def Tableau.scaleCosts (k : Rat) (t : Tableau Rat) : Tableau Rat :=
  match t.rows with
  | [] => t
  | costs :: constraints => ⟨costs.map (k * ·) :: constraints⟩

def Exchange.scale (k : Rat) (e : Exchange Rat) : Exchange Rat := { e with cost := k * e.cost }

def Move.scale (k : Rat) : Move Rat → Move Rat
  | .optimal => .optimal
  | .unbounded column => .unbounded column
  | .blocked => .blocked
  | .pivot exchange next => .pivot (exchange.scale k) (next.scaleCosts k)

def Run.scale (k : Rat) (r : Run Rat) : Run Rat :=
  ⟨r.exchanges.map (Exchange.scale k), r.last.scaleCosts k, r.ending⟩

def Verdict.scale (k : Rat) : Verdict Rat → Verdict Rat
  | .optimal last => .optimal (last.scaleCosts k)
  | .unbounded last => .unbounded (last.scaleCosts k)

theorem Run.verdict_scale (k : Rat) (r : Run Rat) :
    (r.scale k).verdict = r.verdict.map (Verdict.scale k) := by
  unfold Run.verdict
  rw [show (r.scale k).ending = r.ending from rfl]
  cases r.ending <;> rfl

namespace Tableau

variable {t : Tableau Rat} {m n : Nat} {k : Rat}

section Rows

theorem constraintRows_scaleCosts (k : Rat) (t : Tableau Rat) :
    (t.scaleCosts k).constraintRows = t.constraintRows := by
  obtain ⟨_ | ⟨costs, constraints⟩⟩ := t <;> rfl

theorem width_scaleCosts (k : Rat) (t : Tableau Rat) : (t.scaleCosts k).width = t.width := by
  obtain ⟨_ | ⟨costs, constraints⟩⟩ := t <;> simp [scaleCosts, width]

theorem rhsColumn_scaleCosts (k : Rat) (t : Tableau Rat) :
    (t.scaleCosts k).rhsColumn = t.rhsColumn := by
  rw [rhsColumn, rhsColumn, width_scaleCosts]

theorem cell_map (f : Rat → Rat) (row : List Rat) (column : Nat) :
    cell (row.map f) column = (cell row column).map f := by
  rw [cell, cell, List.getElem?_map]
  cases row[column]? <;> rfl

theorem objectiveValue_scaleCosts (k : Rat) (t : Tableau Rat) :
    (t.scaleCosts k).objectiveValue = t.objectiveValue.map (k * ·) := by
  rw [objectiveValue, objectiveValue, rhsColumn_scaleCosts]
  obtain ⟨_ | ⟨costs, constraints⟩⟩ := t
  · rfl
  · exact cell_map (k * ·) costs _

theorem setObjectiveRow_scaleCosts (k : Rat) (t : Tableau Rat) (costs : List Rat) :
    t.setObjectiveRow (costs.map (k * ·)) = (t.setObjectiveRow costs).map (scaleCosts k) := by
  obtain ⟨_ | ⟨old, constraints⟩⟩ := t
  · rfl
  · simp only [setObjectiveRow, List.length_map]
    split <;> rfl

theorem subtractMultiple_map (k factor : Rat) (source row : List Rat) :
    subtractMultiple (k * factor) source (row.map (k * ·)) =
      (subtractMultiple factor source row).map (k * ·) := by
  rw [subtractMultiple, subtractMultiple, List.zipWith_map_left, List.map_zipWith]
  congr 1
  funext x p
  ring

/-- Clearing costs of multiplied costs gives multiplied costs. -/
theorem reduceCosts_map (pos : 0 < k) (constraints : List (List Rat)) (rhs : Nat)
    (items : List (Option Nat × Nat)) (costs : List Rat) :
    reduceCosts 0 constraints rhs items (costs.map (k * ·)) =
      (reduceCosts 0 constraints rhs items costs).map (List.map (k * ·)) := by
  have small (factor : Rat) : magnitude (k * factor) ≤ 0 ↔ magnitude factor ≤ 0 := by
    rw [magnitude_eq_abs, magnitude_eq_abs, abs_nonpos_iff, abs_nonpos_iff, mul_eq_zero,
      or_iff_right pos.ne']
  induction items generalizing costs with
  | nil => rfl
  | cons item items ih =>
    obtain ⟨_ | column, i⟩ := item
    · exact ih costs
    · unfold reduceCosts
      split
      · exact ih costs
      · refine bind_eq_map (cell_map (k * ·) costs column) fun factor _ => ?_
        simp only [small]
        split
        · exact ih costs
        · refine bind_eq_map_of_same rfl fun source _ => ?_
          rw [subtractMultiple_map]
          exact ih _

theorem canonicalize_scaleCosts (pos : 0 < k) (t : Tableau Rat) (basis : List (Option Nat)) :
    (t.scaleCosts k).canonicalize 0 basis = (t.canonicalize 0 basis).map (scaleCosts k) := by
  have rhs := rhsColumn_scaleCosts k t
  obtain ⟨_ | ⟨costs, constraints⟩⟩ := t
  · rfl
  · simp only [canonicalize, scaleCosts] at rhs ⊢
    rw [rhs]
    exact bind_eq_map (reduceCosts_map pos constraints _ _ costs) fun reduced _ => rfl

theorem ofModel_scaleCosts (k : Rat) (costs : List Rat) (m : Model Rat) :
    Tableau.ofModel (costs.map (k * ·)) m = (Tableau.ofModel costs m).map (scaleCosts k) := by
  simp only [Tableau.ofModel, ofRows, Rectangular, width, List.headD_cons, List.forall_mem_cons,
    List.length_map, true_and]
  split <;> rfl

end Rows

section Steps

theorem get_scaleCosts (k : Rat) (t : Tableau Rat) (i j : Nat) :
    (t.scaleCosts k).get i j = if i = 0 then k * t.get i j else t.get i j := by
  obtain ⟨_ | ⟨costs, constraints⟩⟩ := t
  · simp [scaleCosts, get, line]
  · cases i with
    | succ i => simp [scaleCosts, get, line]
    | zero =>
      simp only [scaleCosts, get, line, List.getElem?_cons_zero, Option.getD_some,
        List.getElem?_map, if_true]
      cases costs[j]? <;> simp

theorem Sized.scaleCosts (sized : t.Sized m n) (k : Rat) : (t.scaleCosts k).Sized m n := by
  obtain ⟨_ | ⟨costs, constraints⟩⟩ := t
  · exact sized
  · refine ⟨sized.rows, List.forall_mem_cons.2 ⟨?_, fun r hr => ?_⟩⟩
    · rw [List.length_map, sized.columns costs List.mem_cons_self]
    · exact sized.columns r (List.mem_cons_of_mem _ hr)

/-- Among multiplied numbers the least one is in the same place. -/
theorem leastIndexFrom_map (pos : 0 < k) (least : Rat) (found next : Nat) (xs : List Rat) :
    leastIndexFrom (k * least) found next (xs.map (k * ·)) = leastIndexFrom least found next xs := by
  induction xs generalizing least found next with
  | nil => rfl
  | cons x xs ih => simp only [List.map_cons, leastIndexFrom, mul_lt_mul_iff_right₀ pos, ih]

theorem leastIndex_map (pos : 0 < k) (xs : List Rat) : leastIndex (xs.map (k * ·)) = leastIndex xs := by
  cases xs with
  | nil => rfl
  | cons x xs => exact leastIndexFrom_map pos x 0 1 xs

namespace Sized

variable (sized : t.Sized m n)

include sized

theorem isOptimal_scaleCosts (pos : 0 < k) : (t.scaleCosts k).isOptimal 0 = t.isOptimal 0 := by
  rw [(sized.scaleCosts k).isOptimal, sized.isOptimal]
  simp [get_scaleCosts, pos]

theorem entering_scaleCosts (pos : 0 < k) : (t.scaleCosts k).entering = t.entering := by
  have costs : (t.scaleCosts k).get 0 = (k * ·) ∘ t.get 0 :=
    funext fun j => by simp [get_scaleCosts]
  rw [(sized.scaleCosts k).entering, sized.entering, costs, ← List.map_map, leastIndex_map pos]

theorem entering_le {c : Nat} (h : t.entering = .ok c) : c ≤ n := by
  rw [sized.entering] at h
  obtain rfl := Except.ok.inj h
  rcases Nat.eq_zero_or_pos n with rfl | some
  · exact le_rfl
  · have inside : leastIndex ((List.range n).map (t.get 0)) < ((List.range n).map (t.get 0)).length :=
      leastIndex_lt (by simpa using some)
    simpa using inside.le

theorem isUnbounded_scaleCosts {c : Nat} (hc : c ≤ n) :
    (t.scaleCosts k).isUnbounded 0 c = t.isUnbounded 0 c := by
  rw [(sized.scaleCosts k).isUnbounded hc, sized.isUnbounded hc]
  simp [get_scaleCosts]

theorem leaving_scaleCosts {c : Nat} (hc : c ≤ n) :
    (t.scaleCosts k).leaving 0 c = t.leaving 0 c := by
  rw [(sized.scaleCosts k).leaving hc, sized.leaving hc]
  congr 2
  refine List.map_congr_left fun i hi => ?_
  have := (List.mem_range'_1.1 hi).1
  rw [get_scaleCosts, get_scaleCosts, if_neg (by omega), if_neg (by omega)]

theorem leaving_bounds {c r : Nat} (hc : c ≤ n) (h : t.leaving 0 c = .ok (some r)) :
    0 < r ∧ r ≤ m := by
  rw [sized.leaving hc] at h
  obtain ⟨pos, lt⟩ := ratioTest_bounds _ Nat.one_pos (by simp) (Except.ok.inj h)
  simp only [List.length_map, List.length_range'] at lt
  omega

/-- A pivot on a constraint row takes the same multiple of it off the multiplied row 0. -/
theorem pivot_scaleCosts {r c : Nat} (pos : 0 < r) (le : r ≤ m) (hc : c ≤ n) :
    (t.scaleCosts k).pivot r c = (t.pivot r c).map (Tableau.scaleCosts k) := by
  obtain ⟨u, next, sizedU, _⟩ := sized.pivot le hc
  obtain ⟨u', next', sizedU', _⟩ := (sized.scaleCosts k).pivot le hc
  have entries := (sized.get_pivot le hc next).2
  have entries' := ((sized.scaleCosts k).get_pivot le hc next').2
  rw [next, next']
  refine congrArg Except.ok (ext_get sizedU' (sizedU.scaleCosts k) fun i j _ _ => ?_)
  simp only [entries', entries, get_scaleCosts]
  by_cases row : i = r
  · simp [row, pos.ne']
  · by_cases costs : i = 0
    · simp [costs, pos.ne, pos.ne']
      ring
    · simp [row, costs, pos.ne']

/-- A step on multiplied costs is the same step. -/
theorem move_scaleCosts (pos : 0 < k) :
    (t.scaleCosts k).move 0 = (t.move 0).map (Move.scale k) := by
  unfold move
  refine bind_eq_map_of_same (sized.isOptimal_scaleCosts pos) fun optimal _ => ?_
  split
  · rfl
  refine bind_eq_map_of_same (sized.entering_scaleCosts pos) fun c entered => ?_
  have hc := sized.entering_le entered
  refine bind_eq_map_of_same (sized.isUnbounded_scaleCosts hc) fun free _ => ?_
  split
  · rfl
  refine bind_eq_map_of_same (sized.leaving_scaleCosts hc) fun row left => ?_
  cases row with
  | none => rfl
  | some r =>
    obtain ⟨rpos, le⟩ := sized.leaving_bounds hc left
    have cost : (t.scaleCosts k).entry 0 c = (t.entry 0 c).map (k * ·) := by
      rw [(sized.scaleCosts k).entry (Nat.zero_le m) hc, sized.entry (Nat.zero_le m) hc]
      simp [get_scaleCosts, Except.map]
    refine bind_eq_map cost fun cost _ => ?_
    exact bind_eq_map (sized.pivot_scaleCosts rpos le hc) fun next _ => rfl

/-- Runs from a table and from the table with multiplied costs go in step. -/
theorem runFrom_scaleCosts (pos : 0 < k) (limit : Option Nat) (count fuel : Nat) :
    (t.scaleCosts k).runFrom 0 limit count fuel = (t.runFrom 0 limit count fuel).scale k := by
  induction fuel generalizing count t with
  | zero => rfl
  | succ fuel ih =>
    rw [runFrom, runFrom, sized.move_scaleCosts pos]
    cases move : t.move 0 with
    | error cause => rfl
    | ok mv =>
      cases mv with
      | optimal | unbounded | blocked => rfl
      | pivot e next =>
        have sized' : next.Sized m n := by
          cases sized.guarded_of_move move with
          | pivot _ _ _ _ _ _ _ sized' => exact sized'
        simp only [Except.map, Move.scale]
        cases reached limit count with
        | some stop => rfl
        | none =>
          rw [ih sized']
          rfl

end Sized

end Steps

section Basis

theorem unitColumn_scaleCosts (pos : 0 < k) {i c : Nat} :
    (t.scaleCosts k).UnitColumn (i + 1) c ↔ t.UnitColumn (i + 1) c := by
  refine forall_congr' fun row => ?_
  rw [get_scaleCosts]
  by_cases costs : row = 0
  · simp [costs, pos.ne']
  · simp [costs]

/-- The columns of a basis are determined by the unit columns of the constraint rows. -/
theorem ReadsBasis.unique {listed listed' : List (Option Nat)} (reads : t.ReadsBasis m n listed)
    (reads' : t.ReadsBasis m n listed') : listed = listed' := by
  refine List.ext_getElem (reads.length.trans reads'.length.symm) fun i inside inside' => ?_
  have entry := List.getElem?_eq_getElem inside
  have entry' := List.getElem?_eq_getElem inside'
  cases column : listed[i] with
  | none =>
    cases column' : listed'[i] with
    | none => rfl
    | some c' =>
      obtain ⟨lt, unit, _⟩ := reads'.found i c' (column' ▸ entry')
      exact absurd unit (reads.missing i (column ▸ entry) c' lt)
  | some c =>
    obtain ⟨lt, unit, last⟩ := reads.found i c (column ▸ entry)
    cases column' : listed'[i] with
    | none => exact absurd unit (reads'.missing i (column' ▸ entry') c lt)
    | some c' =>
      obtain ⟨lt', unit', last'⟩ := reads'.found i c' (column' ▸ entry')
      rw [le_antisymm (last' c lt unit) (last c' lt' unit')]

theorem ReadsBasis.of_scaleCosts (pos : 0 < k) {listed : List (Option Nat)}
    (reads : (t.scaleCosts k).ReadsBasis m n listed) : t.ReadsBasis m n listed := by
  obtain ⟨length, found, missing⟩ := reads
  simp only [unitColumn_scaleCosts pos] at found missing
  exact ⟨length, found, missing⟩

/-- Row 0 only decides whether a column is basic by being zero there or not. -/
theorem Sized.basis_scaleCosts (sized : t.Sized m n) (pos : 0 < k) :
    (t.scaleCosts k).basis 0 = t.basis 0 := by
  obtain ⟨listed, read, reads⟩ := sized.basis
  obtain ⟨listed', read', reads'⟩ := (sized.scaleCosts k).basis
  rw [read, read', reads.unique (reads'.of_scaleCosts pos)]

theorem Sized.assignment_scaleCosts (sized : t.Sized m n) (pos : 0 < k) :
    (t.scaleCosts k).assignment 0 = t.assignment 0 := by
  rw [Tableau.assignment, Tableau.assignment, sized.basis_scaleCosts pos, rhsColumn_scaleCosts,
    constraintRows_scaleCosts]

end Basis

end Tableau

end LinearProgram
