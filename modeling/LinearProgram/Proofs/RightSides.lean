import Mathlib
import LinearProgram.Proofs.Totality

/-!
# Right-hand sides under a tolerance

A pivot gives the entering column a value, the ratio of the leaving row, and moves the
right-hand sides of all other rows by their entries in this column. The ratio test compares
the rows whose entry is beyond the tolerance and passes over the rest:

* `Above`: no right-hand side is below a bound; `crossing`: the value of the entering column at
  which a right-hand side comes to `-δ`;
* `Skips`, `Falls`: which rows are passed over, and which entries and ratios take a right-hand
  side below `-δ`; `Sized.above_pivot_iff`: there are no others;
* `PivotSides`: what no tolerance changes. A row that was compared and stays ends at or above
  zero, and what right-hand sides that are not negative can lose is bounded;
* `Sized.reaches_above_iff`: a run stays above `-δ` exactly if it is `Steady`;
  `Sized.reaches_above_zero`: a run that passes over no row keeps right-hand sides from
  becoming negative;
* `StartsAtZero`: phase two starts from the slacks, or from a steady phase one whose
  basic artificial variables are zero; `StartsAtZero.above`;
* `rightSides_above_iff`: both phases together; `clampedRow_above` for models;
* `rightSides_below_tolerance`: models for which a right-hand side is lost.
-/

namespace LinearProgram

namespace Tableau

/-- No right-hand side of a constraint row is below the bound. -/
def Above (t : Tableau Rat) (bound : Rat) : Prop :=
  ∃ sides, t.rightSides = .ok sides ∧ ∀ side ∈ sides, bound ≤ side

/-- The value that the entering column takes. -/
def ratio (t : Tableau Rat) (e : Exchange Rat) : Rat :=
  t.get e.row t.rhsColumn / t.get e.row e.column

/-- The value of the entering column at which the right-hand side of a row comes to `-δ`. -/
def crossing (t : Tableau Rat) (δ : Rat) (e : Exchange Rat) (i : Nat) : Rat :=
  (t.get i t.rhsColumn + δ) / t.get i e.column

/-- The ratio test passes over a constraint row although its entry is positive. -/
structure Skips (t : Tableau Rat) (ε : Rat) (e : Exchange Rat) (i : Nat) : Prop where
  pos : 0 < i
  inside : i < t.height
  entry : 0 < t.get i e.column
  small : t.get i e.column ≤ ε

/-- The ways in which a pivot takes a right-hand side below `-δ`. The entering column goes
beyond the crossing of a row that was passed over, its value is the right-hand side of the
leaving row and is itself below `-δ`, or it is negative and comes before the crossing of a row
with a negative entry. -/
inductive Falls (t : Tableau Rat) (ε δ : Rat) (e : Exchange Rat) : Prop
  | skipped {i : Nat} (skips : t.Skips ε e i) (beyond : t.crossing δ e i < t.ratio e)
  | leaving (steep : t.ratio e < -δ)
  | opposed {i : Nat} (pos : 0 < i) (inside : i < t.height) (entry : t.get i e.column < 0)
      (before : t.ratio e < t.crossing δ e i)

/-- No pivot of the run from a table falls. -/
def Steady (ε δ : Rat) (t : Tableau Rat) : Prop :=
  ∀ u e w, t.Reaches ε u → u.move ε = .ok (.pivot e w) → ¬ u.Falls ε δ e

variable {t u : Tableau Rat} {m n : Nat} {ε δ : Rat} {e : Exchange Rat}

theorem Above.le {bound side : Rat} {sides : List Rat} (above : t.Above bound)
    (read : t.rightSides = .ok sides) (listed : side ∈ sides) : bound ≤ side := by
  obtain ⟨sides', read', above⟩ := above
  obtain rfl : sides = sides' := by simpa [read] using read'
  exact above side listed

theorem Sized.above_iff (sized : t.Sized m n) {bound : Rat} :
    t.Above bound ↔ ∀ i, 0 < i → i ≤ m → bound ≤ t.get i n := by
  simp only [Above, sized.rightSides, Except.ok.injEq, exists_eq_left', List.forall_mem_map,
    List.mem_range]
  constructor
  · intro above i pos le
    obtain ⟨i, rfl⟩ := Nat.exists_eq_succ_of_ne_zero pos.ne'
    exact above i le
  · exact fun above i hi => above (i + 1) (Nat.succ_pos i) hi

/-- What a selected pivot does to the right-hand sides. -/
structure MovesSides (t u : Tableau Rat) (ε : Rat) (m n : Nat) (e : Exchange Rat) : Prop where
  sized : u.Sized m n
  pos : 0 < e.row
  le : e.row ≤ m
  entry : ε < t.get e.row e.column
  least : ∀ i, 0 < i → i ≤ m → ε < t.get i e.column → t.ratio e ≤ t.get i n / t.get i e.column
  leaving : u.get e.row n = t.ratio e
  others : ∀ i, i ≠ e.row → u.get i n = t.get i n - t.get i e.column * t.ratio e

theorem Sized.movesSides (sized : t.Sized m n) (move : t.move ε = .ok (.pivot e u)) :
    t.MovesSides u ε m n e := by
  cases sized.moves_of_move move with
  | @pivot c r _ enters leaves next =>
    have le := Nat.lt_succ_iff.1 leaves.lt
    obtain ⟨sized', entries⟩ := sized.get_pivot le enters.lt.le next
    have ratio : t.ratio ⟨c, t.get 0 c, r⟩ = t.get r n / t.get r c := by
      rw [Tableau.ratio, sized.rhsColumn]
    refine ⟨sized', leaves.pos, le, leaves.entry, fun i pos le entry => ?_, ?_, fun i other => ?_⟩
    · rw [ratio]
      exact leaves.least i pos (Nat.lt_succ_iff.2 le) entry
    · rw [entries, if_pos rfl, ratio]
    · rw [entries, if_neg other, ratio]

namespace MovesSides

variable (moves : t.MovesSides u ε m n e)

include moves

/-- A row that was compared has no smaller ratio than the leaving row. -/
theorem compared_nonneg (nonneg : 0 ≤ ε) {i : Nat} (pos : 0 < i) (le : i ≤ m) (other : i ≠ e.row)
    (entry : ε < t.get i e.column) : 0 ≤ u.get i n := by
  have least := moves.least i pos le entry
  rw [le_div_iff₀' (nonneg.trans_lt entry)] at least
  rw [moves.others i other]
  exact sub_nonneg.2 least

variable (sized : t.Sized m n)

include sized

theorem ratio_nonneg (nonneg : 0 ≤ ε) (above : t.Above 0) : 0 ≤ t.ratio e := by
  rw [Tableau.ratio, sized.rhsColumn]
  exact div_nonneg (sized.above_iff.1 above e.row moves.pos moves.le)
    (nonneg.trans moves.entry.le)

/-- With a positive entry, a row ends below `-δ` exactly when the entering column goes beyond
its crossing. -/
theorem lt_iff_of_pos {i : Nat} (other : i ≠ e.row) (entry : 0 < t.get i e.column) :
    u.get i n < -δ ↔ t.crossing δ e i < t.ratio e := by
  rw [moves.others i other, crossing, div_lt_iff₀' entry, sized.rhsColumn]
  constructor <;> intro below <;> linarith

/-- With a negative entry it is the other way round. -/
theorem lt_iff_of_neg {i : Nat} (other : i ≠ e.row) (entry : t.get i e.column < 0) :
    u.get i n < -δ ↔ t.ratio e < t.crossing δ e i := by
  rw [moves.others i other, crossing, lt_div_iff_of_neg' entry, sized.rhsColumn]
  constructor <;> intro below <;> linarith

theorem not_above_of_falls (nonneg : 0 ≤ ε) (falls : t.Falls ε δ e) : ¬ u.Above (-δ) := by
  rw [moves.sized.above_iff]
  intro above
  have le {i : Nat} (inside : i < t.height) : i ≤ m := by
    rw [sized.height] at inside
    exact Nat.lt_succ_iff.1 inside
  cases falls with
  | @skipped i skips beyond =>
    have other : i ≠ e.row := by
      rintro rfl
      exact absurd moves.entry (not_lt.2 skips.small)
    have below := (moves.lt_iff_of_pos sized other skips.entry).2 beyond
    exact absurd below (not_lt.2 (above i skips.pos (le skips.inside)))
  | leaving steep =>
    rw [← moves.leaving] at steep
    exact absurd steep (not_lt.2 (above e.row moves.pos moves.le))
  | @opposed i pos inside entry before =>
    have other : i ≠ e.row := by
      rintro rfl
      exact absurd (nonneg.trans_lt moves.entry) (not_lt.2 entry.le)
    have below := (moves.lt_iff_of_neg sized other entry).2 before
    exact absurd below (not_lt.2 (above i pos (le inside)))

theorem above_of_not_falls (nonneg : 0 ≤ ε) (slack : 0 ≤ δ) (above : t.Above (-δ))
    (stays : ¬ t.Falls ε δ e) : u.Above (-δ) := by
  refine moves.sized.above_iff.2 fun i pos le => ?_
  have inside : i < t.height := by
    rw [sized.height]
    exact Nat.lt_succ_iff.2 le
  by_contra below
  rw [not_le] at below
  apply stays
  by_cases same : i = e.row
  · rw [same, moves.leaving] at below
    exact .leaving below
  -- The entry says whether the row rises, stays, was passed over or was compared.
  rcases lt_trichotomy (t.get i e.column) 0 with negative | zero | positive
  · exact .opposed pos inside negative ((moves.lt_iff_of_neg sized same negative).1 below)
  · rw [moves.others i same, zero, zero_mul, sub_zero] at below
    exact absurd below (not_lt.2 (sized.above_iff.1 above i pos le))
  · by_cases small : t.get i e.column ≤ ε
    · exact .skipped ⟨pos, inside, positive, small⟩
        ((moves.lt_iff_of_pos sized same positive).1 below)
    · have compared := moves.compared_nonneg nonneg pos le same (not_le.1 small)
      exact absurd (compared.trans_lt below) (not_lt.2 (neg_nonpos.2 slack))

/-- Right-hand sides that are not negative lose at most the tolerance times the value that the
entering column takes. -/
theorem above_loss (nonneg : 0 ≤ ε) (above : t.Above 0) : u.Above (-(ε * t.ratio e)) := by
  have ratio := moves.ratio_nonneg sized nonneg above
  have bound : -(ε * t.ratio e) ≤ 0 := neg_nonpos.2 (mul_nonneg nonneg ratio)
  refine moves.sized.above_iff.2 fun i pos le => ?_
  by_cases same : i = e.row
  · rw [same, moves.leaving]
    exact bound.trans ratio
  by_cases small : t.get i e.column ≤ ε
  · have rhs := sized.above_iff.1 above i pos le
    have lost := mul_le_mul_of_nonneg_right small ratio
    rw [moves.others i same]
    linarith
  · exact bound.trans (moves.compared_nonneg nonneg pos le same (not_le.1 small))

end MovesSides

/-- A pivot keeps the right-hand sides above `-δ` unless it falls. -/
theorem Sized.above_pivot_iff (sized : t.Sized m n) (nonneg : 0 ≤ ε) (slack : 0 ≤ δ)
    (above : t.Above (-δ)) (move : t.move ε = .ok (.pivot e u)) :
    u.Above (-δ) ↔ ¬ t.Falls ε δ e := by
  have moves := sized.movesSides move
  exact ⟨fun above' falls => moves.not_above_of_falls sized nonneg falls above',
    moves.above_of_not_falls sized nonneg slack above⟩

/-- When no right-hand side is negative, only a row that was passed over can become so. -/
theorem Sized.falls_zero_iff (sized : t.Sized m n) (nonneg : 0 ≤ ε) (above : t.Above 0)
    (move : t.move ε = .ok (.pivot e u)) :
    t.Falls ε 0 e ↔ ∃ i, t.Skips ε e i ∧ t.crossing 0 e i < t.ratio e := by
  have ratio := (sized.movesSides move).ratio_nonneg sized nonneg above
  constructor
  · intro falls
    cases falls with
    | @skipped i skips beyond => exact ⟨i, skips, beyond⟩
    | leaving steep =>
      rw [neg_zero] at steep
      exact absurd steep (not_lt.2 ratio)
    | @opposed i pos inside entry before =>
      have rhs := sized.above_iff.1 above i pos (by rw [sized.height] at inside; omega)
      have crossing : t.crossing 0 e i ≤ 0 := by
        rw [crossing, add_zero, sized.rhsColumn]
        exact div_nonpos_of_nonneg_of_nonpos rhs entry.le
      exact absurd (before.trans_le crossing) (not_lt.2 ratio)
  · rintro ⟨i, skips, beyond⟩
    exact .skipped skips beyond

/-- What holds after a selected pivot whatever the right-hand sides were before, and what holds
if none of them was negative. -/
structure PivotSides (t u : Tableau Rat) (ε : Rat) (e : Exchange Rat) : Prop where
  compared : ∀ i, 0 < i → i < t.height → i ≠ e.row → ε < t.get i e.column →
    0 ≤ u.get i u.rhsColumn
  loss : t.Above 0 → u.Above (-(ε * t.ratio e))
  above : t.Above 0 → (u.Above 0 ↔ ¬ ∃ i, t.Skips ε e i ∧ t.crossing 0 e i < t.ratio e)

theorem Sized.pivotSides (sized : t.Sized m n) (nonneg : 0 ≤ ε)
    (move : t.move ε = .ok (.pivot e u)) : t.PivotSides u ε e := by
  have moves := sized.movesSides move
  refine ⟨fun i pos inside other entry => ?_, moves.above_loss sized nonneg, fun above => ?_⟩
  · rw [moves.sized.rhsColumn]
    rw [sized.height] at inside
    exact moves.compared_nonneg nonneg pos (Nat.lt_succ_iff.1 inside) other entry
  · have kept := sized.above_pivot_iff nonneg le_rfl (neg_zero (G := Rat) ▸ above) move
    rwa [neg_zero, sized.falls_zero_iff nonneg above move] at kept

theorem skips_iff {i : Nat} : t.Skips ε e i ↔
    0 < i ∧ i < t.height ∧ 0 < t.get i e.column ∧ t.get i e.column ≤ ε :=
  ⟨fun skips => ⟨skips.pos, skips.inside, skips.entry, skips.small⟩,
    fun ⟨pos, inside, entry, small⟩ => ⟨pos, inside, entry, small⟩⟩

instance {i : Nat} : Decidable (t.Skips ε e i) := decidable_of_iff' _ skips_iff

theorem falls_iff : t.Falls ε δ e ↔ t.ratio e < -δ ∨ ∃ i < t.height,
    t.Skips ε e i ∧ t.crossing δ e i < t.ratio e ∨
      0 < i ∧ t.get i e.column < 0 ∧ t.ratio e < t.crossing δ e i := by
  constructor
  · intro falls
    cases falls with
    | skipped skips beyond => exact .inr ⟨_, skips.inside, .inl ⟨skips, beyond⟩⟩
    | leaving steep => exact .inl steep
    | opposed pos inside entry before => exact .inr ⟨_, inside, .inr ⟨pos, entry, before⟩⟩
  · rintro (steep | ⟨i, inside, ⟨skips, beyond⟩ | ⟨pos, entry, before⟩⟩)
    · exact .leaving steep
    · exact .skipped skips beyond
    · exact .opposed pos inside entry before

instance : Decidable (t.Falls ε δ e) := decidable_of_iff' _ falls_iff

/-- No pivot falls in a run that ends within the fuel. -/
def steadyWithin (ε δ : Rat) : Nat → Tableau Rat → Bool
  | 0, _ => false
  | fuel + 1, t =>
    match t.move ε with
    | .ok (.pivot e next) => !decide (t.Falls ε δ e) && next.steadyWithin ε δ fuel
    | _ => true

theorem steady_of_within {fuel : Nat} (h : t.steadyWithin ε δ fuel = true) : t.Steady ε δ := by
  induction fuel generalizing t with
  | zero => exact nomatch h
  | succ fuel ih =>
    intro u e w reaches move
    rw [steadyWithin] at h
    cases reaches with
    | refl =>
      simp only [move, Bool.and_eq_true, Bool.not_eq_true', decide_eq_false_iff_not] at h
      exact h.1
    | step first later =>
      simp only [first, Bool.and_eq_true] at h
      exact ih h.2 u e w later move

theorem Steady.of_move (steady : t.Steady ε δ) (move : t.move ε = .ok (.pivot e u)) :
    u.Steady ε δ := fun w e' w' later => steady w e' w' (.step move later)

/-- All right-hand sides of a run stay above `-δ` exactly when they start there and no
pivot falls. -/
theorem Sized.reaches_above_iff (sized : t.Sized m n) (nonneg : 0 ≤ ε) (slack : 0 ≤ δ) :
    (∀ u, t.Reaches ε u → u.Above (-δ)) ↔ t.Above (-δ) ∧ t.Steady ε δ := by
  constructor
  · intro above
    refine ⟨above t (.refl t), fun u e w reaches move => ?_⟩
    exact ((sized.of_reaches reaches).above_pivot_iff nonneg slack (above u reaches) move).1
      (above w (reaches.snoc move))
  · rintro ⟨above, steady⟩ u reaches
    induction reaches with
    | refl => exact above
    | @step t u w e move _ ih =>
      have stays := (sized.above_pivot_iff nonneg slack above move).2 (steady t e u (.refl t) move)
      exact ih (sized.pivot_move nonneg move).1 stays (steady.of_move move)

/-- The tolerance does no harm to a run in which the ratio test passes over no row. -/
theorem Sized.reaches_above_zero (sized : t.Sized m n) (nonneg : 0 ≤ ε) (above : t.Above 0)
    (compares : ∀ u e w, t.Reaches ε u → u.move ε = .ok (.pivot e w) → ∀ i, ¬ u.Skips ε e i)
    (reaches : t.Reaches ε u) : u.Above 0 := by
  induction reaches with
  | refl => exact above
  | @step t u w e move later ih =>
    have next : u.Above 0 := by
      rw [(sized.pivotSides nonneg move).above above]
      rintro ⟨i, skips, _⟩
      exact compares t e u (.refl t) move i skips
    exact ih (sized.pivot_move nonneg move).1 next fun u' e' w' reached =>
      compares u' e' w' (.step move reached)

end Tableau

namespace PhaseOne

variable {ε : Rat} {p : PhaseOne Rat} {m n : Nat} {items : List (Option Nat × Nat)}
  {t u : Tableau Rat} {redundant : List Nat}

/-- The rows for which an artificial variable is read have right-hand side zero. -/
def AtZero (p : PhaseOne Rat) (t : Tableau Rat) (items : List (Option Nat × Nat)) : Prop :=
  ∀ e ∈ items, e.1.any p.artificials.contains = true → t.get e.2 t.rhsColumn = 0

instance : Decidable (p.AtZero t items) := inferInstanceAs (Decidable (∀ e ∈ items, _))

/-- Driving artificial variables out of rows whose right-hand side is zero moves no
right-hand side. -/
theorem Drives.rhs (drives : Drives ε p n items t u redundant) (sized : t.Sized m n)
    (rows : ∀ e ∈ items, 0 < e.2 ∧ e.2 ≤ m) (zero : p.AtZero t items) (i : Nat) :
    u.get i n = t.get i n := by
  induction drives with
  | nil => rfl
  | keep _ _ ih =>
    exact ih sized (List.forall_mem_cons.1 rows).2 (List.forall_mem_cons.1 zero).2
  | @replace _ _ _ rest t next _ _ artificial inside _ _ pivot _ ih =>
    obtain ⟨⟨_, le⟩, rows⟩ := List.forall_mem_cons.1 rows
    obtain ⟨here, others⟩ := List.forall_mem_cons.1 zero
    have sized' := (sized.get_pivot le inside.le pivot).1
    have same := sized.get_pivot_degenerate le inside.le pivot (sized.rhsColumn ▸ here artificial)
    have zero' : p.AtZero next rest := fun e he given => by
      rw [sized'.rhsColumn, same, ← sized.rhsColumn]
      exact others e he given
    rw [ih sized' rows zero', same]
  | drop _ _ _ ih =>
    exact ih sized (List.forall_mem_cons.1 rows).2 (List.forall_mem_cons.1 zero).2

/-- When the basic artificial variables are zero, the restored table has right-hand
sides of the last table of phase one. -/
theorem Restores.above {s : StandardForm Rat} {last restored : Tableau Rat}
    {listed : List (Option Nat)} {bound : Rat}
    (restores : Restores ε s.phaseOne s last restored) (nonneg : 0 ≤ ε)
    (sized : last.Sized s.model.constraints.length s.phaseOneWidth)
    (read : last.basis ε = .ok listed) (zero : s.phaseOne.AtZero last (listed.zipIdx 1))
    (above : last.Above bound) :
    ∃ k, restored.Sized k s.model.vars.length ∧ restored.Above bound := by
  cases restores with
  | @mk listed₁ listed' cleared kept stripped priced redundant read₁ driven dropped reread strip
    price clear =>
    obtain rfl : listed = listed₁ := by simpa [read] using read₁
    have length := sized.basis_length read
    have rows := rows_of_mem_zipIdx length
    have drives := driveOut_drives sized rows driven
    have rhs := drives.rhs sized rows zero
    have sublist := drives.sublist
    rw [List.zipIdx_map_snd, length] at sublist
    obtain ⟨sizedCleared, _⟩ := drives.equivalent nonneg sized rows
    obtain ⟨k, old, keeps⟩ := exists_keeps sizedCleared sublist dropped
    obtain ⟨stripped', strip', strips⟩ := keeps.sized.withoutColumns
    rw [s.phaseOne_covers.keys, strip'] at strip
    obtain rfl : stripped' = stripped := by simpa using strip
    have table := strips.priced keeps.sized (Nat.le_add_right _ _) s.length_objectiveRow price
    have short : (s.phaseOne.realBasis listed').length ≤ k := by
      rw [length_realBasis, keeps.sized.basis_length reread]
    obtain ⟨sized', rows', _⟩ := table.sized.get_canonicalize short clear
    refine ⟨k, sized', sized'.above_iff.2 fun i pos le => ?_⟩
    obtain ⟨oldPos, oldLe, _⟩ := keeps.inside i pos le
    have kept := sized.above_iff.1 above (old i) oldPos oldLe
    obtain ⟨i, rfl⟩ := Nat.exists_eq_succ_of_ne_zero pos.ne'
    rw [rows', table.rhs, keeps.get]
    exact (rhs _).symm ▸ kept

end PhaseOne

section Start

variable {m : Model Rat} {s : StandardForm Rat} {ε δ : Rat} (std : m.Standardizes s)

include std

/-- The first table of phase one has the right-hand sides of the standard form. -/
theorem initialTableau_above {first : Tableau Rat}
    (table : s.phaseOne.initialTableau ε = .ok first) :
    first.Sized s.model.constraints.length s.phaseOneWidth ∧ first.Above 0 := by
  have covers := s.phaseOne_covers
  obtain ⟨costs, raw, basis, priced, written, listed, cleared⟩ :=
    StandardForm.initialTableau_eq_ok table
  have auxiliary := covers.auxiliary std priced written
  obtain ⟨sized, rows, _⟩ :=
    auxiliary.sized.get_canonicalize (covers.startBasis_eq_ok listed).1.le cleared
  refine ⟨sized, sized.above_iff.2 fun i pos _ => ?_⟩
  obtain ⟨i, rfl⟩ := Nat.exists_eq_succ_of_ne_zero pos.ne'
  rw [rows]
  exact (auxiliary.carries std).side_nonneg std i

end Start

/-- Phase two starts from the slacks, or from a phase one in which no pivot falls and
which ends with every artificial variable that is still basic at zero. -/
inductive Solver.StartsAtZero (solver : Solver Rat) (fuel : Nat) (s : StandardForm Rat) (δ : Rat) :
    Tableau Rat → Prop
  | slack {first : Tableau Rat} (covered : s.needsPhaseOne = false) (table : s.tableau = .ok first) :
      StartsAtZero solver fuel s δ first
  | restored {auxiliary last first : Tableau Rat} {listed : List (Option Nat)}
      (uncovered : s.needsPhaseOne = true)
      (table : s.phaseOne.initialTableau solver.tolerance = .ok auxiliary)
      (steady : auxiliary.Steady solver.tolerance δ)
      (run : (auxiliary.run solver.tolerance solver.limit fuel).Decides (.optimal last))
      (accepted : s.phaseOne.artificialsPositive solver.tolerance last = .ok false)
      (read : last.basis solver.tolerance = .ok listed)
      (zero : s.phaseOne.AtZero last (listed.zipIdx 1))
      (restore : (s.phaseOne.restore solver.tolerance s last).outcome = .ok first) :
      StartsAtZero solver fuel s δ first

namespace Solver.StartsAtZero

variable {solver : Solver Rat} {fuel : Nat} {m : Model Rat} {s : StandardForm Rat} {δ : Rat}
  {first : Tableau Rat}

/-- The solver does start there. -/
theorem outcome (start : StartsAtZero solver fuel s δ first) :
    (solver.start fuel s).outcome = .ok (.feasible first) := by
  unfold Solver.start
  cases start with
  | slack covered table =>
    rw [if_neg (by rw [covered]; decide)]
    simp [table, Except.mapError]
  | restored uncovered table _ run accepted _ _ restore =>
    cases run with
    | optimal ending =>
      rw [if_pos uncovered]
      simp [table, outcome_optimize, Run.verdict, ending, accepted, restore, Except.mapError]

theorem above (start : StartsAtZero solver fuel s δ first) (std : m.Standardizes s)
    (indexed : m.Indexed) (nonneg : 0 ≤ solver.tolerance) (slack : 0 ≤ δ) :
    ∃ k, first.Sized k s.model.vars.length ∧ first.Above (-δ) := by
  cases start with
  | slack covered table =>
    obtain ⟨basic, basis⟩ := slack_basis std indexed covered table
    refine ⟨_, basis.sized, basis.sized.above_iff.2 fun i pos le => ?_⟩
    exact (neg_nonpos.2 slack).trans (basis.nonneg i pos le)
  | @restored auxiliary last _ listed _ table steady run _ read zero restore =>
    obtain ⟨sized, atStart⟩ := initialTableau_above std table
    have lower : auxiliary.Above (-δ) :=
      sized.above_iff.2 fun i pos le =>
        (neg_nonpos.2 slack).trans (sized.above_iff.1 atStart i pos le)
    cases run with
    | optimal _ =>
      have reaches : auxiliary.Reaches solver.tolerance _ :=
        Tableau.reaches_run auxiliary solver.limit fuel
      have atEnd := (sized.reaches_above_iff nonneg slack).2 ⟨lower, steady⟩ _ reaches
      exact (PhaseOne.restore_eq_ok restore).above nonneg (sized.of_reaches reaches) read zero atEnd

end Solver.StartsAtZero

namespace Solver

/-- The table that phase two starts from after a phase one, if it starts at zero. -/
def zeroStart (solver : Solver Rat) (fuel : Nat) (δ : Rat) (s : StandardForm Rat) :
    Option (Tableau Rat) := do
  let auxiliary ← (s.phaseOne.initialTableau solver.tolerance).toOption
  let run := auxiliary.run solver.tolerance solver.limit fuel
  let listed ← (run.last.basis solver.tolerance).toOption
  let positive ← (s.phaseOne.artificialsPositive solver.tolerance run.last).toOption
  if s.needsPhaseOne ∧ auxiliary.steadyWithin solver.tolerance δ fuel ∧ run.ending = .optimal ∧
      positive = false ∧ s.phaseOne.AtZero run.last (listed.zipIdx 1) then
    (s.phaseOne.restore solver.tolerance s run.last).outcome.toOption
  else none

theorem startsAtZero_of_zeroStart {solver : Solver Rat} {fuel : Nat} {δ : Rat}
    {s : StandardForm Rat} {first : Tableau Rat}
    (h : solver.zeroStart fuel δ s = some first) : solver.StartsAtZero fuel s δ first := by
  obtain ⟨auxiliary, table, h⟩ := Option.bind_eq_some_iff.1 h
  obtain ⟨listed, read, h⟩ := Option.bind_eq_some_iff.1 h
  obtain ⟨positive, tested, h⟩ := Option.bind_eq_some_iff.1 h
  split at h
  · rename_i found
    obtain ⟨uncovered, steady, ending, rfl, zero⟩ := found
    exact .restored uncovered (toOption_eq_some.1 table) (Tableau.steady_of_within steady)
      (.optimal ending) (toOption_eq_some.1 tested) (toOption_eq_some.1 read) zero
      (toOption_eq_some.1 h)
  · exact nomatch h

/-- The right-hand sides of the first and of the last table of phase two. -/
def phaseTwoSides (solver : Solver Rat) (fuel : Nat) (m : Model Rat) :
    Option (List Rat × List Rat) := do
  let s ← m.standardForm.toOption
  match ← (solver.start fuel s).outcome.toOption with
  | .feasible first =>
    let last := (first.run solver.tolerance solver.limit fuel).last
    return (← first.rightSides.toOption, ← last.rightSides.toOption)
  | .infeasible _ => none

theorem phaseTwoSides_eq_some {solver : Solver Rat} {fuel : Nat} {m : Model Rat}
    {sides sides' : List Rat} (h : solver.phaseTwoSides fuel m = some (sides, sides')) :
    ∃ s first last, m.standardForm = .ok s ∧
      (solver.start fuel s).outcome = .ok (.feasible first) ∧
      first.Reaches solver.tolerance last ∧ first.rightSides = .ok sides ∧
      last.rightSides = .ok sides' := by
  obtain ⟨s, standard, h⟩ := Option.bind_eq_some_iff.1 h
  obtain ⟨start, started, h⟩ := Option.bind_eq_some_iff.1 h
  cases start with
  | infeasible last => exact nomatch h
  | feasible first =>
    obtain ⟨_, read, h⟩ := Option.bind_eq_some_iff.1 h
    obtain ⟨_, read', h⟩ := Option.bind_eq_some_iff.1 h
    obtain ⟨rfl, rfl⟩ := Prod.mk.inj (Option.some.inj h)
    exact ⟨s, first, _, toOption_eq_some.1 standard, toOption_eq_some.1 started,
      Tableau.reaches_run first solver.limit fuel, toOption_eq_some.1 read,
      toOption_eq_some.1 read'⟩

end Solver

/-- All right-hand sides of phase two stay above `-δ` exactly when they start there and
no pivot falls. They do start there when phase two starts at zero. Every pivot leaves the
compared rows but its own at or above zero, and without skipped rows no right-hand side
becomes negative. -/
theorem rightSides_above_iff {m : Model Rat} {s : StandardForm Rat} {solver : Solver Rat}
    {fuel : Nat} {δ : Rat} {first : Tableau Rat} (built : m.Built)
    (standard : m.standardForm = .ok s) (nonneg : 0 ≤ solver.tolerance) (slack : 0 ≤ δ)
    (started : (solver.start fuel s).outcome = .ok (.feasible first)) :
    ((∀ u, first.Reaches solver.tolerance u → u.Above (-δ)) ↔
      first.Above (-δ) ∧ first.Steady solver.tolerance δ) ∧
      (solver.StartsAtZero fuel s δ first → first.Above (-δ)) ∧
      (∀ u e w, first.Reaches solver.tolerance u → u.move solver.tolerance = .ok (.pivot e w) →
        u.PivotSides w solver.tolerance e) ∧
      (first.Above 0 →
        (∀ u e w, first.Reaches solver.tolerance u → u.move solver.tolerance = .ok (.pivot e w) →
          ∀ i, ¬ u.Skips solver.tolerance e i) →
        ∀ u, first.Reaches solver.tolerance u → u.Above 0) := by
  have indexed := built.indexed
  have std := Model.standardForm_standardizes indexed standard
  obtain ⟨k, sized⟩ := Solver.exists_sized_of_start started
  refine ⟨sized.reaches_above_iff nonneg slack, ?_, ?_, ?_⟩
  · intro start
    obtain ⟨_, _, above⟩ := start.above std indexed nonneg slack
    exact above
  · intro u e w reaches move
    exact (sized.of_reaches reaches).pivotSides nonneg move
  · intro above compares u reaches
    exact sized.reaches_above_zero nonneg above compares reaches

/-- Maximises `x` between 1 and 3. -/
def clampedRow : Model Rat :=
  ⟨"clamped row", [⟨"x", 0⟩],
    [⟨⟨[⟨0, 1⟩]⟩, .atLeast, 1, 0⟩, ⟨⟨[⟨0, 1⟩]⟩, .atMost, 3, 1⟩],
    some ⟨⟨[⟨0, 1⟩]⟩, .maximize⟩⟩

/-- Maximises `x ≤ 2 ^ 31` under a row whose coefficient is below the tolerance. -/
def faintRow : Model Rat :=
  ⟨"faint row", [⟨"x", 0⟩],
    [⟨⟨[⟨0, 1 / 1073741824⟩]⟩, .atMost, 1, 0⟩, ⟨⟨[⟨0, 1⟩]⟩, .atMost, 2147483648, 1⟩],
    some ⟨⟨[⟨0, 1⟩]⟩, .maximize⟩⟩

/-- Under a tolerance, phase two of the one starts at zero, and no pivot falls. The other starts
above zero and does not stay there, so a pivot has passed over a row. -/
theorem clampedRow_above :
    (clampedRow.Built ∧ ∃ s first, clampedRow.standardForm = .ok s ∧
      (Solver.start ⟨1 / 1000000000, none⟩ 5 s).outcome = .ok (.feasible first) ∧
      Solver.StartsAtZero ⟨1 / 1000000000, none⟩ 5 s (1 / 1000000000) first ∧
      ∀ u, first.Reaches (1 / 1000000000) u → u.Above (-(1 / 1000000000))) ∧
    (faintRow.Built ∧ ∃ s first, faintRow.standardForm = .ok s ∧
      (Solver.start ⟨1 / 1000000000, none⟩ 5 s).outcome = .ok (.feasible first) ∧
      first.Above 0 ∧ ∃ u e w i, first.Reaches (1 / 1000000000) u ∧
        u.move (1 / 1000000000) = .ok (.pivot e w) ∧ u.PivotSides w (1 / 1000000000) e ∧
        u.Skips (1 / 1000000000) e i) := by
  have nonneg : (0 : Rat) ≤ 1 / 1000000000 := by decide +kernel
  constructor
  · have built : clampedRow.Built := Model.built_of_rebuilt rfl
    obtain ⟨s, standard, h⟩ := Option.bind_eq_some_iff.1
      (show (clampedRow.standardForm.toOption.bind fun s =>
        (Solver.zeroStart ⟨1 / 1000000000, none⟩ 5 (1 / 1000000000) s).map
          (Tableau.steadyWithin (1 / 1000000000) (1 / 1000000000) 5)) = some true by
        decide +kernel)
    obtain ⟨first, found, steady⟩ := Option.map_eq_some_iff.1 h
    have standard := toOption_eq_some.1 standard
    have start := Solver.startsAtZero_of_zeroStart found
    obtain ⟨above_iff, above, _⟩ := rightSides_above_iff built standard nonneg nonneg start.outcome
    exact ⟨built, s, first, standard, start.outcome, start,
      above_iff.2 ⟨above start, Tableau.steady_of_within steady⟩⟩
  · have built : faintRow.Built := Model.built_of_rebuilt rfl
    obtain ⟨s, first, last, standard, started, reaches, read, read'⟩ :=
      Solver.phaseTwoSides_eq_some (show Solver.phaseTwoSides ⟨1 / 1000000000, none⟩ 5 faintRow =
        some ([1, 2147483648], [-1, 2147483648]) by decide +kernel)
    obtain ⟨_, _, pivots, stays⟩ := rightSides_above_iff built standard nonneg nonneg started
    have above : first.Above 0 := ⟨_, read, by decide +kernel⟩
    refine ⟨built, s, first, standard, started, above, ?_⟩
    by_contra none
    have lastAbove := stays above (fun u e w reaches move i skips =>
      none ⟨u, e, w, i, reaches, move, pivots u e w reaches move, skips⟩) last reaches
    exact absurd (lastAbove.le read' List.mem_cons_self) (by decide +kernel)

/-- Asks that `-x / 2` is `2 ^ (-30)`. -/
def undershotRow : Model Rat :=
  ⟨"undershot row", [⟨"x", 0⟩], [⟨⟨[⟨0, -1 / 2⟩]⟩, .equal, 1 / 1073741824, 0⟩],
    some ⟨⟨[⟨0, 1⟩]⟩, .maximize⟩⟩

/-- The ratio test passes over the first row of the one. The artificial variable of the
other is within the tolerance, so it counts as zero and is driven out with a negative
entry. -/
theorem rightSides_below_tolerance :
    (faintRow.Built ∧ ∃ s first last, faintRow.standardForm = .ok s ∧
      (Solver.start ⟨1 / 1000000000, none⟩ 5 s).outcome = .ok (.feasible first) ∧
      first.Reaches (1 / 1000000000) last ∧ last.rightSides = .ok [-1, 2147483648] ∧
      ¬ last.Above (-(1 / 1000000000))) ∧
    (undershotRow.Built ∧ ∃ s first, undershotRow.standardForm = .ok s ∧
      (Solver.start ⟨1 / 1000000000, none⟩ 5 s).outcome = .ok (.feasible first) ∧
      first.rightSides = .ok [-1 / 536870912] ∧ ¬ first.Above (-(1 / 1000000000))) := by
  constructor
  · refine ⟨Model.built_of_rebuilt rfl, ?_⟩
    obtain ⟨s, first, last, standard, started, reaches, _, read⟩ := Solver.phaseTwoSides_eq_some
      (show Solver.phaseTwoSides ⟨1 / 1000000000, none⟩ 5 faintRow =
        some ([1, 2147483648], [-1, 2147483648]) by decide +kernel)
    exact ⟨s, first, last, standard, started, reaches, read, fun above =>
      absurd (above.le read List.mem_cons_self) (by decide +kernel)⟩
  · refine ⟨Model.built_of_rebuilt rfl, ?_⟩
    obtain ⟨s, first, last, standard, started, _, read, _⟩ := Solver.phaseTwoSides_eq_some
      (show Solver.phaseTwoSides ⟨1 / 1000000000, none⟩ 5 undershotRow =
        some ([-1 / 536870912], [-1 / 536870912]) by decide +kernel)
    exact ⟨s, first, standard, started, read, fun above =>
      absurd (above.le read List.mem_cons_self) (by decide +kernel)⟩

end LinearProgram
