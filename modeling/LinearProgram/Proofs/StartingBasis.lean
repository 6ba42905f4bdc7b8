import Mathlib
import LinearProgram.Proofs.Optimality
import LinearProgram.Proofs.Passage

/-!
# The basis that phase two starts from

`restore` reads the basis again before it takes the artificial columns out. Where
the last unit column of a row is an artificial one, the row is shadowed: no column
is listed for it, and its own columns keep the costs of the objective.

* `Reduces`: the stages of `restore` up to that reading;
* `Reduction.cost_shadowed`, `Reduction.hasBasis_iff`: a restored table has a
  recognised column in every row exactly when every shadowed row has a unit column
  that the objective does not mention;
* `restored_hasBasis_iff`: `restore` never faults on an accepted table, all rows of
  what it makes have unit columns of the constraint rows, and when these are
  recognised; `twiceZero_hasBasis` for a model;
* `opposedRows_lost_basis`: a model for which a row has no recognised column.
-/

namespace LinearProgram

/-- The stages of `restore` up to the second reading of the basis. -/
inductive PhaseOne.Reduces (p : PhaseOne Rat) (t kept : Tableau Rat) (redundant : List Nat)
    (listed' : List (Option Nat)) : Prop
  | mk {listed : List (Option Nat)} {cleared : Tableau Rat} (read : t.basis 0 = .ok listed)
      (driven : (p.driveOut 0 (listed.zipIdx 1) t).outcome = .ok (cleared, redundant))
      (dropped : (dropRows redundant.reverse cleared).outcome = .ok kept)
      (reread : kept.basis 0 = .ok listed') : Reduces p t kept redundant listed'

/-- An artificial column was read for the row. -/
def StandardForm.Shadowed (s : StandardForm Rat) (listed : List (Option Nat)) (i : Nat) : Prop :=
  ∃ a, listed[i]? = some (some a) ∧ s.phaseOne.artificials.contains a = true

theorem PhaseOne.realBasis_shadowed {s : StandardForm Rat} {listed : List (Option Nat)} {i : Nat}
    (shadowed : s.Shadowed listed i) : (s.phaseOne.realBasis listed)[i]? = some none := by
  obtain ⟨a, found, artificial⟩ := shadowed
  rw [IndexMap.contains, List.contains_iff_mem] at artificial
  simp [realBasis, found, artificial]

namespace Reduction

variable {s : StandardForm Rat} {cleared kept priced restored : Tableau Rat} {basic : Nat → Nat}
  {redundant : List Nat} {k : Nat} {old : Nat → Nat} {listed : List (Option Nat)}
  (reduction : Reduction s cleared kept basic redundant k old) (read : kept.basis 0 = .ok listed)
  (table : Tableau.Priced kept priced k s.phaseOneWidth s.model.vars.length s.objectiveRow)
  (clear : priced.canonicalize 0 (s.phaseOne.realBasis listed) = .ok restored)

include reduction read

/-- A row that stays has its own column listed, or it is shadowed. -/
theorem listed_or_shadowed {i : Nat} (hi : i < k) :
    (∃ c < s.model.vars.length, listed[i]? = some (some c) ∧ kept.UnitIn (i + 1) c) ∨
      s.Shadowed listed i := by
  obtain ⟨c, inside, found, unit⟩ := reduction.listed read hi
  by_cases real : c < s.model.vars.length
  · exact .inl ⟨c, real, found, unit.unitIn⟩
  · exact .inr ⟨c, found, (s.phaseOne_covers.contains_iff c).2 ⟨by omega, inside⟩⟩

include table clear

/-- Nothing is taken off the costs of a unit column whose row is shadowed. -/
theorem cost_shadowed {i c : Nat} (shadowed : s.Shadowed listed i) (hc : c < s.model.vars.length)
    (unit : kept.UnitIn (i + 1) c) : restored.get 0 c = s.objectiveRow[c]?.getD 0 := by
  rw [← table.cost]
  exact table.sized.canonicalize_keeps (reduction.length_realBasis read) clear
    (by simp [PhaseOne.realBasis_shadowed shadowed]) fun r _ =>
      (table.get r c hc).trans (Tableau.unitIn_succ_iff.1 unit r)

theorem hasBasis_iff : restored.HasBasis ↔ ∀ i, s.Shadowed listed i →
    ∃ c < s.model.vars.length, kept.UnitIn (i + 1) c ∧ s.objectiveRow[c]? = some 0 := by
  obtain ⟨sized, _, _⟩ := reduction.get_restored read table clear
  have entry {c : Nat} (hc : c < s.model.vars.length) :
      s.objectiveRow[c]? = some (s.objectiveRow[c]?.getD 0) := by
    simp [show c < s.objectiveRow.length by rw [s.length_objectiveRow]; omega]
  rw [sized.hasBasis_iff]
  constructor
  · intro columns i shadowed
    have ⟨a, found, _⟩ := shadowed
    have hi : i < k := by
      rw [← reduction.keeps.sized.basis_length read]
      exact (List.getElem?_eq_some_iff.1 found).1
    obtain ⟨c, hc, unit⟩ := columns i hi
    have own := (reduction.unitIn_restored read table clear hc).1 unit.unitIn
    have cost := unit 0
    rw [reduction.cost_shadowed read table clear shadowed hc own] at cost
    exact ⟨c, hc, own, by simpa [cost] using entry hc⟩
  · intro uncosted i hi
    have recognised {c : Nat} (hc : c < s.model.vars.length) (own : kept.UnitIn (i + 1) c)
        (cost : restored.get 0 c = 0) : restored.UnitColumn (i + 1) c :=
      ((reduction.unitIn_restored read table clear hc).2 own).unitColumn (Nat.succ_pos i) cost
    obtain ⟨c, hc, found, own⟩ | shadowed := reduction.listed_or_shadowed read hi
    · exact ⟨c, hc, recognised hc own (reduction.cost_listed read table clear hc found own)⟩
    · obtain ⟨c, hc, own, free⟩ := uncosted i shadowed
      have cost := reduction.cost_shadowed read table clear shadowed hc own
      rw [free, Option.getD_some] at cost
      exact ⟨c, hc, recognised hc own cost⟩

end Reduction

theorem Solver.Accepts.inPhaseOne {m : Model Rat} {s : StandardForm Rat} {last : Tableau Rat}
    {limit : Option Nat} (std : m.Standardizes s) (indexed : m.Indexed)
    (accepted : Solver.Accepts ⟨0, limit⟩ s last) :
    s.InPhaseOne last ∧ s.phaseOne.artificialsPositive 0 last = .ok false := by
  cases accepted with
  | mk _ table run zero =>
    cases run with
    | optimal ending =>
      have start := StandardForm.inPhaseOne_start std indexed table
      exact ⟨start.reaches (Tableau.reaches_run _ _ _), zero⟩

/-- What `restore` makes of an accepted table has a unit column of the constraint rows
in every row. These columns are recognised exactly when every shadowed row has one
that the objective does not mention, and always when no row was dropped. -/
theorem restored_hasBasis_iff {m : Model Rat} {s : StandardForm Rat} {last : Tableau Rat}
    {limit : Option Nat} (built : m.Built) (standard : m.standardForm = .ok s)
    (accepted : Solver.Accepts ⟨0, limit⟩ s last) :
    ∃ restored kept redundant listed, (s.phaseOne.restore 0 s last).outcome = .ok restored ∧
      s.phaseOne.Reduces last kept redundant listed ∧
      (∀ i, 0 < i → i < restored.height → ∃ c < s.model.vars.length, restored.UnitIn i c) ∧
      (restored.HasBasis ↔ ∀ i, s.Shadowed listed i →
        ∃ c < s.model.vars.length, kept.UnitIn (i + 1) c ∧ s.objectiveRow[c]? = some 0) ∧
      (redundant = [] → restored.HasBasis) := by
  have indexed := built.indexed
  have std := Model.standardForm_standardizes indexed standard
  obtain ⟨⟨⟨raw, auxiliary, same⟩, _, basis⟩, zero⟩ := accepted.inPhaseOne std indexed
  obtain ⟨restored, made, _⟩ := PhaseOne.exists_restore s 0 (s.phaseOne_covers.vars ▸ basis.sized)
  cases PhaseOne.restore_eq_ok made with
  | mk read driven dropped reread strip price clear =>
    obtain ⟨_, k, _, reduction, same'⟩ := exists_reduction basis zero read driven dropped
    have table := reduction.priced strip price
    obtain ⟨basic, restoredBasis⟩ := reduction.basis_canonicalize reread table clear
    refine ⟨restored, _, _, _, made, .mk read driven dropped reread, fun i pos lt => ?_,
      reduction.hasBasis_iff reread table clear, fun none => ?_⟩
    · rw [restoredBasis.sized.height] at lt
      have le := Nat.lt_succ_iff.1 lt
      exact ⟨basic i, restoredBasis.inside i pos le, restoredBasis.unit i pos le⟩
    · exact restoredBasis.hasBasis
        (reduction.redundancy.not_loose std auxiliary (same.trans same') none)

namespace Solver

/-- The basis of the table that phase two starts from, if there was a phase one. -/
def restoredBasis (solver : Solver Rat) (fuel : Nat) (m : Model Rat) :
    Option (List (Option Nat)) := do
  let s ← m.standardForm.toOption
  match s.needsPhaseOne, ← (solver.start fuel s).outcome.toOption with
  | true, .feasible restored => (restored.basis solver.tolerance).toOption
  | _, _ => none

theorem restoredBasis_eq_some {solver : Solver Rat} {fuel : Nat} {m : Model Rat}
    {listed : List (Option Nat)} (h : solver.restoredBasis fuel m = some listed) :
    ∃ s last restored, m.standardForm = .ok s ∧ solver.Accepts s last ∧
      (s.phaseOne.restore solver.tolerance s last).outcome = .ok restored ∧
      restored.basis solver.tolerance = .ok listed := by
  obtain ⟨s, standard, h⟩ := Option.bind_eq_some_iff.1 h
  obtain ⟨start, started, h⟩ := Option.bind_eq_some_iff.1 h
  have standard := toOption_eq_some.1 standard
  cases start_eq_ok (toOption_eq_some.1 started) with
  | slack covered _ => simp [covered] at h
  | unbounded uncovered _ _ => simp [uncovered] at h
  | positive uncovered _ _ _ => simp [uncovered] at h
  | restored uncovered table run zero restore =>
    simp only [uncovered] at h
    exact ⟨s, _, _, standard, .mk uncovered table run zero, restore, toOption_eq_some.1 h⟩

end Solver

/-- Maximises `y ≤ 1` and asks twice that `x` is zero. -/
def twiceZero : Model Rat :=
  ⟨"twice zero", [⟨"x", 0⟩, ⟨"y", 1⟩],
    [⟨⟨[⟨0, 1⟩]⟩, .equal, 0, 0⟩, ⟨⟨[⟨0, -1⟩]⟩, .equal, 0, 1⟩, ⟨⟨[⟨1, 1⟩]⟩, .atMost, 1, 2⟩],
    some ⟨⟨[⟨1, 1⟩]⟩, .maximize⟩⟩

/-- The objective does not mention `x`, so that its row keeps a recognised column. -/
theorem twiceZero_hasBasis : twiceZero.Built ∧ ∃ s last restored kept redundant listed,
    twiceZero.standardForm = .ok s ∧ Solver.Accepts ⟨0, none⟩ s last ∧
    (s.phaseOne.restore 0 s last).outcome = .ok restored ∧
    s.phaseOne.Reduces last kept redundant listed ∧ restored.HasBasis ∧
    ∀ i, s.Shadowed listed i → ∃ c < s.model.vars.length,
      Tableau.UnitIn kept (i + 1) c ∧ s.objectiveRow[c]? = some 0 := by
  have built : twiceZero.Built := Model.built_of_rebuilt rfl
  obtain ⟨s, last, restored, standard, accepted, made, read⟩ :=
    Solver.restoredBasis_eq_some (show Solver.restoredBasis ⟨0, none⟩ 5 twiceZero =
      some [some 0, some 2] by decide +kernel)
  obtain ⟨restored', kept, redundant, listed, made', reduces, _, full, _⟩ :=
    restored_hasBasis_iff built standard accepted
  obtain rfl : restored' = restored := by simpa [made'] using made
  have found : restored'.HasBasis := ⟨_, read, by simp⟩
  exact ⟨built, s, last, restored', kept, redundant, listed, standard, accepted, made, reduces,
    found, full.1 found⟩

/-- Maximises `x` and asks twice, with opposite signs, that it is zero. -/
def opposedRows : Model Rat :=
  ⟨"opposed rows", [⟨"x", 0⟩],
    [⟨⟨[⟨0, 1⟩]⟩, .equal, 0, 0⟩, ⟨⟨[⟨0, -1⟩]⟩, .equal, 0, 1⟩],
    some ⟨⟨[⟨0, 1⟩]⟩, .maximize⟩⟩

/-- The one row that stays is shadowed, and `x` keeps its cost. -/
theorem opposedRows_lost_basis : opposedRows.Built ∧ ∃ s last restored,
    opposedRows.standardForm = .ok s ∧ Solver.Accepts ⟨0, none⟩ s last ∧
    (s.phaseOne.restore 0 s last).outcome = .ok restored ∧ ¬ restored.HasBasis := by
  constructor
  · exact Model.built_of_rebuilt rfl
  · obtain ⟨s, last, restored, standard, accepted, made, read⟩ :=
      Solver.restoredBasis_eq_some (show Solver.restoredBasis ⟨0, none⟩ 5 opposedRows =
        some [none] by decide +kernel)
    refine ⟨s, last, restored, standard, accepted, made, ?_⟩
    rintro ⟨listed, read', full⟩
    obtain rfl : [none] = listed := by simpa [read'] using read.symm
    exact full List.mem_cons_self

end LinearProgram
