import Mathlib
import LinearProgram.Proofs.Tableau.OfModel
import LinearProgram.Proofs.Tableau.Run

/-!
# The start of phase one

* `exists_initialTableau`: over any scalars there is a first table of phase one, of a
  known size;
* `Covers`, `phaseOne_covers`: artificial variables come behind all others, one
  for every constraint without a slack;
* `Auxiliary`: a table whose solutions without artificial variables are those of
  the standard form, priced by the sum of the artificial variables;
* `StartColumn`, `OnStartBasis`: the slacks and the artificial variables that start in the
  basis, and a table solved for them;
* `auxiliary_start`, `onStartBasis_start`: the first table of phase one is such a
  table in other words, and solved for them;
* `InPhaseOne`: what all tables have that phase one reaches from there;
* `Auxiliary.sum_basicPoint`: row 0 shows minus the sum of the artificial variables.
-/

namespace LinearProgram

open Tableau (atPoint unit Solves)

namespace StandardForm

section Sizes

variable {α : Type} [Scalar α]

theorem phaseOne_keys (s : StandardForm α) : s.phaseOne.artificials.keys =
    List.range' s.model.vars.length s.phaseOne.artificials.entries.length :=
  s.phaseOne_adjoins.1.keys

theorem phaseOne_vars (s : StandardForm α) : s.phaseOne.model.vars.length =
    s.model.vars.length + s.phaseOne.artificials.entries.length := s.phaseOne_adjoins.1.vars

theorem phaseOne_length (s : StandardForm α) :
    s.phaseOne.model.constraints.length = s.model.constraints.length :=
  s.phaseOne_adjoins.1.length

/-- Artificial variables are added to constraints of the model only. -/
theorem phaseOne_row_lt (s : StandardForm α) {i : Nat}
    (h : i ∈ s.phaseOne.artificials.values) : i < s.model.constraints.length := by
  rw [s.phaseOne_adjoins.2, uncovered] at h
  exact List.mem_range.1 (List.mem_of_mem_filter h)

/-- Phase one always gets its first table. -/
theorem exists_initialTableau (s : StandardForm α) (ε : α) :
    ∃ first, s.phaseOne.initialTableau ε = .ok first ∧
      first.Sized s.model.constraints.length s.phaseOne.model.vars.length := by
  obtain ⟨costs, priced⟩ : ∃ costs, s.phaseOne.costs = .ok costs := by
    refine exists_foldlM_setAt id (fun _ => 1) Fault.noColumn fun u hu => ?_
    rw [s.phaseOne_keys, List.mem_range'_1] at hu
    simp only [id, List.length_replicate, s.phaseOne_vars]
    omega
  obtain ⟨basis, listed⟩ : ∃ basis, s.phaseOne.startBasis = .ok basis := by
    refine exists_foldlM_setAt Prod.snd (fun e => some e.1) (fun e => Fault.noConstraint e.2)
      fun e he => ?_
    have inside := s.phaseOne_row_lt (IndexMap.mem_values.2 ⟨e.1, he⟩)
    simpa only [List.length_replicate, s.phaseOne_length] using inside
  have width := (foldlM_setAt_of_not_mem id (fun _ => 1) Fault.noColumn priced).1
  have short := (foldlM_setAt_of_not_mem Prod.snd (fun e => some e.1)
    (fun e => Fault.noConstraint e.2) listed).1
  rw [List.length_replicate] at width short
  obtain ⟨written, sized⟩ := Tableau.ofModel_sized width
  obtain ⟨first, _, cleared, sized', _⟩ := sized.canonicalize ε short.le
  refine ⟨first, ?_, s.phaseOne_length ▸ sized'⟩
  simp only [PhaseOne.initialTableau, priced, written, listed, ok_bind, cleared]

/-- The slacks always get their table. -/
theorem exists_tableau (s : StandardForm α) : ∃ first, s.tableau = .ok first ∧
    first.Sized s.model.constraints.length s.model.vars.length :=
  ⟨_, Tableau.ofModel_sized s.length_objectiveRow⟩

end Sizes

variable {m : Model Rat} {s : StandardForm Rat}

/-- The number of artificial variables. -/
def artificialCount (s : StandardForm Rat) : Nat := s.phaseOne.artificials.entries.length

/-- The columns of phase one. -/
def phaseOneWidth (s : StandardForm Rat) : Nat := s.model.vars.length + s.artificialCount

/-- The artificial variables and their constraints. -/
structure Covers (s : StandardForm Rat) : Prop where
  vars : s.phaseOne.model.vars.length = s.phaseOneWidth
  keys : s.phaseOne.artificials.keys = List.range' s.model.vars.length s.artificialCount
  distinct : s.phaseOne.artificials.values.Nodup
  row : ∀ i, i ∈ s.phaseOne.artificials.values ↔
    i < s.model.constraints.length ∧ i ∉ s.slacks.values
  length : s.phaseOne.model.constraints.length = s.model.constraints.length
  constraint : ∀ i, s.phaseOne.model.constraints[i]? = (s.model.constraints[i]?).map
    (Constraint.adjoin 1 false s.phaseOne.artificials.entries i)

theorem hasSlack_eq_false_iff {i : Nat} : s.hasSlack i = false ↔ i ∉ s.slacks.values := by
  rw [hasSlack, ← Bool.not_eq_true, List.contains_iff_mem]

theorem phaseOne_covers (s : StandardForm Rat) : s.Covers := by
  obtain ⟨adjoins, rows⟩ := s.phaseOne_adjoins
  have distinct : s.uncovered.Nodup := List.nodup_range.filter _
  refine ⟨adjoins.vars, adjoins.keys, rows ▸ distinct, fun i => ?_, adjoins.length,
    adjoins.constraint⟩
  rw [rows, uncovered, List.mem_filter, List.mem_range, Bool.not_eq_true', hasSlack_eq_false_iff]

namespace Covers

variable (covers : s.Covers)

include covers

theorem key_bounds {u i : Nat} (h : (u, i) ∈ s.phaseOne.artificials.entries) :
    s.model.vars.length ≤ u ∧ u < s.phaseOneWidth := by
  have key := IndexMap.mem_keys.2 ⟨i, h⟩
  rwa [covers.keys, List.mem_range'_1] at key

theorem contains_iff (j : Nat) : s.phaseOne.artificials.contains j = true ↔
    s.model.vars.length ≤ j ∧ j < s.phaseOneWidth := by
  rw [IndexMap.contains, List.contains_iff_mem, covers.keys, List.mem_range'_1]
  rfl

theorem key_of_bounds {j : Nat} (le : s.model.vars.length ≤ j) (lt : j < s.phaseOneWidth) :
    ∃ i, (j, i) ∈ s.phaseOne.artificials.entries := by
  apply IndexMap.mem_keys.1
  rw [covers.keys, List.mem_range'_1]
  exact ⟨le, lt⟩

/-- Costs are one on the artificial variables and zero elsewhere. -/
theorem costs_eq_ok {costs : List Rat} (h : s.phaseOne.costs = .ok costs) :
    costs.length = s.phaseOneWidth + 1 ∧ ∀ j, costs[j]?.getD 0 =
      if s.model.vars.length ≤ j ∧ j < s.phaseOneWidth then 1 else 0 := by
  unfold PhaseOne.costs at h
  rw [covers.vars] at h
  obtain ⟨length, others⟩ := foldlM_setAt_of_not_mem id (fun _ => 1) Fault.noColumn h
  rw [List.map_id] at others
  refine ⟨by rw [length, List.length_replicate], fun j => ?_⟩
  have listed : j ∈ s.phaseOne.artificials.keys ↔
      s.model.vars.length ≤ j ∧ j < s.phaseOneWidth := by
    rw [covers.keys, List.mem_range'_1]
    rfl
  split
  · rename_i inside
    have distinct : (s.phaseOne.artificials.keys.map id).Nodup := by
      rw [List.map_id, covers.keys]
      exact List.nodup_range'
    have one := foldlM_setAt_of_mem id (fun _ => (1 : Rat)) Fault.noColumn distinct h
      (listed.2 inside)
    rw [id] at one
    rw [one, Option.getD_some]
  · rename_i outside
    rw [others j (mt listed.1 outside), List.getElem?_replicate]
    split <;> rfl

/-- The start basis lists every artificial variable in the row of its constraint. -/
theorem startBasis_eq_ok {basis : List (Option Nat)} (h : s.phaseOne.startBasis = .ok basis) :
    basis.length = s.model.constraints.length ∧ ∀ i u,
      basis[i]? = some (some u) ↔ (u, i) ∈ s.phaseOne.artificials.entries := by
  unfold PhaseOne.startBasis at h
  rw [covers.length] at h
  obtain ⟨length, others⟩ := foldlM_setAt_of_not_mem Prod.snd (fun e => some e.1)
    (fun e => Fault.noConstraint e.2) h
  have placed {e : Nat × Nat} (he : e ∈ s.phaseOne.artificials.entries) :
      basis[e.2]? = some (some e.1) :=
    foldlM_setAt_of_mem Prod.snd (fun e => some e.1) (fun e => Fault.noConstraint e.2)
      covers.distinct h he
  refine ⟨by rw [length, List.length_replicate], fun i u => ⟨fun found => ?_, placed⟩⟩
  by_cases listed : i ∈ s.phaseOne.artificials.entries.map Prod.snd
  · obtain ⟨⟨u', _⟩, he, rfl⟩ := List.mem_map.1 listed
    have same := found.symm.trans (placed he)
    simp only [Option.some.injEq] at same
    exact same ▸ he
  · rw [others i listed, List.getElem?_replicate] at found
    split at found
    · injection found with found
      exact nomatch found
    · exact nomatch found

end Covers

end StandardForm

namespace Tableau

/-- A table of phase one. Without artificial variables its solutions are those
of the standard form; with them, row 0 is their sum. An artificial column is a
unit column of the constraint it was added to. -/
structure Auxiliary (t : Tableau Rat) (s : StandardForm Rat) : Prop where
  sized : t.Sized s.model.constraints.length s.phaseOneWidth
  price : ∀ v, t.equation 0 v = ∑ j ∈ Finset.Ico s.model.vars.length s.phaseOneWidth, v j
  row : ∀ i c, s.model.constraints[i]? = some c → ∀ v,
    (∀ j, s.model.vars.length ≤ j → j < s.phaseOneWidth → v j = 0) →
      t.equation (i + 1) v = c.form.value v + c.bound * v s.phaseOneWidth
  artificial : ∀ u i, (u, i) ∈ s.phaseOne.artificials.entries → t.UnitIn (i + 1) u

theorem Auxiliary.get_cost {t : Tableau Rat} {s : StandardForm Rat} (auxiliary : t.Auxiliary s)
    {j : Nat} (hj : j ≤ s.phaseOneWidth) : t.get 0 j =
      if s.model.vars.length ≤ j ∧ j < s.phaseOneWidth then 1 else 0 := by
  rw [← auxiliary.sized.equation_unit 0 hj, auxiliary.price]
  simp only [unit, Pi.single_apply]
  rw [Finset.sum_ite_eq']
  simp only [Finset.mem_Ico]

/-- Where the artificial variables are zero, the rows are those of the standard form. -/
theorem Auxiliary.carries {t : Tableau Rat} {m : Model Rat} {s : StandardForm Rat}
    (auxiliary : t.Auxiliary s) (std : m.Standardizes s) : t.Carries s s.phaseOneWidth := by
  have wide : s.model.vars.length ≤ s.phaseOneWidth := Nat.le_add_right _ _
  have other {j k : Nat} (different : j ≠ k) : unit j k = 0 := by
    rw [unit, Pi.single_apply, if_neg different.symm]
  refine ⟨auxiliary.sized, wide, fun i c hc j hj => ?_, fun i c hc => ?_⟩
  · rw [← auxiliary.sized.equation_unit _ (hj.le.trans wide), auxiliary.row i c hc,
      other (by omega), mul_zero, add_zero]
    exact fun k le _ => other (by omega)
  · rw [← auxiliary.sized.equation_unit _ le_rfl, auxiliary.row i c hc, unit, Pi.single_eq_same,
      mul_one, add_eq_right]
    · exact LinearForm.value_single_of_le (std.within c (List.mem_of_getElem? hc)) wide
    · exact fun k _ lt => other lt.ne'

end Tableau

namespace StandardForm

variable {s : StandardForm Rat} {raw : Tableau Rat}

section Written

variable {m : Model Rat} (std : m.Standardizes s) {costs : List Rat}
  (tabulates : raw.Tabulates costs s.phaseOne.model)

include std tabulates

/-- A written row is its equation with the artificial variable of the constraint. -/
theorem Covers.equation_written (covers : s.Covers) {i : Nat} {c : Constraint Rat}
    (hc : s.model.constraints[i]? = some c) (v : Nat → Rat) : raw.equation (i + 1) v =
      (c.adjoin 1 false s.phaseOne.artificials.entries i).form.value v +
        c.bound * v s.phaseOneWidth := by
  have found := covers.constraint i
  rw [hc, Option.map_some] at found
  have within : (c.adjoin 1 false s.phaseOne.artificials.entries i).form.Within s.phaseOneWidth :=
    adjoin_within ((std.within c (List.mem_of_getElem? hc)).mono (Nat.le_add_right _ _))
      (fun e he => (covers.key_bounds he).2) 1 false
  rw [tabulates.equation found (covers.vars ▸ within), covers.vars]
  rfl

/-- Where that artificial variable is zero, it is the equation alone. -/
theorem Covers.equation_own (covers : s.Covers) {i : Nat} {c : Constraint Rat}
    (hc : s.model.constraints[i]? = some c) {v : Nat → Rat}
    (zero : ∀ u, (u, i) ∈ s.phaseOne.artificials.entries → v u = 0) :
    raw.equation (i + 1) v = c.form.value v + c.bound * v s.phaseOneWidth := by
  rw [covers.equation_written std tabulates hc]
  by_cases listed : i ∈ s.phaseOne.artificials.values
  · obtain ⟨u, hu⟩ := IndexMap.mem_values.1 listed
    rw [value_adjoin_of_mem covers.distinct hu, zero u hu, mul_zero, add_zero]
  · rw [adjoin_of_not_mem listed]

theorem Covers.unitIn_written (covers : s.Covers)
    (sized : raw.Sized s.model.constraints.length s.phaseOneWidth) {u i : Nat}
    (hu : (u, i) ∈ s.phaseOne.artificials.entries) : raw.UnitIn (i + 1) u := by
  refine Tableau.unitIn_succ_iff.2 fun k => ?_
  obtain ⟨le, lt⟩ := covers.key_bounds hu
  rw [← sized.equation_unit _ lt.le]
  have unseen {c : Constraint Rat} (hc : s.model.constraints[k]? = some c) :
      c.form.value (unit u) = 0 :=
    LinearForm.value_single_of_le (std.within c (List.mem_of_getElem? hc)) le
  have last : unit u s.phaseOneWidth = 0 := by rw [unit, Pi.single_apply, if_neg lt.ne']
  cases hc : s.model.constraints[k]? with
  | none =>
    have outside := List.getElem?_eq_none_iff.1 hc
    have := ((covers.row i).1 (IndexMap.mem_values.2 ⟨u, hu⟩)).1
    rw [sized.equation_eq_zero (by omega), if_neg (by omega)]
  | some c =>
    by_cases same : k = i
    · subst same
      rw [covers.equation_written std tabulates hc, value_adjoin_of_mem covers.distinct hu,
        unseen hc, last, if_pos rfl, unit, Pi.single_eq_same]
      ring
    · rw [covers.equation_own std tabulates hc, unseen hc, last, if_neg same]
      · ring
      · intro u' hu'
        rw [unit, Pi.single_apply, if_neg]
        rintro rfl
        exact same (IndexMap.row_unique hu' hu)

end Written

/-- The table that is written down for phase one. -/
theorem Covers.auxiliary {m : Model Rat} (covers : s.Covers) (std : m.Standardizes s)
    {costs : List Rat} (priced : s.phaseOne.costs = .ok costs)
    (written : Tableau.ofModel costs s.phaseOne.model = .ok raw) : raw.Auxiliary s := by
  obtain ⟨length, cost⟩ := covers.costs_eq_ok priced
  obtain ⟨raw', written', tabulates⟩ := Tableau.ofModel_eq_ok (by rw [length, covers.vars])
  obtain rfl : raw' = raw := by simpa [written'] using written
  have sized : raw'.Sized s.model.constraints.length s.phaseOneWidth := by
    have := tabulates.sized
    rwa [covers.length, covers.vars] at this
  refine ⟨sized, fun v => ?_, fun i c hc v zero => ?_, fun u i hu => ?_⟩
  · rw [sized.equation_apply, Finset.sum_range_succ, tabulates.cost, cost]
    simp only [tabulates.cost, cost, lt_irrefl, and_false, if_false, zero_mul, add_zero, ite_mul,
      one_mul]
    rw [← Finset.sum_filter]
    apply Finset.sum_congr _ fun _ _ => rfl
    ext j
    simp only [Finset.mem_filter, Finset.mem_range, Finset.mem_Ico]
    omega
  · refine covers.equation_own std tabulates hc fun u hu => ?_
    obtain ⟨le, lt⟩ := covers.key_bounds hu
    exact zero u le lt
  · exact covers.unitIn_written std tabulates sized hu

/-- The first table of phase one has the costs of an auxiliary table cleared
against a list of artificial variables. -/
theorem initialTableau_eq_ok {ε : Rat} {first : Tableau Rat}
    (h : s.phaseOne.initialTableau ε = .ok first) : ∃ costs raw basis,
      s.phaseOne.costs = .ok costs ∧ Tableau.ofModel costs s.phaseOne.model = .ok raw ∧
        s.phaseOne.startBasis = .ok basis ∧ raw.canonicalize ε basis = .ok first := by
  obtain ⟨costs, priced, h⟩ := bind_eq_ok.1 h
  obtain ⟨raw, written, h⟩ := bind_eq_ok.1 h
  obtain ⟨basis, listed, h⟩ := bind_eq_ok.1 h
  exact ⟨costs, raw, basis, priced, written, listed, h⟩

section Start

variable {m : Model Rat} (std : m.Standardizes s) {ε : Rat} {first : Tableau Rat}

include std

/-- The first table of phase one is an auxiliary table in other words. -/
theorem auxiliary_start (h : s.phaseOne.initialTableau ε = .ok first) :
    ∃ raw : Tableau Rat, raw.Auxiliary s ∧ raw.Equivalent first ∧
      first.Sized s.model.constraints.length s.phaseOneWidth := by
  have covers := s.phaseOne_covers
  obtain ⟨costs, raw, basis, priced, written, listed, cleared⟩ := initialTableau_eq_ok h
  have auxiliary := covers.auxiliary std priced written
  have length := (covers.startBasis_eq_ok listed).1
  exact ⟨raw, auxiliary, auxiliary.sized.equivalent_canonicalize length.le cleared,
    (auxiliary.sized.get_canonicalize length.le cleared).1⟩

end Start

/-- The column that starts in the basis for a constraint: its slack or, if it has none, its
artificial variable. -/
inductive StartColumn (s : StandardForm Rat) (i u : Nat) : Prop
  | slack (listed : (u, i) ∈ s.slacks.entries)
  | artificial (uncovered : s.hasSlack i = false)
      (listed : (u, i) ∈ s.phaseOne.artificials.entries)

theorem startColumn_of_artificial {u i : Nat}
    (listed : (u, i) ∈ s.phaseOne.artificials.entries) : s.StartColumn i u := by
  have row := (s.phaseOne_covers.row i).1 (IndexMap.mem_values.2 ⟨u, listed⟩)
  exact .artificial (hasSlack_eq_false_iff.2 row.2) listed

theorem exists_startColumn {i : Nat} (hi : i < s.model.constraints.length) :
    ∃ u, s.StartColumn i u := by
  by_cases slack : i ∈ s.slacks.values
  · obtain ⟨u, listed⟩ := IndexMap.mem_values.1 slack
    exact ⟨u, .slack listed⟩
  · obtain ⟨u, listed⟩ := IndexMap.mem_values.1 ((s.phaseOne_covers.row i).2 ⟨hi, slack⟩)
    exact ⟨u, startColumn_of_artificial listed⟩

namespace StartColumn

variable {m : Model Rat} (std : m.Standardizes s) {i u u' : Nat} (start : s.StartColumn i u)

include std start

theorem bounds : m.vars.length ≤ u ∧ u < s.phaseOneWidth := by
  cases start with
  | slack listed =>
    exact ⟨(std.slack_bounds listed).1, (std.slack_lt listed).trans_le (Nat.le_add_right _ _)⟩
  | artificial _ listed =>
    have := s.phaseOne_covers.key_bounds listed
    exact ⟨std.own_le.trans this.1, this.2⟩

theorem row_lt : i < s.model.constraints.length := by
  cases start with
  | slack listed => exact std.slack_lt_length listed
  | artificial _ listed => exact s.phaseOne_row_lt (IndexMap.mem_values.2 ⟨u, listed⟩)

theorem column_unique (start' : s.StartColumn i u') : u = u' := by
  have apart {v v' : Nat} (slack : (v, i) ∈ s.slacks.entries) (uncovered : s.hasSlack i = false) :
      v = v' :=
    absurd (IndexMap.mem_values.2 ⟨v, slack⟩) (hasSlack_eq_false_iff.1 uncovered)
  cases start with
  | slack listed =>
    cases start' with
    | slack listed' => exact IndexMap.key_unique std.slackDistinct listed listed'
    | artificial uncovered _ => exact apart listed uncovered
  | artificial uncovered listed =>
    cases start' with
    | slack listed' => exact (apart listed' uncovered).symm
    | artificial _ listed' => exact IndexMap.key_unique s.phaseOne_covers.distinct listed listed'

end StartColumn

/-- A column belongs to a variable of the model, to the start of the basis, or to a surplus. -/
theorem startColumn_cases {m : Model Rat} (std : m.Standardizes s) {j : Nat}
    (hj : j < s.phaseOneWidth) : j < m.vars.length ∨ (∃ i, s.StartColumn i j) ∨
      ∃ i, (j, i) ∈ s.surpluses.entries := by
  by_cases old : j < s.model.vars.length
  · exact (std.column_cases old).imp_right (Or.imp_left (Exists.imp fun _ => .slack))
  · obtain ⟨i, listed⟩ := s.phaseOne_covers.key_of_bounds (Nat.not_lt.1 old) hj
    exact .inr (.inl ⟨i, startColumn_of_artificial listed⟩)

/-- The equations of a standard form, solved for the columns that start in the basis. -/
structure OnStartBasis (s : StandardForm Rat) (t : Tableau Rat) : Prop where
  carries : t.Carries s s.phaseOneWidth
  unit : ∀ i u, s.StartColumn i u → t.UnitColumn (i + 1) u

theorem OnStartBasis.feasibleBasis {m : Model Rat} {t : Tableau Rat} (start : s.OnStartBasis t)
    (std : m.Standardizes s) : ∃ basic,
      t.FeasibleBasis s.model.constraints.length s.phaseOneWidth basic fun _ => False := by
  refine Tableau.FeasibleBasis.exists_of_columns start.carries.sized (fun i hi => ?_)
    fun i _ => start.carries.side_nonneg std i
  obtain ⟨u, column⟩ := exists_startColumn hi
  have unit := start.unit i u column
  exact ⟨u, (column.bounds std).2, unit.unitIn, .inl (unit 0)⟩

section Start

variable {m : Model Rat} (std : m.Standardizes s) (indexed : m.Indexed) {ε : Rat}
  {first : Tableau Rat}

include std indexed

/-- The costs of the first table of phase one are cleared below any tolerance that is less than
the cost of an artificial variable. -/
theorem onStartBasis_start (small : ε < 1) (h : s.phaseOne.initialTableau ε = .ok first) :
    s.OnStartBasis first := by
  have covers := s.phaseOne_covers
  obtain ⟨costs, raw, basis, priced, written, listed, cleared⟩ := initialTableau_eq_ok h
  have auxiliary := covers.auxiliary std priced written
  obtain ⟨length, placed⟩ := covers.startBasis_eq_ok listed
  obtain ⟨sized, rows, _⟩ := auxiliary.sized.get_canonicalize length.le cleared
  have unitIn {i c : Nat} (unit : raw.UnitIn (i + 1) c) : first.UnitIn (i + 1) c := by
    simpa only [Tableau.unitIn_succ_iff, rows] using unit
  refine ⟨(auxiliary.carries std).of_rows sized rows, fun i u start => ?_⟩
  have cost := auxiliary.get_cost (start.bounds std).2.le
  cases start with
  | slack slack =>
    -- The row of a slack is not listed, so nothing is taken off its column.
    have unlisted (c : Nat) : basis[i]? ≠ some (some c) := by
      intro found
      have artificial := IndexMap.mem_values.2 ⟨c, (placed i c).1 found⟩
      exact ((covers.row i).1 artificial).2 (IndexMap.mem_values.2 ⟨u, slack⟩)
    have unit := (auxiliary.carries std).slack_unitIn std indexed slack
    have kept := auxiliary.sized.canonicalize_keeps length.le cleared unlisted fun k _ =>
      Tableau.unitIn_succ_iff.1 unit k
    have lt := std.slack_lt slack
    rw [if_neg (by omega)] at cost
    exact (unitIn unit).unitColumn (Nat.succ_pos i) (kept.trans cost)
  | artificial _ artificial =>
    have bounds := covers.key_bounds artificial
    have unit := auxiliary.artificial u i artificial
    have taken := auxiliary.sized.get_canonicalize_listed length.le cleared
      ((placed i u).2 artificial) bounds.2 fun k _ => Tableau.unitIn_succ_iff.1 unit k
    rw [if_pos bounds] at cost
    rw [cost, abs_one, if_neg (not_le.2 small)] at taken
    exact (unitIn unit).unitColumn (Nat.succ_pos i) taken

end Start

/-- What phase one keeps: an auxiliary table in other words, with a feasible basis. -/
structure InPhaseOne (s : StandardForm Rat) (t : Tableau Rat) : Prop where
  auxiliary : ∃ raw : Tableau Rat, raw.Auxiliary s ∧ raw.Equivalent t
  basis : ∃ basic, t.FeasibleBasis s.model.constraints.length s.phaseOneWidth basic fun _ => False

theorem inPhaseOne_start {m : Model Rat} {first : Tableau Rat} (std : m.Standardizes s)
    (indexed : m.Indexed) (h : s.phaseOne.initialTableau 0 = .ok first) : s.InPhaseOne first := by
  obtain ⟨raw, auxiliary, same, _⟩ := auxiliary_start std h
  exact ⟨⟨raw, auxiliary, same⟩, (onStartBasis_start std indexed zero_lt_one h).feasibleBasis std⟩

namespace InPhaseOne

variable {t u : Tableau Rat} (inside : s.InPhaseOne t)

include inside

theorem pivot_move {e : Exchange Rat} (move : t.move 0 = .ok (.pivot e u)) : s.InPhaseOne u := by
  obtain ⟨⟨raw, auxiliary, same⟩, _, basis⟩ := inside
  obtain ⟨_, next⟩ := basis.sized.pivot_move le_rfl move
  exact ⟨⟨raw, auxiliary, same.trans next⟩, _, basis.pivot_move move⟩

theorem reaches (reaches : t.Reaches 0 u) : s.InPhaseOne u :=
  reaches.invariant (fun _ _ _ inside move => inside.pivot_move move) inside

end InPhaseOne

end StandardForm

/-- The basic solution has the artificial variables add up to minus what row 0 shows. -/
theorem Tableau.Auxiliary.sum_basicPoint {s : StandardForm Rat} {raw t : Tableau Rat} {k : Nat}
    {basic : Nat → Nat} (auxiliary : raw.Auxiliary s) (same : raw.Equivalent t)
    (basis : t.FeasibleBasis k s.phaseOneWidth basic fun _ => False) :
    ∑ j ∈ Finset.Ico s.model.vars.length s.phaseOneWidth,
      t.basicPoint k s.phaseOneWidth basic j = -t.get 0 s.phaseOneWidth := by
  rw [← basis.point_price fun _ => id, ← same.symm.price basis.point_vanishes, auxiliary.price]
  apply Finset.sum_congr rfl
  intro j hj
  exact (Function.update_of_ne (Finset.mem_Ico.1 hj).2.ne _ _).symm

end LinearProgram
