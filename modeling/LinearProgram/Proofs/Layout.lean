import Mathlib
import LinearProgram.Proofs.Calls
import LinearProgram.Proofs.Certificates
import LinearProgram.Proofs.Projection

/-!
# The layout of the standard form

The variables of the solver are appended in three passes over the constraints: slacks, then
surpluses, then artificial variables. All later readings of columns rely on where they
are put and on the maps that record them.

* `OccursOnce`: a variable with one term in one constraint; `Adjoins.occursOnce`: new
  variables are of this kind, `OccursOnce.adjoins`: and stay so in later passes;
* `rowsOf`: the constraints of one relation, once no bound is negative;
* `StandardForm.Layout`, `PhaseOne.Layout`: where everything is in the standard form and
  in the auxiliary problem;
* `size_slacks_add`: every constraint has either a slack or an artificial variable;
* `standardForm_layout`: all of it for every model; `mixedRows_layout` for one;
* `auxiliary_names_new`: no two variables share a name, however the model's own ones are
  called; `clashingNames_new` for a model that clashes with what the solver would choose.
-/

namespace LinearProgram

section NewTerms

variable {α : Type} {κ : α} {entries : List (Nat × Nat)} {u i : Nat}

theorem filter_newTerms (distinct : (entries.map Prod.fst).Nodup) (listed : (u, i) ∈ entries)
    (k : Nat) :
    (newTerms κ entries k).filter (·.index == u) = if k = i then [⟨u, κ⟩] else [] := by
  have own : entries.filter (·.1 == u) = [(u, i)] := filter_eq_singleton distinct listed
  rw [newTerms, List.filter_map]
  change ((entries.filter (·.2 == k)).filter (·.1 == u)).map _ = _
  rw [List.filter_comm, own]
  by_cases same : i = k
  · simp [same]
  · simp [same, Ne.symm same]

theorem newTerms_index {n : Nat} (behind : ∀ e ∈ entries, n ≤ e.1) {k : Nat} {t : Term α}
    (ht : t ∈ newTerms κ entries k) : n ≤ t.index := by
  obtain ⟨e, he, rfl⟩ := List.mem_map.1 ht
  exact behind e (List.mem_of_mem_filter he)

end NewTerms

theorem LinearForm.Within.filter_eq_nil {α : Type} {n u : Nat} {f : LinearForm α}
    (within : f.Within n) (le : n ≤ u) : f.terms.filter (·.index == u) = [] := by
  rw [List.filter_eq_nil_iff]
  intro t ht same
  have := within t ht
  have := beq_iff_eq.1 same
  omega

namespace Model

/-- The variable has one term in one of the constraints and no other term. -/
structure OccursOnce {α : Type} (m : Model α) (u i : Nat) (κ : α) : Prop where
  inside : i < m.constraints.length
  terms : ∀ k c, m.constraints[k]? = some c →
    c.form.terms.filter (·.index == u) = if k = i then [⟨u, κ⟩] else []
  objective : ∀ o ∈ m.objective, ∀ t ∈ o.form.terms, t.index ≠ u

section Adjoins

variable {α : Type} {m m' : Model α} {κ κ' : α} {closes : Bool} {entries : List (Nat × Nat)}
  (h : Adjoins κ closes m m' entries) {u i : Nat}

include h

theorem Adjoins.occursOnce (indexed : m.Indexed) (listed : (u, i) ∈ entries)
    (inside : i < m.constraints.length) : m'.OccursOnce u i κ := by
  have behind := (h.key_lt listed).1
  have distinct : (entries.map Prod.fst).Nodup := by
    rw [h.keys]
    exact List.nodup_range'
  refine ⟨by rwa [h.length], fun k c hc => ?_, fun o ho t ht => ?_⟩
  · rw [h.constraint] at hc
    obtain ⟨c', hc', rfl⟩ := Option.map_eq_some_iff.1 hc
    have within := indexed.within c' (List.mem_of_getElem? hc')
    rw [Constraint.adjoin, List.filter_append, within.filter_eq_nil behind,
      filter_newTerms distinct listed, List.nil_append]
  · rw [h.objective] at ho
    exact ((indexed.objective o ho t ht).trans_le behind).ne

/-- New variables leave the terms of older ones alone. -/
theorem Adjoins.filter_old {p : Nat → Bool} (old : ∀ j, p j = true → j < m.vars.length)
    (c : Constraint α) (k : Nat) :
    (c.adjoin κ closes entries k).form.terms.filter (fun t => p t.index) =
      c.form.terms.filter fun t => p t.index := by
  have none : (newTerms κ entries k).filter (fun t => p t.index) = [] := by
    rw [List.filter_eq_nil_iff]
    intro t ht listed
    have := newTerms_index (fun e he => (h.key_lt he).1) ht
    have := old t.index listed
    omega
  rw [Constraint.adjoin, List.filter_append, none, List.append_nil]

theorem OccursOnce.adjoins (once : m.OccursOnce u i κ') (old : u < m.vars.length) :
    m'.OccursOnce u i κ' := by
  refine ⟨by rw [h.length]; exact once.inside, fun k c hc => ?_, fun o ho => ?_⟩
  · rw [h.constraint] at hc
    obtain ⟨c', hc', rfl⟩ := Option.map_eq_some_iff.1 hc
    rw [← once.terms k c' hc']
    refine h.filter_old (p := (· == u)) (fun j same => ?_) c' k
    rwa [beq_iff_eq.1 same]
  · rw [h.objective] at ho
    exact once.objective o ho

/-- New variables carry their positions if the older ones do. -/
theorem Adjoins.position (position : m.vars.map Variable.index = List.range m.vars.length) :
    m'.vars.map Variable.index = List.range m'.vars.length := by
  have behind : List.range' m.vars.length entries.length =
      List.range' (0 + m.vars.length) entries.length := by rw [Nat.zero_add]
  rw [h.indices, position, h.keys, h.vars, List.range_eq_range', List.range_eq_range', behind,
    List.range'_append_1]

end Adjoins

theorem WellFormed.map_index {α : Type} {m : Model α} (h : m.WellFormed) :
    m.vars.map Variable.index = List.range m.vars.length := by
  apply List.ext_getElem
  · simp
  · intro i inside _
    rw [List.getElem_map, List.getElem_range]
    exact h.position i _ (List.getElem?_eq_getElem (by simpa using inside))

theorem Built.wellFormed {α : Type} [Scalar α] {m : Model α} (built : m.Built) : m.WellFormed := by
  obtain ⟨name, calls, rfl⟩ := built_iff_afterAll.1 built
  exact (WellFormed.empty name).afterAll calls

/-- The constraints that have a relation when no bound is negative, in their order. -/
def rowsOf (m : Model Rat) (r : Relation) : List Nat :=
  (List.range m.constraints.length).filter fun i =>
    (m.constraints[i]?).any (·.unsignedRelation == r)

theorem indicesOf_normalized {m : Model Rat} (indexed : m.Indexed) (r : Relation) :
    m.normalized.indicesOf r = m.rowsOf r := by
  rw [indicesOf_eq_filter (normalized_indexed indexed).index, rowsOf, normalized_constraints,
    List.length_map]
  refine List.filter_congr fun i _ => ?_
  rw [List.getElem?_map, Option.any_map]
  simp only [Constraint.normalized_relation]

end Model

/-- The constraint is a given one, of a model with `n` variables, as an equation. On these
variables it is the given one simplified, with other signs if its bound had one. -/
structure Constraint.EquationOf (n : Nat) (c c' : Constraint Rat) : Prop where
  index : c'.index = c.index
  relation : c'.relation = .equal
  bound : c'.bound = |c.bound|
  own : c'.form.terms.filter (·.index < n) = c.normalized.form.terms

/-- Where the parts of a model are in its standard form. -/
structure StandardForm.Layout (s : StandardForm Rat) (m : Model Rat) : Prop where
  name : s.model.name = m.name
  vars : m.vars <+: s.model.vars
  width : s.model.vars.length = m.vars.length + m.inequalities
  position : s.model.vars.map Variable.index = List.range s.model.vars.length
  size : s.slacks.size + s.surpluses.size = m.inequalities
  slackKeys : s.slacks.keys = List.range' m.vars.length s.slacks.size
  surplusKeys : s.surpluses.keys = List.range' (m.vars.length + s.slacks.size) s.surpluses.size
  slackRows : s.slacks.values = m.rowsOf .atMost
  surplusRows : s.surpluses.values = m.rowsOf .atLeast
  keysApart : s.slacks.keys.Disjoint s.surpluses.keys
  rowsApart : s.slacks.values.Disjoint s.surpluses.values
  slackOnce : ∀ u i, (u, i) ∈ s.slacks.entries → s.model.OccursOnce u i 1
  surplusOnce : ∀ u i, (u, i) ∈ s.surpluses.entries → s.model.OccursOnce u i (-1)
  length : s.model.constraints.length = m.constraints.length
  index : ∀ (i : Nat) (c : Constraint Rat), s.model.constraints[i]? = some c → c.index = i
  constraint : ∀ (i : Nat) (c : Constraint Rat), m.constraints[i]? = some c →
    ∃ c', s.model.constraints[i]? = some c' ∧ c.EquationOf m.vars.length c'
  objective : ∀ o ∈ s.model.objective, o.sense = .maximize
  absent : s.model.objective = none ↔ m.objective = none

/-- What phase one adds to the standard form, and that this is all. -/
structure PhaseOne.Layout (p : PhaseOne Rat) (s : StandardForm Rat) : Prop where
  name : p.model.name = s.model.name
  objective : p.model.objective = s.model.objective
  vars : s.model.vars <+: p.model.vars
  width : p.model.vars.length = s.model.vars.length + p.artificials.size
  position : p.model.vars.map Variable.index = List.range p.model.vars.length
  keys : p.artificials.keys = List.range' s.model.vars.length p.artificials.size
  rows : p.artificials.values =
    (List.range s.model.constraints.length).filter fun i => !s.hasSlack i
  once : ∀ u i, (u, i) ∈ p.artificials.entries → p.model.OccursOnce u i 1
  length : p.model.constraints.length = s.model.constraints.length
  uncovered : ∀ (u i : Nat) (c : Constraint Rat), (u, i) ∈ p.artificials.entries →
    s.model.constraints[i]? = some c →
      p.model.constraints[i]? = some { c with form := c.form.addTerm u 1 }
  covered : ∀ i, s.hasSlack i = true → p.model.constraints[i]? = s.model.constraints[i]?

section Layout

variable {m : Model Rat} {s : StandardForm Rat}

namespace Model.Standardizes

variable (std : m.Standardizes s)

include std

theorem keys_disjoint : s.slacks.keys.Disjoint s.surpluses.keys := by
  intro u slackKey surplusKey
  obtain ⟨i, slack⟩ := IndexMap.mem_keys.1 slackKey
  obtain ⟨i', surplus⟩ := IndexMap.mem_keys.1 surplusKey
  have := (std.slack_bounds slack).2
  have := (std.surplus_bounds surplus).1
  omega

theorem rows_disjoint : s.slacks.values.Disjoint s.surpluses.values := by
  intro i slackRow surplusRow
  obtain ⟨c, hc, atMost⟩ := (std.slackRow i).1 slackRow
  obtain ⟨c', hc', atLeast⟩ := (std.surplusRow i).1 surplusRow
  obtain rfl : c = c' := Option.some.inj (hc.symm.trans hc')
  exact nomatch atMost.symm.trans atLeast

theorem objective_sense : ∀ o ∈ s.model.objective, o.sense = .maximize := by
  intro o ho
  rw [std.objective] at ho
  cases objective : m.objective with
  | none => simp [normalized, simplify, objective] at ho
  | some o' =>
    obtain ⟨o'', found, sense, -⟩ := normalized_objective objective
    rw [found] at ho
    exact Option.some.inj ho ▸ sense

theorem objective_eq_none : s.model.objective = none ↔ m.objective = none := by
  rw [std.objective]
  simp [normalized, simplify]

end Model.Standardizes

theorem Model.standardForm_constraint (indexed : m.Indexed) (standard : m.standardForm = .ok s)
    {i : Nat} {c : Constraint Rat} (hc : m.constraints[i]? = some c) :
    ∃ c', s.model.constraints[i]? = some c' ∧ c.EquationOf m.vars.length c' := by
  obtain ⟨slackened, slack, -, surplus, -⟩ := standardForm_adjoins standard
  have here : s.model.constraints[i]? = some
      ((c.normalized.adjoin 1 true s.slacks.entries i).adjoin (-1) true s.surpluses.entries i) := by
    rw [surplus.constraint, slack.constraint, normalized_constraints, List.getElem?_map, hc]
    rfl
  have relation := standardForm_equations indexed standard _ (List.mem_of_getElem? here)
  have within := c.normalized_within (indexed.within c (List.mem_of_getElem? hc))
  refine ⟨_, here, c.normalized_index, relation, c.normalized_bound, ?_⟩
  rw [surplus.filter_old (p := fun j => j < m.vars.length),
    slack.filter_old (p := fun j => j < m.vars.length), List.filter_eq_self]
  · exact fun t ht => decide_eq_true (within t ht)
  · exact fun j own => of_decide_eq_true own
  · exact fun j own => (of_decide_eq_true own).trans_le slack.own.length_le

/-- Slacks and surpluses are added one pass after the other. -/
theorem Model.standardForm_once (indexed : m.Indexed) (standard : m.standardForm = .ok s) :
    (∀ u i, (u, i) ∈ s.slacks.entries → s.model.OccursOnce u i 1) ∧
      ∀ u i, (u, i) ∈ s.surpluses.entries → s.model.OccursOnce u i (-1) := by
  obtain ⟨slackened, slack, -, surplus, -⟩ := standardForm_adjoins standard
  have std := standardForm_standardizes indexed standard
  have normal := normalized_indexed indexed
  constructor
  · intro u i listed
    have inside := std.slack_lt_length listed
    rw [surplus.length, slack.length] at inside
    exact (slack.occursOnce normal listed inside).adjoins surplus (slack.key_lt listed).2
  · intro u i listed
    have inside := std.surplus_lt_length listed
    rw [surplus.length] at inside
    exact surplus.occursOnce (normal.adjoins slack) listed inside

theorem Model.standardForm_laidOut (built : m.Built) (standard : m.standardForm = .ok s) :
    s.Layout m := by
  have indexed := built.indexed
  have std := standardForm_standardizes indexed standard
  obtain ⟨slackened, slack, -, surplus, -⟩ := standardForm_adjoins standard
  obtain ⟨slackRows, surplusRows⟩ := standardForm_values indexed standard
  obtain ⟨slackOnce, surplusOnce⟩ := standardForm_once indexed standard
  have width := length_standardForm indexed standard
  have size : s.slacks.size + s.surpluses.size = m.inequalities := by
    have := std.vars
    rw [IndexMap.size, IndexMap.size]
    omega
  exact
    { name := surplus.name.trans slack.name
      vars := slack.own.trans surplus.own
      width := width
      position := surplus.position (slack.position built.wellFormed.map_index)
      size := size
      slackKeys := std.slackKeys
      surplusKeys := std.surplusKeys
      slackRows := slackRows.trans (indicesOf_normalized indexed _)
      surplusRows := surplusRows.trans (indicesOf_normalized indexed _)
      keysApart := std.keys_disjoint
      rowsApart := std.rows_disjoint
      slackOnce := slackOnce
      surplusOnce := surplusOnce
      length := std.length
      index := (standardForm_indexed indexed standard).index
      constraint := fun _ _ => standardForm_constraint indexed standard
      objective := std.objective_sense
      absent := std.objective_eq_none }

theorem StandardForm.phaseOne_laidOut (indexed : s.model.Indexed)
    (position : s.model.vars.map Variable.index = List.range s.model.vars.length) :
    s.phaseOne.Layout s := by
  obtain ⟨adjoins, rows⟩ := s.phaseOne_adjoins
  have covers := s.phaseOne_covers
  refine
    { name := adjoins.name
      objective := adjoins.objective
      vars := adjoins.own
      width := adjoins.vars
      position := adjoins.position position
      keys := adjoins.keys
      rows := rows
      once := fun u i listed => adjoins.occursOnce indexed listed ?_
      length := adjoins.length
      uncovered := fun u i c listed hc => ?_
      covered := fun i slack => ?_ }
  · exact s.phaseOne_row_lt (IndexMap.mem_values.2 ⟨u, listed⟩)
  · rw [adjoins.constraint, hc, Option.map_some, Constraint.adjoin, newTerms,
      filter_rows_of_mem covers.distinct listed]
    rfl
  · have unlisted : i ∉ s.phaseOne.artificials.entries.map Prod.snd := by
      intro listed
      have uncovered : i ∈ s.uncovered := rows ▸ listed
      simpa [slack] using (List.mem_filter.1 uncovered).2
    rw [adjoins.constraint]
    cases s.model.constraints[i]? with
    | none => rfl
    | some c => rw [Option.map_some, adjoin_of_not_mem unlisted]

/-- Every constraint has either a slack or an artificial variable. -/
theorem StandardForm.Layout.size_slacks_add (layout : s.Layout m) :
    s.slacks.size + s.phaseOne.artificials.size = s.model.constraints.length := by
  have slack (i : Nat) (hi : i ∈ List.range s.model.constraints.length) :
      s.hasSlack i = (m.constraints[i]?).any (·.unsignedRelation == .atMost) := by
    rw [hasSlack, layout.slackRows, Model.rowsOf, ← layout.length, List.contains_eq_mem]
    simp [List.mem_range.1 hi]
  rw [← IndexMap.length_values, ← IndexMap.length_values, layout.slackRows, s.phaseOne_adjoins.2,
    Model.rowsOf, uncovered, ← layout.length, ← List.filter_congr slack,
    ← List.length_eq_length_filter_add, List.length_range]

/-- Every model that is built has a standard form with this layout, and phase one extends it
by the artificial variables only. Phase one is needed exactly if there are any. -/
theorem Model.standardForm_layout (built : m.Built) : ∃ s, m.standardForm = .ok s ∧ s.Layout m ∧
    s.phaseOne.Layout s ∧ (s.needsPhaseOne = true ↔ s.phaseOne.artificials.entries ≠ []) := by
  have indexed := built.indexed
  obtain ⟨s, standard⟩ := exists_standardForm indexed
  have layout := standardForm_laidOut built standard
  refine ⟨s, standard, layout, s.phaseOne_laidOut (standardForm_indexed indexed standard)
    layout.position, ?_⟩
  rw [StandardForm.needsPhaseOne, decide_eq_true_iff, ← layout.size_slacks_add,
    Nat.lt_add_right_iff_pos, IndexMap.size, List.length_pos_iff]

end Layout

/-- The lower bound of minus two is turned around, so that its constraint gets a slack, the
second one a surplus and the last two artificial variables. -/
theorem mixedRows_layout : mixedRows.Built ∧ ∃ s, mixedRows.standardForm = .ok s ∧
    s.slacks.keys = [2] ∧ s.slacks.values = [0] ∧ s.surpluses.keys = [3] ∧
    s.surpluses.values = [1] ∧ s.phaseOne.artificials.keys = [4, 5] ∧
    s.phaseOne.artificials.values = [1, 2] ∧ s.needsPhaseOne = true := by
  have built : mixedRows.Built := Model.built_of_rebuilt rfl
  obtain ⟨s, standard, layout, phaseOne, needed⟩ := Model.standardForm_layout built
  have slackRows : s.slacks.values = [0] := layout.slackRows.trans (by decide +kernel)
  have surplusRows : s.surpluses.values = [1] := layout.surplusRows.trans (by decide +kernel)
  have artificialRows : s.phaseOne.artificials.values = [1, 2] := by
    have rows := phaseOne.rows
    simp only [StandardForm.hasSlack, slackRows, layout.length] at rows
    exact rows
  have slackSize := s.slacks.length_values.symm.trans (congrArg List.length slackRows)
  have surplusSize := s.surpluses.length_values.symm.trans (congrArg List.length surplusRows)
  have artificialSize :=
    s.phaseOne.artificials.length_values.symm.trans (congrArg List.length artificialRows)
  refine ⟨built, s, standard, ?_, slackRows, ?_, surplusRows, ?_, artificialRows, ?_⟩
  · rw [layout.slackKeys, slackSize]
    rfl
  · rw [layout.surplusKeys, slackSize, surplusSize]
    rfl
  · rw [phaseOne.keys, layout.width, artificialSize]
    rfl
  · refine needed.2 fun none => ?_
    simp [IndexMap.size, none] at artificialSize

section Names

variable {α : Type} [Scalar α]

theorem Model.standardForm_distinct {m : Model α} {s : StandardForm α}
    (standard : m.standardForm = .ok s) (distinct : (m.vars.map Variable.name).Nodup) :
    (s.model.vars.map Variable.name).Nodup := by
  obtain ⟨slackened, slack, -, surplus, -⟩ := standardForm_adjoins standard
  exact surplus.distinct (slack.distinct distinct)

/-- In every model, the loop that looks for the name of a new variable ends, after no more
primes than there are variables, with a name that no variable has. One variable of this name is
appended, and nothing else happens. So the names of a built model stay different when slacks,
surpluses and artificial variables are added to it. -/
theorem Model.auxiliary_names_new :
    (∀ (m : Model α) (label : String) (constraint : Nat), ∃ k name, k ≤ m.vars.length ∧
      Primed (m.vars.map Variable.name) (label ++ toString constraint) k name ∧
      name = label ++ toString constraint ++ primes k ∧ (∀ v ∈ m.vars, v.name ≠ name) ∧
      m.addAuxiliary label constraint =
        ({ m with vars := m.vars ++ [⟨name, m.vars.length⟩] }, ⟨name, m.vars.length⟩)) ∧
    ∀ m : Model α, m.Built → ∃ s, m.standardForm = .ok s ∧
      (s.model.vars.map Variable.name).Nodup ∧
      (s.phaseOne.model.vars.map Variable.name).Nodup := by
  constructor
  · intro m label constraint
    obtain ⟨k, name, le, primed, added⟩ := m.addAuxiliary_eq label constraint
    refine ⟨k, name, le, primed, primed.eq_append, fun v hv same => ?_, added⟩
    exact primed.not_mem (List.mem_map.2 ⟨v, hv, same⟩)
  · intro m built
    obtain ⟨s, standard⟩ := exists_standardForm built.indexed
    have distinct := standardForm_distinct standard built.wellFormed.distinct
    exact ⟨s, standard, distinct, s.phaseOne_adjoins.1.distinct distinct⟩

/-- Its names are those the solver would choose first for its constraints, and one more. -/
def clashingNames : Model Rat :=
  ⟨"clashing names", [⟨"s0", 0⟩, ⟨"s0'", 1⟩, ⟨"R1", 2⟩],
    [⟨⟨[⟨0, 1⟩]⟩, .atMost, 4, 0⟩, ⟨⟨[⟨1, 1⟩, ⟨2, 1⟩]⟩, .equal, 3, 1⟩],
    some ⟨⟨[⟨0, 1⟩]⟩, .maximize⟩⟩

/-- The slack gets two primes and the artificial variable one. -/
theorem clashingNames_new : clashingNames.Built ∧
    (∃ k ≤ 3, Model.Primed ["s0", "s0'", "R1"] "s0" k "s0''") ∧
    ∃ s, clashingNames.standardForm = .ok s ∧
      s.phaseOne.model.vars.map Variable.name = ["s0", "s0'", "R1", "s0''", "R1'"] ∧
      (s.phaseOne.model.vars.map Variable.name).Nodup := by
  have built : clashingNames.Built := Model.built_of_rebuilt rfl
  obtain ⟨loop, distinct⟩ := Model.auxiliary_names_new (α := Rat)
  obtain ⟨k, name, le, primed, _, _, added⟩ := loop clashingNames "s" 0
  obtain rfl : name = "s0''" :=
    (congrArg (fun e => e.2.name) added).symm.trans (by decide +kernel)
  obtain ⟨s, standard, _, different⟩ := distinct clashingNames built
  obtain ⟨s', standard', names⟩ := exists_ok_of_map (x := clashingNames.standardForm)
    (f := fun s => s.phaseOne.model.vars.map Variable.name)
    (c := ["s0", "s0'", "R1", "s0''", "R1'"]) (by decide +kernel)
  obtain rfl : s = s' := Except.ok.inj (standard.symm.trans standard')
  exact ⟨built, ⟨k, le, primed⟩, s, standard, names, different⟩

end Names

end LinearProgram
