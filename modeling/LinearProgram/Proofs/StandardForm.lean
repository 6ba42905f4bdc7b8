import Mathlib
import LinearProgram.Proofs.Adjoining

/-!
# Standard form keeps the problem

* `standardForm_values`: which constraints get a slack or a surplus, in their order;
* `Standardizes`, `standardForm_standardizes`: the standard form has the
  normalised constraints in their places, each turned into an equation as
  `Closes` says: by its slack, by its surplus, or already one;
* `extend`: a point with the gaps of the inequalities as slacks and surpluses;
  `extend_solves` and `extend_nonneg` for feasible points;
* `feasible_of_solves`: non-negative solutions of the equations are feasible on
  the model's own variables.
-/

namespace LinearProgram

open LinearForm (valuation)

/-- Where no two items of a list have the same image, one is found by its own. -/
theorem filter_eq_singleton {β γ : Type} [BEq γ] [LawfulBEq γ] {f : β → γ} {xs : List β} {x : β}
    (distinct : (xs.map f).Nodup) (h : x ∈ xs) : xs.filter (f · == f x) = [x] := by
  induction xs with
  | nil => exact nomatch h
  | cons y rest ih =>
    rw [List.map_cons, List.nodup_cons] at distinct
    obtain ⟨new, distinct⟩ := distinct
    rcases List.mem_cons.1 h with rfl | later
    · have none : rest.filter (f · == f x) = [] := by
        rw [List.filter_eq_nil_iff]
        intro z hz same
        exact new (List.mem_map.2 ⟨z, hz, beq_iff_eq.1 same⟩)
      rw [List.filter_cons_of_pos (by simp), none]
    · have different : f y ≠ f x := fun same => new (List.mem_map.2 ⟨_, later, same.symm⟩)
      rw [List.filter_cons_of_neg (by simpa using different), ih distinct later]

section NewTerms

variable {entries : List (Nat × Nat)} {u i : Nat}

theorem filter_rows_of_mem (distinct : (entries.map Prod.snd).Nodup) (h : (u, i) ∈ entries) :
    entries.filter (·.2 == i) = [(u, i)] := filter_eq_singleton distinct h

theorem filter_rows_of_not_mem (h : i ∉ entries.map Prod.snd) :
    entries.filter (·.2 == i) = [] := by
  rw [List.filter_eq_nil_iff]
  intro e he same
  exact h (List.mem_map.2 ⟨e, he, beq_iff_eq.1 same⟩)

theorem value_adjoin_of_mem (distinct : (entries.map Prod.snd).Nodup) (h : (u, i) ∈ entries)
    (c : Constraint Rat) (κ : Rat) (closes : Bool) (v : Nat → Rat) :
    (c.adjoin κ closes entries i).form.value v = c.form.value v + κ * v u := by
  rw [← LinearForm.value_addTerm, Constraint.adjoin, newTerms, filter_rows_of_mem distinct h]
  rfl

theorem adjoin_of_not_mem (h : i ∉ entries.map Prod.snd) {α : Type} (c : Constraint α) (κ : α)
    (closes : Bool) : c.adjoin κ closes entries i = c := by
  have none : entries.any (·.2 == i) = false := by
    rw [List.any_eq_false]
    intro e he same
    exact h (List.mem_map.2 ⟨e, he, beq_iff_eq.1 same⟩)
  simp [Constraint.adjoin, newTerms, filter_rows_of_not_mem h, none]

theorem adjoin_within {n : Nat} {c : Constraint Rat} (within : c.form.Within n)
    (inside : ∀ e ∈ entries, e.1 < n) (κ : Rat) (closes : Bool) :
    (c.adjoin κ closes entries i).form.Within n := by
  intro t ht
  rcases List.mem_append.1 ht with old | new
  · exact within t old
  · obtain ⟨e, he, rfl⟩ := List.mem_map.1 new
    exact inside e (List.mem_of_mem_filter he)

end NewTerms

namespace Model

theorem Adjoins.key_lt {α : Type} {m m' : Model α} {κ : α} {closes : Bool}
    {entries : List (Nat × Nat)} (h : Adjoins κ closes m m' entries) {e : Nat × Nat}
    (he : e ∈ entries) : m.vars.length ≤ e.1 ∧ e.1 < m'.vars.length := by
  have key : e.1 ∈ entries.map Prod.fst := List.mem_map.2 ⟨e, he, rfl⟩
  rw [h.keys, List.mem_range'_1] at key
  rw [h.vars]
  exact key

/-- Constraints carry their positions as before. -/
theorem Adjoins.index {α : Type} {m m' : Model α} {κ : α} {closes : Bool}
    {entries : List (Nat × Nat)} (h : Adjoins κ closes m m' entries)
    (index : ∀ (i : Nat) (c : Constraint α), m.constraints[i]? = some c → c.index = i) :
    ∀ (i : Nat) (c : Constraint α), m'.constraints[i]? = some c → c.index = i := by
  intro i c hc
  rw [h.constraint] at hc
  obtain ⟨c', hc', rfl⟩ := Option.map_eq_some_iff.1 hc
  exact index i c' hc'

theorem Indexed.adjoins {m m' : Model Rat} {κ : Rat} {closes : Bool} {entries : List (Nat × Nat)}
    (indexed : m.Indexed) (h : Adjoins κ closes m m' entries) : m'.Indexed := by
  have wider : m.vars.length ≤ m'.vars.length := h.own.length_le
  refine ⟨h.index indexed.index, fun c hc => ?_, fun o ho => ?_⟩
  · obtain ⟨i, hi⟩ := List.getElem?_of_mem hc
    rw [h.constraint] at hi
    obtain ⟨c', hc', rfl⟩ := Option.map_eq_some_iff.1 hi
    have within := indexed.within c' (List.mem_of_getElem? hc')
    exact adjoin_within (within.mono wider) (fun e he => (h.key_lt he).2) κ closes
  · rw [h.objective] at ho
    exact (indexed.objective o ho).mono wider

section Indices

variable {α : Type} {m : Model α}
  (index : ∀ (i : Nat) (c : Constraint α), m.constraints[i]? = some c → c.index = i)

include index

theorem mem_indicesOf {r : Relation} {i : Nat} :
    i ∈ m.indicesOf r ↔ ∃ c, m.constraints[i]? = some c ∧ c.relation = r := by
  rw [indicesOf, List.mem_map]
  constructor
  · rintro ⟨c, hc, rfl⟩
    obtain ⟨mem, relation⟩ := List.mem_filter.1 hc
    obtain ⟨j, hj⟩ := List.getElem?_of_mem mem
    exact ⟨c, by rw [index j c hj, hj], beq_iff_eq.1 relation⟩
  · rintro ⟨c, hc, relation⟩
    exact ⟨c, List.mem_filter.2 ⟨List.mem_of_getElem? hc, by simp [relation]⟩, index i c hc⟩

/-- The indices come in the order of the constraints. -/
theorem indicesOf_eq_filter (r : Relation) :
    m.indicesOf r = (List.range m.constraints.length).filter fun i =>
      (m.constraints[i]?).any (·.relation == r) := by
  have positions : m.constraints.map Constraint.index = List.range m.constraints.length := by
    apply List.ext_getElem
    · simp
    · intro i h _
      rw [List.getElem_map, List.getElem_range]
      exact index i _ (List.getElem?_eq_getElem (by simpa using h))
  rw [indicesOf, ← positions, List.filter_map]
  congr 1
  refine List.filter_congr fun c hc => ?_
  obtain ⟨i, hi⟩ := List.getElem?_of_mem hc
  rw [Function.comp_apply, index i c hi, hi, Option.any_some]

theorem nodup_indicesOf (r : Relation) : (m.indicesOf r).Nodup := by
  rw [indicesOf_eq_filter index]
  exact List.nodup_range.filter _

end Indices

end Model

/-- How the constraint at a position of the normalised model was turned into an
equation of the standard form. -/
inductive StandardForm.Closes (s : StandardForm Rat) (i : Nat) (c c' : Constraint Rat) : Prop
  | atMost {u : Nat} (relation : c.relation = .atMost) (slack : (u, i) ∈ s.slacks.entries)
      (value : ∀ v, c'.form.value v = c.form.value v + v u)
  | atLeast {u : Nat} (relation : c.relation = .atLeast) (surplus : (u, i) ∈ s.surpluses.entries)
      (value : ∀ v, c'.form.value v = c.form.value v - v u)
  | equal (relation : c.relation = .equal) (value : ∀ v, c'.form.value v = c.form.value v)

/-- The standard form of a model. Slack variables come behind the model's own
variables, and surplus variables behind those. -/
structure Model.Standardizes (m : Model Rat) (s : StandardForm Rat) : Prop where
  vars : s.model.vars.length =
    m.vars.length + s.slacks.entries.length + s.surpluses.entries.length
  slackKeys : s.slacks.keys = List.range' m.vars.length s.slacks.entries.length
  surplusKeys : s.surpluses.keys =
    List.range' (m.vars.length + s.slacks.entries.length) s.surpluses.entries.length
  slackDistinct : s.slacks.values.Nodup
  surplusDistinct : s.surpluses.values.Nodup
  slackRow : ∀ i, i ∈ s.slacks.values ↔
    ∃ c, m.normalized.constraints[i]? = some c ∧ c.relation = .atMost
  surplusRow : ∀ i, i ∈ s.surpluses.values ↔
    ∃ c, m.normalized.constraints[i]? = some c ∧ c.relation = .atLeast
  objective : s.model.objective = m.normalized.objective
  length : s.model.constraints.length = m.constraints.length
  within : ∀ c ∈ s.model.constraints, c.form.Within s.model.vars.length
  constraint : ∀ i c, m.normalized.constraints[i]? = some c →
    ∃ c', s.model.constraints[i]? = some c' ∧ c'.bound = c.bound ∧ s.Closes i c c'

theorem IndexMap.mem_values {f : IndexMap} {i : Nat} :
    i ∈ f.values ↔ ∃ u, (u, i) ∈ f.entries := by
  rw [values, List.mem_map]
  constructor
  · rintro ⟨⟨u, _⟩, he, rfl⟩
    exact ⟨u, he⟩
  · rintro ⟨u, he⟩
    exact ⟨_, he, rfl⟩

theorem IndexMap.mem_keys {f : IndexMap} {u : Nat} : u ∈ f.keys ↔ ∃ i, (u, i) ∈ f.entries := by
  rw [keys, List.mem_map]
  constructor
  · rintro ⟨⟨_, i⟩, he, rfl⟩
    exact ⟨i, he⟩
  · rintro ⟨i, he⟩
    exact ⟨_, he, rfl⟩

theorem IndexMap.length_values (f : IndexMap) : f.values.length = f.size := List.length_map _

/-- A relation that is not closed stays where it was. -/
theorem Model.Adjoins.relation_ne {α : Type} {m m' : Model α} {κ : α}
    {entries : List (Nat × Nat)} (h : Adjoins κ true m m' entries) {r : Relation} (open_ : r ≠ .equal)
    (closed : ∀ i ∈ entries.map Prod.snd, ∀ c, m.constraints[i]? = some c → c.relation ≠ r)
    (i : Nat) : (∃ c, m'.constraints[i]? = some c ∧ c.relation = r) ↔
      ∃ c, m.constraints[i]? = some c ∧ c.relation = r := by
  rw [h.constraint i]
  cases hc : m.constraints[i]? with
  | none => simp
  | some c =>
    by_cases listed : i ∈ entries.map Prod.snd
    · have different := closed i listed c hc
      have any : entries.any (·.2 == i) = true := by
        obtain ⟨e, he, rfl⟩ := List.mem_map.1 listed
        exact List.any_eq_true.2 ⟨e, he, beq_self_eq_true _⟩
      simp [Constraint.adjoin, any, open_.symm, different]
    · rw [Option.map_some, adjoin_of_not_mem listed]

/-- So its constraints are listed as before. -/
theorem Model.Adjoins.indicesOf_eq {α : Type} {m m' : Model α} {κ : α}
    {entries : List (Nat × Nat)} (h : Adjoins κ true m m' entries)
    (index : ∀ (i : Nat) (c : Constraint α), m.constraints[i]? = some c → c.index = i)
    {r : Relation} (open_ : r ≠ .equal)
    (closed : ∀ i ∈ entries.map Prod.snd, ∀ c, m.constraints[i]? = some c → c.relation ≠ r) :
    m'.indicesOf r = m.indicesOf r := by
  rw [indicesOf_eq_filter (h.index index), indicesOf_eq_filter index, h.length]
  refine List.filter_congr fun i _ => ?_
  rw [Bool.eq_iff_iff, Option.any_eq_true, Option.any_eq_true]
  simpa only [beq_iff_eq] using h.relation_ne open_ closed i

/-- Inequalities with slacks and surpluses added are closed. -/
theorem StandardForm.closes_adjoin {constraints : List (Constraint Rat)} {s : StandardForm Rat}
    (slackRow : ∀ i, i ∈ s.slacks.values ↔ ∃ c, constraints[i]? = some c ∧ c.relation = .atMost)
    (surplusRow : ∀ i, i ∈ s.surpluses.values ↔
      ∃ c, constraints[i]? = some c ∧ c.relation = .atLeast)
    (slackDistinct : s.slacks.values.Nodup) (surplusDistinct : s.surpluses.values.Nodup)
    {i : Nat} {c : Constraint Rat} (hc : constraints[i]? = some c) :
    s.Closes i c ((c.adjoin 1 true s.slacks.entries i).adjoin (-1) true s.surpluses.entries i) := by
  have apart {r : Relation} (relation : c.relation = r) {r' : Relation} (different : r ≠ r') :
      ¬ ∃ c, constraints[i]? = some c ∧ c.relation = r' := by
    rintro ⟨c', hc', relation'⟩
    obtain rfl : c = c' := Option.some.inj (hc.symm.trans hc')
    exact different (relation.symm.trans relation')
  cases relation : c.relation with
  | atMost =>
    obtain ⟨u, hu⟩ := IndexMap.mem_values.1 ((slackRow i).2 ⟨c, hc, relation⟩)
    have noSurplus := mt (surplusRow i).1 (apart relation (by decide))
    refine .atMost relation hu fun v => ?_
    rw [adjoin_of_not_mem noSurplus, value_adjoin_of_mem slackDistinct hu, one_mul]
  | atLeast =>
    obtain ⟨u, hu⟩ := IndexMap.mem_values.1 ((surplusRow i).2 ⟨c, hc, relation⟩)
    have noSlack := mt (slackRow i).1 (apart relation (by decide))
    refine .atLeast relation hu fun v => ?_
    rw [value_adjoin_of_mem surplusDistinct hu, adjoin_of_not_mem noSlack]
    ring
  | equal =>
    have noSlack := mt (slackRow i).1 (apart relation (by decide))
    have noSurplus := mt (surplusRow i).1 (apart relation (by decide))
    refine .equal relation fun v => ?_
    rw [adjoin_of_not_mem noSurplus, adjoin_of_not_mem noSlack]

/-- All slacks are adjoined before all surpluses. -/
theorem Model.standardForm_adjoins {α : Type} [Scalar α] {m : Model α} {s : StandardForm α}
    (h : m.standardForm = .ok s) : ∃ slackened : Model α,
      Adjoins 1 true m.normalized slackened s.slacks.entries ∧
      s.slacks.values = m.normalized.indicesOf .atMost ∧
      Adjoins (-1) true slackened s.model s.surpluses.entries ∧
      s.surpluses.values = slackened.indicesOf .atLeast := by
  obtain ⟨⟨slackened, slacks⟩, first, h⟩ := bind_eq_ok.1 h
  obtain ⟨⟨model, surpluses⟩, second, h⟩ := bind_eq_ok.1 h
  injection h with h
  subst h
  obtain ⟨slack, slackRows⟩ := equalizeAll_adjoins first
  obtain ⟨surplus, surplusRows⟩ := equalizeAll_adjoins second
  exact ⟨slackened, slack, slackRows, surplus, surplusRows⟩

/-- Slacks belong to the upper bounds and surpluses to the lower bounds, in their order. -/
theorem Model.standardForm_values {α : Type} [Scalar α] {m : Model α} (indexed : m.Indexed)
    {s : StandardForm α} (h : m.standardForm = .ok s) :
    s.slacks.values = m.normalized.indicesOf .atMost ∧
      s.surpluses.values = m.normalized.indicesOf .atLeast := by
  obtain ⟨slackened, slack, slackRows, surplus, surplusRows⟩ := standardForm_adjoins h
  have index := (normalized_indexed indexed).index
  refine ⟨slackRows, surplusRows.trans (slack.indicesOf_eq index (by decide) fun i hi c hc => ?_)⟩
  have hi : i ∈ s.slacks.values := hi
  rw [slackRows, mem_indicesOf index] at hi
  obtain ⟨c', hc', relation⟩ := hi
  obtain rfl : c = c' := Option.some.inj (hc.symm.trans hc')
  rw [relation]
  decide

theorem Model.standardForm_rows {α : Type} [Scalar α] {m : Model α} (indexed : m.Indexed)
    {s : StandardForm α} (h : m.standardForm = .ok s) :
    (∀ i, i ∈ s.slacks.values ↔
      ∃ c, m.normalized.constraints[i]? = some c ∧ c.relation = .atMost) ∧
    (∀ i, i ∈ s.surpluses.values ↔
      ∃ c, m.normalized.constraints[i]? = some c ∧ c.relation = .atLeast) ∧
    s.slacks.values.Nodup ∧ s.surpluses.values.Nodup := by
  have index := (normalized_indexed indexed).index
  obtain ⟨slackRows, surplusRows⟩ := standardForm_values indexed h
  rw [slackRows, surplusRows]
  exact ⟨fun i => mem_indicesOf index, fun i => mem_indicesOf index, nodup_indicesOf index _,
    nodup_indicesOf index _⟩

theorem Model.standardForm_indexed {m : Model Rat} (indexed : m.Indexed) {s : StandardForm Rat}
    (h : m.standardForm = .ok s) : s.model.Indexed := by
  obtain ⟨slackened, slack, _, surplus, _⟩ := standardForm_adjoins h
  exact ((normalized_indexed indexed).adjoins slack).adjoins surplus

theorem Model.standardForm_standardizes {m : Model Rat} (indexed : m.Indexed)
    {s : StandardForm Rat} (h : m.standardForm = .ok s) : m.Standardizes s := by
  obtain ⟨slackened, slack, slackRows, surplus, surplusRows⟩ := standardForm_adjoins h
  have within := (standardForm_indexed indexed h).within
  obtain ⟨model, slacks, surpluses⟩ := s
  obtain ⟨slackRow, surplusRow, slackDistinct, surplusDistinct⟩ := standardForm_rows indexed h
  have constraint (i : Nat) : model.constraints[i]? = (m.normalized.constraints[i]?).map fun c =>
      (c.adjoin 1 true slacks.entries i).adjoin (-1) true surpluses.entries i := by
    rw [surplus.constraint, slack.constraint, Option.map_map]
    rfl
  refine ⟨?_, slack.keys, ?_, slackDistinct, surplusDistinct, slackRow, surplusRow,
    surplus.objective.trans slack.objective, ?_, ?_, ?_⟩
  · rw [surplus.vars, slack.vars]
    rfl
  · rw [IndexMap.keys, surplus.keys, slack.vars]
    rfl
  · rw [surplus.length, slack.length, normalized_constraints, List.length_map]
  · exact within
  · intro i c hc
    have here := constraint i
    rw [hc, Option.map_some] at here
    exact ⟨_, here, rfl,
      StandardForm.closes_adjoin slackRow surplusRow slackDistinct surplusDistinct hc⟩

namespace IndexMap

variable {f : IndexMap} {u u' i i' : Nat}

theorem row_unique (h : (u, i) ∈ f.entries) (h' : (u, i') ∈ f.entries) : i = i' := by
  have distinct : f.keys.Nodup := by
    refine List.Pairwise.imp Nat.ne_of_lt ?_
    exact List.pairwise_map.2 f.ascending
  exact (Prod.mk.inj (List.inj_on_of_nodup_map distinct h h' rfl)).2

theorem key_unique (distinct : f.values.Nodup) (h : (u, i) ∈ f.entries)
    (h' : (u', i) ∈ f.entries) : u = u' :=
  (Prod.mk.inj (List.inj_on_of_nodup_map distinct h h' rfl)).1

end IndexMap

/-- A point of the model with the gap of its constraint in every slack and
surplus variable. -/
noncomputable def StandardForm.extend (s : StandardForm Rat) (m : Model Rat) (x : List Rat)
    (j : Nat) : Rat :=
  if j < m.vars.length then valuation x j
  else match (s.slacks.entries ++ s.surpluses.entries).lookup j with
    | some i => (m.constraints[i]?).elim 0 (·.gap (valuation x))
    | none => 0

theorem StandardForm.extend_own (s : StandardForm Rat) (m : Model Rat) (x : List Rat) {j : Nat}
    (h : j < m.vars.length) : s.extend m x j = valuation x j := if_pos h

theorem StandardForm.extend_nonneg (s : StandardForm Rat) {m : Model Rat} {x : List Rat}
    (feasible : m.Feasible x) (j : Nat) : 0 ≤ s.extend m x j := by
  unfold StandardForm.extend
  split
  · exact feasible.valuation_nonneg j
  · split
    · rename_i i _
      cases m.constraints[i]? with
      | none => exact le_rfl
      | some c => exact abs_nonneg _
    · exact le_rfl

/-- The model's own part of an equation does not see the solver's variables. -/
theorem Model.Indexed.own_unit {m : Model Rat} (indexed : m.Indexed) {i u : Nat}
    {c : Constraint Rat} (h : m.constraints[i]? = some c) (hu : m.vars.length ≤ u) :
    c.normalized.form.value (Pi.single u 1) = 0 :=
  LinearForm.value_single_of_le
    (c.normalized_within (indexed.within c (List.mem_of_getElem? h))) hu

namespace Model.Standardizes

variable {m : Model Rat} {s : StandardForm Rat} (std : m.Standardizes s)

include std

theorem slack_bounds {u i : Nat} (h : (u, i) ∈ s.slacks.entries) :
    m.vars.length ≤ u ∧ u < m.vars.length + s.slacks.entries.length := by
  have key := IndexMap.mem_keys.2 ⟨i, h⟩
  rwa [std.slackKeys, List.mem_range'_1] at key

theorem slack_lt {u i : Nat} (h : (u, i) ∈ s.slacks.entries) : u < s.model.vars.length := by
  have := (std.slack_bounds h).2
  have := std.vars
  omega

theorem surplus_bounds {u i : Nat} (h : (u, i) ∈ s.surpluses.entries) :
    m.vars.length + s.slacks.entries.length ≤ u ∧ u < s.model.vars.length := by
  have key := IndexMap.mem_keys.2 ⟨i, h⟩
  rwa [std.surplusKeys, List.mem_range'_1, ← std.vars] at key

theorem own_le : m.vars.length ≤ s.model.vars.length := by
  have := std.vars
  omega

/-- A column belongs to a variable of the model, a slack or a surplus. -/
theorem column_cases {j : Nat} (h : j < s.model.vars.length) : j < m.vars.length ∨
    (∃ i, (j, i) ∈ s.slacks.entries) ∨ ∃ i, (j, i) ∈ s.surpluses.entries := by
  rw [std.vars] at h
  by_cases own : j < m.vars.length
  · exact .inl own
  · by_cases slack : j < m.vars.length + s.slacks.entries.length
    · refine .inr (.inl (IndexMap.mem_keys.1 ?_))
      rw [std.slackKeys, List.mem_range'_1]
      omega
    · refine .inr (.inr (IndexMap.mem_keys.1 ?_))
      rw [std.surplusKeys, List.mem_range'_1]
      omega

/-- Every equation comes from the constraint at its position. -/
theorem origin {i : Nat} {c' : Constraint Rat} (h : s.model.constraints[i]? = some c') :
    ∃ c, m.constraints[i]? = some c ∧ c'.bound = |c.bound| ∧ s.Closes i c.normalized c' := by
  obtain ⟨hi, _⟩ := List.getElem?_eq_some_iff.1 h
  have hi : i < m.constraints.length := std.length ▸ hi
  have normal : m.normalized.constraints[i]? = some m.constraints[i].normalized := by
    rw [normalized_constraints, List.getElem?_map, List.getElem?_eq_getElem hi, Option.map_some]
  obtain ⟨c'', found, bound, closes⟩ := std.constraint i _ normal
  obtain rfl : c'' = c' := Option.some.inj (found.symm.trans h)
  refine ⟨_, List.getElem?_eq_getElem hi, ?_, closes⟩
  rw [bound, Constraint.normalized_bound]

theorem slack_lt_length {u i : Nat} (h : (u, i) ∈ s.slacks.entries) :
    i < s.model.constraints.length := by
  obtain ⟨c, hc, _⟩ := (std.slackRow i).1 (IndexMap.mem_values.2 ⟨u, h⟩)
  have := (List.getElem?_eq_some_iff.1 hc).1
  rwa [normalized_constraints, List.length_map, ← std.length] at this

theorem surplus_lt_length {u i : Nat} (h : (u, i) ∈ s.surpluses.entries) :
    i < s.model.constraints.length := by
  obtain ⟨c, hc, _⟩ := (std.surplusRow i).1 (IndexMap.mem_values.2 ⟨u, h⟩)
  have := (List.getElem?_eq_some_iff.1 hc).1
  rwa [normalized_constraints, List.length_map, ← std.length] at this

section Columns

variable (indexed : m.Indexed)

include indexed

/-- A slack variable occurs in its own equation only, with coefficient one. -/
theorem slack_unit {u i k : Nat} {c' : Constraint Rat} (h : (u, i) ∈ s.slacks.entries)
    (hk : s.model.constraints[k]? = some c') :
    c'.form.value (Pi.single u 1) = if k = i then 1 else 0 := by
  obtain ⟨c, hc, _, closes⟩ := std.origin hk
  have own := indexed.own_unit hc (std.slack_bounds h).1
  have other (relation : c.normalized.relation ≠ .atMost) : k ≠ i := by
    rintro rfl
    obtain ⟨d, hd, atMost⟩ := (std.slackRow k).1 (IndexMap.mem_values.2 ⟨u, h⟩)
    rw [normalized_constraints, List.getElem?_map, hc] at hd
    injection hd with hd
    exact relation (hd ▸ atMost)
  cases closes with
  | @atMost u' _ slack value =>
    rw [value, own, zero_add, Pi.single_apply]
    by_cases same : u' = u
    · subst same
      rw [if_pos rfl, if_pos (IndexMap.row_unique slack h)]
    · rw [if_neg same, if_neg]
      rintro rfl
      exact same (IndexMap.key_unique std.slackDistinct slack h)
  | @atLeast u' relation surplus value =>
    have apart : u' ≠ u := by
      have := (std.slack_bounds h).2
      have := (std.surplus_bounds surplus).1
      omega
    rw [value, own, Pi.single_apply, if_neg apart, if_neg (other (by rw [relation]; decide)),
      sub_zero]
  | equal relation value => rw [value, own, if_neg (other (by rw [relation]; decide))]

/-- A surplus variable occurs in its own equation only, with coefficient minus one. -/
theorem surplus_unit {u i k : Nat} {c' : Constraint Rat} (h : (u, i) ∈ s.surpluses.entries)
    (hk : s.model.constraints[k]? = some c') :
    c'.form.value (Pi.single u 1) = if k = i then -1 else 0 := by
  obtain ⟨c, hc, _, closes⟩ := std.origin hk
  have own := indexed.own_unit hc (Nat.le_of_add_right_le (std.surplus_bounds h).1)
  have other (relation : c.normalized.relation ≠ .atLeast) : k ≠ i := by
    rintro rfl
    obtain ⟨d, hd, atLeast⟩ := (std.surplusRow k).1 (IndexMap.mem_values.2 ⟨u, h⟩)
    rw [normalized_constraints, List.getElem?_map, hc] at hd
    injection hd with hd
    exact relation (hd ▸ atLeast)
  cases closes with
  | @atMost u' relation slack value =>
    have apart : u' ≠ u := by
      have := (std.slack_bounds slack).2
      have := (std.surplus_bounds h).1
      omega
    rw [value, own, Pi.single_apply, if_neg apart, if_neg (other (by rw [relation]; decide)),
      add_zero]
  | @atLeast u' _ surplus value =>
    rw [value, own, zero_sub, Pi.single_apply]
    by_cases same : u' = u
    · subst same
      rw [if_pos rfl, if_pos (IndexMap.row_unique surplus h)]
    · rw [if_neg same, if_neg, neg_zero]
      rintro rfl
      exact same (IndexMap.key_unique std.surplusDistinct surplus h)
  | equal relation value => rw [value, own, if_neg (other (by rw [relation]; decide))]

end Columns

/-- A slack or surplus variable gets the gap of its constraint. -/
theorem extend_gap {x : List Rat} {u i : Nat} {c : Constraint Rat}
    (h : (u, i) ∈ s.slacks.entries ∨ (u, i) ∈ s.surpluses.entries)
    (hc : m.constraints[i]? = some c) : s.extend m x u = c.gap (valuation x) := by
  have behind : ¬ u < m.vars.length := by
    rcases h with slack | surplus
    · have := (std.slack_bounds slack).1
      omega
    · have := (std.surplus_bounds surplus).1
      omega
  have found : (s.slacks.entries ++ s.surpluses.entries).lookup u = some i := by
    have distinct : ((s.slacks.entries ++ s.surpluses.entries).map Prod.fst).Nodup := by
      rw [List.map_append, ← IndexMap.keys, ← IndexMap.keys, std.slackKeys, std.surplusKeys,
        List.range'_append_1]
      exact List.nodup_range'
    have mem : (u, i) ∈ s.slacks.entries ++ s.surpluses.entries := List.mem_append.2 h
    cases look : (s.slacks.entries ++ s.surpluses.entries).lookup u with
    | none =>
      have absent := List.lookup_eq_none_iff.1 look (u, i) mem
      simp at absent
    | some i' =>
      obtain ⟨before, after, split, _⟩ := List.lookup_eq_some_iff.1 look
      have mem' : (u, i') ∈ s.slacks.entries ++ s.surpluses.entries := by simp [split]
      rw [(Prod.mk.inj (List.inj_on_of_nodup_map distinct mem mem' rfl)).2]
  rw [StandardForm.extend, if_neg behind, found]
  simp only [hc, Option.elim_some]

/-- There is nothing behind the last surplus variable, such as artificial ones. -/
theorem extend_outside (x : List Rat) {j : Nat} (h : s.model.vars.length ≤ j) :
    s.extend m x j = 0 := by
  have width := std.vars
  have absent : (s.slacks.entries ++ s.surpluses.entries).lookup j = none := by
    rw [List.lookup_eq_none_iff]
    rintro ⟨u, i⟩ mem
    rw [bne_iff_ne]
    rintro rfl
    rcases List.mem_append.1 mem with slack | surplus
    · have := (std.slack_bounds slack).2
      omega
    · have := (std.surplus_bounds surplus).2
      omega
  rw [StandardForm.extend, if_neg (by omega), absent]

/-- A feasible point with its gaps solves the equations. -/
theorem extend_solves (indexed : m.Indexed) {x : List Rat} (feasible : m.Feasible x)
    {c' : Constraint Rat} (hc' : c' ∈ s.model.constraints) :
    c'.form.value (s.extend m x) = c'.bound := by
  obtain ⟨i, hi⟩ := List.getElem?_of_mem hc'
  obtain ⟨c, hc, bound, closes⟩ := std.origin hi
  have mem := List.mem_of_getElem? hc
  have own : c.normalized.form.value (s.extend m x) = c.normalized.form.value (valuation x) :=
    LinearForm.value_congr (c.normalized_within (indexed.within c mem))
      fun j hj => s.extend_own m x hj
  have holds : c.normalized.Holds (valuation x) :=
    (c.normalized_holds _).2 (Constraint.isSatisfied_zero_iff.1 (feasible.satisfied c mem))
  have gap := c.normalized_gap (valuation x)
  rw [← Constraint.normalized_bound] at bound
  rw [Constraint.gap] at gap
  cases closes with
  | atMost relation slack value =>
    rw [Constraint.Holds, relation] at holds
    rw [value, own, std.extend_gap (.inl slack) hc, ← gap, abs_of_nonneg (sub_nonneg.2 holds),
      bound]
    ring
  | atLeast relation surplus value =>
    rw [Constraint.Holds, relation] at holds
    rw [value, own, std.extend_gap (.inr surplus) hc, ← gap, abs_of_nonpos (sub_nonpos.2 holds),
      bound]
    ring
  | equal relation value =>
    rw [Constraint.Holds, relation] at holds
    rw [value, own, bound]
    exact holds

/-- A non-negative solution of the equations is feasible on the model's own variables. -/
theorem feasible_of_solves (indexed : m.Indexed) {x : List Rat} {v : Nat → Rat}
    (length : x.length = m.vars.length) (same : ∀ j < m.vars.length, valuation x j = v j)
    (nonneg : ∀ j < s.model.vars.length, 0 ≤ v j)
    (solves : ∀ c ∈ s.model.constraints, c.form.value v = c.bound) : m.Feasible x := by
  rw [feasible_iff]
  refine ⟨length, fun value hvalue => ?_, fun c hc => ?_⟩
  · obtain ⟨j, hj⟩ := List.getElem?_of_mem hvalue
    have inside : j < m.vars.length := length ▸ (List.getElem?_eq_some_iff.1 hj).1
    have entry := same j inside
    rw [valuation, hj, Option.getD_some] at entry
    rw [entry]
    exact nonneg j (inside.trans_le std.own_le)
  · obtain ⟨i, hi⟩ := List.getElem?_of_mem hc
    obtain ⟨c', hc', bound, closes⟩ := std.constraint i c hi
    have equation := solves c' (List.mem_of_getElem? hc')
    have within := (normalized_indexed indexed).within c hc
    rw [Constraint.holds_congr within same]
    cases closes with
    | atMost relation slack value =>
      have := nonneg _ ((std.slack_bounds slack).2.trans_le (by have := std.vars; omega))
      rw [value, bound] at equation
      rw [Constraint.Holds, relation]
      linarith
    | atLeast relation surplus value =>
      have := nonneg _ (std.surplus_bounds surplus).2
      rw [value, bound] at equation
      rw [Constraint.Holds, relation]
      linarith
    | equal relation value =>
      rw [value, bound] at equation
      rw [Constraint.Holds, relation]
      exact equation

end Model.Standardizes

end LinearProgram
