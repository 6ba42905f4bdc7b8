import Mathlib
import LinearProgram.Proofs.StandardForm

/-!
# Solutions of the standard form, projected

The points of the standard form and those of the model are the same, but for
slacks and surpluses:

* `exists_standardForm`, `standardForm_equations`: a model that carries its
  positions has a standard form, which consists of equations;
* `Standardizes.eq_extend`: the values of slacks and surpluses are the gaps;
* `standardForm_bijOn`: the projection to the model's own variables is a
  bijection of feasible points that keeps the gain.
-/

namespace LinearProgram

open LinearForm (valuation)

namespace Model

section Existence

variable {α : Type} {m : Model α} {κ : α}

/-- The loop finds every constraint that it looks for. -/
theorem exists_foldlM_equalize {indices : List Nat}
    (inside : ∀ i ∈ indices, i < m.constraints.length) (added : IndexMap) :
    ∃ m' added', indices.foldlM (fun (m, added) i => m.equalize κ added i) (m, added) =
      .ok (m', added') := by
  induction indices generalizing m added with
  | nil => exact ⟨m, added, rfl⟩
  | cons i indices ih =>
    obtain ⟨here, rest⟩ := List.forall_mem_cons.1 inside
    obtain ⟨next, recorded, step⟩ :
        ∃ next recorded, m.equalize κ added i = .ok (next, recorded) := by
      simp [equalize, here]
    have length := (adjoins_equalize step).1.length
    simp only [List.foldlM_cons, step, ok_bind]
    exact ih (fun k hk => length ▸ rest k hk) recorded

theorem exists_equalizeAll [Scalar α]
    (index : ∀ (i : Nat) (c : Constraint α), m.constraints[i]? = some c → c.index = i)
    (r : Relation) : ∃ m' added, m.equalizeAll r κ = .ok (m', added) := by
  apply exists_foldlM_equalize
  intro i hi
  obtain ⟨c, hc, _⟩ := (mem_indicesOf index).1 hi
  exact (List.getElem?_eq_some_iff.1 hc).1

theorem exists_standardForm [Scalar α] (indexed : m.Indexed) : ∃ s, m.standardForm = .ok s := by
  have normal := normalized_indexed indexed
  obtain ⟨slackened, slacks, first⟩ := exists_equalizeAll (κ := (1 : α)) normal.index .atMost
  obtain ⟨slack, _⟩ := equalizeAll_adjoins first
  obtain ⟨model, surpluses, second⟩ :=
    exists_equalizeAll (κ := (-1 : α)) (slack.index normal.index) .atLeast
  exact ⟨⟨model, slacks, surpluses⟩, by simp only [standardForm, first, second, ok_bind]⟩

end Existence

variable {m : Model Rat} {s : StandardForm Rat}

/-- Every inequality is closed by its slack or its surplus. -/
theorem standardForm_equations (indexed : m.Indexed) (h : m.standardForm = .ok s) :
    ∀ c ∈ s.model.constraints, c.relation = .equal := by
  obtain ⟨slackened, slack, _, surplus, _⟩ := standardForm_adjoins h
  have std := standardForm_standardizes indexed h
  intro c hc
  obtain ⟨i, hi⟩ := List.getElem?_of_mem hc
  rw [surplus.constraint, slack.constraint, Option.map_map] at hi
  obtain ⟨c', hc', rfl⟩ := Option.map_eq_some_iff.1 hi
  have closed {f : IndexMap} (listed : i ∈ f.values) : f.entries.any (·.2 == i) = true := by
    obtain ⟨u, hu⟩ := IndexMap.mem_values.1 listed
    exact List.any_eq_true.2 ⟨_, hu, beq_self_eq_true i⟩
  cases relation : c'.relation with
  | atMost => simp [Constraint.adjoin, closed ((std.slackRow i).2 ⟨c', hc', relation⟩)]
  | atLeast => simp [Constraint.adjoin, closed ((std.surplusRow i).2 ⟨c', hc', relation⟩)]
  | equal => simp [Constraint.adjoin, relation]

/-- Feasible points of a model of equations solve them. -/
theorem Feasible.solves {y : List Rat} (feasible : m.Feasible y)
    (equations : ∀ c ∈ m.constraints, c.relation = .equal) :
    ∀ c ∈ m.constraints, c.form.value (valuation y) = c.bound := by
  intro c hc
  have holds := Constraint.isSatisfied_zero_iff.1 (feasible.satisfied c hc)
  rwa [Constraint.Holds, equations c hc] at holds

namespace Standardizes

variable (std : m.Standardizes s)

include std

/-- In a solution of the equations, a slack or surplus variable that is not negative
has the gap of its constraint. -/
theorem value_eq_gap (indexed : m.Indexed) {x : List Rat} {v : Nat → Rat}
    (same : ∀ j < m.vars.length, valuation x j = v j)
    (nonneg : ∀ j < s.model.vars.length, 0 ≤ v j)
    (solves : ∀ c ∈ s.model.constraints, c.form.value v = c.bound) {u i : Nat}
    {c : Constraint Rat} (h : (u, i) ∈ s.slacks.entries ∨ (u, i) ∈ s.surpluses.entries)
    (hc : m.constraints[i]? = some c) : v u = c.gap (valuation x) := by
  have normal : m.normalized.constraints[i]? = some c.normalized := by
    rw [normalized_constraints, List.getElem?_map, hc, Option.map_some]
  obtain ⟨c', hc', bound, closes⟩ := std.constraint i _ normal
  have equation := solves c' (List.mem_of_getElem? hc')
  have own : c.normalized.form.value (valuation x) = c.normalized.form.value v :=
    LinearForm.value_congr (c.normalized_within (indexed.within c (List.mem_of_getElem? hc))) same
  have relation {f : IndexMap} {r : Relation} (listed : (u, i) ∈ f.entries)
      (row : ∀ i, i ∈ f.values ↔ ∃ c, m.normalized.constraints[i]? = some c ∧ c.relation = r) :
      c.normalized.relation = r := by
    obtain ⟨d, hd, relation⟩ := (row i).1 (IndexMap.mem_values.2 ⟨u, listed⟩)
    obtain rfl : c.normalized = d := Option.some.inj (normal.symm.trans hd)
    exact relation
  have positive : 0 ≤ v u := by
    apply nonneg
    rcases h with slack | surplus
    · exact std.slack_lt slack
    · exact (std.surplus_bounds surplus).2
  rw [← c.normalized_gap, Constraint.gap, own]
  rcases h with slack | surplus
  · cases closes with
    | @atMost u' _ slack' value =>
      obtain rfl := IndexMap.key_unique std.slackDistinct slack slack'
      rw [value, bound] at equation
      rw [abs_of_nonneg] <;> linarith
    | atLeast other => simp [relation slack std.slackRow] at other
    | equal other => simp [relation slack std.slackRow] at other
  · cases closes with
    | atMost other => simp [relation surplus std.surplusRow] at other
    | @atLeast u' _ surplus' value =>
      obtain rfl := IndexMap.key_unique std.surplusDistinct surplus surplus'
      rw [value, bound] at equation
      rw [abs_of_nonpos] <;> linarith
    | equal other => simp [relation surplus std.surplusRow] at other

variable (indexed : m.Indexed) (equations : ∀ c ∈ s.model.constraints, c.relation = .equal)

include indexed equations

/-- A feasible point of the standard form is given by the model's own variables. -/
theorem eq_extend {y : List Rat} (feasible : s.model.Feasible y) :
    y = pointOf s.model.vars.length (s.extend m (y.take m.vars.length)) := by
  have own : ∀ j < m.vars.length, valuation (y.take m.vars.length) j = valuation y j :=
    fun j hj => valuation_take hj y
  refine eq_pointOf feasible.length fun j hj => ?_
  have gap {i : Nat} (h : (j, i) ∈ s.slacks.entries ∨ (j, i) ∈ s.surpluses.entries)
      (hi : i < s.model.constraints.length) :
      valuation y j = s.extend m (y.take m.vars.length) j := by
    have hc := List.getElem?_eq_getElem (std.length ▸ hi)
    rw [std.extend_gap h hc]
    exact std.value_eq_gap indexed own (fun j _ => feasible.valuation_nonneg j)
      (feasible.solves equations) h hc
  rcases std.column_cases hj with hown | ⟨i, slack⟩ | ⟨i, surplus⟩
  · rw [s.extend_own m _ hown, own j hown]
  · exact gap (.inl slack) (std.slack_lt_length slack)
  · exact gap (.inr surplus) (std.surplus_lt_length surplus)

theorem take_mapsTo :
    Set.MapsTo (List.take m.vars.length) {y | s.model.Feasible y} {x | m.Feasible x} := by
  intro y feasible
  have feasible : s.model.Feasible y := feasible
  refine std.feasible_of_solves indexed ?_ (fun j hj => valuation_take hj y)
    (fun j _ => feasible.valuation_nonneg j) (feasible.solves equations)
  rw [List.length_take, feasible.length, Nat.min_eq_left std.own_le]

theorem take_injOn : Set.InjOn (List.take m.vars.length) {y | s.model.Feasible y} := by
  intro y feasible y' feasible' same
  rw [std.eq_extend indexed equations feasible, same, ← std.eq_extend indexed equations feasible']

theorem take_surjOn :
    Set.SurjOn (List.take m.vars.length) {y | s.model.Feasible y} {x | m.Feasible x} := by
  intro x feasible
  have feasible : m.Feasible x := feasible
  have extended : ∀ j < s.model.vars.length,
      valuation (pointOf s.model.vars.length (s.extend m x)) j = s.extend m x j :=
    fun j hj => valuation_pointOf hj _
  refine ⟨pointOf s.model.vars.length (s.extend m x), ⟨length_pointOf _ _, ?_, ?_⟩, ?_⟩
  · intro value member
    obtain ⟨j, _, rfl⟩ := List.mem_map.1 member
    exact s.extend_nonneg feasible j
  · intro c hc
    rw [Constraint.isSatisfied_zero_iff, Constraint.holds_congr (std.within c hc) extended,
      Constraint.Holds, equations c hc]
    exact std.extend_solves indexed feasible hc
  · have first : (pointOf s.model.vars.length (s.extend m x)).take m.vars.length =
        pointOf m.vars.length (s.extend m x) := by
      rw [pointOf, ← List.map_take, List.take_range, Nat.min_eq_left std.own_le, pointOf]
    rw [first]
    exact (eq_pointOf feasible.length fun j hj => (s.extend_own m x hj).symm).symm

end Standardizes

/-- A normalised objective is to be maximised, and values are negated if it was not. -/
theorem normalized_objective {o : Objective Rat} (h : m.objective = some o) :
    ∃ o', m.normalized.objective = some o' ∧ o'.sense = .maximize ∧
      ∀ v, o'.form.value v = o.gain v := by
  obtain ⟨form, sense⟩ := o
  cases sense <;>
    simp [normalized, simplify, h, Objective.negate, Sense.flip, Objective.gain,
      LinearForm.value_neg, LinearForm.value_simplify]

/-- The first variables of the feasible points of the standard form are the feasible
points of the model, each of one point only: its slacks and surpluses are the gaps.
The objective is kept in the sense of a maximum. -/
theorem standardForm_bijOn (built : m.Built) : ∃ s, m.standardForm = .ok s ∧
    (∀ c ∈ s.model.constraints, c.relation = .equal) ∧
    Set.BijOn (List.take m.vars.length) {y | s.model.Feasible y} {x | m.Feasible x} ∧
    (∀ y, s.model.Feasible y → ∀ u i c,
      (u, i) ∈ s.slacks.entries ∨ (u, i) ∈ s.surpluses.entries → m.constraints[i]? = some c →
        y[u]? = some |c.bound - c.form.eval (y.take m.vars.length)|) ∧
    (m.objective = none → s.model.objective = none) ∧
    ∀ o, m.objective = some o → ∃ o', s.model.objective = some o' ∧ o'.sense = .maximize ∧
      ∀ y, o'.eval y = if o.sense = .maximize then o.eval (y.take m.vars.length)
        else -o.eval (y.take m.vars.length) := by
  have indexed := built.indexed
  obtain ⟨s, standard⟩ := exists_standardForm indexed
  have std := standardForm_standardizes indexed standard
  have equations := standardForm_equations indexed standard
  refine ⟨s, standard, equations, ⟨std.take_mapsTo indexed equations,
    std.take_injOn indexed equations, std.take_surjOn indexed equations⟩, ?_, ?_, ?_⟩
  · intro y feasible u i c listed hc
    have inside : u < s.model.vars.length := by
      rcases listed with slack | surplus
      · exact std.slack_lt slack
      · exact (std.surplus_bounds surplus).2
    have gap := std.extend_gap (x := y.take m.vars.length) listed hc
    rw [Constraint.gap, ← LinearForm.eval_eq_value] at gap
    conv_lhs => rw [std.eq_extend indexed equations feasible]
    simp [pointOf, inside, gap]
  · intro none
    rw [std.objective]
    simp [normalized, simplify, none]
  · intro o objective
    obtain ⟨o', normal, sense, value⟩ := normalized_objective objective
    refine ⟨o', std.objective.trans normal, sense, fun y => ?_⟩
    have own : o.form.value (valuation y) = o.form.value (valuation (y.take m.vars.length)) :=
      LinearForm.value_congr (indexed.objective o objective) fun j hj => (valuation_take hj y).symm
    simp only [Objective.eval, LinearForm.eval_eq_value, value, Objective.gain, own]
    cases o.sense <;> rfl

end Model

/-- Minimises a sum of two variables under all three relations, one of them with a
negative bound. -/
def mixedRows : Model Rat :=
  ⟨"mixed rows", [⟨"x", 0⟩, ⟨"y", 1⟩],
    [⟨⟨[⟨0, 1⟩, ⟨1, -1⟩]⟩, .atLeast, -2, 0⟩, ⟨⟨[⟨0, 1⟩]⟩, .atLeast, 1, 1⟩,
      ⟨⟨[⟨0, 1⟩, ⟨1, 2⟩]⟩, .equal, 5, 2⟩],
    some ⟨⟨[⟨0, 1⟩, ⟨1, 1⟩]⟩, .minimize⟩⟩

theorem mixedRows_feasible : mixedRows.Feasible [1, 2] where
  length := rfl
  nonneg := by decide
  satisfied := by decide +kernel

/-- The feasible point `(1, 2)` comes from one point of the standard form, which is
worth minus three. -/
theorem mixedRows_bijOn : ∃ s, mixedRows.standardForm = .ok s ∧
    ∃ y o', s.model.Feasible y ∧ y.take 2 = [1, 2] ∧
      (∀ y', s.model.Feasible y' → y'.take 2 = [1, 2] → y' = y) ∧
      s.model.objective = some o' ∧ o'.eval y = -3 := by
  have built : mixedRows.Built := Model.built_of_rebuilt rfl
  obtain ⟨s, standard, _, projection, _, _, objective⟩ := Model.standardForm_bijOn built
  obtain ⟨y, feasible, own⟩ := projection.surjOn mixedRows_feasible
  obtain ⟨o', maximised, _, value⟩ := objective _ rfl
  have own : y.take 2 = [1, 2] := own
  refine ⟨s, standard, y, o', feasible, own, fun y' feasible' own' => ?_, maximised, ?_⟩
  · exact projection.injOn feasible' feasible (own'.trans own.symm)
  · have worth := value y
    rw [if_neg (by decide), show mixedRows.vars.length = 2 from rfl, own] at worth
    rw [worth]
    decide +kernel

end LinearProgram
