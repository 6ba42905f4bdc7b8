import Mathlib
import LinearProgram.Proofs.Model
import LinearProgram.Proofs.Naming
import LinearProgram.PhaseOne

/-!
# New variables of the solver

Slack, surplus and artificial variables are all added in one way: one after the
other, each with one coefficient to one constraint. `Adjoins` says what a whole
list of them does to a model:

* `IndexMap.insert_eq`: a new variable is recorded behind the older ones;
* `adjoins_attach`, `adjoins_equalize`: one new variable;
* `equalizeAll_adjoins`, `phaseOne_adjoins`: the loops over constraints.
-/

namespace LinearProgram

theorem IndexMap.insert_eq {f : IndexMap} {key value : Nat} (h : ∀ e ∈ f.entries, e.1 < key) :
    (f.insert key value).entries = f.entries ++ [(key, value)] := by
  change insertEntry key value f.entries = _
  generalize f.entries = entries at h
  induction entries with
  | nil => rfl
  | cons e rest ih =>
    obtain ⟨below, hrest⟩ := List.forall_mem_cons.1 h
    rw [insertEntry, if_neg (Nat.lt_asymm below), if_neg below.ne', ih hrest]
    rfl

variable {α : Type}

/-- The new variables that are listed with a constraint, one term each. -/
def newTerms (κ : α) (entries : List (Nat × Nat)) (i : Nat) : List (Term α) :=
  (entries.filter (·.2 == i)).map fun e => ⟨e.1, κ⟩

/-- Constraint `i` with the new variables that are listed with it. If it is
closed by them, it becomes an equation. -/
def Constraint.adjoin (κ : α) (closes : Bool) (entries : List (Nat × Nat)) (i : Nat)
    (c : Constraint α) : Constraint α :=
  { c with
    form := ⟨c.form.terms ++ newTerms κ entries i⟩
    relation := if closes && entries.any (·.2 == i) then .equal else c.relation }

namespace Constraint

variable {κ : α} {closes : Bool}

theorem adjoin_nil (i : Nat) (c : Constraint α) : c.adjoin κ closes [] i = c := by
  simp [adjoin, newTerms]

theorem adjoin_append (entries entries' : List (Nat × Nat)) (i : Nat) (c : Constraint α) :
    c.adjoin κ closes (entries ++ entries') i =
      (c.adjoin κ closes entries i).adjoin κ closes entries' i := by
  have relation (a b : Bool) : (if closes && (a || b) then Relation.equal else c.relation) =
      if closes && b then .equal else if closes && a then .equal else c.relation := by
    cases closes <;> cases a <;> cases b <;> rfl
  simp only [adjoin, newTerms, List.filter_append, List.map_append, List.append_assoc,
    List.any_append, relation]

theorem adjoin_other {v k i : Nat} (h : k ≠ i) (c : Constraint α) :
    c.adjoin κ closes [(v, k)] i = c := by
  simp [adjoin, newTerms, h]

theorem adjoin_same (v k : Nat) (c : Constraint α) : c.adjoin κ closes [(v, k)] k =
    { c with form := c.form.addTerm v κ, relation := if closes then .equal else c.relation } := by
  simp [adjoin, newTerms, LinearForm.addTerm]

end Constraint

namespace Model

variable {m m' m'' : Model α} {κ : α} {closes : Bool} {entries entries' : List (Nat × Nat)}

/-- One model is another with new variables behind all others, each listed with its
constraint. If no name occurred twice, none does now. -/
structure Adjoins (κ : α) (closes : Bool) (m m' : Model α) (entries : List (Nat × Nat)) : Prop where
  name : m'.name = m.name
  own : m.vars <+: m'.vars
  distinct : (m.vars.map Variable.name).Nodup → (m'.vars.map Variable.name).Nodup
  indices : m'.vars.map Variable.index = m.vars.map Variable.index ++ entries.map Prod.fst
  keys : entries.map Prod.fst = List.range' m.vars.length entries.length
  objective : m'.objective = m.objective
  constraint : ∀ i, m'.constraints[i]? =
    (m.constraints[i]?).map (Constraint.adjoin κ closes entries i)

theorem Adjoins.vars (h : Adjoins κ closes m m' entries) :
    m'.vars.length = m.vars.length + entries.length := by
  simpa using congrArg List.length h.indices

theorem Adjoins.refl (m : Model α) : Adjoins κ closes m m [] := by
  refine ⟨rfl, List.prefix_rfl, id, by simp, rfl, rfl, fun i => ?_⟩
  cases m.constraints[i]? with
  | none => rfl
  | some c => rw [Option.map_some, Constraint.adjoin_nil]

theorem Adjoins.trans (h : Adjoins κ closes m m' entries) (h' : Adjoins κ closes m' m'' entries') :
    Adjoins κ closes m m'' (entries ++ entries') := by
  refine ⟨h'.name.trans h.name, h.own.trans h'.own, h'.distinct ∘ h.distinct, ?_, ?_,
    h'.objective.trans h.objective, fun i => ?_⟩
  · rw [h'.indices, h.indices, List.map_append, List.append_assoc]
  · rw [List.map_append, h.keys, h'.keys, h.vars, List.length_append, List.range'_append_1]
  · rw [h'.constraint, h.constraint, Option.map_map]
    congr 1
    funext c
    exact (Constraint.adjoin_append entries entries' i c).symm

theorem Adjoins.length (h : Adjoins κ closes m m' entries) :
    m'.constraints.length = m.constraints.length := by
  apply Nat.le_antisymm <;> apply List.getElem?_eq_none_iff.1
  · rw [h.constraint, List.getElem?_eq_none (Nat.le_refl _), Option.map_none]
  · have none := h.constraint m'.constraints.length
    rw [List.getElem?_eq_none (Nat.le_refl _)] at none
    exact Option.map_eq_none_iff.1 none.symm

/-- The variable that is attached is the next one. -/
theorem snd_attach (m : Model α) (label : String) (i : Nat) (κ : α) :
    (m.attach label i κ).2 = m.vars.length := rfl

theorem adjoins_attach (m : Model α) (label : String) (k : Nat) (κ : α) :
    Adjoins κ false m (m.attach label k κ).1 [(m.vars.length, k)] := by
  refine ⟨rfl, List.prefix_append _ _, fun distinct => distinct_addAuxiliary distinct label k,
    List.map_append, rfl, rfl, fun i => ?_⟩
  change (m.constraints.modify k _)[i]? = _
  rw [List.getElem?_modify]
  by_cases same : k = i
  · subst same
    cases m.constraints[k]? with
    | none => rfl
    | some c =>
      rw [Option.map_some, Constraint.adjoin_same]
      simp [nextVariable]
  · cases m.constraints[i]? with
    | none => simp
    | some c => rw [Option.map_some, Constraint.adjoin_other same]; simp [same]

theorem adjoins_equalize {added added' : IndexMap} {k : Nat}
    (h : m.equalize κ added k = .ok (m', added')) :
    Adjoins κ true m m' [(m.vars.length, k)] ∧ added' = added.insert m.vars.length k := by
  unfold equalize at h
  split at h
  · injection h with h
    obtain ⟨rfl, rfl⟩ := Prod.mk.inj h
    have attach := adjoins_attach m "s" k κ
    refine ⟨⟨rfl, attach.own, attach.distinct, attach.indices, rfl, rfl, fun i => ?_⟩, rfl⟩
    have attached := attach.constraint i
    change ((m.attach "s" k κ).1.constraints.modify k _)[i]? = _
    rw [List.getElem?_modify, attached]
    cases m.constraints[i]? with
    | none => rfl
    | some c =>
      by_cases same : k = i
      · subst same
        simp [Constraint.adjoin_same]
      · simp [Constraint.adjoin_other same, same]
  · exact nomatch h

theorem foldlM_equalize {indices : List Nat} {added added' : IndexMap}
    (older : ∀ e ∈ added.entries, e.1 < m.vars.length)
    (h : indices.foldlM (fun (m, added) i => m.equalize κ added i) (m, added) =
      .ok (m', added')) :
    ∃ entries, added'.entries = added.entries ++ entries ∧ entries.map Prod.snd = indices ∧
      Adjoins κ true m m' entries := by
  induction indices generalizing m added with
  | nil =>
    injection h with h
    obtain ⟨rfl, rfl⟩ := Prod.mk.inj h
    exact ⟨[], by simp, rfl, .refl m⟩
  | cons k indices ih =>
    rw [List.foldlM_cons] at h
    obtain ⟨⟨next, recorded⟩, first, rest⟩ := bind_eq_ok.1 h
    obtain ⟨one, rfl⟩ := adjoins_equalize first
    have inserted : (added.insert m.vars.length k).entries = _ := IndexMap.insert_eq older
    have newer : ∀ e ∈ (added.insert m.vars.length k).entries, e.1 < next.vars.length := by
      intro e he
      rw [inserted] at he
      rw [one.vars]
      rcases List.mem_append.1 he with old | new
      · exact Nat.lt_succ_of_lt (older e old)
      · rw [List.mem_singleton.1 new]
        exact Nat.lt_succ_self _
    obtain ⟨entries, recorded, rows, more⟩ := ih newer rest
    refine ⟨(m.vars.length, k) :: entries, ?_, by rw [List.map_cons, rows], one.trans more⟩
    rw [recorded, inserted, List.append_assoc]
    rfl

theorem equalizeAll_adjoins [Scalar α] {relation : Relation} {added : IndexMap}
    (h : m.equalizeAll relation κ = .ok (m', added)) :
    Adjoins κ true m m' added.entries ∧ added.values = m.indicesOf relation := by
  obtain ⟨entries, recorded, rows, adjoins⟩ := foldlM_equalize (by exact fun e he => nomatch he) h
  have recorded : added.entries = entries := recorded
  rw [IndexMap.values, recorded]
  exact ⟨adjoins, rows⟩

end Model

/-- The constraints without a slack variable. -/
def StandardForm.uncovered (s : StandardForm α) : List Nat :=
  (List.range s.model.constraints.length).filter fun i => !s.hasSlack i

theorem foldl_attach [Scalar α] (indices : List Nat) {p : PhaseOne α}
    (older : ∀ e ∈ p.artificials.entries, e.1 < p.model.vars.length) :
    ∃ entries, entries.map Prod.snd = indices ∧ (indices.foldl (fun p i =>
        PhaseOne.mk (p.model.attach "R" i 1).1
          (p.artificials.insert (p.model.attach "R" i 1).2 i)) p).artificials.entries =
          p.artificials.entries ++ entries ∧
      Model.Adjoins 1 false p.model (indices.foldl (fun p i =>
        PhaseOne.mk (p.model.attach "R" i 1).1
          (p.artificials.insert (p.model.attach "R" i 1).2 i)) p).model entries := by
  induction indices generalizing p with
  | nil => exact ⟨[], rfl, by simp, .refl p.model⟩
  | cons k indices ih =>
    have one := Model.adjoins_attach p.model "R" k (1 : α)
    have inserted : (p.artificials.insert p.model.vars.length k).entries = _ :=
      IndexMap.insert_eq older
    rw [List.foldl_cons]
    obtain ⟨entries, rows, recorded, more⟩ := ih (p := ⟨(p.model.attach "R" k 1).1,
      p.artificials.insert (p.model.attach "R" k 1).2 k⟩) (by
        intro e he
        simp only [Model.snd_attach, inserted] at he
        simp only [one.vars]
        rcases List.mem_append.1 he with old | new
        · exact Nat.lt_succ_of_lt (older e old)
        · rw [List.mem_singleton.1 new]
          exact Nat.lt_succ_self _)
    refine ⟨(p.model.vars.length, k) :: entries, by rw [List.map_cons, rows], ?_, one.trans more⟩
    rw [recorded]
    simp only [Model.snd_attach, inserted, List.append_assoc]
    rfl

theorem StandardForm.phaseOne_adjoins [Scalar α] (s : StandardForm α) :
    Model.Adjoins 1 false s.model s.phaseOne.model s.phaseOne.artificials.entries ∧
      s.phaseOne.artificials.values = s.uncovered := by
  obtain ⟨entries, rows, recorded, adjoins⟩ := foldl_attach s.uncovered
    (p := ⟨s.model, .empty⟩) (fun e he => nomatch he)
  have recorded : s.phaseOne.artificials.entries = entries := recorded
  rw [IndexMap.values, recorded]
  exact ⟨adjoins, rows⟩

end LinearProgram
