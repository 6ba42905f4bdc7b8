import Mathlib
import LinearProgram.Model

/-!
# New names

A variable of the solver is named after a constraint, with primes behind the name as long as
that name is taken.

* `Primed`: the loop that adds primes, from a name to the one it ends with;
* `longNames`: how many names the loop can still run into, fewer with every prime;
* `freshName_primed`: so the loop ends, and the search with a bound finds where;
* `addAuxiliary_eq`, `distinct_addAuxiliary`: what is appended to a model, and that names
  which were different stay so.
-/

namespace LinearProgram

namespace Model

/-- The loop that adds a prime to a name as long as it is taken, with the number of primes
that it adds. -/
inductive Primed (taken : List String) : String → Nat → String → Prop
  | free {name : String} (new : name ∉ taken) : Primed taken name 0 name
  | prime {name fresh : String} {k : Nat} (clash : name ∈ taken)
      (rest : Primed taken (name ++ "'") k fresh) : Primed taken name (k + 1) fresh

def primes : Nat → String
  | 0 => ""
  | k + 1 => "'" ++ primes k

/-- The number of taken names that are not shorter than a given one. -/
def longNames (taken : List String) (name : String) : Nat :=
  taken.countP fun other => name.length ≤ other.length

section Loop

variable {taken : List String} {name fresh : String} {k : Nat}

theorem Primed.not_mem (primed : Primed taken name k fresh) : fresh ∉ taken := by
  induction primed with
  | free new => exact new
  | prime _ _ ih => exact ih

theorem Primed.eq_append (primed : Primed taken name k fresh) : fresh = name ++ primes k := by
  induction primed with
  | free => simp [primes]
  | prime _ _ ih => rw [ih, primes, String.append_assoc]

theorem longNames_pos (clash : name ∈ taken) : 0 < longNames taken name :=
  List.countP_pos_iff.2 ⟨name, clash, by simp⟩

/-- A taken name is not as long as itself with a prime. -/
theorem longNames_prime_lt (clash : name ∈ taken) :
    longNames taken (name ++ "'") < longNames taken name := by
  calc longNames taken (name ++ "'")
      = (taken.filter fun other => name.length ≤ other.length).countP
          fun other => (name ++ "'").length ≤ other.length := by
        rw [longNames, List.countP_filter]
        refine List.countP_congr fun other _ => ?_
        simp only [String.length_append, Bool.and_eq_true, decide_eq_true_eq]
        omega
    _ < (taken.filter fun other => name.length ≤ other.length).length :=
        List.countP_lt_length_iff.2 ⟨name, by simpa using clash, by simp⟩
    _ = longNames taken name := List.countP_eq_length_filter.symm

/-- The loop ends, and a search that may add as many primes finds the name it ends with. -/
theorem freshName_primed {bound : Nat} (enough : longNames taken name ≤ bound) :
    ∃ k ≤ longNames taken name, Primed taken name k (freshName taken name bound) := by
  induction bound generalizing name with
  | zero =>
    refine ⟨0, Nat.zero_le _, .free fun clash => ?_⟩
    have := longNames_pos clash
    omega
  | succ bound ih =>
    unfold freshName
    split
    · rename_i clash
      have clash : name ∈ taken := by simpa using clash
      have fewer := longNames_prime_lt clash
      obtain ⟨k, le, rest⟩ := ih (show longNames taken (name ++ "'") ≤ bound by omega)
      exact ⟨k + 1, by omega, .prime clash rest⟩
    · rename_i new
      exact ⟨0, Nat.zero_le _, .free (by simpa using new)⟩

end Loop

variable {α : Type} {m : Model α}

/-- One variable is appended, under the name the loop ends with and with its position. -/
theorem addAuxiliary_eq (m : Model α) (label : String) (constraint : Nat) : ∃ k name,
    k ≤ m.vars.length ∧
      Primed (m.vars.map Variable.name) (label ++ toString constraint) k name ∧
      m.addAuxiliary label constraint =
        ({ m with vars := m.vars ++ [⟨name, m.vars.length⟩] }, ⟨name, m.vars.length⟩) := by
  have few : longNames (m.vars.map Variable.name) (label ++ toString constraint) ≤
      m.vars.length := by
    rw [← List.length_map Variable.name]
    exact List.countP_le_length
  obtain ⟨k, le, primed⟩ := freshName_primed few
  exact ⟨k, _, le.trans few, primed, rfl⟩

theorem distinct_pushVariable {v : Variable} (distinct : (m.vars.map Variable.name).Nodup)
    (new : v.name ∉ m.vars.map Variable.name) :
    ((m.pushVariable v).vars.map Variable.name).Nodup := by
  rw [pushVariable, List.map_append, List.map_singleton]
  exact List.nodup_append.2 ⟨distinct, List.nodup_singleton _, by simpa using new⟩

theorem distinct_addAuxiliary (distinct : (m.vars.map Variable.name).Nodup) (label : String)
    (constraint : Nat) :
    ((m.addAuxiliary label constraint).1.vars.map Variable.name).Nodup := by
  obtain ⟨k, name, _, primed, added⟩ := m.addAuxiliary_eq label constraint
  rw [added]
  exact distinct_pushVariable (v := ⟨name, m.vars.length⟩) distinct primed.not_mem

end Model

end LinearProgram
