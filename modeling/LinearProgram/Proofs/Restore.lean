import Mathlib
import LinearProgram.Proofs.PhaseOne
import LinearProgram.Proofs.Tableau.Removal

/-!
# Driving artificial variables out

* `widest_spec`, `widest_eq_some`, `widest_eq_none`: what the search for a
  replacement finds, or proves by finding nothing;
* `Drives`, `driveOut_drives`: the loop over the rows as a relation, with every
  guard that was passed; `exists_driveOut`: it never faults;
* `Drives.equivalent`: no solution is lost or added, under any tolerance that is not
  negative;
* `Cleared`, `Drives.cleared`: without a tolerance the loop keeps a feasible
  basis, whose artificial columns are left in redundant rows only.
-/

namespace LinearProgram

open Tableau (FeasibleBasis)

namespace PhaseOne

section Total

variable {α : Type} [Scalar α] {ε : α}

/-- The search finds one of the positions it has looked at. -/
theorem widest_lt {excluded : Nat → Bool} {best : Option (Nat × α)} {next c : Nat} (xs : List α)
    (sofar : ∀ b ∈ best, b.1 < next) (h : widest ε excluded best next xs = some c) :
    c < next + xs.length := by
  induction xs generalizing best next with
  | nil =>
    obtain ⟨b, found, rfl⟩ := Option.map_eq_some_iff.1 h
    exact sofar b found
  | cons x xs ih =>
    rw [List.length_cons, Nat.add_comm xs.length, ← Nat.add_assoc]
    rw [widest] at h
    split at h
    · refine ih ?_ h
      rintro b ⟨⟩
      exact Nat.lt_succ_self next
    · exact ih (fun b found => (sofar b found).trans (Nat.lt_succ_self next)) h

/-- Whatever is driven out, the loop does not fault and keeps the sizes, and the rows
that are given up are among those listed, in their order. -/
theorem exists_driveOut {t : Tableau α} {m n : Nat} {items : List (Option Nat × Nat)} (ε : α)
    (p : PhaseOne α) (sized : t.Sized m n) (rows : ∀ e ∈ items, 0 < e.2 ∧ e.2 ≤ m) :
    ∃ u redundant, (driveOut ε p items t).outcome = .ok (u, redundant) ∧ u.Sized m n ∧
      redundant.Sublist (items.map Prod.snd) := by
  induction items generalizing t with
  | nil => exact ⟨t, [], rfl, sized, .slnil⟩
  | cons e rest ih =>
    obtain ⟨basic, row⟩ := e
    obtain ⟨⟨pos, le⟩, rows⟩ := List.forall_mem_cons.1 rows
    unfold driveOut
    split
    · rw [sized.row le, sized.rhsColumn]
      simp only [Traced.outcome_bind, Traced.outcome_ofExcept, bind_ok]
      split
      · rename_i column found
        have inside := widest_lt _ (by simp) found
        rw [List.length_take, sized.line_length le] at inside
        obtain ⟨next, pivot, sized', _⟩ := sized.pivot le (show column ≤ n by omega)
        obtain ⟨u, redundant, rest, sized'', sublist⟩ := ih sized' rows
        exact ⟨u, redundant, by simp [pivot, rest], sized'', sublist.cons row⟩
      · obtain ⟨u, redundant, rest, sized', sublist⟩ := ih sized rows
        exact ⟨u, row :: redundant, by simp [rest], sized', sublist.cons_cons row⟩
    · obtain ⟨u, redundant, rest, sized', sublist⟩ := ih sized rows
      exact ⟨u, redundant, rest, sized', sublist.cons row⟩

end Total

variable {ε : Rat} {p : PhaseOne Rat}

/-- What is known of the result of a search from `next` on. -/
def Widest (ε : Rat) (excluded : Nat → Bool) (best : Option (Nat × Rat)) (next : Nat)
    (xs : List Rat) : Option Nat → Prop
  | some j => (∃ size, best = some (j, size)) ∨
      ∃ i x, xs[i]? = some x ∧ j = next + i ∧ excluded j = false ∧ ε < |x|
  | none => best = none ∧ ∀ i x, xs[i]? = some x → excluded (next + i) = false → |x| ≤ ε

theorem widest_spec (excluded : Nat → Bool) (xs : List Rat) (best : Option (Nat × Rat))
    (next : Nat) :
    Widest ε excluded best next xs (widest ε excluded best next xs) := by
  induction xs generalizing best next with
  | nil =>
    rw [widest]
    cases best with
    | none => exact ⟨rfl, nofun⟩
    | some b => exact .inl ⟨b.2, rfl⟩
  | cons x xs ih =>
    rw [widest, magnitude_eq_abs]
    split
    · rename_i better
      simp only [Bool.and_eq_true, Bool.not_eq_true', decide_eq_true_eq] at better
      have spec := ih (some (next, |x|)) (next + 1)
      cases found : widest ε excluded (some (next, |x|)) (next + 1) xs with
      | none =>
        rw [found] at spec
        exact nomatch spec.1
      | some j =>
        rw [found] at spec
        rcases spec with ⟨size, same⟩ | ⟨i, y, hi, rfl, rest⟩
        · obtain ⟨rfl, -⟩ := Prod.mk.inj (Option.some.inj same)
          exact .inr ⟨0, x, rfl, rfl, better.1⟩
        · exact .inr ⟨i + 1, y, hi, by omega, rest⟩
    · rename_i notBetter
      have spec := ih best (next + 1)
      cases found : widest ε excluded best (next + 1) xs with
      | none =>
        rw [found] at spec
        obtain ⟨rfl, small⟩ := spec
        refine ⟨rfl, fun i y hi included => ?_⟩
        cases i with
        | zero =>
          obtain rfl : x = y := Option.some.inj hi
          have included : excluded next = false := included
          simp only [included, Bool.not_false, Bool.true_and, Option.all_none, Bool.and_true,
            decide_eq_true_eq, not_lt] at notBetter
          exact notBetter
        | succ i => exact small i y hi (by rwa [Nat.add_right_comm, Nat.add_assoc])
      | some j =>
        rw [found] at spec
        rcases spec with old | ⟨i, y, hi, rfl, rest⟩
        · exact .inl old
        · exact .inr ⟨i + 1, y, hi, by omega, rest⟩

theorem widest_eq_some {excluded : Nat → Bool} {f : Nat → Rat} {n c : Nat}
    (h : widest ε excluded none 0 ((List.range n).map f) = some c) :
    c < n ∧ excluded c = false ∧ ε < |f c| := by
  have spec := widest_spec (ε := ε) excluded ((List.range n).map f) none 0
  rw [h] at spec
  obtain ⟨_, impossible⟩ | ⟨i, x, hi, same, real, large⟩ := spec
  · exact nomatch impossible
  · obtain ⟨inside, rfl⟩ := Tableau.map_range_eq_some.1 hi
    rw [Nat.zero_add] at same
    subst same
    exact ⟨inside, real, large⟩

theorem widest_eq_none {excluded : Nat → Bool} {f : Nat → Rat} {n : Nat}
    (h : widest ε excluded none 0 ((List.range n).map f) = none) :
    ∀ j < n, excluded j = false → |f j| ≤ ε := by
  have spec := widest_spec (ε := ε) excluded ((List.range n).map f) none 0
  rw [h] at spec
  intro j hj included
  exact spec.2 j _ (Tableau.map_range_eq_some.2 ⟨hj, rfl⟩) (by rwa [Nat.zero_add])

/-- The loop that drives artificial variables out, with the guards it has passed.
Columns are replaced by columns of other variables only. -/
inductive Drives (ε : Rat) (p : PhaseOne Rat) (n : Nat) :
    List (Option Nat × Nat) → Tableau Rat → Tableau Rat → List Nat → Prop
  | nil {t : Tableau Rat} : Drives ε p n [] t t []
  | keep {basic : Option Nat} {row : Nat} {rest : List (Option Nat × Nat)} {t u : Tableau Rat}
      {redundant : List Nat} (real : basic.any p.artificials.contains = false)
      (later : Drives ε p n rest t u redundant) : Drives ε p n ((basic, row) :: rest) t u redundant
  | replace {basic : Option Nat} {row column : Nat} {rest : List (Option Nat × Nat)}
      {t next u : Tableau Rat} {redundant : List Nat}
      (artificial : basic.any p.artificials.contains = true) (inside : column < n)
      (real : p.artificials.contains column = false) (large : ε < |t.get row column|)
      (pivot : t.pivot row column = .ok next) (later : Drives ε p n rest next u redundant) :
      Drives ε p n ((basic, row) :: rest) t u redundant
  | drop {basic : Option Nat} {row : Nat} {rest : List (Option Nat × Nat)} {t u : Tableau Rat}
      {redundant : List Nat} (artificial : basic.any p.artificials.contains = true)
      (small : ∀ j < n, p.artificials.contains j = false → |t.get row j| ≤ ε)
      (later : Drives ε p n rest t u redundant) :
      Drives ε p n ((basic, row) :: rest) t u (row :: redundant)

variable {m n : Nat} {items : List (Option Nat × Nat)} {t u : Tableau Rat} {redundant : List Nat}

theorem driveOut_drives (sized : t.Sized m n) (rows : ∀ e ∈ items, 0 < e.2 ∧ e.2 ≤ m)
    (h : (driveOut ε p items t).outcome = .ok (u, redundant)) :
    Drives ε p n items t u redundant := by
  induction items generalizing t u redundant with
  | nil =>
    injection h with h
    obtain ⟨rfl, rfl⟩ := Prod.mk.inj h
    exact .nil
  | cons e rest ih =>
    obtain ⟨basic, row⟩ := e
    obtain ⟨⟨pos, le⟩, rows⟩ := List.forall_mem_cons.1 rows
    unfold driveOut at h
    split at h
    · rename_i artificial
      rw [sized.row le, sized.rhsColumn] at h
      simp only [Traced.outcome_bind, Traced.outcome_ofExcept, bind_ok, sized.line_take le] at h
      split at h
      · rename_i column found
        obtain ⟨inside, real, large⟩ := widest_eq_some found
        simp only [Traced.outcome_bind, Traced.outcome_note, Traced.outcome_ofExcept, bind_ok,
          except_bind_eq_ok] at h
        obtain ⟨next, pivot, h⟩ := h
        have sized' := (sized.get_pivot le inside.le pivot).1
        exact .replace artificial inside real large pivot (ih sized' rows h)
      · rename_i found
        simp only [Traced.outcome_bind, except_bind_eq_ok] at h
        obtain ⟨⟨cleared, later⟩, rest, h⟩ := h
        injection h with h
        obtain ⟨rfl, rfl⟩ := Prod.mk.inj h
        exact .drop artificial (widest_eq_none found) (ih sized rows rest)
    · rename_i real
      exact .keep (Bool.eq_false_iff.2 real) (ih sized rows h)

/-- The rows that are given up are among those listed, in their order. -/
theorem Drives.sublist (drives : Drives ε p n items t u redundant) :
    redundant.Sublist (items.map Prod.snd) := by
  induction drives with
  | nil => exact .slnil
  | keep _ _ ih => exact ih.cons _
  | replace _ _ _ _ _ _ ih => exact ih.cons _
  | drop _ _ _ ih => exact ih.cons_cons _

/-- The rows that a basis was read from are the constraint rows. -/
theorem rows_of_mem_zipIdx {β : Type} {listed : List β} (length : listed.length = m) :
    ∀ e ∈ listed.zipIdx 1, 0 < e.2 ∧ e.2 ≤ m := by
  intro e he
  obtain ⟨le, lt, _⟩ := List.mem_zipIdx he
  omega

/-- Rows that are given up are dropped from the last to the first. -/
theorem descending_reverse {rows : List Nat} (sublist : rows.Sublist (List.range' 1 m)) :
    rows.reverse.Pairwise (· > ·) ∧ ∀ r ∈ rows.reverse, 0 < r ∧ r ≤ m := by
  refine ⟨List.pairwise_reverse.2 (List.Pairwise.sublist sublist List.pairwise_lt_range'),
    fun r hr => ?_⟩
  have := List.mem_range'_1.1 (sublist.subset (List.mem_reverse.1 hr))
  omega

/-- Driving out keeps the sizes and the solutions. -/
theorem Drives.equivalent (drives : Drives ε p n items t u redundant) (nonneg : 0 ≤ ε)
    (sized : t.Sized m n) (rows : ∀ e ∈ items, 0 < e.2 ∧ e.2 ≤ m) :
    u.Sized m n ∧ t.Equivalent u := by
  induction drives with
  | nil => exact ⟨sized, .refl _⟩
  | keep _ _ ih => exact ih sized (List.forall_mem_cons.1 rows).2
  | replace _ inside _ large pivot _ ih =>
    obtain ⟨⟨pos, le⟩, rows⟩ := List.forall_mem_cons.1 rows
    obtain ⟨sized', same⟩ := ih (sized.get_pivot le inside.le pivot).1 rows
    have nonzero := abs_pos.1 (nonneg.trans_lt large)
    exact ⟨sized', (sized.equivalent_pivot pos le inside.le pivot nonzero).trans same⟩
  | drop _ _ _ ih => exact ih sized (List.forall_mem_cons.1 rows).2

/-- A row without a number outside the artificial columns. -/
def Spent (p : PhaseOne Rat) (t : Tableau Rat) (n i : Nat) : Prop :=
  (∀ j < n, p.artificials.contains j = false → t.get i j = 0) ∧ t.get i n = 0

/-- What driving out achieves on the listed rows: a feasible basis whose columns
are artificial in the redundant rows only, and these rows are spent. -/
structure Cleared (p : PhaseOne Rat) (m n : Nat) (listed : List Nat) (t u : Tableau Rat)
    (redundant : List Nat) (basic basic' : Nat → Nat) (Loose : Nat → Prop) : Prop where
  basis : u.FeasibleBasis m n basic' Loose
  others : ∀ i, i ∉ listed → basic' i = basic i
  stays : ∀ i, i ∉ listed → p.Spent t n i → p.Spent u n i
  real : ∀ i ∈ listed, i ∉ redundant → p.artificials.contains (basic' i) = false
  spent : ∀ i ∈ redundant, p.artificials.contains (basic' i) = true ∧ p.Spent u n i

/-- A pivot on a row with right-hand side zero moves no right-hand side and
leaves a spent row as it is. -/
theorem Spent.pivot {r c i : Nat} (sized : t.Sized m n) (le : r ≤ m) (hc : c < n)
    (real : p.artificials.contains c = false) (next : t.pivot r c = .ok u)
    (different : i ≠ r) (spent : p.Spent t n i) : p.Spent u n i := by
  obtain ⟨_, entries⟩ := sized.get_pivot le hc.le next
  have same (j : Nat) : u.get i j = t.get i j := by
    rw [entries, if_neg different, spent.1 c hc real, zero_mul, sub_zero]
  exact ⟨fun j hj included => by rw [same, spent.1 j hj included], by rw [same, spent.2]⟩

namespace Cleared

variable {next : Tableau Rat} {row column : Nat} {rest : List Nat} {basic basic' : Nat → Nat}
  {Loose : Nat → Prop}

/-- One more row whose basic column stays. -/
theorem keep (cleared : Cleared p m n rest t u redundant basic basic' Loose) (new : row ∉ rest)
    (real : p.artificials.contains (basic row) = false) :
    Cleared p m n (row :: rest) t u redundant basic basic' Loose := by
  refine ⟨cleared.basis, fun i hi => ?_, fun i hi => ?_, fun i hi given => ?_, cleared.spent⟩
  · exact cleared.others i fun mem => hi (List.mem_cons_of_mem _ mem)
  · exact cleared.stays i fun mem => hi (List.mem_cons_of_mem _ mem)
  · rcases List.mem_cons.1 hi with rfl | mem
    · rw [cleared.others i new]
      exact real
    · exact cleared.real i mem given

/-- One more row that gets another basic column first. -/
theorem replace
    (cleared : Cleared p m n rest next u redundant (Function.update basic row column) basic' Loose)
    (new : row ∉ rest) (real : p.artificials.contains column = false) (sized : t.Sized m n)
    (le : row ≤ m) (inside : column < n) (pivot : t.pivot row column = .ok next) :
    Cleared p m n (row :: rest) t u redundant basic basic' Loose := by
  refine ⟨cleared.basis, fun i hi => ?_, fun i hi spent => ?_, fun i hi given => ?_, cleared.spent⟩
  · rw [List.mem_cons, not_or] at hi
    rw [cleared.others i hi.2, Function.update_of_ne hi.1]
  · rw [List.mem_cons, not_or] at hi
    exact cleared.stays i hi.2 (spent.pivot sized le inside real pivot hi.1)
  · rcases List.mem_cons.1 hi with rfl | mem
    · rw [cleared.others i new, Function.update_self]
      exact real
    · exact cleared.real i mem given

/-- One more row that is given up. -/
theorem drop (cleared : Cleared p m n rest t u redundant basic basic' Loose) (new : row ∉ rest)
    (artificial : p.artificials.contains (basic row) = true) (spent : p.Spent t n row) :
    Cleared p m n (row :: rest) t u (row :: redundant) basic basic' Loose := by
  refine ⟨cleared.basis, fun i hi => ?_, fun i hi => ?_, fun i hi given => ?_, fun i hi => ?_⟩
  · exact cleared.others i fun mem => hi (List.mem_cons_of_mem _ mem)
  · exact cleared.stays i fun mem => hi (List.mem_cons_of_mem _ mem)
  · rw [List.mem_cons, not_or] at given
    rcases List.mem_cons.1 hi with same | mem
    · exact absurd same given.1
    · exact cleared.real i mem given.2
  · rcases List.mem_cons.1 hi with rfl | mem
    · rw [cleared.others i new]
      exact ⟨artificial, cleared.stays i new spent⟩
    · exact cleared.spent i mem

end Cleared

/-- The loop over rows with different numbers, whose basic columns were read and
whose right-hand sides are zero where these are artificial. -/
theorem Drives.cleared {Loose : Nat → Prop} (drives : Drives 0 p n items t u redundant)
    {basic : Nat → Nat} (basis : t.FeasibleBasis m n basic Loose)
    (rows : ∀ e ∈ items, 0 < e.2 ∧ e.2 ≤ m) (distinct : (items.map Prod.snd).Nodup)
    (read : ∀ e ∈ items, e.1 = some (basic e.2))
    (degenerate : ∀ e ∈ items, p.artificials.contains (basic e.2) = true → t.get e.2 n = 0) :
    ∃ basic', Cleared p m n (items.map Prod.snd) t u redundant basic basic' Loose := by
  induction drives generalizing basic with
  | nil => exact ⟨basic, basis, fun _ _ => rfl, fun _ _ spent => spent, nofun, nofun⟩
  | @keep column row _ _ _ _ real _ ih =>
    obtain ⟨_, restRows⟩ := List.forall_mem_cons.1 rows
    obtain ⟨readRow, readRest⟩ := List.forall_mem_cons.1 read
    obtain ⟨_, restDegenerate⟩ := List.forall_mem_cons.1 degenerate
    obtain ⟨new, restDistinct⟩ := List.nodup_cons.1 distinct
    obtain ⟨basic', cleared⟩ := ih basis restRows restDistinct readRest restDegenerate
    obtain rfl : column = some (basic row) := readRow
    exact ⟨basic', cleared.keep new real⟩
  | @replace column row entering rest t next _ _ artificial inside real large pivot _ ih =>
    obtain ⟨⟨pos, le⟩, restRows⟩ := List.forall_mem_cons.1 rows
    obtain ⟨readRow, readRest⟩ := List.forall_mem_cons.1 read
    obtain ⟨zero, restDegenerate⟩ := List.forall_mem_cons.1 degenerate
    obtain ⟨new, restDistinct⟩ := List.nodup_cons.1 distinct
    obtain rfl : column = some (basic row) := readRow
    obtain ⟨nextBasis, rhs⟩ :=
      basis.pivot_degenerate pos le inside pivot (abs_pos.1 large) (zero artificial)
    have other {e : Option Nat × Nat} (he : e ∈ rest) : e.2 ≠ row := by
      rintro rfl
      exact new (List.mem_map.2 ⟨e, he, rfl⟩)
    obtain ⟨basic', cleared⟩ := ih nextBasis restRows restDistinct
      (fun e he => by rw [Function.update_of_ne (other he), readRest e he])
      (fun e he given => by
        rw [Function.update_of_ne (other he)] at given
        rw [rhs, restDegenerate e he given])
    exact ⟨basic', cleared.replace new real basis.sized le inside pivot⟩
  | @drop column row _ _ _ _ artificial small _ ih =>
    obtain ⟨_, restRows⟩ := List.forall_mem_cons.1 rows
    obtain ⟨readRow, readRest⟩ := List.forall_mem_cons.1 read
    obtain ⟨zero, restDegenerate⟩ := List.forall_mem_cons.1 degenerate
    obtain ⟨new, restDistinct⟩ := List.nodup_cons.1 distinct
    obtain rfl : column = some (basic row) := readRow
    obtain ⟨basic', cleared⟩ := ih basis restRows restDistinct readRest restDegenerate
    exact ⟨basic', cleared.drop new artificial
      ⟨fun j hj included => abs_nonpos_iff.1 (small j hj included), zero artificial⟩⟩

end PhaseOne

end LinearProgram
