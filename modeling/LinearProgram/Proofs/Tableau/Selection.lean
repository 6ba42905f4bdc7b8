import Mathlib
import LinearProgram.Proofs.Tableau.Elimination
import LinearProgram.Tableau.Run

/-!
# What one step of the pivot loop can do

* `Guarded`, `Sized.exists_move`: over any scalars, a step on a sized table does
  not fault, and every test it passed is known afterwards; `Sized.move_of_rules`: the
  rules decide it, `Sized.move_ne_blocked`: it is never blocked;
* `IsFirstLeast`, `leastIndex_spec`: the entering column is the first of the
  least reduced costs;
* `IsFirstRatio`, `ratioTest_spec`: the leaving row is the first of the least
  ratios over the rows whose entry is beyond the tolerance;
* `Moves`, `Sized.moves_of_move`: what the tests mean over the rational numbers.
-/

namespace LinearProgram.Tableau

section Guards

variable {α : Type} [Scalar α] {t u : Tableau α} {m n : Nat} {ε : α}

theorem leastIndexFrom_lt {least : α} {found next : Nat} (xs : List α) (h : found < next) :
    leastIndexFrom least found next xs < next + xs.length := by
  induction xs generalizing least found next with
  | nil => exact h
  | cons x xs ih =>
    rw [leastIndexFrom, List.length_cons, Nat.add_comm xs.length, ← Nat.add_assoc]
    split
    · exact ih (Nat.lt_succ_self next)
    · exact ih (h.trans (Nat.lt_succ_self next))

theorem leastIndex_lt {xs : List α} (h : 0 < xs.length) : leastIndex xs < xs.length := by
  cases xs with
  | nil => exact absurd h (Nat.lt_irrefl 0)
  | cons x xs =>
    rw [leastIndex, List.length_cons, Nat.add_comm]
    exact leastIndexFrom_lt xs Nat.one_pos

/-- The ratio test names one of the rows it has looked at. -/
theorem ratioTest_bounds {best : Option (α × Nat)} {next r : Nat} (items : List (α × α))
    (pos : 0 < next) (sofar : ∀ b ∈ best, 0 < b.2 ∧ b.2 < next)
    (h : ratioTest ε best next items = some r) : 0 < r ∧ r < next + items.length := by
  induction items generalizing best next with
  | nil =>
    obtain ⟨b, found, rfl⟩ := Option.map_eq_some_iff.1 h
    exact sofar b found
  | cons item items ih =>
    obtain ⟨x, rhs⟩ := item
    have here (ratio : α) : ∀ b ∈ some (ratio, next), 0 < b.2 ∧ b.2 < next + 1 := by
      rintro b ⟨⟩
      exact ⟨pos, Nat.lt_succ_self next⟩
    have before : ∀ b ∈ best, 0 < b.2 ∧ b.2 < next + 1 := fun b found =>
      ⟨(sofar b found).1, (sofar b found).2.trans (Nat.lt_succ_self next)⟩
    rw [List.length_cons, Nat.add_comm items.length, ← Nat.add_assoc]
    unfold ratioTest at h
    split at h
    · exact ih (Nat.succ_pos next) before h
    · cases best with
      | none => exact ih (Nat.succ_pos next) (here _) h
      | some found =>
        dsimp only at h
        split at h
        · exact ih (Nat.succ_pos next) before h
        · exact ih (Nat.succ_pos next) (here _) h

/-- The ratio test names no row only when no entry it looks at is beyond the tolerance. -/
theorem ratioTest_eq_none {best : Option (α × Nat)} {next : Nat} {items : List (α × α)}
    (h : ratioTest ε best next items = none) : best = none ∧ ∀ e ∈ items, e.1 ≤ ε := by
  induction items generalizing best next with
  | nil => exact ⟨Option.map_eq_none_iff.1 h, by simp⟩
  | cons item items ih =>
    obtain ⟨x, rhs⟩ := item
    unfold ratioTest at h
    split at h
    · rename_i small
      obtain ⟨rfl, rest⟩ := ih h
      exact ⟨rfl, List.forall_mem_cons.2 ⟨small, rest⟩⟩
    · cases best with
      | none => exact nomatch (ih h).1
      | some found =>
        dsimp only at h
        split at h
        · exact nomatch (ih h).1
        · exact nomatch (ih h).1

/-- Without an entry beyond the tolerance the ratio test names no row. -/
theorem ratioTest_of_small {next : Nat} {items : List (α × α)} (small : ∀ e ∈ items, e.1 ≤ ε) :
    ratioTest ε none next items = none := by
  induction items generalizing next with
  | nil => rfl
  | cons item items ih =>
    obtain ⟨here, rest⟩ := List.forall_mem_cons.1 small
    rw [ratioTest, if_pos here]
    exact ih rest

namespace Sized

theorem isOptimal (sized : t.Sized m n) :
    t.isOptimal ε = .ok (decide (∀ j < n, -ε ≤ t.get 0 j)) := by
  rw [Tableau.isOptimal, sized.reducedCosts, ok_bind]
  congr 1
  rw [Bool.eq_iff_iff]
  simp

theorem entering (sized : t.Sized m n) :
    t.entering = .ok (leastIndex ((List.range n).map (t.get 0))) := by
  rw [Tableau.entering, sized.reducedCosts, ok_bind]

theorem isUnbounded (sized : t.Sized m n) {c : Nat} (hc : c ≤ n) :
    t.isUnbounded ε c = .ok (decide (∀ i < m, t.get (i + 1) c ≤ ε)) := by
  rw [Tableau.isUnbounded, sized.row (Nat.zero_le m), ok_bind, sized.mapM_cell hc, ok_bind]
  congr 1
  rw [Bool.eq_iff_iff]
  simp

theorem leaving (sized : t.Sized m n) {c : Nat} (hc : c ≤ n) : t.leaving ε c =
    .ok (ratioTest ε none 1 ((List.range' 1 m).map fun i => (t.get i c, t.get i n))) := by
  rw [Tableau.leaving, mapM_eq_ok (g := fun r => (r[c]?.getD 0, r[n]?.getD 0)),
    sized.constraintRows, List.range'_eq_map_range, List.map_map, List.map_map, ok_bind]
  · congr 3
    funext i
    simp [get, Nat.add_comm]
  · intro r hr
    have := sized.columns r (List.mem_of_mem_tail hr)
    rw [sized.rhsColumn, cell_eq_ok (by omega), cell_eq_ok (by omega)]
    rfl

end Sized

/-- All that a step can do, with the tests it has passed. -/
inductive Guarded (t : Tableau α) (ε : α) (m n : Nat) : Move α → Prop
  | optimal (nonneg : ∀ j < n, -ε ≤ t.get 0 j) : Guarded t ε m n .optimal
  | unbounded {c : Nat} (negative : ¬ ∀ j < n, -ε ≤ t.get 0 j)
      (least : leastIndex ((List.range n).map (t.get 0)) = c) (inside : c < n)
      (free : ∀ i < m, t.get (i + 1) c ≤ ε) : Guarded t ε m n (.unbounded c)
  | blocked {c : Nat} (negative : ¬ ∀ j < n, -ε ≤ t.get 0 j)
      (least : leastIndex ((List.range n).map (t.get 0)) = c) (inside : c < n)
      (bound : ¬ ∀ i < m, t.get (i + 1) c ≤ ε)
      (ratio : ratioTest ε none 1 ((List.range' 1 m).map fun i => (t.get i c, t.get i n)) = none) :
      Guarded t ε m n .blocked
  | pivot {c r : Nat} {u : Tableau α} (negative : ¬ ∀ j < n, -ε ≤ t.get 0 j)
      (least : leastIndex ((List.range n).map (t.get 0)) = c) (inside : c < n)
      (ratio : ratioTest ε none 1 ((List.range' 1 m).map fun i => (t.get i c, t.get i n)) = some r)
      (pos : 0 < r) (le : r ≤ m) (next : t.pivot r c = .ok u) (sized : u.Sized m n) :
      Guarded t ε m n (.pivot ⟨c, t.get 0 c, r⟩ u)

/-- A step on a sized table does not fault, and a pivot keeps the sizes. -/
theorem Sized.exists_move (sized : t.Sized m n) (ε : α) :
    ∃ mv, t.move ε = .ok mv ∧ t.Guarded ε m n mv := by
  unfold move
  rw [sized.isOptimal, ok_bind]
  by_cases nonneg : ∀ j < n, -ε ≤ t.get 0 j
  · rw [decide_eq_true nonneg]
    exact ⟨.optimal, rfl, .optimal nonneg⟩
  · have hn : 0 < n := Nat.pos_of_ne_zero fun h => nonneg (by simp [h])
    have inside : leastIndex ((List.range n).map (t.get 0)) < _ := leastIndex_lt (by simpa using hn)
    rw [List.length_map, List.length_range] at inside
    rw [decide_eq_false nonneg, sized.entering]
    generalize least : leastIndex ((List.range n).map (t.get 0)) = c at inside
    simp only [Bool.false_eq_true, if_false, ok_bind]
    rw [sized.isUnbounded inside.le, ok_bind]
    by_cases free : ∀ i < m, t.get (i + 1) c ≤ ε
    · rw [decide_eq_true free]
      exact ⟨.unbounded c, rfl, .unbounded nonneg least inside free⟩
    · rw [decide_eq_false free, sized.leaving inside.le]
      cases ratio : ratioTest ε none 1
          ((List.range' 1 m).map fun i => (t.get i c, t.get i n)) with
      | none => exact ⟨.blocked, rfl, .blocked nonneg least inside free ratio⟩
      | some r =>
        obtain ⟨pos, lt⟩ := ratioTest_bounds _ Nat.one_pos (by simp) ratio
        have le : r ≤ m := by simpa [Nat.add_comm 1 m, Nat.lt_succ_iff] using lt
        obtain ⟨u, next, sized', _⟩ := sized.pivot le inside.le
        refine ⟨.pivot ⟨c, t.get 0 c, r⟩ u, ?_,
          .pivot nonneg least inside ratio pos le next sized'⟩
        simp only [Bool.false_eq_true, if_false, ok_bind, sized.entry (Nat.zero_le m) inside.le,
          next]

/-- The tests that a step has passed. -/
theorem Sized.guarded_of_move (sized : t.Sized m n) {mv : Move α} (h : t.move ε = .ok mv) :
    t.Guarded ε m n mv := by
  obtain ⟨mv', h', guarded⟩ := sized.exists_move ε
  obtain rfl : mv' = mv := by simpa [h'] using h
  exact guarded

/-- When the rules name a column and a row, the step is the pivot on them. -/
theorem Sized.move_of_rules (sized : t.Sized m n) {c r : Nat}
    (improvable : t.isOptimal ε = .ok false) (enters : t.entering = .ok c)
    (leaves : t.leaving ε c = .ok (some r)) :
    ∃ u, t.pivot r c = .ok u ∧ t.move ε = .ok (.pivot ⟨c, t.get 0 c, r⟩ u) := by
  obtain ⟨mv, move, guarded⟩ := sized.exists_move ε
  rw [sized.entering] at enters
  cases guarded with
  | optimal nonneg => simp [sized.isOptimal, decide_eq_true nonneg] at improvable
  | unbounded _ least inside free =>
    obtain rfl := least.symm.trans (Except.ok.inj enters)
    rw [sized.leaving inside.le, ratioTest_of_small] at leaves
    · exact nomatch leaves
    · intro e he
      obtain ⟨i, hi, rfl⟩ := List.mem_map.1 he
      obtain ⟨pos, lt⟩ := List.mem_range'_1.1 hi
      have small := free (i - 1) (by omega)
      rwa [Nat.sub_add_cancel pos] at small
  | blocked _ least inside _ ratio =>
    obtain rfl := least.symm.trans (Except.ok.inj enters)
    rw [sized.leaving inside.le, ratio] at leaves
    exact nomatch leaves
  | @pivot _ _ u _ least inside ratio _ _ next _ =>
    obtain rfl := least.symm.trans (Except.ok.inj enters)
    rw [sized.leaving inside.le, ratio] at leaves
    obtain rfl := Option.some.inj (Except.ok.inj leaves)
    exact ⟨u, next, move⟩

/-- No step is blocked: the ratio test asks of an entry what the test before it has asked. -/
theorem Sized.move_ne_blocked (sized : t.Sized m n) : t.move ε ≠ .ok .blocked := by
  intro move
  cases sized.guarded_of_move move with
  | blocked negative least inside bound ratio =>
    refine bound fun i hi => (ratioTest_eq_none ratio).2 (t.get (i + 1) _, t.get (i + 1) n) ?_
    exact List.mem_map.2 ⟨i + 1, List.mem_range'_1.2 ⟨by omega, by omega⟩, rfl⟩

end Guards

variable {t u : Tableau Rat} {m n : Nat} {ε : Rat}

/-- `r` is the first position below `k` where `f` is least. -/
structure IsFirstLeast (f : Nat → Rat) (k r : Nat) : Prop where
  lt : r < k
  least : ∀ j < k, f r ≤ f j
  first : ∀ j < r, f r < f j

theorem leastIndexFrom_spec (f : Nat → Rat) (k : Nat) {found next : Nat}
    (h : IsFirstLeast f next found) :
    IsFirstLeast f (next + k)
      (leastIndexFrom (f found) found next ((List.range' next k).map f)) := by
  induction k generalizing found next with
  | zero => exact h
  | succ k ih =>
    rw [List.range'_succ, List.map_cons, leastIndexFrom,
      show next + (k + 1) = next + 1 + k by omega]
    split
    · rename_i less
      apply ih
      refine ⟨Nat.lt_succ_self next, fun j hj => ?_, fun j hj => less.trans_le (h.least j hj)⟩
      rcases Nat.lt_succ_iff_lt_or_eq.1 hj with hj | rfl
      · exact less.le.trans (h.least j hj)
      · exact le_rfl
    · rename_i notLess
      apply ih
      refine ⟨h.lt.trans (Nat.lt_succ_self next), fun j hj => ?_, h.first⟩
      rcases Nat.lt_succ_iff_lt_or_eq.1 hj with hj | rfl
      · exact h.least j hj
      · exact not_lt.1 notLess

theorem leastIndex_spec (f : Nat → Rat) {k : Nat} (hk : 0 < k) :
    IsFirstLeast f k (leastIndex ((List.range k).map f)) := by
  obtain ⟨k, rfl⟩ := Nat.exists_eq_succ_of_ne_zero hk.ne'
  have one : IsFirstLeast f 1 0 := ⟨Nat.one_pos, by simp, by simp⟩
  rw [List.range_eq_range', List.range'_succ, List.map_cons, leastIndex]
  have spec := leastIndexFrom_spec f k one
  rwa [Nat.add_comm 1 k] at spec

/-- `r` is the first row below `k` with the least ratio of `b` to an `a` beyond the tolerance. -/
structure IsFirstRatio (a b : Nat → Rat) (ε : Rat) (k r : Nat) : Prop where
  pos : 0 < r
  lt : r < k
  entry : ε < a r
  least : ∀ i, 0 < i → i < k → ε < a i → b r / a r ≤ b i / a i
  first : ∀ i, 0 < i → i < r → ε < a i → b r / a r < b i / a i

/-- What is known when the ratio test has passed the rows below `next`. -/
def RatioSoFar (a b : Nat → Rat) (ε : Rat) (next : Nat) : Option (Rat × Nat) → Prop
  | none => ∀ i, 0 < i → i < next → a i ≤ ε
  | some (ratio, r) => ratio = b r / a r ∧ IsFirstRatio a b ε next r

/-- The best ratio after one more row. -/
def keepBetter (ε : Rat) (best : Option (Rat × Nat)) (next : Nat) (x rhs : Rat) :
    Option (Rat × Nat) :=
  if x ≤ ε then best
  else
    match best with
    | none => some (rhs / x, next)
    | some (least, row) => if least ≤ rhs / x then some (least, row) else some (rhs / x, next)

theorem ratioTest_cons (best : Option (Rat × Nat)) (next : Nat) (x rhs : Rat)
    (rest : List (Rat × Rat)) : ratioTest ε best next ((x, rhs) :: rest) =
      ratioTest ε (keepBetter ε best next x rhs) (next + 1) rest := by
  conv_lhs => unfold ratioTest
  unfold keepBetter
  by_cases small : x ≤ ε
  · simp [small]
  · cases best with
    | none => simp [small]
    | some found => by_cases keep : found.1 ≤ rhs / x <;> simp [small, keep]

theorem RatioSoFar.step {a b : Nat → Rat} {next : Nat} {best : Option (Rat × Nat)}
    (hpos : 0 < next) (h : RatioSoFar a b ε next best) :
    RatioSoFar a b ε (next + 1) (keepBetter ε best next (a next) (b next)) := by
  unfold keepBetter
  by_cases small : a next ≤ ε
  · rw [if_pos small]
    cases best with
    | none =>
      intro i hi hlt
      rcases Nat.lt_succ_iff_lt_or_eq.1 hlt with hlt | rfl
      · exact h i hi hlt
      · exact small
    | some found =>
      obtain ⟨eq, found⟩ := h
      refine ⟨eq, found.pos, found.lt.trans (Nat.lt_succ_self _), found.entry, ?_, found.first⟩
      intro i hi hlt hε
      rcases Nat.lt_succ_iff_lt_or_eq.1 hlt with hlt | rfl
      · exact found.least i hi hlt hε
      · exact absurd small (not_le.2 hε)
  · rw [if_neg small]
    have large := not_le.1 small
    cases best with
    | none =>
      refine ⟨rfl, hpos, Nat.lt_succ_self _, large, ?_, ?_⟩
      · intro i hi hlt hε
        rcases Nat.lt_succ_iff_lt_or_eq.1 hlt with hlt | rfl
        · exact absurd (h i hi hlt) (not_le.2 hε)
        · exact le_rfl
      · intro i hi hlt hε
        exact absurd (h i hi hlt) (not_le.2 hε)
    | some found =>
      obtain ⟨ratio, r⟩ := found
      obtain ⟨rfl, found⟩ := h
      dsimp only
      split
      · rename_i keep
        refine ⟨rfl, found.pos, found.lt.trans (Nat.lt_succ_self _), found.entry, ?_, found.first⟩
        intro i hi hlt hε
        rcases Nat.lt_succ_iff_lt_or_eq.1 hlt with hlt | rfl
        · exact found.least i hi hlt hε
        · exact keep
      · rename_i better
        have better := not_le.1 better
        refine ⟨rfl, hpos, Nat.lt_succ_self _, large, ?_, ?_⟩
        · intro i hi hlt hε
          rcases Nat.lt_succ_iff_lt_or_eq.1 hlt with hlt | rfl
          · exact better.le.trans (found.least i hi hlt hε)
          · exact le_rfl
        · intro i hi hlt hε
          exact better.trans_le (found.least i hi hlt hε)

theorem ratioTest_spec {a b : Nat → Rat} (k : Nat) {next : Nat} {best : Option (Rat × Nat)}
    (hpos : 0 < next) (h : RatioSoFar a b ε next best) :
    ∃ best', RatioSoFar a b ε (next + k) best' ∧
      ratioTest ε best next ((List.range' next k).map fun i => (a i, b i)) =
        best'.map Prod.snd := by
  induction k generalizing next best with
  | zero => exact ⟨best, h, rfl⟩
  | succ k ih =>
    rw [List.range'_succ, List.map_cons, ratioTest_cons,
      show next + (k + 1) = next + 1 + k by omega]
    exact ih (Nat.succ_pos next) (h.step hpos)

/-- `c` is the column that enters. -/
structure Enters (t : Tableau Rat) (ε : Rat) (n c : Nat) : Prop extends
    IsFirstLeast (t.get 0) n c where
  cost : t.get 0 c < -ε

/-- All that a step can do, with the guards it has passed. -/
inductive Moves (t : Tableau Rat) (ε : Rat) (m n : Nat) : Move Rat → Prop
  | optimal (nonneg : ∀ j < n, -ε ≤ t.get 0 j) : Moves t ε m n .optimal
  | unbounded {c : Nat} (enters : t.Enters ε n c) (free : ∀ i < m, t.get (i + 1) c ≤ ε) :
      Moves t ε m n (.unbounded c)
  | pivot {c r : Nat} {u : Tableau Rat} (enters : t.Enters ε n c)
      (leaves : IsFirstRatio (t.get · c) (t.get · n) ε (m + 1) r) (next : t.pivot r c = .ok u) :
      Moves t ε m n (.pivot ⟨c, t.get 0 c, r⟩ u)

/-- The column that is found has the least cost, which is negative. -/
theorem enters_of_leastIndex {c : Nat} (negative : ¬ ∀ j < n, -ε ≤ t.get 0 j)
    (least : leastIndex ((List.range n).map (t.get 0)) = c) : t.Enters ε n c := by
  have hn : 0 < n := Nat.pos_of_ne_zero fun h => negative (by simp [h])
  have spec := leastIndex_spec (t.get 0) hn
  rw [least] at spec
  refine ⟨spec, ?_⟩
  simp only [not_forall, not_le] at negative
  obtain ⟨j, hj, less⟩ := negative
  exact (spec.least j hj).trans_lt less

/-- The guards that a step has passed. -/
theorem Sized.moves_of_move (sized : t.Sized m n) {mv : Move Rat} (h : t.move ε = .ok mv) :
    t.Moves ε m n mv := by
  have tested (c : Nat) := ratioTest_spec (a := (t.get · c)) (b := (t.get · n)) (ε := ε) m
    Nat.one_pos (show RatioSoFar _ _ _ 1 none from fun i hi hlt => by omega)
  cases sized.guarded_of_move h with
  | optimal nonneg => exact .optimal nonneg
  | unbounded negative least _ free => exact .unbounded (enters_of_leastIndex negative least) free
  | blocked => exact absurd h sized.move_ne_blocked
  | @pivot c r _ negative least _ ratio _ _ next _ =>
    obtain ⟨best, sofar, eq⟩ := tested c
    obtain ⟨⟨_, r'⟩, rfl, rfl⟩ := Option.map_eq_some_iff.1 (eq.symm.trans ratio)
    exact .pivot (enters_of_leastIndex negative least) (Nat.add_comm 1 m ▸ sofar.2) next

end LinearProgram.Tableau
