import Mathlib
import LinearProgram.PhaseOne
import LinearProgram.Proofs.Tableau.Elimination

/-!
# Rows and columns that are taken out

* `Keeps`, `outcome_dropRows`, `dropRows_keeps`: rows removed from the last to the
  first leave the others in their order, renumbered by an injective map;
* `Strips`, `Sized.withoutColumns`: a block of columns before the right-hand
  side goes, all other numbers stay;
* `lift`, `Strips.equation`: a vector of the smaller table is one of the larger
  with zeros in the block.
-/

namespace LinearProgram

namespace Tableau

/-- Where row `i` was before row `r` was removed. -/
def skip (r i : Nat) : Nat := if i < r then i else i + 1

theorem skip_injective (r : Nat) : Function.Injective (skip r) := by
  intro i j same
  unfold skip at same
  split at same <;> split at same <;> omega

section Rows

variable {α : Type} {t u : Tableau α} {m n : Nat}

theorem Sized.removeRow (sized : t.Sized m n) {r : Nat} (pos : 0 < r) (le : r ≤ m) :
    (t.removeRow r).Sized (m - 1) n ∧ ∀ i, (t.removeRow r).line i = t.line (skip r i) := by
  have removed : (t.removeRow r).rows = t.rows.eraseIdx r := by
    rw [Tableau.removeRow, if_neg pos.ne']
  refine ⟨⟨?_, fun row hrow => ?_⟩, fun i => ?_⟩
  · rw [removed, List.length_eraseIdx_of_lt (by rw [sized.rows]; omega), sized.rows]
    omega
  · rw [removed] at hrow
    exact sized.columns row (List.mem_of_mem_eraseIdx hrow)
  · rw [line, removed, List.getElem?_eraseIdx, skip]
    split <;> rfl

/-- `u` has the rows of `t` that are not removed, in their order. Row `i` of `u`
is row `old i` of `t`. -/
structure Keeps (t u : Tableau α) (m k n : Nat) (removed : List Nat) (old : Nat → Nat) : Prop where
  sized : u.Sized k n
  line : ∀ i, u.line i = t.line (old i)
  zero : old 0 = 0
  injective : Function.Injective old
  inside : ∀ i, 0 < i → i ≤ k → 0 < old i ∧ old i ≤ m ∧ old i ∉ removed
  onto : ∀ r, 0 < r → r ≤ m → r ∉ removed → ∃ i, 0 < i ∧ i ≤ k ∧ old i = r

/-- A row is removed first, then rows before it. Those have not moved. -/
theorem Keeps.removeRow {r k : Nat} {rest : List Nat} {old : Nat → Nat} (sized : t.Sized m n)
    (pos : 0 < r) (le : r ≤ m) (below : ∀ r' ∈ rest, r' < r)
    (keeps : Keeps (t.removeRow r) u (m - 1) k n rest old) :
    Keeps t u m k n (r :: rest) fun i => skip r (old i) := by
  have still (i : Nat) (hi : skip r i ∈ rest) : i ∈ rest := by
    have := below _ hi
    unfold skip at this hi
    split at hi
    · exact hi
    · rename_i notBelow
      rw [if_neg notBelow] at this
      omega
  refine ⟨keeps.sized, fun i => ?_, ?_, (skip_injective r).comp keeps.injective,
    fun i hi him => ?_, fun j hj hjm hnot => ?_⟩
  · rw [keeps.line, (sized.removeRow pos le).2]
  · rw [keeps.zero, skip, if_pos pos]
  · obtain ⟨oldPos, oldLe, kept⟩ := keeps.inside i hi him
    refine ⟨?_, ?_, ?_⟩
    · unfold skip
      split <;> omega
    · unfold skip
      split <;> omega
    · intro mem
      rcases List.mem_cons.1 mem with same | later
      · unfold skip at same
        split at same <;> omega
      · exact kept (still _ later)
  · rw [List.mem_cons, not_or] at hnot
    obtain ⟨different, notLater⟩ := hnot
    by_cases before : j < r
    · obtain ⟨i, hi, hik, same⟩ := keeps.onto j hj (by omega) notLater
      exact ⟨i, hi, hik, by rw [same, skip, if_pos before]⟩
    · obtain ⟨i, hi, hik, same⟩ := keeps.onto (j - 1) (by omega) (by omega) fun mem => by
        have := below _ mem
        omega
      refine ⟨i, hi, hik, ?_⟩
      rw [same, skip, if_neg (by omega)]
      omega

theorem outcome_dropRows [Scalar α] (rows : List Nat) (t : Tableau α) :
    (PhaseOne.dropRows rows t).outcome = .ok (rows.foldl removeRow t) := by
  induction rows generalizing t with
  | nil => rfl
  | cons r rest ih => simp [PhaseOne.dropRows, ih]

theorem dropRows_keeps [Scalar α] {removed : List Nat} (sized : t.Sized m n)
    (descending : removed.Pairwise (· > ·)) (inside : ∀ r ∈ removed, 0 < r ∧ r ≤ m)
    (h : (PhaseOne.dropRows removed t).outcome = .ok u) :
    ∃ k old, Keeps t u m k n removed old := by
  induction removed generalizing t m with
  | nil =>
    injection h with h
    subst h
    exact ⟨m, id, sized, fun _ => rfl, rfl, Function.injective_id,
      fun i pos le => ⟨pos, le, nofun⟩, fun r pos le _ => ⟨r, pos, le, rfl⟩⟩
  | cons r rest ih =>
    obtain ⟨below, descending⟩ := List.pairwise_cons.1 descending
    obtain ⟨⟨pos, le⟩, restInside⟩ := List.forall_mem_cons.1 inside
    rw [PhaseOne.dropRows, Traced.outcome_bind, Traced.outcome_note, bind_ok] at h
    obtain ⟨k, old, keeps⟩ := ih (sized.removeRow pos le).1 descending (fun r' hr' => by
      have := below r' hr'
      have := restInside r' hr'
      omega) h
    exact ⟨k, _, keeps.removeRow sized pos le below⟩

theorem Keeps.get [Zero α] {k : Nat} {removed : List Nat} {old : Nat → Nat}
    (keeps : Keeps t u m k n removed old) (i j : Nat) : u.get i j = t.get (old i) j := by
  rw [Tableau.get, Tableau.get, keeps.line]

/-- No more rows are kept than there were. -/
theorem Keeps.le {k : Nat} {removed : List Nat} {old : Nat → Nat}
    (keeps : Keeps t u m k n removed old) : k ≤ m := by
  have maps : Set.MapsTo old (Finset.Icc 1 k) (Finset.Icc 1 m) := by
    intro i hi
    obtain ⟨pos, le⟩ := Finset.mem_Icc.1 hi
    obtain ⟨oldPos, oldLe, _⟩ := keeps.inside i pos le
    exact Finset.mem_coe.2 (Finset.mem_Icc.2 ⟨oldPos, oldLe⟩)
  simpa using Finset.card_le_card_of_injOn old maps keeps.injective.injOn

end Rows

section Columns

variable {α : Type}

theorem filter_positions_all {positions : List Nat} {xs : List α} {first : Nat}
    (h : ∀ i, first ≤ i → i < first + xs.length → i ∉ positions) :
    ((xs.zipIdx first).filter fun x => !positions.contains x.2).map Prod.fst = xs := by
  rw [List.filter_eq_self.2, List.zipIdx_map_fst]
  intro x hx
  have inside := List.mem_zipIdx hx
  simpa using h x.2 inside.1 inside.2.1

theorem filter_positions_none {positions : List Nat} {xs : List α} {first : Nat}
    (h : ∀ i, first ≤ i → i < first + xs.length → i ∈ positions) :
    ((xs.zipIdx first).filter fun x => !positions.contains x.2).map Prod.fst = [] := by
  rw [List.filter_eq_nil_iff.2, List.map_nil]
  intro x hx
  have inside := List.mem_zipIdx hx
  simpa using h x.2 inside.1 inside.2.1

/-- A block of positions is cut out. -/
theorem dropPositions_range' (xs : List α) (a r : Nat) :
    dropPositions (List.range' a r) xs = xs.take a ++ xs.drop (a + r) := by
  have split : xs = xs.take a ++ ((xs.drop a).take r ++ xs.drop (a + r)) := by
    rw [← List.drop_drop, List.take_append_drop, List.take_append_drop]
  conv_lhs => rw [split]
  rw [dropPositions, List.zipIdx_append, List.zipIdx_append, List.filter_append, List.filter_append,
    List.map_append, List.map_append, filter_positions_all, filter_positions_none, List.nil_append]
  · by_cases long : a + r ≤ xs.length
    · rw [filter_positions_all]
      intro i le _
      rw [List.mem_range'_1]
      simp only [List.length_take, List.length_drop] at le
      omega
    · rw [List.drop_eq_nil_of_le (by omega)]
      simp
  · intro i le lt
    rw [List.mem_range'_1]
    simp only [List.length_take, List.length_drop] at le lt
    omega
  · intro i _ lt
    rw [List.mem_range'_1]
    simp only [List.length_take] at lt
    omega

variable [Zero α] {t u : Tableau α} {m n N : Nat}

/-- The columns from `N` up to the right-hand side at `n` are gone. -/
structure Strips (t u : Tableau α) (m n N : Nat) : Prop where
  sized : u.Sized m N
  get : ∀ i, ∀ j < N, u.get i j = t.get i j
  rhs : ∀ i, u.get i N = t.get i n

theorem Sized.withoutColumns {r : Nat} (sized : t.Sized m (N + r)) :
    ∃ u, t.withoutColumns (List.range' N r) = .ok u ∧ Strips t u m (N + r) N := by
  have length (row : List α) (h : row.length = N + r + 1) :
      (dropPositions (List.range' N r) row).length = N + 1 := by
    rw [dropPositions_range', List.length_append, List.length_take, List.length_drop, h]
    omega
  obtain ⟨written, sized'⟩ := ofRows_eq_ok
    (show (t.rows.map (dropPositions (List.range' N r))).length = m + 1 by
      rw [List.length_map, sized.rows])
    (List.forall_mem_map.2 fun row hrow => length row (sized.columns row hrow))
  have lines (i : Nat) : Tableau.line ⟨t.rows.map (dropPositions (List.range' N r))⟩ i =
      (t.line i).take N ++ (t.line i).drop (N + r) := by
    rw [line, List.getElem?_map, line]
    cases t.rows[i]? with
    | none => simp
    | some row => exact dropPositions_range' row N r
  refine ⟨_, written, sized', fun i j hj => ?_, fun i => ?_⟩
  · by_cases inside : i ≤ m
    · have := sized.line_length inside
      rw [Tableau.get, lines, List.getElem?_append_left (by rw [List.length_take]; omega),
        List.getElem?_take_of_lt hj]
      rfl
    · rw [sized'.get_eq_zero (.inl (by omega)), sized.get_eq_zero (.inl (by omega))]
  · by_cases inside : i ≤ m
    · have := sized.line_length inside
      rw [Tableau.get, lines, List.getElem?_append_right (by rw [List.length_take]; omega),
        List.length_take, List.getElem?_drop, Nat.min_eq_left (by omega), Nat.sub_self,
        Nat.add_zero]
      rfl
    · rw [sized'.get_eq_zero (.inl (by omega)), sized.get_eq_zero (.inl (by omega))]

end Columns

/-- A vector of the columns before `N`, with zeros up to the right-hand side at `n`. -/
def lift (N n : Nat) (v : Nat → Rat) (j : Nat) : Rat :=
  if j < N then v j else if j = n then v N else 0

theorem lift_own {N n j : Nat} (h : j < N) (v : Nat → Rat) : lift N n v j = v j := if_pos h

theorem lift_between {N n j : Nat} (le : N ≤ j) (lt : j < n) (v : Nat → Rat) :
    lift N n v j = 0 := by
  rw [lift, if_neg (by omega), if_neg (by omega)]

theorem lift_rhs {N n : Nat} (le : N ≤ n) (v : Nat → Rat) : lift N n v n = v N := by
  rw [lift, if_neg (by omega), if_pos rfl]

theorem Keeps.equation {t u : Tableau Rat} {m k n : Nat} {removed : List Nat} {old : Nat → Nat}
    (keeps : Keeps t u m k n removed old) (sized : t.Sized m n) (i : Nat) (v : Nat → Rat) :
    u.equation i v = t.equation (old i) v := by
  rw [keeps.sized.equation_apply, sized.equation_apply]
  simp only [keeps.get]

/-- Removing rows loses no solution and keeps the prices. -/
theorem Keeps.entails {t u : Tableau Rat} {m k n : Nat} {removed : List Nat} {old : Nat → Nat}
    (keeps : Keeps t u m k n removed old) (sized : t.Sized m n) : t.Entails u := by
  intro v vanishes
  refine ⟨fun i pos => ?_, by rw [keeps.equation sized, keeps.zero]⟩
  rw [keeps.equation sized]
  apply vanishes
  apply Nat.pos_of_ne_zero
  intro zero
  have := keeps.injective (zero.trans keeps.zero.symm)
  omega

/-- If as many rows stay as there were, none was removed. -/
theorem Keeps.eq_nil {α : Type} {t u : Tableau α} {m n : Nat} {removed : List Nat}
    {old : Nat → Nat} (keeps : Keeps t u m m n removed old)
    (inside : ∀ r ∈ removed, 0 < r ∧ r ≤ m) : removed = [] := by
  refine List.eq_nil_iff_forall_not_mem.2 fun r hr => ?_
  have mem : r ∈ Finset.Icc 1 m := Finset.mem_Icc.2 (inside r hr)
  have fewer := Finset.card_le_card_of_injOn (s := Finset.Icc 1 m)
    (t := (Finset.Icc 1 m).erase r) old (fun i hi => by
      obtain ⟨pos, le⟩ := Finset.mem_Icc.1 hi
      obtain ⟨oldPos, oldLe, stays⟩ := keeps.inside i pos le
      refine Finset.mem_erase.2 ⟨?_, Finset.mem_Icc.2 ⟨oldPos, oldLe⟩⟩
      rintro rfl
      exact stays hr) keeps.injective.injOn
  have := Finset.card_erase_lt_of_mem mem
  omega

/-- Removing rows that vanish anyway adds no solution. -/
theorem Keeps.vanishes {t u : Tableau Rat} {m k n : Nat} {removed : List Nat} {old : Nat → Nat}
    (keeps : Keeps t u m k n removed old) (sized : t.Sized m n) {v : Nat → Rat}
    (gone : ∀ r ∈ removed, t.equation r v = 0) (vanishes : u.Vanishes v) : t.Vanishes v := by
  intro r pos
  by_cases le : r ≤ m
  · by_cases removed : r ∈ removed
    · exact gone r removed
    · obtain ⟨i, hi, _, rfl⟩ := keeps.onto r pos le removed
      rw [← keeps.equation sized, vanishes i hi]
  · exact sized.equation_eq_zero (Nat.lt_of_not_le le) v

theorem Strips.equation {t u : Tableau Rat} {m n N : Nat} (strips : Strips t u m n N)
    (sized : t.Sized m n) (le : N ≤ n) (i : Nat) (v : Nat → Rat) :
    u.equation i v = t.equation i (lift N n v) := by
  rw [strips.sized.equation_apply, sized.equation_apply, Finset.sum_range_succ,
    Finset.sum_range_succ, lift_rhs le, strips.rhs]
  congr 1
  rw [← Finset.sum_range_add_sum_Ico _ le]
  have block : ∑ j ∈ Finset.Ico N n, t.get i j * lift N n v j = 0 := by
    apply Finset.sum_eq_zero
    intro j hj
    obtain ⟨le, lt⟩ := Finset.mem_Ico.1 hj
    rw [lift_between le lt, mul_zero]
  rw [block, add_zero]
  apply Finset.sum_congr rfl
  intro j hj
  have hj := Finset.mem_range.1 hj
  rw [strips.get i j hj, lift_own hj]

end Tableau

end LinearProgram
