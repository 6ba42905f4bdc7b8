import Mathlib
import LinearProgram.Traced
import LinearProgram.Fault

/-!
# Computations that may fault

* `bind_eq_ok` takes a successful computation apart, `mapM_eq_ok` turns a loop
  whose steps succeed into `map`;
* `bind_ne_error`, `mapError_ne_error`: errors that cannot occur;
* `bind_eq_map`: computations that run in step;
* `exists_foldlM_setAt`, `foldlM_setAt_of_not_mem`, `foldlM_setAt_of_mem`: a loop that
  writes inside a list succeeds, and what it leaves there.
-/

namespace LinearProgram

variable {ε β γ : Type}

@[simp] theorem ok_bind (x : β) (f : β → Except ε γ) : (Except.ok x >>= f) = f x := rfl

@[simp] theorem bind_ok (x : β) (f : β → Except ε γ) : (Except.ok x).bind f = f x := rfl

theorem bind_eq_ok {x : Except ε β} {f : β → Except ε γ} {c : γ} :
    (x >>= f) = .ok c ↔ ∃ b, x = .ok b ∧ f b = .ok c := by
  cases x with
  | error e => exact ⟨nofun, fun ⟨_, h, _⟩ => nomatch h⟩
  | ok b => simp

theorem except_bind_eq_ok {x : Except ε β} {f : β → Except ε γ} {c : γ} :
    x.bind f = .ok c ↔ ∃ b, x = .ok b ∧ f b = .ok c := bind_eq_ok

theorem mapError_eq_ok {ε' : Type} {f : ε → ε'} {x : Except ε β} {b : β} :
    x.mapError f = .ok b ↔ x = .ok b := by
  cases x <;> simp [Except.mapError]

theorem mapError_eq_map {ε' : Type} {f : ε → ε'} {g : β → γ} {x : Except ε β} {y : Except ε γ}
    (h : y = x.map g) : y.mapError f = (x.mapError f).map g := by
  subst h
  cases x <;> rfl

theorem bind_ne_error {x : Except ε β} {f : β → Except ε γ} {e : ε} (first : x ≠ .error e)
    (rest : ∀ b, f b ≠ .error e) : x.bind f ≠ .error e := by
  cases x with
  | error e' => exact fun h => first (congrArg Except.error (Except.error.inj h))
  | ok b => exact rest b

/-- Two computations that go on in the same way from results that correspond. -/
theorem bind_eq_map {β' γ' : Type} {x : Except ε β} {x' : Except ε β'} {h : β → β'}
    {f : β → Except ε γ} {f' : β' → Except ε γ'} {g : γ → γ'} (first : x' = x.map h)
    (rest : ∀ b, x = .ok b → f' (h b) = (f b).map g) : x'.bind f' = (x.bind f).map g := by
  subst first
  cases x with
  | error e => rfl
  | ok b => exact rest b rfl

theorem bind_eq_map_of_same {γ' : Type} {x x' : Except ε β} {f : β → Except ε γ}
    {f' : β → Except ε γ'} {g : γ → γ'} (first : x' = x)
    (rest : ∀ b, x = .ok b → f' b = (f b).map g) : x'.bind f' = (x.bind f).map g :=
  bind_eq_map (first.trans (by cases x <;> rfl)) rest

theorem eq_error_of_swap {x : Except ε β} {e : ε}
    (h : (match x with | .error e' => some e' | .ok _ => none) = some e) : x = .error e := by
  cases x with
  | error e' => exact congrArg Except.error (Option.some.inj h)
  | ok b => exact nomatch h

theorem mapError_ne_error {ε' : Type} {f : ε → ε'} {x : Except ε β} {e : ε'}
    (never : ∀ e', f e' ≠ e) : x.mapError f ≠ .error e := by
  cases x with
  | error e' => exact fun h => never e' (Except.error.inj h)
  | ok b => exact nofun

theorem toOption_eq_some {x : Except ε β} {b : β} : x.toOption = some b ↔ x = .ok b := by
  cases x <;> simp [Except.toOption]

theorem exists_ok_of_map {x : Except ε β} {f : β → γ} {c : γ} (h : x.toOption.map f = some c) :
    ∃ b, x = .ok b ∧ f b = c := by
  cases x with
  | error e => exact nomatch h
  | ok b => exact ⟨b, rfl, Option.some.inj h⟩

theorem mapM_eq_ok {f : β → Except ε γ} {g : β → γ} {xs : List β}
    (h : ∀ x ∈ xs, f x = .ok (g x)) : xs.mapM f = .ok (xs.map g) := by
  induction xs with
  | nil => rfl
  | cons x xs ih =>
    rw [List.mapM_cons, h x List.mem_cons_self, ok_bind,
      ih fun y hy => h y (List.mem_cons_of_mem x hy)]
    rfl

@[simp] theorem orFault_some (x : β) (fault : Fault) : orFault (some x) fault = .ok x := rfl

theorem exists_foldlM_setAt (position : β → Nat) (item : β → γ) (fault : β → Fault) {xs : List β}
    {ys : List γ} (inside : ∀ e ∈ xs, position e < ys.length) :
    ∃ zs, xs.foldlM (fun ys e => setAt ys (position e) (item e) (fault e)) ys = .ok zs := by
  induction xs generalizing ys with
  | nil => exact ⟨ys, rfl⟩
  | cons e xs ih =>
    obtain ⟨first, rest⟩ := List.forall_mem_cons.1 inside
    have set : setAt ys (position e) (item e) (fault e) = .ok (ys.set (position e) (item e)) := by
      simp [setAt, first]
    simp only [List.foldlM_cons, set, ok_bind]
    exact ih (by simpa using rest)

/-- Positions that a loop of assignments does not name keep their items. -/
theorem foldlM_setAt_of_not_mem (position : β → Nat) (item : β → γ) (fault : β → Fault)
    {xs : List β} {ys zs : List γ}
    (h : xs.foldlM (fun ys e => setAt ys (position e) (item e) (fault e)) ys = .ok zs) :
    zs.length = ys.length ∧ ∀ j, j ∉ xs.map position → zs[j]? = ys[j]? := by
  induction xs generalizing ys with
  | nil =>
    injection h with h
    exact h ▸ ⟨rfl, fun _ _ => rfl⟩
  | cons e xs ih =>
    rw [List.foldlM_cons] at h
    obtain ⟨next, first, rest⟩ := bind_eq_ok.1 h
    unfold setAt at first
    split at first
    · injection first with first
      obtain ⟨length, others⟩ := ih rest
      subst first
      refine ⟨by rw [length, List.length_set], fun j hj => ?_⟩
      rw [List.map_cons, List.mem_cons, not_or] at hj
      rw [others j hj.2, List.getElem?_set_ne (Ne.symm hj.1)]
    · exact nomatch first

/-- Positions that a loop of assignments names once get their items. -/
theorem foldlM_setAt_of_mem (position : β → Nat) (item : β → γ) (fault : β → Fault)
    {xs : List β} {ys zs : List γ} (distinct : (xs.map position).Nodup)
    (h : xs.foldlM (fun ys e => setAt ys (position e) (item e) (fault e)) ys = .ok zs)
    {e : β} (he : e ∈ xs) : zs[position e]? = some (item e) := by
  induction xs generalizing ys with
  | nil => exact nomatch he
  | cons e' xs ih =>
    rw [List.map_cons, List.nodup_cons] at distinct
    rw [List.foldlM_cons] at h
    obtain ⟨next, first, rest⟩ := bind_eq_ok.1 h
    rcases List.mem_cons.1 he with rfl | later
    · unfold setAt at first
      split at first
      · rename_i inside
        injection first with first
        rw [(foldlM_setAt_of_not_mem position item fault rest).2 _ distinct.1, ← first,
          List.getElem?_set_self inside]
      · exact nomatch first
    · exact ih distinct.2 rest later

end LinearProgram
