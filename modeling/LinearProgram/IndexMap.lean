/-!
# Index maps

A finite map between indices, kept as a list of pairs that is ascending in the
key. Variables of the solver are mapped to their constraints this way.

* `insert` puts a pair in its place, `ofList` a whole list of them;
* `mem_insertEntry`, `ascending_insertEntry`: an insertion adds its own pair
  alone and keeps the order.
-/

namespace LinearProgram

namespace IndexMap

/-- The keys of the pairs ascend strictly. -/
def Ascending (entries : List (Nat × Nat)) : Prop := entries.Pairwise fun a b => a.1 < b.1

/-- Puts a pair in its place, over an older pair of the same key. -/
def insertEntry (key value : Nat) : List (Nat × Nat) → List (Nat × Nat)
  | [] => [(key, value)]
  | (k, v) :: rest =>
    if key < k then (key, value) :: (k, v) :: rest
    else if key = k then (key, value) :: rest
    else (k, v) :: insertEntry key value rest

theorem mem_insertEntry {key value : Nat} {entries : List (Nat × Nat)} {e : Nat × Nat}
    (h : e ∈ insertEntry key value entries) : e = (key, value) ∨ e ∈ entries := by
  induction entries with
  | nil => simpa [insertEntry] using h
  | cons head rest ih =>
    obtain ⟨k, v⟩ := head
    unfold insertEntry at h
    split at h
    · simpa using h
    · split at h
      · rcases List.mem_cons.1 h with h | h
        · exact .inl h
        · exact .inr (List.mem_cons_of_mem _ h)
      · rcases List.mem_cons.1 h with h | h
        · exact .inr (h ▸ List.mem_cons_self)
        · exact (ih h).imp id (List.mem_cons_of_mem _)

theorem ascending_insertEntry {key value : Nat} {entries : List (Nat × Nat)}
    (h : Ascending entries) : Ascending (insertEntry key value entries) := by
  induction entries with
  | nil => simp [insertEntry, Ascending]
  | cons head rest ih =>
    obtain ⟨k, v⟩ := head
    obtain ⟨below, sorted⟩ := List.pairwise_cons.1 h
    unfold insertEntry
    split
    · rename_i less
      refine List.pairwise_cons.2 ⟨fun e he => ?_, h⟩
      rcases List.mem_cons.1 he with rfl | he
      · exact less
      · exact Nat.lt_trans less (below e he)
    · split
      · rename_i same
        subst same
        exact List.pairwise_cons.2 ⟨below, sorted⟩
      · rename_i notLess notSame
        refine List.pairwise_cons.2 ⟨fun e he => ?_, ih sorted⟩
        rcases mem_insertEntry he with rfl | he
        · simp only
          omega
        · exact below e he

end IndexMap

/-- A map whose pairs ascend in the key. -/
structure IndexMap where
  entries : List (Nat × Nat)
  ascending : IndexMap.Ascending entries

namespace IndexMap

def empty : IndexMap := ⟨[], List.Pairwise.nil⟩

def insert (m : IndexMap) (key value : Nat) : IndexMap :=
  ⟨insertEntry key value m.entries, ascending_insertEntry m.ascending⟩

/-- Later pairs win. -/
def ofList (pairs : List (Nat × Nat)) : IndexMap :=
  pairs.foldl (fun m (key, value) => m.insert key value) empty

def size (m : IndexMap) : Nat := m.entries.length

def keys (m : IndexMap) : List Nat := m.entries.map Prod.fst

def values (m : IndexMap) : List Nat := m.entries.map Prod.snd

def contains (m : IndexMap) (key : Nat) : Bool := m.keys.contains key

end IndexMap

end LinearProgram
