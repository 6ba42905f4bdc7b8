/-!
# Traced computations

A computation that notes events on its way and may end with an error; the
events up to the error are kept. `outcome_bind` and its companions say that
the outcome alone is an ordinary computation with errors, so that what is noted
never bears on the result.
-/

namespace LinearProgram

/-- The events noted so far and what came out. -/
structure Traced (event error β : Type) where
  events : List event
  outcome : Except error β

namespace Traced

variable {event error error' β γ : Type}

/-- A computation that notes nothing. -/
def ofExcept (outcome : Except error β) : Traced event error β := ⟨[], outcome⟩

def notes (es : List event) : Traced event error Unit := ⟨es, .ok ()⟩

def note (e : event) : Traced event error Unit := notes [e]

/-- Goes on with a result; an error ends the computation. -/
def andThen (x : Traced event error β) (f : β → Traced event error γ) : Traced event error γ :=
  match x.outcome with
  | .error e => ⟨x.events, .error e⟩
  | .ok b => ⟨x.events ++ (f b).events, (f b).outcome⟩

instance : Monad (Traced event error) where
  pure b := ofExcept (.ok b)
  bind := andThen

def mapError (f : error → error') (x : Traced event error β) : Traced event error' β :=
  ⟨x.events, x.outcome.mapError f⟩

@[simp] theorem outcome_ofExcept (r : Except error β) :
    (ofExcept r : Traced event error β).outcome = r := rfl

@[simp] theorem outcome_note (e : event) :
    (note e : Traced event error Unit).outcome = .ok () := rfl

@[simp] theorem outcome_notes (es : List event) :
    (notes es : Traced event error Unit).outcome = .ok () := rfl

@[simp] theorem outcome_pure (b : β) :
    (pure b : Traced event error β).outcome = .ok b := rfl

@[simp] theorem outcome_bind (x : Traced event error β) (f : β → Traced event error γ) :
    (x >>= f).outcome = x.outcome.bind fun b => (f b).outcome := by
  obtain ⟨events, outcome⟩ := x
  cases outcome <;> rfl

@[simp] theorem outcome_mapError (f : error → error') (x : Traced event error β) :
    (x.mapError f).outcome = x.outcome.mapError f := rfl

end Traced

end LinearProgram
