/-! # Dialogues

A computation that knows its surroundings only by asking.  It ends in a result or puts a question
and says how it goes on with each answer.  Whoever runs it decides what answers the questions, so
the same dialogue can be run over a live state and over a plain description of one.
-/

namespace TableDriven

/-- A computation that puts questions `Q`, each with answers `A`, and ends in an `α`. -/
inductive Dialogue (Q : Type) (A : Q → Type) (α : Type) where
  | done (result : α)
  | ask (question : Q) (next : A question → Dialogue Q A α)

namespace Dialogue

variable {Q : Type} {A : Q → Type}

def bind : Dialogue Q A α → (α → Dialogue Q A β) → Dialogue Q A β
  | done result, next => next result
  | ask question answered, next => ask question fun answer => (answered answer).bind next

/-- The dialogue that asks one question and ends in its answer. -/
def question (q : Q) : Dialogue Q A (A q) := ask q done

instance : Monad (Dialogue Q A) where
  pure := done
  bind := bind

@[simp] theorem pure_eq_done (result : α) : (pure result : Dialogue Q A α) = done result := rfl

@[simp] theorem bind_done (result : α) (next : α → Dialogue Q A β) :
    done result >>= next = next result := rfl

@[simp] theorem bind_ask (q : Q) (answered : A q → Dialogue Q A α) (next : α → Dialogue Q A β) :
    ask q answered >>= next = ask q fun answer => answered answer >>= next := rfl

end Dialogue

end TableDriven
