/-! # Queues

A queue takes items at both ends and gives them up at the front.  `toList` lists its items, the
next one first, and each operation is described by what it does to that list.
-/

namespace TableDriven

/-- A queue in two parts, with the length of the first. -/
structure Queue (α : Type) where
  front : List α
  back : Array α
  ahead : Nat := front.length
  ahead_eq : ahead = front.length := by rfl

namespace Queue

def empty : Queue α := { front := [], back := #[] }

instance : Inhabited (Queue α) := ⟨empty⟩

variable (queue : Queue α)

def toList : List α := queue.front ++ queue.back.toList

def size : Nat := queue.ahead + queue.back.size

def isEmpty : Bool := queue.size == 0

def pushFront (item : α) : Queue α where
  front := item :: queue.front
  back := queue.back
  ahead := queue.ahead + 1
  ahead_eq := by simp [queue.ahead_eq]

/-- Puts an item behind all others. -/
def pushBack (item : α) : Queue α := { queue with back := queue.back.push item }

def append (other : Queue α) : Queue α :=
  { queue with back := queue.back ++ other.front ++ other.back }

/-- The item at an index; the next one has index 0. -/
def get? (index : Nat) : Option α :=
  if index < queue.ahead then queue.front[index]? else queue.back[index - queue.ahead]?

def pop? : Option (α × Queue α) :=
  match queue with
  | ⟨item :: front, back, ahead, ahead_eq⟩ =>
    some (item, ⟨front, back, ahead - 1, by simp [ahead_eq]⟩)
  | ⟨[], back, _, _⟩ =>
    match back.toList with
    | item :: front => some (item, { front, back := #[] })
    | [] => none

@[simp] theorem toList_empty : (empty : Queue α).toList = [] := rfl

@[simp] theorem length_toList : queue.toList.length = queue.size := by
  simp [toList, size, queue.ahead_eq]

@[simp] theorem isEmpty_iff : queue.isEmpty = true ↔ queue.toList = [] := by
  simp [isEmpty, ← length_toList]

@[simp] theorem toList_pushFront (item : α) :
    (queue.pushFront item).toList = item :: queue.toList := rfl

@[simp] theorem toList_pushBack (item : α) :
    (queue.pushBack item).toList = queue.toList ++ [item] := by
  simp [toList, pushBack]

@[simp] theorem toList_append (other : Queue α) :
    (queue.append other).toList = queue.toList ++ other.toList := by
  simp [toList, append]

theorem get?_eq (index : Nat) : queue.get? index = queue.toList[index]? := by
  simp only [get?, toList, queue.ahead_eq, List.getElem?_append, Array.getElem?_toList]

theorem pop?_eq_none_iff : queue.pop? = none ↔ queue.toList = [] := by
  unfold pop?
  split
  · simp [toList]
  · split <;> simp_all [toList]

theorem toList_of_pop? {item : α} {rest : Queue α} (popped : queue.pop? = some (item, rest)) :
    queue.toList = item :: rest.toList := by
  unfold pop? at popped
  split at popped
  · simp only [Option.some.injEq, Prod.mk.injEq] at popped
    obtain ⟨rfl, rfl⟩ := popped
    rfl
  · split at popped
    · simp only [Option.some.injEq, Prod.mk.injEq] at popped
      obtain ⟨rfl, rfl⟩ := popped
      simp_all [toList]
    · simp at popped

end Queue

end TableDriven
