import TableDriven.Json.Value
import TableDriven.Proofs.Json.Lexeme

/-! # Values that were written are read

A value whose texts and keys are written in the pieces that they have by themselves is read back
from the bytes that were written of it (`Value.Written.ofBytes?_render`).  Its lexemes do not run
into each other, and the builder takes them to the value that it awaits, whatever containers are
open around it.
-/

namespace TableDriven.Json

/-- All texts and keys are written in the pieces that they have by themselves. -/
inductive Value.Written : Value → Prop where
  | null : Written .null
  | bool (value : Bool) : Written (.bool value)
  | integer (value : Int) : Written (.integer value)
  | inexact : Written .inexact
  | text (text : String) : Written (.text (pieces text))
  | array {items : List Value} (written : ∀ item ∈ items, Written item) : Written (.array items)
  | object {members : List (List Piece × Value)}
      (keys : ∀ member ∈ members, ∃ text, member.1 = pieces text)
      (values : ∀ member ∈ members, Written member.2) : Written (.object members)

variable {value : Value} {items : List Value} {members : List (List Piece × Value)}
  {done : List Lexeme} {first : Bool}

/-- The newest lexeme is no number. -/
def IsSettled (done : List Lexeme) : Prop := ∀ last ∈ done.head?, ¬ last.IsNumber

theorem Spaced.behind {lexeme : Lexeme} (spaced : Spaced done) (settled : IsSettled done)
    (written : lexeme.IsWritten) : Spaced (lexeme :: done) :=
  .cons written (fun last newest number => absurd number (settled last newest)) spaced

theorem Spaced.mark {lexeme : Lexeme} (spaced : Spaced done) (written : lexeme.IsWritten)
    (mark : lexeme.IsMark) : Spaced (lexeme :: done) :=
  .cons written (fun _ _ _ => mark) spaced

theorem isSettled_cons {lexeme : Lexeme} (other : ¬ lexeme.IsNumber) :
    IsSettled (lexeme :: done) := by
  rintro _ ⟨⟩
  exact other

/-- A comma stands before an item that is not the first. -/
theorem Spaced.separated (spaced : Spaced done) (settled : first = true → IsSettled done) :
    Spaced (separated first done) ∧ IsSettled (separated first done) := by
  cases first with
  | true => exact ⟨spaced, settled rfl⟩
  | false => exact ⟨spaced.mark trivial trivial, isSettled_cons id⟩

theorem Spaced.itemsOnto (spaced : Spaced done) (settled : first = true → IsSettled done)
    (onto : ∀ item ∈ items, ∀ {done}, Spaced done → IsSettled done → Spaced (item.onto done)) :
    Spaced (itemsOnto first done items) := by
  induction items generalizing first done with
  | nil => exact spaced
  | cons item items ih =>
    obtain ⟨front, fresh⟩ := spaced.separated settled
    refine ih (onto item (by simp) front fresh) (fun last => by cases last) ?_
    exact fun item inside => onto item (by simp [inside])

theorem Spaced.membersOnto (spaced : Spaced done) (settled : first = true → IsSettled done)
    (keys : ∀ member ∈ members, ∃ text, member.1 = pieces text)
    (onto : ∀ member ∈ members, ∀ {done},
      Spaced done → IsSettled done → Spaced (member.2.onto done)) :
    Spaced (membersOnto first done members) := by
  induction members generalizing first done with
  | nil => exact spaced
  | cons member members ih =>
    obtain ⟨key, value⟩ := member
    obtain ⟨front, fresh⟩ := spaced.separated settled
    have named : Spaced (.text key :: Json.separated first done) :=
      front.behind fresh (keys (key, value) (by simp))
    have begun : Spaced (.colon :: .text key :: Json.separated first done) :=
      named.behind (isSettled_cons id) trivial
    refine ih (onto (key, value) (by simp) begun (isSettled_cons id)) (fun last => by cases last)
      ?_ ?_
    · exact fun member inside => keys member (by simp [inside])
    · exact fun member inside => onto member (by simp [inside])

theorem Value.Written.spaced (written : value.Written) {done : List Lexeme} (spaced : Spaced done)
    (settled : IsSettled done) : Spaced (value.onto done) := by
  induction written generalizing done with
  | null | bool | integer | inexact => exact spaced.behind settled trivial
  | text text => exact spaced.behind settled ⟨text, rfl⟩
  | @array items written ih =>
    have opened : Spaced (.openArray :: done) := spaced.behind settled trivial
    have filled : Spaced (itemsOnto true (.openArray :: done) items) := opened.itemsOnto
      (fun _ => isSettled_cons id) ih
    exact filled.mark trivial trivial
  | @object members keys values ih =>
    have opened : Spaced (.openObject :: done) := spaced.behind settled trivial
    have filled : Spaced (membersOnto true (.openObject :: done) members) := opened.membersOnto
      (fun _ => isSettled_cons id) keys ih
    exact filled.mark trivial trivial

namespace Builder

/-- What was built of lexemes, the newest first. -/
def after (newest : List Lexeme) : Option Builder :=
  newest.reverse.foldlM step ⟨[], .value⟩

theorem after_cons (lexeme : Lexeme) (done : List Lexeme) :
    after (lexeme :: done) = (after done).bind fun builder => builder.step lexeme := by
  rw [after, List.reverse_cons, List.foldlM_append]
  refine bind_congr fun builder => ?_
  rw [List.foldlM_cons]
  cases builder.step lexeme <;> rfl

/-- A value comes next, in these containers. -/
def Awaits (done : List Lexeme) (containers : List OpenValue) : Prop :=
  after done = some ⟨containers, .value⟩ ∨ after done = some ⟨containers, .valueOrEnd⟩

variable {containers outer : List OpenValue}

theorem Awaits.after_cons {lexeme : Lexeme} (awaits : Awaits done containers)
    (other : lexeme ≠ .closeArray) : after (lexeme :: done) = Builder.value containers lexeme := by
  rw [Builder.after_cons]
  obtain built | built := awaits
  · rw [built]
    rfl
  · rw [built]
    exact if_neg other

/-- The items of an array are put in it, and it is closed. -/
theorem after_itemsOnto {read : List Value}
    (built : after done =
      some ⟨.array read :: outer, if first then .valueOrEnd else .separator⟩)
    (onto : ∀ item ∈ items, ∀ {done containers},
      Awaits done containers → after (item.onto done) = put containers item) :
    after (.closeArray :: itemsOnto first done items) =
      put outer (.array (read.reverse ++ items)) := by
  induction items generalizing first done read with
  | nil =>
    rw [itemsOnto, after_cons, built, List.append_nil]
    cases first <;> rfl
  | cons item items ih =>
    have awaits : Awaits (separated first done) (.array read :: outer) := by
      cases first with
      | true => exact .inr built
      | false =>
        refine .inl ?_
        rw [separated, if_neg Bool.false_ne_true, after_cons, built]
        rfl
    have rest : after (.closeArray :: itemsOnto false (item.onto (separated first done)) items) =
        put outer (.array ((item :: read).reverse ++ items)) :=
      ih (onto item (by simp) awaits) (fun item inside => onto item (by simp [inside]))
    rw [List.reverse_cons, List.append_assoc] at rest
    exact rest

/-- The members of an object are put in it, and it is closed. -/
theorem after_membersOnto {read : List (List Piece × Value)}
    (built : after done =
      some ⟨.object read :: outer, if first then .keyOrEnd else .separator⟩)
    (onto : ∀ member ∈ members, ∀ {done containers},
      Awaits done containers → after (member.2.onto done) = put containers member.2) :
    after (.closeObject :: membersOnto first done members) =
      put outer (.object (read.reverse ++ members)) := by
  induction members generalizing first done read with
  | nil =>
    rw [membersOnto, after_cons, built, List.append_nil]
    cases first <;> rfl
  | cons member members ih =>
    obtain ⟨key, value⟩ := member
    have named : after (.text key :: separated first done) =
        some ⟨.member read key :: outer, .colon⟩ := by
      rw [after_cons]
      cases first with
      | true =>
        rw [separated, if_pos rfl, built]
        rfl
      | false =>
        rw [separated, if_neg Bool.false_ne_true, after_cons, built]
        rfl
    have awaits : Awaits (.colon :: .text key :: separated first done)
        (.member read key :: outer) := by
      refine .inl ?_
      rw [after_cons, named]
      rfl
    have rest : after (.closeObject ::
          membersOnto false (value.onto (.colon :: .text key :: separated first done)) members) =
        put outer (.object (((key, value) :: read).reverse ++ members)) :=
      ih (onto (key, value) (by simp) awaits) (fun member inside => onto member (by simp [inside]))
    rw [List.reverse_cons, List.append_assoc] at rest
    exact rest

end Builder

/-- The builder takes the lexemes of a value to the value that it awaits. -/
theorem Value.Written.after_onto (written : value.Written) {done : List Lexeme}
    {containers : List OpenValue} (awaits : Builder.Awaits done containers) :
    Builder.after (value.onto done) = Builder.put containers value := by
  induction written generalizing done containers with
  | null | bool | integer | inexact | text => exact awaits.after_cons (by simp)
  | array written ih =>
    have opened : Builder.after (.openArray :: done) =
        some ⟨.array [] :: containers, if true then .valueOrEnd else .separator⟩ :=
      awaits.after_cons (by simp)
    exact Builder.after_itemsOnto opened ih
  | object keys values ih =>
    have opened : Builder.after (.openObject :: done) =
        some ⟨.object [] :: containers, if true then .keyOrEnd else .separator⟩ :=
      awaits.after_cons (by simp)
    exact Builder.after_membersOnto opened ih

/-- What was written of a value is read as this value. -/
theorem Value.Written.ofBytes?_render (written : value.Written) :
    Value.ofBytes? value.render = some value := by
  have lexemes : Lexeme.ofBytes? value.render = some value.lexemes :=
    Json.ofBytes?_render (written.spaced .nil (fun _ newest => nomatch newest))
  have built : value.lexemes.foldlM Builder.step ⟨[], .value⟩ = Builder.put [] value :=
    written.after_onto (.inl rfl)
  rw [Value.ofBytes?, lexemes]
  show Value.ofLexemes? value.lexemes = some value
  rw [Value.ofLexemes?, built]
  rfl

/-- What makes an item of a value makes it of the bytes that were written of this value. -/
theorem Value.Written.ofBytes?_bind {α : Type} {ofValue? : Value → Option α} {item : α}
    (written : value.Written) (made : ofValue? value = some item) :
    (Value.ofBytes? value.render >>= ofValue?) = some item := by
  rw [written.ofBytes?_render]
  exact made

end TableDriven.Json
