import TableDriven.Token.Basic
import TableDriven.Fault

/-! # Token sources

A token source is a state that delivers tokens one at a time, the last of them an end-of-file
token, which it may deliver again.  It may fail at any call and go on afterwards.  What it wants
to tell about a call, it answers as notes; whoever calls it keeps them in order.
-/

namespace TableDriven

/-- What a call of a token source yields. -/
structure Pull (σ V ε : Type) where
  answer : Except StreamFault (Token V)
  rest : σ
  notes : List ε

/-- A state that delivers tokens with values of type `V` and makes notes of type `ε`.  Its owner
closes it once and never asks it again. -/
class TokenSource (σ : Type) (V : outParam Type) (ε : Type) where
  next : Nat → σ → Run (Pull σ V ε)
  close : σ → List ε

instance [TokenSource σ V ε] [TokenSource τ V ε] : TokenSource (σ ⊕ τ) V ε where
  next fuel
    | .inl source => do
      let pull ← TokenSource.next fuel source
      return ⟨pull.answer, .inl pull.rest, pull.notes⟩
    | .inr source => do
      let pull ← TokenSource.next fuel source
      return ⟨pull.answer, .inr pull.rest, pull.notes⟩
  close
    | .inl source => TokenSource.close source
    | .inr source => TokenSource.close source

/-- A source whose answers do not depend on the fuel that it leaves over. -/
class LawfulTokenSource (σ : Type) (V : outParam Type) (ε : Type) [TokenSource σ V ε] : Prop where
  next_mono : ∀ {fuel enough : Nat} {source : σ} {pull : Pull σ V ε},
    TokenSource.next fuel source = .ok pull → fuel ≤ enough →
      TokenSource.next enough source = .ok pull

instance [TokenSource σ V ε] [TokenSource τ V ε] [LawfulTokenSource σ V ε]
    [LawfulTokenSource τ V ε] : LawfulTokenSource (σ ⊕ τ) V ε where
  next_mono := by
    intro fuel enough source pull pulled more
    cases source with
    | inl source | inr source =>
      obtain ⟨answered, taken, pulled⟩ := bind_eq_ok_iff.mp pulled
      exact bind_eq_ok_iff.mpr ⟨answered, LawfulTokenSource.next_mono taken more, pulled⟩

end TableDriven
