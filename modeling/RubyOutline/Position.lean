/-
RubyOutline/Position.lean

Zero-based positions in a client's text and half-open ranges between two of them.  Positions are
ordered by line and then by character.  A range is only a pair: nothing forces its start before
its stop, and containment is two comparisons.
-/

namespace RubyOutline

structure Position where
  line : Nat
  character : Nat
deriving DecidableEq, Repr, Inhabited

namespace Position

instance : LE Position where
  le a b := a.line < b.line ∨ (a.line = b.line ∧ a.character ≤ b.character)

theorem le_def {a b : Position} :
    a ≤ b ↔ a.line < b.line ∨ (a.line = b.line ∧ a.character ≤ b.character) := Iff.rfl

instance (a b : Position) : Decidable (a ≤ b) := decidable_of_iff _ le_def.symm

theorem le_rfl {a : Position} : a ≤ a := Or.inr ⟨rfl, Nat.le_refl _⟩

theorem le_trans {a b c : Position} (hab : a ≤ b) (hbc : b ≤ c) : a ≤ c := by
  simp only [le_def] at *
  omega

end Position

structure SourceRange where
  start : Position
  stop : Position
deriving DecidableEq, Repr, Inhabited

namespace SourceRange

/-- `inner` lies within `outer`. -/
def Contains (outer inner : SourceRange) : Prop :=
  outer.start ≤ inner.start ∧ inner.stop ≤ outer.stop

instance (outer inner : SourceRange) : Decidable (outer.Contains inner) :=
  inferInstanceAs (Decidable (_ ∧ _))

theorem Contains.refl (r : SourceRange) : r.Contains r :=
  ⟨Position.le_rfl, Position.le_rfl⟩

theorem Contains.trans {a b c : SourceRange} (hab : a.Contains b) (hbc : b.Contains c) :
    a.Contains c :=
  ⟨Position.le_trans hab.1 hbc.1, Position.le_trans hbc.2 hab.2⟩

end SourceRange

end RubyOutline
