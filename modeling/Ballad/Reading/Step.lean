import Ballad.Lexeme.Basic
import Ballad.ParseError

/-!
# Reading step by step

A program is read lexeme by lexeme. What has been read of a construct is a value, and a lexeme takes
it one step further.

- `Step`: the construct goes on, or it has ended, with the lexeme or before it.
- `Absorbs`: what a lexeme does to a construct that never hands it back.

Phrases and lists end before a lexeme that they have no use for, which is then read by what is
around them. Poetic literals, statements and lines end with the lexeme that ends the line.

A name in parentheses, as in (`Step`), is the interpreter's own name for what is defined.
-/

namespace Ballad.Reading

/-- What a lexeme does to a construct (`Step`). -/
inductive Step (σ α : Type) where
  /-- The construct goes on. -/
  | next (state : σ)
  /-- The construct has ended with the lexeme. -/
  | done (result : α)
  /-- The construct has ended before the lexeme, which what is around it has to read. -/
  | yield (result : α) (lexeme : Lexeme)
deriving Repr

/-- The lexeme is not handed back. -/
def Absorbs {σ α : Type} (step : Except ParseError (Step σ α)) : Prop :=
  ∀ result l, step ≠ .ok (.yield result l)

namespace Absorbs

variable {σ α β : Type}

theorem error (e : ParseError) : Absorbs (.error e : Except ParseError (Step σ α)) :=
  nofun

theorem next (state : σ) : Absorbs (.ok (.next state) : Except ParseError (Step σ α)) :=
  nofun

theorem done (result : α) : Absorbs (.ok (.done result) : Except ParseError (Step σ α)) :=
  nofun

theorem bind {x : Except ParseError β} {f : β → Except ParseError (Step σ α)}
    (h : ∀ b, Absorbs (f b)) : Absorbs (x.bind f) := by
  cases x with
  | error e => exact .error e
  | ok b => exact h b

theorem map {x : Except ParseError β} {f : β → Step σ α}
    (h : ∀ b, Absorbs (.ok (f b))) : Absorbs (x.map f) := by
  cases x with
  | error e => exact .error e
  | ok b => exact h b

theorem ite {p : Prop} [Decidable p] {x y : Except ParseError (Step σ α)} (hx : Absorbs x)
    (hy : Absorbs y) : Absorbs (if p then x else y) := by
  split
  · exact hx
  · exact hy

end Absorbs

end Ballad.Reading
