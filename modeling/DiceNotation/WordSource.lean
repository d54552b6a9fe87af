set_option autoImplicit false

/-!
# Sources of random words

## Main definitions

* `WordSource` — a state that yields one 32-bit word after the other.
* `WordSource.state`, `WordSource.word` — the stream of states and of words of a source.
* `ScriptedWords` — given words, then an arithmetic progression that meets every word.
* `Counted` — a source that counts the words taken from it.
-/

namespace DiceNotation

/-- A state that yields 32-bit words. -/
class WordSource (γ : Type) where
  /-- The next word, and the state behind it. -/
  next : γ → UInt32 × γ

namespace WordSource

variable {γ : Type} [WordSource γ]

/-- The state behind the first `n` words. -/
def state (g : γ) : Nat → γ
  | 0 => g
  | n + 1 => state (next g).2 n

/-- The word behind the first `n` words. -/
def word (g : γ) (n : Nat) : UInt32 :=
  (next (state g n)).1

end WordSource

/-- Given words, and behind them the multiples of an odd step. As the step is odd, every word is
met again and again. -/
structure ScriptedWords where
  /-- The given words that have not been taken. -/
  given : List UInt32
  /-- The last multiple taken. -/
  multiple : UInt32
  deriving DecidableEq, Repr

namespace ScriptedWords

/-- The distance between the words that follow the given ones. -/
def step : UInt32 :=
  0x9E3779B9

/-- The given words, followed by the multiples of the step from the first one on. -/
def ofList (words : List UInt32) : ScriptedWords :=
  ⟨words, 0⟩

instance : WordSource ScriptedWords where
  next s :=
    match s.given with
    | w :: ws => (w, { s with given := ws })
    | [] => (s.multiple + step, { s with multiple := s.multiple + step })

end ScriptedWords

/-- A source of words, and how many words have been taken from it. -/
structure Counted (γ : Type) where
  /-- The source. -/
  source : γ
  /-- How many words have been taken. -/
  used : Nat

namespace Counted

variable {γ : Type} [WordSource γ]

/-- A source from which nothing has been taken. -/
def ofSource (source : γ) : Counted γ :=
  ⟨source, 0⟩

instance : WordSource (Counted γ) where
  next g :=
    let (w, source) := WordSource.next g.source
    (w, ⟨source, g.used + 1⟩)

end Counted

end DiceNotation
