/-! # Readers

A reader takes a value from the front of a text, or fails and leaves the text to an alternative.
-/
namespace MulticastRelay.Text

abbrev Reader := StateT (List Char) Option

namespace Reader

/-- The next character, if it passes a test. -/
def satisfy (test : Char → Bool) : Reader Char := fun cs =>
  match cs with
  | c :: rest => if test c then some (c, rest) else none
  | [] => none

def char (c : Char) : Reader Char := satisfy (· == c)

/-- A fixed run of characters. -/
def chars (word : List Char) : Reader Unit := word.forM fun c => discard (char c)

/-- Nothing is left. -/
def atEnd : Reader Unit := fun cs => if cs.isEmpty then some ((), cs) else none

/-- Whether the text goes on with a run of characters. -/
def looksAt (word : List Char) : Reader Bool := fun cs => some (word.isPrefixOf cs, cs)

/-- The longest run of characters that pass a test. -/
def run (test : Char → Bool) : Reader (List Char) := fun cs =>
  some (cs.takeWhile test, cs.dropWhile test)

/-- At most `n` repetitions. -/
def upTo {α : Type} (p : Reader α) : Nat → Reader (List α)
  | 0 => pure []
  | n + 1 => do
    match ← optional p with
    | none => return []
    | some a => return a :: (← upTo p n)

/-- As many repetitions as there are; one that takes nothing is repeated no more often than the text
is long. -/
def many {α : Type} (p : Reader α) : Reader (List α) := do upTo p (← get).length

/-- Exactly `n` repetitions. -/
def times {α : Type} (p : Reader α) : Nat → Reader (List α)
  | 0 => pure []
  | n + 1 => do return (← p) :: (← times p n)

/-- Values with a separator between neighbours, at least one. -/
def separated {α : Type} (p : Reader α) (separator : Reader Unit) : Reader (List α) := do
  return (← p) :: (← many (separator *> p))

/-- The value, unless it is missing. -/
def require {α : Type} (a : Option α) : Reader α := fun cs => a.map (·, cs)
end Reader
end MulticastRelay.Text
