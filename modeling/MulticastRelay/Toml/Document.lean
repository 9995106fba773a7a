import MulticastRelay.Toml.Scalar
import MulticastRelay.Toml.Value

/-! # TOML documents

A document is a run of lines: headers that open tables, keys with values, comments. Its value is the
table that these statements make.
-/
namespace MulticastRelay.Toml

open Text Text.Reader

/-- Arrays and inline tables nest at most this deep. -/
def depthLimit : Nat := 79

/-- Values between brackets, each followed by a comma, which the last may lack. -/
def arrayOf (value : Reader Value) : Reader (List Value) := do
  discard (char '[')
  gap
  let comma : Reader Unit := char ',' *> gap
  let items ← optional (separated (value <* gap) comma <* optional comma)
  discard (char ']')
  return items.getD []

/-- Keys with values between braces, with a comma between neighbours. -/
def inlineOf (value : Reader Value) : Reader Entries := do
  discard (char '\x7b')
  spaces
  let pair : Reader (List String × Value) := do
    let path ← key
    discard (char '=')
    spaces
    return (path, ← value <* spaces)
  let pairs ← optional (separated pair (discard (char ',')))
  discard (char '\x7d')
  require ((pairs.getD []).foldlM (fun es (path, v) => Entries.put .inline es path v) [])

/-- A value that holds no others. -/
def scalar : Reader Value :=
  (.text <$> string) <|>
  (chars "true".toList *> pure (.boolean true)) <|>
  (chars "false".toList *> pure (.boolean false)) <|>
  (dateTime *> pure .dateTime) <|>
  (.float <$> float) <|>
  (.integer <$> integer)

/-- A value in which arrays and inline tables nest at most so deep. -/
def value : (depth : Nat) → Reader Value
  | 0 => scalar
  | depth + 1 =>
    (.array <$> arrayOf (value depth)) <|> (.table .inline <$> inlineOf (value depth)) <|> scalar

def header : Reader Statement := do
  if ← looksAt ['[', '['] then
    chars ['[', '[']
    let path ← key
    chars [']', ']']
    return .repeatedHeader path
  else
    discard (char '[')
    let path ← key
    discard (char ']')
    return .header path

def entry : Reader Statement := do
  let path ← key
  discard (char '=')
  spaces
  return .entry path (← value depthLimit)

/-- One line, with its statement if it has one. -/
def line : Reader (Option Statement) := do
  spaces
  (some <$> ((header <|> entry) <* lineEnd)) <|> (lineEnd *> pure none)

/-- Takes lines until the text ends. -/
def lines : Nat → Reader (List Statement)
  | 0 => atEnd *> pure []
  | n + 1 => (atEnd *> pure []) <|> do
    let statement ← line
    return statement.toList ++ (← lines n)

/-- Reads a document. -/
def parse? (text : String) : Option Entries := do
  let cs := match text.toList with
    | '\ufeff' :: rest => rest
    | cs => cs
  let (statements, _) ← lines cs.length cs
  Entries.ofStatements statements

end MulticastRelay.Toml
