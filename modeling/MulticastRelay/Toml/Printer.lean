import MulticastRelay.Decimal.Text
import MulticastRelay.Text.Digits
import MulticastRelay.Toml.Value

/-! # Writing TOML

Plain values of a table come first, then its sections under headers, with an empty line before every
header that is not the first line. An array of two or more values stands on several lines. A string is
quoted so that it needs no escapes, where there is such a way.
-/
namespace MulticastRelay.Toml

/-! ## Strings -/

/-- A control character other than a tab or a line end. -/
def isControl (c : Char) : Bool := (c < ' ' && c != '\t' && c != '\n') || c == '\x7f'

/-- The longest run of a character. -/
def longestRun (c : Char) (cs : List Char) : Nat :=
  (cs.foldl (fun (run, best) d => if d = c then (run + 1, max best (run + 1)) else (0, best)) (0, 0)).2

/-- The four ways to write a string: with escapes or literally, on one line or between triple quotes. -/
inductive Quoting where
  | basic
  | literal
  | multiLineBasic
  | multiLineLiteral
deriving DecidableEq, Repr

namespace Quoting

/-- The first way that shows a string without escapes, a tab apart; with escapes if there is none. -/
def choose (cs : List Char) : Quoting :=
  let newline := cs.contains '\n'
  let escapes := cs.any isControl
  let backslash := cs.contains '\\'
  let singles := longestRun '\'' cs
  let doubles := longestRun '"' cs
  if !escapes && !backslash && doubles = 0 && !newline then basic
  else if !escapes && singles = 0 && !newline then literal
  else if !escapes && !backslash && doubles ≤ 2 then multiLineBasic
  else if !escapes && singles ≤ 2 then multiLineLiteral
  else if newline then multiLineBasic
  else basic

def delimiter : Quoting → String
  | basic => "\""
  | literal => "'"
  | multiLineBasic => "\"\"\""
  | multiLineLiteral => "'''"

def isMultiLine : Quoting → Bool
  | basic | literal => false
  | multiLineBasic | multiLineLiteral => true

def hasEscapes : Quoting → Bool
  | basic | multiLineBasic => true
  | literal | multiLineLiteral => false

end Quoting

/-- A character in a string with escapes, quotes apart; a line end may stand for itself. -/
def escape (multiLine : Bool) (c : Char) : String :=
  match c with
  | '\x08' => "\\b"
  | '\t' => "\\t"
  | '\n' => if multiLine then "\n" else "\\n"
  | '\x0c' => "\\f"
  | '\r' => "\\r"
  | '\\' => "\\\\"
  | c =>
    if c < ' ' || c == '\x7f' then
      "\\u" ++ String.ofList ((Text.hexDigits 4 c.toNat).map Char.toUpper)
    else String.singleton c

/-- The body of a string with escapes. Of the quotes in a row, `run` stand before the first character;
a quote after `most` others is escaped, and the count starts again. -/
def escapeAll (multiLine : Bool) (most : Nat) : (run : Nat) → List Char → List String
  | _, [] => []
  | run, '"' :: cs =>
    if run < most then "\"" :: escapeAll multiLine most (run + 1) cs
    else "\\\"" :: escapeAll multiLine most 0 cs
  | _, c :: cs => escape multiLine c :: escapeAll multiLine most 0 cs

def stringText (s : String) : String :=
  let q := Quoting.choose s.toList
  let start := if q.isMultiLine && s.toList.contains '\n' then "\n" else ""
  let body :=
    if q.hasEscapes then String.join (escapeAll q.isMultiLine (if q.isMultiLine then 2 else 0) 0 s.toList)
    else s
  q.delimiter ++ start ++ body ++ q.delimiter

/-! ## Numbers -/

/-- A double always shows that it is one; what is not a number loses its sign. -/
def floatText (x : Decimal.Binary64) : String :=
  match x.reading with
  | .nan => "nan"
  | .infinite negative => Decimal.signText negative ++ "inf"
  | .finite .. =>
    let text := Decimal.shortestText x.toFloat
    if text.toList.contains '.' then text else text ++ ".0"

/-! ## Values and tables -/

/-- A value that needs no header; tables within values do not occur in what is written. -/
def scalarText : Value → String
  | .text s => stringText s
  | .integer i => toString i
  | .float x => floatText x
  | .boolean b => if b then "true" else "false"
  | _ => ""

def arrayText : List Value → String
  | [] => "[]"
  | [v] => "[" ++ scalarText v ++ "]"
  | vs => "[\n" ++ String.join (vs.map fun v => "    " ++ scalarText v ++ ",\n") ++ "]"

def valueText : Value → String
  | .array items => arrayText items
  | v => scalarText v

def entryLine (entry : String × Value) : String := entry.1 ++ " = " ++ valueText entry.2 ++ "\n"

/-- The sections of a table: header and entries. -/
def sections (entry : String × Value) : List (String × Entries) :=
  match entry.2 with
  | .table _ es => [("[" ++ entry.1 ++ "]", es)]
  | .tables items => items.map fun es => ("[[" ++ entry.1 ++ "]]", es)
  | _ => []

def isSection (entry : String × Value) : Bool :=
  match entry.2 with
  | .table .. | .tables _ => true
  | _ => false

def sectionText (s : String × Entries) : String := s.1 ++ "\n" ++ String.join (s.2.map entryLine)

/-- A table with sections one level deep, as a document. -/
def render (es : Entries) : String :=
  let plain := String.join ((es.filter (!isSection ·)).map entryLine)
  let blocks := (es.flatMap sections).map sectionText
  "\n".intercalate (if plain.isEmpty then blocks else plain :: blocks)

end MulticastRelay.Toml
