import MulticastRelay.Decimal.Binary
import MulticastRelay.Text.Digits
import MulticastRelay.Text.Reader

/-! # TOML scalars

Blank space and comments, strings, numbers and dates as a document writes them.
-/
namespace MulticastRelay.Toml

open Text Text.Reader Decimal

/-! ## Blank space and comments -/

def isSpace (c : Char) : Bool := c == ' ' || c == '\t'

/-- Characters that may stand in comments and literal strings, quotes apart. -/
def isPlain (c : Char) : Bool := c == '\t' || (' ' ≤ c && c != '\x7f')

def spaces : Reader Unit := discard (run isSpace)

def newline : Reader Unit := discard (char '\n') <|> chars ['\r', '\n']

def comment : Reader Unit := discard (char '#' *> run isPlain)

/-- The end of a line, with a comment before it perhaps. -/
def lineEnd : Reader Unit := spaces *> discard (optional comment) *> (newline <|> atEnd)

/-- Blank space, line ends and comments between the values of an array. -/
def gap : Reader Unit :=
  discard (many (discard (satisfy isSpace) <|> newline <|> (comment *> newline)))

/-! ## Strings -/

/-- A code point written with exactly `width` hexadecimal digits. -/
def codePoint (width : Nat) : Reader Char := do
  let digits ← times (satisfy fun c => (digitValue? c).isSome) width
  let n ← require (digitsValue? 16 digits)
  guard (n < 0xD800 || (0xE000 ≤ n && n < 0x110000))
  return Char.ofNat n

/-- What follows a backslash. -/
def escaped : Reader Char := do
  match ← satisfy fun _ => true with
  | 'b' => return '\x08'
  | 't' => return '\t'
  | 'n' => return '\n'
  | 'f' => return '\x0c'
  | 'r' => return '\r'
  | '"' => return '"'
  | '\\' => return '\\'
  | 'u' => codePoint 4
  | 'U' => codePoint 8
  | _ => failure

/-- Whether a character stands for itself in a basic string. -/
def isBasic (c : Char) : Bool := isPlain c && c != '"' && c != '\\'

def basicString : Reader String := do
  discard (char '"')
  let cs ← many (satisfy isBasic <|> (char '\\' *> escaped))
  discard (char '"')
  return String.ofList cs

def literalString : Reader String := do
  discard (char '\'')
  let cs ← run fun c => isPlain c && c != '\''
  discard (char '\'')
  return String.ofList cs

/-- A backslash at the end of a line, which takes the blank space after it along. -/
def lineBreak : Reader (List Char) := do
  discard (char '\\')
  spaces
  newline
  discard (many (discard (satisfy isSpace) <|> newline))
  return []

/-- One or two quotes that do not begin the end of the string. -/
def innerQuotes (quote : Char) : Reader (List Char) := do
  guard (!(← looksAt [quote, quote, quote]))
  return [← char quote]

/-- The end of a string over several lines: three quotes, and up to two more that belong to it. -/
def closingQuotes (quote : Char) : Reader (List Char) := do
  let more ← upTo (do guard (← looksAt [quote, quote, quote, quote]); char quote) 2
  chars [quote, quote, quote]
  return more

/-- A string over several lines: pieces between triple quotes, without a line end right at the start. -/
def multiLine (quote : Char) (piece : Reader (List Char)) : Reader String := do
  chars [quote, quote, quote]
  discard (optional newline)
  let pieces ← many (piece <|> (newline *> pure ['\n']) <|> innerQuotes quote)
  let tail ← closingQuotes quote
  return String.ofList (pieces.flatten ++ tail)

def multiLineBasic : Reader String :=
  multiLine '"' ((([·]) <$> satisfy isBasic) <|> lineBreak <|> (([·]) <$> (char '\\' *> escaped)))

def multiLineLiteral : Reader String :=
  multiLine '\'' (([·]) <$> satisfy fun c => isPlain c && c != '\'')

def string : Reader String := multiLineBasic <|> multiLineLiteral <|> basicString <|> literalString

/-! ## Keys -/

def isBareKey (c : Char) : Bool := c.isAlphanum || c == '-' || c == '_'

def bareKey : Reader String := do
  let cs ← run isBareKey
  guard (!cs.isEmpty)
  return String.ofList cs

/-- Dotted keys have fewer parts than this. -/
def partLimit : Nat := 80

/-- A key, dotted or not, with the blank space around it. -/
def key : Reader (List String) := do
  let path ← separated (spaces *> (basicString <|> literalString <|> bareKey) <* spaces) (discard (char '.'))
  guard (path.length < partLimit)
  return path

/-! ## Numbers -/

def isDigit (base : Nat) (c : Char) : Bool := (digitBelow? base c).isSome

/-- Digits, with single underscores between them. -/
def digits (base : Nat) : Reader (List Char) := do
  let first ← satisfy (isDigit base)
  let rest ← many (satisfy (isDigit base) <|> (char '_' *> satisfy (isDigit base)))
  return first :: rest

/-- A sign; true is minus. -/
def sign : Reader Bool := (char '-' *> pure true) <|> (char '+' *> pure false) <|> pure false

/-- A decimal number without needless leading zeros. -/
def decimalDigits : Reader (List Char) := do
  if ← looksAt ['0'] then return [← char '0'] else digits 10

def integerBound : Nat := Nat.pow 2 63

/-- A number after a mark for its base. -/
def based (mark : Char) (base : Nat) : Reader Int := do
  chars ['0', mark]
  let n ← require (digitsValue? base (← digits base))
  guard (n < integerBound)
  return n

def decimalInteger : Reader Int := do
  let negative ← sign
  let n ← require (digitsValue? 10 (← decimalDigits))
  guard (if negative then n ≤ integerBound else n < integerBound)
  return if negative then -(n : Int) else n

def integer : Reader Int := based 'x' 16 <|> based 'o' 8 <|> based 'b' 2 <|> decimalInteger

/-- The double nearest to `mantissa * 10 ^ scale`. Beyond the range of doubles the scale makes no
difference any more. -/
def doubleOf (mantissa : Nat) (scale : Int) : Float :=
  let size : Int := (Nat.toDigits 10 mantissa).length
  if mantissa = 0 || scale + size < -400 then 0
  else if 400 < scale + size then 1 / 0
  else if scale < 0 then Float.ofScientific mantissa true (-scale).toNat
  else Float.ofScientific mantissa false scale.toNat

/-- The decimal exponent of a number. -/
def exponent : Reader Int := do
  discard (char 'e' <|> char 'E')
  let negative ← sign
  let n ← require (digitsValue? 10 (← digits 10))
  return if negative then -(n : Int) else n

def special : Reader Binary64 :=
  (chars ['i', 'n', 'f'] *> pure .infinity) <|> (chars ['n', 'a', 'n'] *> pure .nan)

def plainFloat : Reader Binary64 := do
  let whole ← decimalDigits
  let fraction ← optional (char '.' *> digits 10)
  let scale ← optional exponent
  guard (fraction.isSome || scale.isSome)
  let places := fraction.getD []
  let mantissa ← require (digitsValue? 10 (whole ++ places))
  return .ofFloat (doubleOf mantissa (scale.getD 0 - places.length))

/-- A floating-point number. One too large for a double is refused unless it is negative. -/
def float : Reader Binary64 := do
  let negative ← sign
  let x ← special <|> do
    let x ← plainFloat
    guard (negative || x ≠ .infinity)
    return x
  return if negative then -x else x

/-! ## Dates and times -/

/-- A number of exactly `width` digits within bounds. -/
def fixed (width low high : Nat) : Reader Nat := do
  let n ← require (digitsValue? 10 (← times (satisfy (isDigit 10)) width))
  guard (low ≤ n && n ≤ high)
  return n

def daysIn (year month : Nat) : Nat :=
  if month = 2 then if year % 4 = 0 && (year % 100 != 0 || year % 400 = 0) then 29 else 28
  else if [4, 6, 9, 11].contains month then 30
  else 31

def date : Reader Unit := do
  let year ← fixed 4 0 9999
  discard (char '-')
  let month ← fixed 2 1 12
  discard (char '-')
  discard (fixed 2 1 (daysIn year month))

def timeOfDay : Reader Unit := do
  discard (fixed 2 0 23)
  discard (char ':')
  discard (fixed 2 0 59)
  discard (char ':')
  discard (fixed 2 0 60)
  discard (optional (char '.' *> many (satisfy (isDigit 10)) >>= fun ds => guard (!ds.isEmpty)))

def offset : Reader Unit :=
  discard (char 'Z' <|> char 'z') <|> do
    discard (char '+' <|> char '-')
    discard (fixed 2 0 23)
    discard (char ':')
    discard (fixed 2 0 59)

/-- A date, a time, or both with an offset perhaps. -/
def dateTime : Reader Unit :=
  (date *> discard (optional
    ((char 'T' <|> char 't' <|> char ' ') *> timeOfDay *> optional offset))) <|> timeOfDay

end MulticastRelay.Toml
