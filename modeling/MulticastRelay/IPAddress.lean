import MulticastRelay.Text.Digits

/-! # Network addresses

Addresses of both versions, with their usual text: dotted octets, and groups of hexadecimal digits in
which the first longest run of at least two zero groups is written `::`. Octets are read without
leading zeros; the last two groups may be read as dotted octets.
-/
namespace MulticastRelay

inductive IPAddress where
  | v4 (a b c d : UInt8)
  | v6 (groups : Vector UInt16 8)
deriving DecidableEq, Repr

namespace IPAddress

/-- A number of at most `most` digits and a value below `bound`, and the text after it. -/
def number? (base most bound : Nat) (leadingZeros : Bool) (cs : List Char) : Option (Nat × List Char) := do
  let digits := cs.takeWhile fun c => (Text.digitBelow? base c).isSome
  if digits.isEmpty || most < digits.length then none
  else if !leadingZeros && digits.head? == some '0' && 1 < digits.length then none
  else
    let n ← (Text.digitsValue? base digits).filter (· < bound)
    return (n, cs.drop digits.length)

/-- The text after a given character. -/
def after? (c : Char) : List Char → Option (List Char)
  | [] => none
  | d :: cs => if d = c then some cs else none

/-- Four dotted octets. -/
def octets? (cs : List Char) : Option ((Nat × Nat × Nat × Nat) × List Char) := do
  let octet := number? 10 3 256 false
  let (a, cs) ← octet cs
  let (b, cs) ← octet (← after? '.' cs)
  let (c, cs) ← octet (← after? '.' cs)
  let (d, cs) ← octet (← after? '.' cs)
  return ((a, b, c, d), cs)

/-- At most `room` groups between colons, and whether they end in dotted octets. -/
def groups (room : Nat) (first : Bool) (cs : List Char) : List Nat × Bool × List Char :=
  match room with
  | 0 => ([], false, cs)
  | room + 1 =>
    let start := if first then some cs else after? ':' cs
    match if 1 ≤ room then start >>= octets? else none with
    | some ((a, b, c, d), rest) => ([a * 256 + b, c * 256 + d], true, rest)
    | none =>
      match start >>= number? 16 4 65536 true with
      | some (g, rest) =>
        let (gs, dotted, rest) := groups room false rest
        (g :: gs, dotted, rest)
      | none => ([], false, cs)

def ofGroups? (gs : List Nat) : Option IPAddress :=
  if h : (gs.map UInt16.ofNat).toArray.size = 8 then some (.v6 ⟨(gs.map UInt16.ofNat).toArray, h⟩) else none

/-- Eight groups, or fewer around one `::` that stands for at least one zero group. -/
def sixth? (cs : List Char) : Option (IPAddress × List Char) := do
  let (head, dotted, rest) := groups 8 true cs
  if head.length = 8 then return (← ofGroups? head, rest)
  else if dotted then none
  else
    let rest ← after? ':' (← after? ':' rest)
    let (tail, _, rest) := groups (7 - head.length) true rest
    let zeros := List.replicate (8 - head.length - tail.length) 0
    return (← ofGroups? (head ++ zeros ++ tail), rest)

/-- An address of either version at the start of a text. -/
def read? (cs : List Char) : Option (IPAddress × List Char) :=
  match octets? cs with
  | some ((a, b, c, d), rest) => some (.v4 (.ofNat a) (.ofNat b) (.ofNat c) (.ofNat d), rest)
  | none => sixth? cs

/-- Reads an address that is the whole text. -/
def parse? (text : String) : Option IPAddress :=
  match read? text.toList with
  | some (a, []) => some a
  | _ => none

def dotted (a b c d : Nat) : String := s!"{a}.{b}.{c}.{d}"

def groupText (g : Nat) : String := String.ofList (Nat.toDigits 16 g)

def groupsText (gs : List Nat) : String := ":".intercalate (gs.map groupText)

/-- Start and length of the first longest run of zeros. -/
def longestZeros (gs : List Nat) : Nat × Nat :=
  (gs.foldl step (0, (0, 0), (0, 0))).2.2
where
  step : Nat × (Nat × Nat) × (Nat × Nat) → Nat → Nat × (Nat × Nat) × (Nat × Nat)
    | (i, (start, len), best), g =>
      if g = 0 then
        let run := if len = 0 then (i, 1) else (start, len + 1)
        (i + 1, run, if best.2 < run.2 then run else best)
      else (i + 1, (0, 0), best)

def render : IPAddress → String
  | .v4 a b c d => dotted a.toNat b.toNat c.toNat d.toNat
  | .v6 groups =>
    let gs := groups.toList.map UInt16.toNat
    match gs with
    | [0, 0, 0, 0, 0, 65535, x, y] => "::ffff:" ++ dotted (x / 256) (x % 256) (y / 256) (y % 256)
    | _ =>
      let (start, len) := longestZeros gs
      if 1 < len then groupsText (gs.take start) ++ "::" ++ groupsText (gs.drop (start + len))
      else groupsText gs

end IPAddress
end MulticastRelay
