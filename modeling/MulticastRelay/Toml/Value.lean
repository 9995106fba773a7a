import MulticastRelay.Decimal.Binary

/-! # TOML values

The values of a document, and the rules by which statements add to its tables. A table remembers how it
came to be, because that decides who may add to it: a header may open a table that so far was only
implied, a dotted key may add to tables made by dotted keys, and nobody may add to an inline table.
-/
namespace MulticastRelay.Toml

/-- How a table came to be. -/
inductive TableKind where
  /-- Named on the way to a table with a header of its own. -/
  | implied
  | dotted
  | header
  | inline
deriving DecidableEq, Repr

inductive Value where
  | text (s : String)
  | integer (i : Int)
  | float (x : Decimal.Binary64)
  | boolean (b : Bool)
  | dateTime
  | array (items : List Value)
  | table (kind : TableKind) (entries : List (String × Value))
  /-- Tables with one repeated header. -/
  | tables (items : List (List (String × Value)))
deriving Repr, Inhabited

/-- The entries of a table, in order. -/
abbrev Entries := List (String × Value)

/-- A statement of a document. -/
inductive Statement where
  | header (path : List String)
  | repeatedHeader (path : List String)
  | entry (path : List String) (value : Value)

namespace Entries

def replace (es : Entries) (key : String) (v : Value) : Entries :=
  es.map fun (k, old) => if k = key then (k, v) else (k, old)

/-- Changes the table at the end of a path, making the tables on the way. The path may lead through the
latest table of a repeated header. -/
def descend (dotted : Bool) (change : TableKind → Entries → Option Entries) :
    List String → TableKind → Entries → Option Entries
  | [], kind, es => change kind es
  | key :: path, _, es =>
    match es.lookup key with
    | none => do
      let kind := if dotted then .dotted else .implied
      let inner ← descend dotted change path kind []
      return es ++ [(key, .table kind inner)]
    | some (.table kind inner) =>
      if kind = .inline || (dotted && kind = .header) then none
      else do
        let inner ← descend dotted change path kind inner
        return es.replace key (.table kind inner)
    | some (.tables items) => do
      let inner ← descend dotted change path .header (items.getLast?.getD [])
      return es.replace key (.tables (items.dropLast ++ [inner]))
    | some _ => none

/-- Opens a table by its header. -/
def openTable (es : Entries) (path : List String) : Option Entries := do
  let key ← path.getLast?
  descend false (fun _ es =>
    match es.lookup key with
    | none => some (es ++ [(key, .table .header [])])
    | some (.table .implied inner) => some (es.replace key (.table .header inner))
    | some _ => none) path.dropLast .header es

/-- Opens the next table of a repeated header. -/
def openRepeated (es : Entries) (path : List String) : Option Entries := do
  let key ← path.getLast?
  descend false (fun _ es =>
    match es.lookup key with
    | none => some (es ++ [(key, .tables [[]])])
    | some (.tables items) => some (es.replace key (.tables (items ++ [[]])))
    | some _ => none) path.dropLast .header es

/-- Adds a value under a possibly dotted key. -/
def put (kind : TableKind) (es : Entries) (path : List String) (v : Value) : Option Entries := do
  let key ← path.getLast?
  descend true (fun last es =>
    if (last == .dotted) == (path.length == 1) || (es.lookup key).isSome then none
    else some (es ++ [(key, v)])) path.dropLast kind es

/-- Carries out a statement while the table of the path `current` is open. -/
def apply (es : Entries) (current : List String) : Statement → Option (Entries × List String)
  | .header path => (es.openTable path).map (·, path)
  | .repeatedHeader path => (es.openRepeated path).map (·, path)
  | .entry path v =>
    (descend false (fun kind es => es.put kind path v) current .header es).map (·, current)

/-- The table that the statements of a document make. -/
def ofStatements (statements : List Statement) : Option Entries := do
  let (es, _) ← statements.foldlM (fun (es, current) s => apply es current s) ([], [])
  return es

end Entries
end MulticastRelay.Toml
