import MulticastRelay.Topology.Group

/-! # Wildcard matchers

A matcher binds every link whose name starts with its stem to a group, as links appear. Matchers are
kept in buckets, one for each stem, and buckets on shelves, one for each length of stems: so the stems
that a name starts with are found with one look at each shelf. Shelves stand in order of length and
buckets in order of their stems; within a bucket matchers stay in the order in which they were added.
Two matchers never agree in stem, group and role.
-/
namespace MulticastRelay

/-- A link as the host shows it. -/
structure Link where
  name : String
  index : Nat
  up : Bool
deriving DecidableEq, Repr

structure Matcher where
  stem : String
  /-- The name of the group; the template for a source matcher. -/
  group : String
  role : Role
  mode : Mode
  relayType : RelayType
deriving DecidableEq, Repr

/-- Whether a text starts with a stem. -/
def isStemOf (stem name : String) : Bool := stem.toList.isPrefixOf name.toList

/-- The mark at the end of a wildcard name. -/
def wildcardMark : Char := '#'

/-- The stem of a wildcard name. -/
def wildcardStem? (name : String) : Option String :=
  let cs := name.toList
  if cs.getLast? = some wildcardMark then some (String.ofList cs.dropLast) else none

/-- The wildcard name of a stem. -/
def wildcardName (stem : String) : String := stem.push wildcardMark

/-- Length of a stem in bits. -/
def bitsOf (stem : String) : Nat := stem.utf8ByteSize * 8

/-- The characters that the first `n` bytes of a text spell; `none` if there are fewer bytes or they end
within a character. -/
def headOfBytes? : (n : Nat) → List Char → Option (List Char)
  | 0, _ => some []
  | _ + 1, [] => none
  | n + 1, c :: cs =>
    if c.utf8Size ≤ n + 1 then (headOfBytes? (n + 1 - c.utf8Size) cs).map (c :: ·) else none

namespace Matcher

/-- Length of the stem in bits. -/
def bitLength (m : Matcher) : Nat := bitsOf m.stem

def accepts (m : Matcher) (name : String) : Bool := isStemOf m.stem name

/-- Two matchers are one rule when they agree in stem, group and role. -/
def sameRule (m n : Matcher) : Bool := m.stem == n.stem && m.group == n.group && m.role == n.role

/-- Gives the mode and relay algorithm of a matcher to the first of a list that is the same rule. -/
def refresh (m : Matcher) : List Matcher → List Matcher
  | [] => []
  | n :: ns =>
    if m.sameRule n then { n with mode := m.mode, relayType := m.relayType } :: ns
    else n :: m.refresh ns

end Matcher

/-- The matchers of one stem. -/
structure Bucket where
  stem : String
  rules : List Matcher
deriving DecidableEq, Repr

namespace Bucket

def precedes (a b : Bucket) : Bool := a.stem < b.stem

/-- The bucket without the matchers of a group. -/
def without (group : String) (b : Bucket) : Bucket :=
  { b with rules := b.rules.filter (·.group ≠ group) }

end Bucket

/-- The buckets of the stems of one length. -/
structure Shelf where
  bits : Nat
  buckets : List Bucket
deriving DecidableEq, Repr

namespace Shelf

def before (a b : Shelf) : Bool := a.bits < b.bits

/-- The matchers of a stem on the shelf. -/
def rules (s : Shelf) (stem : String) : List Matcher :=
  match Keyed.get? Bucket.stem stem s.buckets with
  | some b => b.rules
  | none => []

/-- The matchers whose stem is the beginning of a name that is as long as the shelf says. -/
def probe (s : Shelf) (name : String) : List Matcher :=
  match headOfBytes? (s.bits / 8) name.toList with
  | some stem => s.rules (String.ofList stem)
  | none => []

/-- Changes the matchers of a stem, with a new bucket if there is none. -/
def alter (stem : String) (f : List Matcher → List Matcher) (s : Shelf) : Shelf :=
  { s with
    buckets := Keyed.modify Bucket.stem stem (fun b => { b with rules := f b.rules })
      (Ascending.insert Bucket.precedes ⟨stem, []⟩ s.buckets) }

/-- Number of matchers of a group. -/
def held (group : String) (s : Shelf) : Nat :=
  s.buckets.foldl (fun n b => n + (b.rules.length - (b.without group).rules.length)) 0

/-- The shelf without the matchers of a group; buckets left empty go too. -/
def without (group : String) (s : Shelf) : Shelf :=
  { s with buckets := (s.buckets.map (Bucket.without group)).filter fun b => !b.rules.isEmpty }

/-- Changes the matchers of a stem on the shelf of its length, with a new shelf if there is none. -/
def alterAt (stem : String) (f : List Matcher → List Matcher) (shelves : List Shelf) : List Shelf :=
  Keyed.modify Shelf.bits (bitsOf stem) (Shelf.alter stem f)
    (Ascending.insert Shelf.before ⟨bitsOf stem, []⟩ shelves)

/-- Shelves without the matchers of a group; those left empty go too. -/
def withoutAll (group : String) (shelves : List Shelf) : List Shelf :=
  (shelves.map (Shelf.without group)).filter fun s => !s.buckets.isEmpty

end Shelf

/-- Shelves and buckets stand in order, and each bucket on the shelf of its length. -/
structure Indexed (shelves : List Shelf) : Prop where
  ascending : shelves.Pairwise fun a b => a.bits < b.bits
  sorted : ∀ s ∈ shelves, s.buckets.Pairwise fun a b => a.stem < b.stem
  placed : ∀ s ∈ shelves, ∀ b ∈ s.buckets, bitsOf b.stem = s.bits

namespace Indexed

variable {shelves : List Shelf}

theorem nil : Indexed [] where
  ascending := .nil
  sorted _ h := absurd h List.not_mem_nil
  placed _ h := absurd h List.not_mem_nil

/-- What stands on a shelf before and after a change stands in order and in place. -/
theorem alter {s : Shelf} {stem : String} (hs : s.buckets.Pairwise fun a b => a.stem < b.stem)
    (hp : ∀ b ∈ s.buckets, bitsOf b.stem = s.bits) (hb : bitsOf stem = s.bits)
    (f : List Matcher → List Matcher) :
    ((s.alter stem f).buckets.Pairwise fun a b => a.stem < b.stem) ∧
      ∀ b ∈ (s.alter stem f).buckets, bitsOf b.stem = s.bits := by
  refine ⟨Keyed.pairwise_modify (fun _ => rfl) ?_, fun b hb' => ?_⟩
  · have sorted : (Ascending.insert Bucket.precedes ⟨stem, []⟩ s.buckets).Pairwise
        fun a b => a.precedes b = true :=
      Ascending.insert_pairwise (fun {a b c} hab hbc => by
        simp only [Bucket.precedes, decide_eq_true_eq] at hab hbc ⊢
        exact String.lt_trans hab hbc) (hs.imp decide_eq_true)
    exact sorted.imp of_decide_eq_true
  · obtain ⟨c, hc, rfl⟩ := List.mem_map.1 hb'
    have hstem : bitsOf c.stem = s.bits := by
      rcases Ascending.eq_or_mem_of_mem_insert hc with rfl | hc
      · exact hb
      · exact hp c hc
    split <;> exact hstem

theorem alterAt (h : Indexed shelves) (stem : String) (f : List Matcher → List Matcher) :
    Indexed (Shelf.alterAt stem f shelves) := by
  have sorted : (Ascending.insert Shelf.before ⟨bitsOf stem, []⟩ shelves).Pairwise
      fun a b => a.before b = true :=
    Ascending.insert_pairwise (fun {a b c} hab hbc => by
      simp only [Shelf.before, decide_eq_true_eq] at hab hbc ⊢
      exact Nat.lt_trans hab hbc) (h.ascending.imp decide_eq_true)
  have kept : ∀ s ∈ Shelf.alterAt stem f shelves,
      (s.buckets.Pairwise fun a b => a.stem < b.stem) ∧ ∀ b ∈ s.buckets, bitsOf b.stem = s.bits := by
    intro s hs
    obtain ⟨r, hr, rfl⟩ := List.mem_map.1 hs
    have ready : (r.buckets.Pairwise fun a b => a.stem < b.stem) ∧
        ∀ b ∈ r.buckets, bitsOf b.stem = r.bits := by
      rcases Ascending.eq_or_mem_of_mem_insert hr with rfl | hr
      · exact ⟨.nil, fun b hb => absurd hb List.not_mem_nil⟩
      · exact ⟨h.sorted r hr, h.placed r hr⟩
    split
    · rename_i hbits
      exact alter ready.1 ready.2 hbits.symm f
    · exact ready
  refine ⟨Keyed.pairwise_modify (fun _ => rfl) (sorted.imp of_decide_eq_true),
    fun s hs => (kept s hs).1, fun s hs => (kept s hs).2⟩

theorem without (h : Indexed shelves) (group : String) :
    Indexed (Shelf.withoutAll group shelves) := by
  refine ⟨.filter _ (List.pairwise_map.2 h.ascending), fun s hs => ?_, fun s hs b hb => ?_⟩
  · obtain ⟨r, hr, rfl⟩ := List.mem_map.1 (List.mem_filter.1 hs).1
    exact .filter _ (List.pairwise_map.2 (h.sorted r hr))
  · obtain ⟨r, hr, rfl⟩ := List.mem_map.1 (List.mem_filter.1 hs).1
    obtain ⟨c, hc, rfl⟩ := List.mem_map.1 (List.mem_filter.1 hb).1
    exact h.placed r hr c hc

end Indexed

structure MatcherTable where
  shelves : List Shelf
  /-- Number of matchers. -/
  count : Nat
  indexed : Indexed shelves
deriving DecidableEq, Repr

/-- How a matcher met the ones that were there. -/
inductive MatcherChange where
  | inserted
  | updated
deriving DecidableEq, Repr

namespace MatcherTable

def empty : MatcherTable := ⟨[], 0, .nil⟩

/-- All matchers, shorter stems first. -/
def toList (t : MatcherTable) : List Matcher :=
  t.shelves.flatMap fun s => s.buckets.flatMap (·.rules)

def size (t : MatcherTable) : Nat := t.count

/-- The matchers of exactly this stem. -/
def withStem (t : MatcherTable) (stem : String) : List Matcher :=
  match Keyed.get? Shelf.bits (bitsOf stem) t.shelves with
  | some s => s.rules stem
  | none => []

/-- Changes the matchers of a stem. -/
def alter (t : MatcherTable) (stem : String) (f : List Matcher → List Matcher) : MatcherTable :=
  { t with shelves := Shelf.alterAt stem f t.shelves, indexed := t.indexed.alterAt stem f }

/-- Adds a matcher, or gives its mode and relay algorithm to the matcher of the same rule. -/
def insert (t : MatcherTable) (m : Matcher) : MatcherChange × MatcherTable :=
  if (t.withStem m.stem).any m.sameRule then (.updated, t.alter m.stem m.refresh)
  else (.inserted, { t.alter m.stem (· ++ [m]) with count := t.count + 1 })

/-- Every matcher that accepts a name, longest stem first. -/
def matching (t : MatcherTable) (name : String) : List Matcher :=
  t.shelves.reverse.flatMap (·.probe name)

/-- The first matcher of the longest stem that accepts a name. -/
def longestMatch? (t : MatcherTable) (name : String) : Option Matcher := (t.matching name).head?

/-- Takes the matchers of a group out, and counts them. -/
def withdraw (t : MatcherTable) (group : String) : Nat × MatcherTable :=
  let removed := t.shelves.foldl (fun n s => n + s.held group) 0
  (removed,
    { shelves := Shelf.withoutAll group t.shelves
      count := t.count - removed
      indexed := t.indexed.without group })

/-- The table without the matchers of a group. -/
def removeGroup (t : MatcherTable) (group : String) : MatcherTable := (t.withdraw group).2

end MatcherTable
end MulticastRelay
