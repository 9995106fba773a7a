/-! # Buffer pool

A pool owns a fixed number of buffers. A buffer on loan has one holder; what is given back is the first
to be lent again. Storage keeps its old octets, of which a holder sees only those written since the
buffer was taken.
-/
namespace MulticastRelay

/-- Memory of a buffer: cells, of which the first `length` are in view. -/
structure Storage where
  cells : List UInt8 := []
  length : Nat := 0
deriving DecidableEq, Repr

namespace Storage

/-- The octets in view. -/
def octets (s : Storage) : List UInt8 := s.cells.take s.length

/-- Nothing in view; the cells stay. -/
def clear (s : Storage) : Storage := { s with length := 0 }

/-- Writes octets over the first cells and brings exactly them into view. -/
def write (s : Storage) (bs : List UInt8) : Storage :=
  { cells := bs ++ s.cells.drop bs.length, length := bs.length }

/-- Writes octets behind those in view. -/
def extend (s : Storage) (bs : List UInt8) : Storage := s.write (s.octets ++ bs)

/-- Keeps at most `n` octets in view. -/
def truncate (s : Storage) (n : Nat) : Storage := { s with length := min n s.length }

/-- Brings `n` octets into view, copies of one octet behind those that were. -/
def resize (s : Storage) (n : Nat) (octet : UInt8) : Storage :=
  if n ≤ s.octets.length then s.truncate n
  else s.extend (List.replicate (n - s.octets.length) octet)

/-- Replaces one octet. -/
def set (s : Storage) (i : Nat) (b : UInt8) : Storage := { s with cells := s.cells.set i b }

@[simp] theorem octets_clear (s : Storage) : s.clear.octets = [] := by simp [clear, octets]

@[simp] theorem octets_write (s : Storage) (bs : List UInt8) : (s.write bs).octets = bs := by
  simp [write, octets]

@[simp] theorem octets_extend (s : Storage) (bs : List UInt8) :
    (s.extend bs).octets = s.octets ++ bs := by
  simp [extend]

theorem octets_truncate (s : Storage) (n : Nat) : (s.truncate n).octets = s.octets.take n := by
  simp [truncate, octets, List.take_take]

theorem octets_resize (s : Storage) (n : Nat) (octet : UInt8) :
    (s.resize n octet).octets =
      s.octets.take n ++ List.replicate (n - s.octets.length) octet := by
  unfold resize
  split
  · next h => rw [octets_truncate, Nat.sub_eq_zero_of_le h, List.replicate_zero, List.append_nil]
  · next h => rw [octets_extend, List.take_of_length_le (Nat.le_of_not_le h)]

theorem octets_set (s : Storage) (i : Nat) (b : UInt8) : (s.set i b).octets = s.octets.set i b := by
  simp [set, octets, List.take_set]

end Storage

/-- A buffer on loan. -/
structure Buffer where
  storage : Storage
  /-- Length of the space offered to a receiver. -/
  frameSize : Nat
deriving DecidableEq, Repr

namespace Buffer

def octets (b : Buffer) : List UInt8 := b.storage.octets

def length (b : Buffer) : Nat := b.octets.length

def isEmpty (b : Buffer) : Bool := b.octets.isEmpty

/-- Replaces the contents, whatever their length. -/
def fill (b : Buffer) (bs : List UInt8) : Buffer := { b with storage := b.storage.clear.extend bs }

/-- The buffer as a receiver meets it: `frameSize` zero octets. -/
def blank (b : Buffer) : Buffer := { b with storage := b.storage.clear.resize b.frameSize 0 }

/-- Receives into the buffer. The receiver gets the blank space and leaves it changed, with a count of
octets to keep or an error, after which the buffer is empty. `σ` is what else the receiver changes. -/
def fillWith {ε σ : Type} (b : Buffer) (receive : List UInt8 → Except ε Nat × List UInt8 × σ) :
    Except ε Nat × Buffer × σ :=
  let (result, space, s) := receive b.blank.octets
  let storage := b.blank.storage.write space
  match result with
  | .ok n => (.ok (min n b.frameSize), { b with storage := storage.truncate (min n b.frameSize) }, s)
  | .error e => (.error e, { b with storage := storage.clear }, s)

/-- Replaces one octet in view; `none` outside the view. -/
def set? (b : Buffer) (i : Nat) (octet : UInt8) : Option Buffer :=
  if i < b.length then some { b with storage := b.storage.set i octet } else none

@[simp] theorem octets_fill (b : Buffer) (bs : List UInt8) : (b.fill bs).octets = bs := by
  simp [fill, octets]

@[simp] theorem frameSize_fill (b : Buffer) (bs : List UInt8) : (b.fill bs).frameSize = b.frameSize := rfl

@[simp] theorem octets_blank (b : Buffer) : b.blank.octets = List.replicate b.frameSize 0 := by
  simp [blank, octets, Storage.octets_resize]

end Buffer

structure Pool where
  capacity : Nat
  frameSize : Nat
  /-- Storage given back, the latest first. -/
  returned : List Storage := []
  /-- Buffers that were never lent. -/
  fresh : Nat
deriving DecidableEq, Repr

namespace Pool

def new (capacity frameSize : Nat) : Pool := { capacity, frameSize, fresh := capacity }

def available (p : Pool) : Nat := p.returned.length + p.fresh

/-- Buffers on loan. -/
def outstanding (p : Pool) : Nat := p.capacity - p.available

/-- Lends an empty buffer, unless all are on loan. -/
def take? (p : Pool) : Option (Buffer × Pool) :=
  match p.returned with
  | s :: rest => some (⟨s.clear, p.frameSize⟩, { p with returned := rest })
  | [] =>
    if 0 < p.fresh then some (⟨{}, p.frameSize⟩, { p with fresh := p.fresh - 1 }) else none

/-- Lends a buffer with a copy of a frame. -/
def takeWith? (p : Pool) (bs : List UInt8) : Option (Buffer × Pool) :=
  p.take?.map fun (b, p) => (b.fill bs, p)

/-- Takes a buffer back. -/
def put (p : Pool) (b : Buffer) : Pool := { p with returned := b.storage.clear :: p.returned }

/-- Takes buffers back in order. -/
def putAll (p : Pool) (bs : List Buffer) : Pool := bs.foldl put p

end Pool
end MulticastRelay
