import MulticastRelay.Proofs.Adapter.Keeping
import MulticastRelay.Proofs.Adapter.Buffers

/-! # Two lanes, one line

A frame queue keeps its frames in two lanes under one bound. To whoever asks it is one line in which
control traffic stands ahead of the rest and each class keeps the order in which it was pushed. The
line is the specification: it holds the frames as they were pushed and knows no lanes.
-/
namespace MulticastRelay.FrameQueue

/-- What may be asked of a queue. -/
inductive Request where
  | push (b : Buffer) (priority : Bool)
  | pop
  | clear
  | setDepth (depth : QueueDepth)

namespace Request

/-- The bound stands. -/
def keepsDepth : Request → Bool
  | .setDepth _ => false
  | _ => true

end Request

inductive Answer where
  | taken
  | rejected (why : Rejected)
  | popped (b : Option Buffer)
  /-- The frames that were dropped. -/
  | dropped (bs : List Buffer)
deriving DecidableEq

/-- One request, with its answer. -/
def answer (q : FrameQueue) : Request → Answer × FrameQueue
  | .push b priority =>
    match q.push b priority with
    | .ok r => (.taken, r)
    | .error why => (.rejected why, q)
  | .pop =>
    match q.pop? with
    | some (b, r) => (.popped (some b), r)
    | none => (.popped none, q)
  | .clear => (.dropped q.clear.1, q.clear.2)
  | .setDepth depth => (.dropped (q.setDepth depth).1, (q.setDepth depth).2)

/-- Requests in turn, with their answers. -/
def run (q : FrameQueue) : List Request → List Answer × FrameQueue
  | [] => ([], q)
  | r :: rs => ((q.answer r).1 :: ((q.answer r).2.run rs).1, ((q.answer r).2.run rs).2)

/-! ## The line -/

/-- The frames that wait, in the order in which they were pushed; true marks control traffic. -/
structure Line where
  depth : QueueDepth
  pushed : List (Buffer × Bool) := []

namespace Line

/-- The frames of one class. -/
def ofClass (l : Line) (priority : Bool) : List Buffer :=
  (l.pushed.filter (·.2 == priority)).map Prod.fst

/-- The frames as they leave: control traffic, then the rest. -/
def frames (l : Line) : List Buffer := l.ofClass true ++ l.ofClass false

/-- Nobody else may join. -/
def IsFull (l : Line) : Prop :=
  match l.depth with
  | .disabled => True
  | .unbounded => False
  | .bounded n => n ≤ l.pushed.length

instance (l : Line) : Decidable l.IsFull := by
  unfold IsFull
  split <;> infer_instance

/-- The first frame of the class that leaves next is gone. -/
def advance (l : Line) : Line :=
  { l with pushed := l.pushed.eraseP (·.2 == l.pushed.any (·.2)) }

def answer (l : Line) : Request → Answer × Line
  | .push b priority =>
    if l.depth = .disabled then (.rejected .disabled, l)
    else if l.IsFull then (.rejected .full, l)
    else (.taken, { l with pushed := l.pushed ++ [(b, priority)] })
  | .pop => (.popped l.frames.head?, l.advance)
  | .clear => (.dropped l.frames, { l with pushed := [] })
  | .setDepth .disabled => (.dropped l.frames, { depth := .disabled })
  | .setDepth depth => (.dropped [], { l with depth })

def run (l : Line) : List Request → List Answer × Line
  | [] => ([], l)
  | r :: rs => ((l.answer r).1 :: ((l.answer r).2.run rs).1, ((l.answer r).2.run rs).2)

variable {l : Line}

theorem ofClass_append (l : Line) (x : Buffer × Bool) (p : Bool) :
    ({ l with pushed := l.pushed ++ [x] } : Line).ofClass p =
      l.ofClass p ++ if x.2 = p then [x.1] else [] := by
  by_cases hx : x.2 = p <;> simp [ofClass, hx]

theorem length_frames (l : Line) : l.frames.length = l.pushed.length := by
  have hnot : l.pushed.countP (·.2 == false) = l.pushed.countP fun x => decide ¬(x.2 == true) := by
    apply List.countP_congr
    intro x _
    cases x.2 <;> simp
  rw [l.pushed.length_eq_countP_add_countP (·.2 == true), ← hnot]
  simp only [frames, ofClass, List.length_append, List.length_map, List.countP_eq_length_filter]

/-- There is control traffic exactly when the line says so. -/
theorem any_iff (l : Line) : l.pushed.any (·.2) = true ↔ l.ofClass true ≠ [] := by
  simp [ofClass]

/-- Who steps out is the first of its class. -/
theorem filter_eraseP_self {α : Type} (p : α → Bool) (xs : List α) :
    (xs.eraseP p).filter p = (xs.filter p).tail := by
  induction xs with
  | nil => rfl
  | cons x xs ih =>
    by_cases hx : p x = true
    · simp [hx]
    · simp [hx, ih]

/-- Nobody of another class steps out. -/
theorem filter_eraseP_other {α : Type} {p r : α → Bool} (h : ∀ x, p x = true → r x = false)
    (xs : List α) : (xs.eraseP p).filter r = xs.filter r := by
  induction xs with
  | nil => rfl
  | cons x xs ih =>
    by_cases hx : p x = true
    · simp [hx, h x hx]
    · simp [hx, List.filter_cons, ih]

theorem ofClass_advance_self (l : Line) :
    l.advance.ofClass (l.pushed.any (·.2)) = (l.ofClass (l.pushed.any (·.2))).tail := by
  simp only [ofClass, advance, filter_eraseP_self, List.map_tail]

theorem ofClass_advance_other (l : Line) :
    l.advance.ofClass (!l.pushed.any (·.2)) = l.ofClass (!l.pushed.any (·.2)) := by
  have hother : ∀ x : Buffer × Bool, (x.2 == l.pushed.any (·.2)) = true →
      (x.2 == !l.pushed.any (·.2)) = false := by
    intro x hx
    rw [eq_of_beq hx]
    cases l.pushed.any (·.2) <;> rfl
  simp only [ofClass, advance, filter_eraseP_other hother]

/-- With control traffic in line, its first frame steps out. -/
theorem advance_control {b : Buffer} {rest : List Buffer} (h : l.ofClass true = b :: rest) :
    l.advance.ofClass true = rest ∧ l.advance.ofClass false = l.ofClass false := by
  have hany : l.pushed.any (·.2) = true := l.any_iff.2 (by simp [h])
  have hself := l.ofClass_advance_self
  have hother := l.ofClass_advance_other
  rw [hany, h] at hself
  rw [hany] at hother
  exact ⟨hself, hother⟩

/-- With none in line, the first of the rest steps out. -/
theorem advance_ordinary (h : l.ofClass true = []) :
    l.advance.ofClass true = [] ∧ l.advance.ofClass false = (l.ofClass false).tail := by
  have hany : l.pushed.any (·.2) = false := by
    rw [Bool.eq_false_iff]
    exact fun hc => l.any_iff.1 hc h
  have hself := l.ofClass_advance_self
  have hother := l.ofClass_advance_other
  rw [hany] at hself
  rw [hany] at hother
  exact ⟨hother.trans h, hself⟩

end Line

/-! ## One request -/

variable {q r : FrameQueue} {l : Line}

/-- The lanes of the queue are the classes of the line. -/
structure Shows (q : FrameQueue) (l : Line) : Prop where
  depth : q.depth = l.depth
  priority : q.priority = l.ofClass true
  ordinary : q.ordinary = l.ofClass false

namespace Shows

theorem toList (h : Shows q l) : q.toList = l.frames := by
  rw [FrameQueue.toList, h.priority, h.ordinary]
  rfl

theorem length (h : Shows q l) : q.length = l.pushed.length := by
  rw [← l.length_frames, ← h.toList, FrameQueue.toList, List.length_append]
  rfl

theorem isFull_iff (h : Shows q l) : q.isFull = true ↔ l.IsFull := by
  rw [isFull, Line.IsFull, h.depth, h.length]
  cases l.depth <;> simp

theorem front? (h : Shows q l) : q.front? = l.frames.head? := by
  rw [← h.toList, FrameQueue.front?, FrameQueue.toList]
  cases q.priority with
  | nil => rfl
  | cons b bs => rfl

theorem push (h : Shows q l) (b : Buffer) (priority : Bool) :
    (q.answer (.push b priority)).1 = (l.answer (.push b priority)).1 ∧
      Shows (q.answer (.push b priority)).2 (l.answer (.push b priority)).2 := by
  rcases q.push_cases b priority with ⟨hd, hp⟩ | ⟨hd, hf, hp⟩ | ⟨hd, hf, r, hp, hr⟩
  · have hl : l.depth = .disabled := by
      rw [h.depth] at hd
      cases hc : l.depth <;> simp [hc, QueueDepth.isEnabled] at hd ⊢
    simp only [answer, hp, Line.answer, if_pos hl]
    exact ⟨trivial, h⟩
  · have hl : l.depth ≠ .disabled := by
      rintro hc
      simp [h.depth, hc, QueueDepth.isEnabled] at hd
    simp only [answer, hp, Line.answer, if_neg hl, if_pos (h.isFull_iff.1 hf)]
    exact ⟨trivial, h⟩
  · have hl : l.depth ≠ .disabled := by
      rintro hc
      simp [h.depth, hc, QueueDepth.isEnabled] at hd
    have hroom : ¬l.IsFull := by
      rw [← h.isFull_iff, hf]
      exact Bool.false_ne_true
    obtain ⟨hpr, hor⟩ := push_lanes hp
    simp only [answer, hp, Line.answer, if_neg hl, if_neg hroom]
    refine ⟨trivial, hr.trans h.depth, ?_, ?_⟩
    · rw [Line.ofClass_append, hpr, h.priority]
      cases priority <;> simp
    · rw [Line.ofClass_append, hor, h.ordinary]
      cases priority <;> simp

theorem pop (h : Shows q l) :
    (q.answer .pop).1 = (l.answer .pop).1 ∧ Shows (q.answer .pop).2 (l.answer .pop).2 := by
  have hfront := h.front?
  obtain ⟨depth, priority, ordinary⟩ := q
  cases priority with
  | cons b rest =>
    obtain ⟨hself, hother⟩ := Line.advance_control h.priority.symm
    exact ⟨congrArg Answer.popped hfront, h.depth, hself.symm, h.ordinary.trans hother.symm⟩
  | nil =>
    obtain ⟨hself, hother⟩ := Line.advance_ordinary h.priority.symm
    rw [← h.ordinary] at hother
    cases ordinary with
    | cons b rest => exact ⟨congrArg Answer.popped hfront, h.depth, hself.symm, hother.symm⟩
    | nil => exact ⟨congrArg Answer.popped hfront, h.depth, hself.symm, hother.symm⟩

theorem clear (h : Shows q l) :
    (q.answer .clear).1 = (l.answer .clear).1 ∧ Shows (q.answer .clear).2 (l.answer .clear).2 := by
  refine ⟨congrArg Answer.dropped h.toList, h.depth, rfl, rfl⟩

theorem setDepth (h : Shows q l) (depth : QueueDepth) :
    (q.answer (.setDepth depth)).1 = (l.answer (.setDepth depth)).1 ∧
      Shows (q.answer (.setDepth depth)).2 (l.answer (.setDepth depth)).2 := by
  cases depth with
  | disabled => exact ⟨congrArg Answer.dropped h.toList, rfl, rfl, rfl⟩
  | unbounded => exact ⟨rfl, rfl, h.priority, h.ordinary⟩
  | bounded n => exact ⟨rfl, rfl, h.priority, h.ordinary⟩

/-- Queue and line answer alike, and go on alike. -/
theorem answer (h : Shows q l) (r : Request) :
    (q.answer r).1 = (l.answer r).1 ∧ Shows (q.answer r).2 (l.answer r).2 := by
  cases r with
  | push b priority => exact h.push b priority
  | pop => exact h.pop
  | clear => exact h.clear
  | setDepth depth => exact h.setDepth depth

theorem run (h : Shows q l) (rs : List Request) :
    (q.run rs).1 = (l.run rs).1 ∧ Shows (q.run rs).2 (l.run rs).2 := by
  induction rs generalizing q l with
  | nil => exact ⟨rfl, h⟩
  | cons r rs ih =>
    obtain ⟨hanswer, hnext⟩ := h.answer r
    obtain ⟨hrest, hend⟩ := ih hnext
    refine ⟨?_, hend⟩
    rw [run, Line.run, hanswer, hrest]

end Shows

theorem new_shows (depth : QueueDepth) : Shows (new depth) { depth } := ⟨rfl, rfl, rfl⟩

/-- The head leaves, and nothing else changes. -/
theorem pop_toList {b : Buffer} (h : q.pop? = some (b, r)) : q.toList = b :: r.toList := by
  obtain ⟨depth, priority, ordinary⟩ := q
  cases priority with
  | cons c rest =>
    cases h
    rfl
  | nil =>
    cases ordinary with
    | cons c rest =>
      cases h
      rfl
    | nil => cases h

/-! ## Under a bound -/

variable {n : Nat}

/-- Under a bound a request lets the queue grow only below it, and by one frame. -/
theorem answer_bounded (hd : q.depth = .bounded n) {request : Request}
    (hk : request.keepsDepth = true) :
    (q.answer request).2.depth = .bounded n ∧
      ((q.answer request).2.length ≤ q.length ∨
        q.length < n ∧ (q.answer request).2.length = q.length + 1) := by
  cases request with
  | push b priority =>
    rcases q.push_cases b priority with ⟨-, hp⟩ | ⟨-, -, hp⟩ | ⟨-, hf, r, hp, hr⟩
    · simp only [answer, hp]
      exact ⟨hd, .inl (Nat.le_refl _)⟩
    · simp only [answer, hp]
      exact ⟨hd, .inl (Nat.le_refl _)⟩
    · simp only [answer, hp]
      refine ⟨hr.trans hd, .inr ⟨?_, push_length hp⟩⟩
      simp only [isFull, hd, decide_eq_false_iff_not] at hf
      omega
  | pop =>
    cases hp : q.pop? with
    | none =>
      simp only [answer, hp]
      exact ⟨hd, .inl (Nat.le_refl _)⟩
    | some popped =>
      simp only [answer, hp]
      have hl := pop_length hp
      exact ⟨(pop_depth hp).trans hd, .inl (by omega)⟩
  | clear => exact ⟨hd, .inl (Nat.zero_le _)⟩
  | setDepth depth => cases hk

theorem run_bounded {later : List Request} (hd : q.depth = .bounded n)
    (hk : ∀ request ∈ later, request.keepsDepth = true) :
    (q.run later).2.depth = .bounded n ∧ (q.run later).2.length ≤ max n q.length := by
  induction later generalizing q with
  | nil => exact ⟨hd, Nat.le_max_right _ _⟩
  | cons request later ih =>
    obtain ⟨hnext, hstep⟩ := answer_bounded hd (hk request List.mem_cons_self)
    obtain ⟨hend, hle⟩ := ih hnext fun r hr => hk r (List.mem_cons_of_mem _ hr)
    refine ⟨hend, ?_⟩
    simp only [run]
    omega

/-! ## Runs -/

/-- What can be seen of the queue is the line. -/
structure Mirrors (q : FrameQueue) (l : Line) : Prop where
  depth : q.depth = l.depth
  frames : q.toList = l.frames
  length : q.length = l.frames.length
  empty : q.isEmpty = true ↔ l.frames = []
  full : q.isFull = true ↔ l.IsFull
  front : q.front? = l.frames.head?
  /-- What is popped is what was shown, and the rest stays as it was. -/
  pop : ∀ b r, q.pop? = some (b, r) → q.front? = some b ∧ q.toList = b :: r.toList ∧ r.depth = q.depth

theorem Shows.mirrors (h : Shows q l) : Mirrors q l where
  depth := h.depth
  frames := h.toList
  length := h.length.trans l.length_frames.symm
  empty := by
    rw [← h.toList, isEmpty, FrameQueue.toList]
    simp
  full := h.isFull_iff
  front := h.front?
  pop b r hp := by
    have hl := pop_toList hp
    refine ⟨?_, hl, pop_depth hp⟩
    rw [h.front?, ← h.toList, hl]
    rfl

/-- The queue after requests, from a new one of this depth. -/
def after (depth : QueueDepth) (rs : List Request) : FrameQueue := ((new depth).run rs).2

/-- After any requests the queue has answered as the line does, and shows what the line holds. Once a
bound is set, and until the depth is set again, the queue stays within the bound or the length that it
had then, and never grows while it is at the bound or over. -/
theorem queue_is_one_line (depth : QueueDepth) (rs : List Request) :
    ((new depth).run rs).1 = (Line.run { depth } rs).1 ∧
      Mirrors (after depth rs) (Line.run { depth } rs).2 ∧
      ∀ n, (after depth rs).depth = .bounded n →
        ∀ later : List Request, (∀ request ∈ later, request.keepsDepth = true) →
          ((after depth rs).run later).2.length ≤ max n (after depth rs).length ∧
          ∀ request : Request, request.keepsDepth = true →
            n ≤ ((after depth rs).run later).2.length →
              (((after depth rs).run later).2.answer request).2.length ≤
                ((after depth rs).run later).2.length := by
  obtain ⟨hanswers, hshows⟩ := (new_shows depth).run rs
  refine ⟨hanswers, hshows.mirrors, ?_⟩
  intro n hd later hk
  obtain ⟨hend, hle⟩ := run_bounded hd hk
  refine ⟨hle, ?_⟩
  intro request hr hfull
  obtain ⟨-, hstep⟩ := answer_bounded hend hr
  omega

/-! ## A bound lowered below the length -/

/-- A buffer that holds one octet. -/
def single (octet : UInt8) : Buffer := ⟨⟨[octet], 1⟩, 64⟩

/-- Three frames wait, control traffic came last, and then the bound is one. -/
def crowded : List Request :=
  [.push (single 1) false, .push (single 2) false, .push (single 9) true, .setDepth (.bounded 1)]

/-- Control traffic leaves first, and nobody joins while two frames are left. -/
theorem crowded_keeps_line :
    let later : List Request := [.push (single 3) true, .pop, .push (single 3) false]
    (after .unbounded crowded).depth = .bounded 1 ∧
      (Line.run { depth := .unbounded } crowded).2.frames = [single 9, single 1, single 2] ∧
      (after .unbounded crowded).toList = [single 9, single 1, single 2] ∧
      ((after .unbounded crowded).run later).1 =
        [.rejected .full, .popped (some (single 9)), .rejected .full] ∧
      ((after .unbounded crowded).run later).2.length ≤ 3 ∧
      (((after .unbounded crowded).run later).2.answer (.push (single 3) true)).2.length ≤
        ((after .unbounded crowded).run later).2.length := by
  intro later
  have hd : (after .unbounded crowded).depth = .bounded 1 := by decide
  have hframes : (Line.run { depth := .unbounded } crowded).2.frames =
      [single 9, single 1, single 2] := by decide
  have hk : ∀ request ∈ later, request.keepsDepth = true := by decide
  obtain ⟨-, hmirrors, hbound⟩ := queue_is_one_line .unbounded crowded
  obtain ⟨hle, hstill⟩ := hbound 1 hd later hk
  exact ⟨hd, hframes, hmirrors.frames.trans hframes, by decide, hle,
    hstill _ rfl (by decide)⟩

end MulticastRelay.FrameQueue
