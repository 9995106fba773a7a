import MulticastRelay.Proofs.Channel.Takers

/-! # Ledgers

A ledger beside a run of an adapter says what became of every frame it took: accepted by a send,
waiting in the queue, or discarded. It keeps for each element the frames that the element took since
it was attached, and changes nothing about the run.
-/
namespace MulticastRelay

/-- A frame taken, numbered in the order of taking. -/
structure Taken where
  ticket : Nat
  frame : Frame
  priority : Bool
deriving DecidableEq, Repr

/-- The channels as they were at a send, and the source address it used. -/
structure Carrier where
  channels : Composite
  source : Option LinkAddress
deriving DecidableEq, Repr

namespace Carrier

def send (c : Carrier) (f : Frame) : SendOutcome × Composite := c.channels.send f c.source

def takers (c : Carrier) (f : Frame) : List Nat := c.channels.takers f c.source

end Carrier

structure Acceptance where
  item : Taken
  carrier : Carrier
deriving DecidableEq, Repr

/-- The send went out; in turns, or alone, exactly one element took the frame. -/
structure Acceptance.Sound (x : Acceptance) : Prop where
  succeeded : (x.carrier.send x.item.frame).1 = .accepted
  somebody : x.carrier.takers x.item.frame ≠ []
  alone : x.carrier.channels.TakesOnce → ∃ i, x.carrier.takers x.item.frame = [i]

/-- What an element sent before it was attached, and the frames it took since. -/
structure Record where
  before : List Frame
  took : List (Taken × Option LinkAddress) := []
deriving DecidableEq, Repr

namespace Record

def log (r : Record) : List Frame :=
  r.before ++ r.took.map fun (t, source) => t.frame.leavingAs source

def add (r : Record) (t : Taken) (source : Option LinkAddress) : Record :=
  { r with took := r.took ++ [(t, source)] }

end Record

inductive Happening where
  | attached (before : List Frame)
  | detached (position : Nat)
  | carried (f : Frame) (priority : Bool) (carrier : Carrier)
  | queued (f : Frame) (priority : Bool)
  /-- The frame at the head of the queue went out. -/
  | served (carrier : Carrier)
  | emptied
deriving DecidableEq, Repr

structure Ledger where
  taken : List Taken := []
  accepted : List Acceptance := []
  priority : List Taken := []
  ordinary : List Taken := []
  discarded : List Taken := []
  records : List Record := []
deriving DecidableEq, Repr

namespace Ledger

/-- The frames that wait, the next to leave first. -/
def waiting (l : Ledger) : List Taken := l.priority ++ l.ordinary

/-- The frames accepted, in order. -/
def delivered (l : Ledger) : List Taken := l.accepted.map Acceptance.item

def nextTaken (l : Ledger) (f : Frame) (priority : Bool) : Taken := ⟨l.taken.length, f, priority⟩

def accept (l : Ledger) (t : Taken) (c : Carrier) : Ledger :=
  { l with
    accepted := l.accepted ++ [⟨t, c⟩]
    records := l.records.mapIdx fun i r => if i ∈ c.takers t.frame then r.add t c.source else r }

def note (l : Ledger) : Happening → Ledger
  | .attached before => { l with records := l.records ++ [{ before }] }
  | .detached position => { l with records := l.records.eraseIdx position }
  | .carried f priority c =>
    { l with taken := l.taken ++ [l.nextTaken f priority] }.accept (l.nextTaken f priority) c
  | .queued f priority =>
    let t := l.nextTaken f priority
    { l with
      taken := l.taken ++ [t]
      priority := if priority then l.priority ++ [t] else l.priority
      ordinary := if priority then l.ordinary else l.ordinary ++ [t] }
  | .served c =>
    match l.priority, l.ordinary with
    | t :: rest, _ => { l with priority := rest }.accept t c
    | [], t :: rest => { l with ordinary := rest }.accept t c
    | [], [] => l
  | .emptied => { l with priority := [], ordinary := [], discarded := l.discarded ++ l.waiting }

def noteAll (l : Ledger) (hs : List Happening) : Ledger := hs.foldl note l

/-- A ledger that accounts for every frame, given the lanes of the queue and what the elements sent.
-/
structure Accounts (l : Ledger) (priority ordinary : List Frame) (logs : List (List Frame)) :
    Prop where
  numbered : l.taken.map Taken.ticket = List.range l.taken.length
  /-- Every frame taken was accepted, waits or was discarded, and only one of these, once. -/
  once : (l.delivered ++ l.waiting ++ l.discarded).Perm l.taken
  priority_lane : l.priority.map Taken.frame = priority
  ordinary_lane : l.ordinary.map Taken.frame = ordinary
  priority_class : ∀ t ∈ l.priority, t.priority = true
  ordinary_class : ∀ t ∈ l.ordinary, t.priority = false
  /-- Within a class, what left first was taken first, and what waits was taken later. -/
  in_order : ∀ p, ((l.delivered ++ l.waiting).filter (·.priority == p)).Pairwise
    fun s t => s.ticket < t.ticket
  acceptances : ∀ x ∈ l.accepted, x.Sound
  /-- What an element sent since it was attached are frames taken, each at most once. -/
  element_logs : l.records.map Record.log = logs
  element_accepted : ∀ r ∈ l.records, ∀ x ∈ r.took, ∃ y ∈ l.accepted,
    y.item = x.1 ∧ y.carrier.source = x.2
  element_once : ∀ r ∈ l.records, (r.took.map (·.1.ticket)).Nodup

variable {l : Ledger} {P O : List Frame} {logs : List (List Frame)}

theorem accounts_empty : Accounts {} [] [] [] := by
  constructor <;> simp [delivered, waiting]

namespace Accounts

theorem ticket_lt (h : l.Accounts P O logs) {t : Taken} (ht : t ∈ l.taken) :
    t.ticket < l.taken.length := by
  have : t.ticket ∈ l.taken.map Taken.ticket := List.mem_map_of_mem ht
  rwa [h.numbered, List.mem_range] at this

theorem tickets_nodup (h : l.Accounts P O logs) :
    ((l.delivered ++ l.waiting ++ l.discarded).map Taken.ticket).Nodup := by
  rw [(h.once.map Taken.ticket).nodup_iff, h.numbered]
  exact List.nodup_range

theorem mem_taken (h : l.Accounts P O logs) {t : Taken} (ht : t ∈ l.delivered ++ l.waiting) :
    t ∈ l.taken :=
  h.once.mem_iff.1 (List.mem_append_left _ ht)

/-! ## Elements come and go -/

theorem attached (h : l.Accounts P O logs) (before : List Frame) :
    (l.note (.attached before)).Accounts P O (logs ++ [before]) where
  numbered := h.numbered
  once := h.once
  priority_lane := h.priority_lane
  ordinary_lane := h.ordinary_lane
  priority_class := h.priority_class
  ordinary_class := h.ordinary_class
  in_order := h.in_order
  acceptances := h.acceptances
  element_logs := by simp [note, Record.log, ← h.element_logs]
  element_accepted := by
    intro r hr x hx
    rcases List.mem_append.1 hr with hr | hr
    · exact h.element_accepted r hr x hx
    · rw [List.mem_singleton.1 hr] at hx
      cases hx
  element_once := by
    intro r hr
    rcases List.mem_append.1 hr with hr | hr
    · exact h.element_once r hr
    · rw [List.mem_singleton.1 hr]
      exact List.nodup_nil

theorem detached (h : l.Accounts P O logs) (i : Nat) :
    (l.note (.detached i)).Accounts P O (logs.eraseIdx i) where
  numbered := h.numbered
  once := h.once
  priority_lane := h.priority_lane
  ordinary_lane := h.ordinary_lane
  priority_class := h.priority_class
  ordinary_class := h.ordinary_class
  in_order := h.in_order
  acceptances := h.acceptances
  element_logs := by
    simp [note, ← h.element_logs, List.eraseIdx_eq_take_drop_succ, List.map_take, List.map_drop]
  element_accepted := fun r hr => h.element_accepted r (List.mem_of_mem_eraseIdx hr)
  element_once := fun r hr => h.element_once r (List.mem_of_mem_eraseIdx hr)

/-! ## Frames come and go -/

theorem nextTaken_last (h : l.Accounts P O logs) (f : Frame) (p c : Bool) :
    ((l.delivered ++ l.waiting).filter (·.priority == c) ++ [l.nextTaken f p]).Pairwise
      fun s t => s.ticket < t.ticket := by
  rw [List.pairwise_append]
  refine ⟨h.in_order c, List.pairwise_singleton _ _, fun s hs t ht => ?_⟩
  rw [List.mem_singleton.1 ht]
  exact h.ticket_lt (h.mem_taken (List.mem_filter.1 hs).1)

/-- A frame newly taken is the last of its class, and the other class stays. -/
theorem queued_order (h : l.Accounts P O logs) (f : Frame) (p c : Bool) :
    ((l.note (.queued f p)).delivered ++ (l.note (.queued f p)).waiting).filter (·.priority == c) =
      (l.delivered ++ l.waiting).filter (·.priority == c) ++
        if p = c then [l.nextTaken f p] else [] := by
  have hord : l.ordinary.filter (·.priority) = [] :=
    List.filter_eq_nil_iff.2 fun t ht => by simp [h.ordinary_class t ht]
  cases p <;> cases c <;> simp [note, delivered, waiting, nextTaken, hord]

theorem queued (h : l.Accounts P O logs) (f : Frame) (p : Bool) :
    (l.note (.queued f p)).Accounts (if p then P ++ [f] else P)
    (if p then O else O ++ [f]) logs where
  numbered := by simp [note, nextTaken, h.numbered, List.range_succ]
  once := by
    have hp : (l.delivered ++ (l.note (.queued f p)).waiting ++ l.discarded).Perm
        (l.delivered ++ l.waiting ++ l.discarded ++ [l.nextTaken f p]) := by
      cases p <;> simp [note, waiting] <;> grind
    exact hp.trans (h.once.append_right _)
  priority_lane := by cases p <;> simp [note, nextTaken, h.priority_lane]
  ordinary_lane := by cases p <;> simp [note, nextTaken, h.ordinary_lane]
  priority_class := by
    intro t ht
    cases p with
    | true =>
      rcases List.mem_append.1 ht with ht | ht
      · exact h.priority_class t ht
      · rw [List.mem_singleton.1 ht]
        rfl
    | false => exact h.priority_class t ht
  ordinary_class := by
    intro t ht
    cases p with
    | true => exact h.ordinary_class t ht
    | false =>
      rcases List.mem_append.1 ht with ht | ht
      · exact h.ordinary_class t ht
      · rw [List.mem_singleton.1 ht]
        rfl
  in_order := by
    intro c
    rw [h.queued_order f p c]
    by_cases hc : p = c
    · rw [if_pos hc]
      exact h.nextTaken_last f p c
    · rw [if_neg hc, List.append_nil]
      exact h.in_order c
  acceptances := h.acceptances
  element_logs := h.element_logs
  element_accepted := h.element_accepted
  element_once := h.element_once

/-- The frame that leaves next was not taken by any element before. -/
theorem head_fresh (h : l.Accounts P O logs) {t : Taken} {rest : List Taken}
    (hw : l.waiting = t :: rest) {r : Record} (hr : r ∈ l.records) :
    t.ticket ∉ r.took.map (·.1.ticket) := by
  intro ht
  obtain ⟨x, hx, hxt⟩ := List.mem_map.1 ht
  obtain ⟨y, hy, hyx, -⟩ := h.element_accepted r hr x hx
  have hd : t.ticket ∈ l.delivered.map Taken.ticket := by
    rw [← hxt, ← hyx]
    exact List.mem_map_of_mem (List.mem_map_of_mem hy)
  have hn := h.tickets_nodup
  rw [hw, List.append_assoc, List.map_append, List.nodup_append] at hn
  exact hn.2.2 _ hd t.ticket (by simp) rfl

theorem accept_record {c : Carrier} {t : Taken} {r : Record}
    (hr : r ∈ (l.accept t c).records) :
    ∃ s ∈ l.records, r = s ∨ r = s.add t c.source := by
  obtain ⟨i, hi, rfl⟩ := List.mem_mapIdx.1 hr
  refine ⟨l.records[i], List.getElem_mem hi, ?_⟩
  by_cases ht : i ∈ c.takers t.frame
  · exact .inr (if_pos ht)
  · exact .inl (if_neg ht)

theorem accept_logs {c : Carrier} (h : l.Accounts P O c.channels.logs) (t : Taken) :
    (l.accept t c).records.map Record.log = (c.send t.frame).2.logs := by
  apply List.ext_getElem?
  intro i
  have hg := (Composite.send_grows c.channels t.frame c.source).logs i
  rw [Carrier.send, hg, ← h.element_logs]
  cases hi : l.records[i]? with
  | none => simp [Ledger.accept, hi]
  | some r =>
    by_cases ht : i ∈ c.channels.takers t.frame c.source <;>
      simp [Ledger.accept, Carrier.takers, hi, ht, Record.log, Record.add]

/-- A frame that leaves the head of the line goes to the end of those accepted, and those who took
it log it. -/
theorem accept {c : Carrier} {t : Taken} {p o : List Taken} (h : l.Accounts P O c.channels.logs)
    (ho : (c.send t.frame).1 = .accepted) (hw : l.waiting = t :: (p ++ o))
    (hp : ∀ s ∈ p, s ∈ l.priority) (hr : ∀ s ∈ o, s ∈ l.ordinary) :
    ({ l with priority := p, ordinary := o }.accept t c).Accounts (p.map Taken.frame)
      (o.map Taken.frame) (c.send t.frame).2.logs := by
  have hline : ({ l with priority := p, ordinary := o }.accept t c).delivered ++ (p ++ o) =
      l.delivered ++ l.waiting := by
    rw [hw]
    simp [Ledger.accept, delivered]
  refine ⟨h.numbered, ?_, rfl, rfl, fun s hs => h.priority_class s (hp s hs),
    fun s hs => h.ordinary_class s (hr s hs), fun c => ?_, fun x hx => ?_, accept_logs h t,
    fun r hr x hx => ?_, fun r hr => ?_⟩
  · exact (congrArg (· ++ l.discarded) hline ▸ h.once :)
  · exact (hline ▸ h.in_order c :)
  · rcases List.mem_append.1 hx with hx | hx
    · exact h.acceptances x hx
    · rw [List.mem_singleton.1 hx]
      exact ⟨ho, Composite.send_accepted_iff.1 ho, fun hc => Composite.takers_alone hc ho⟩
  · have old : ∀ s ∈ l.records, x ∈ s.took → ∃ y ∈ l.accepted ++ [⟨t, c⟩],
        y.item = x.1 ∧ y.carrier.source = x.2 := by
      intro s hs hx
      obtain ⟨y, hy, he⟩ := h.element_accepted s hs x hx
      exact ⟨y, List.mem_append_left _ hy, he⟩
    obtain ⟨s, hs, rfl | rfl⟩ := accept_record hr
    · exact old _ hs hx
    · rcases List.mem_append.1 hx with hx | hx
      · exact old s hs hx
      · rw [List.mem_singleton.1 hx]
        exact ⟨⟨t, c⟩, List.mem_append_right _ (List.mem_singleton_self _), rfl, rfl⟩
  · obtain ⟨s, hs, rfl | rfl⟩ := accept_record hr
    · exact h.element_once _ hs
    · have hf := h.head_fresh hw hs
      rw [Record.add, List.map_append, List.nodup_append]
      refine ⟨h.element_once s hs, by simp, fun n hn m hm => ?_⟩
      rw [List.mem_singleton.1 hm]
      rintro rfl
      exact hf hn

theorem served_priority {c : Carrier} {f : Frame} (h : l.Accounts (f :: P) O c.channels.logs)
    (ho : (c.send f).1 = .accepted) : (l.note (.served c)).Accounts P O (c.send f).2.logs := by
  cases hl : l.priority with
  | nil => simpa [hl] using h.priority_lane
  | cons t rest =>
    have hp := h.priority_lane
    rw [hl] at hp
    obtain ⟨rfl, rfl⟩ := List.cons.inj hp
    have := h.accept (t := t) (p := rest) (o := l.ordinary) ho (by rw [waiting, hl]; rfl)
      (by rw [hl]; exact fun s => List.mem_cons_of_mem _) (fun s => id)
    rw [h.ordinary_lane] at this
    simpa [note, hl] using this

theorem served_ordinary {c : Carrier} {f : Frame} (h : l.Accounts [] (f :: O) c.channels.logs)
    (ho : (c.send f).1 = .accepted) : (l.note (.served c)).Accounts [] O (c.send f).2.logs := by
  have hn : l.priority = [] := by simpa using h.priority_lane
  cases hl : l.ordinary with
  | nil => simpa [hl] using h.ordinary_lane
  | cons t rest =>
    have hp := h.ordinary_lane
    rw [hl] at hp
    obtain ⟨rfl, rfl⟩ := List.cons.inj hp
    have := h.accept (t := t) (p := []) (o := rest) ho (by rw [waiting, hn, hl]; rfl)
      (fun s hs => by cases hs) (by rw [hl]; exact fun s => List.mem_cons_of_mem _)
    simpa [note, hn, hl] using this

/-- A frame that goes straight out passes through an empty queue. -/
theorem carried {c : Carrier} {f : Frame} (h : l.Accounts [] [] c.channels.logs)
    (ho : (c.send f).1 = .accepted) (p : Bool) :
    (l.note (.carried f p c)).Accounts [] [] (c.send f).2.logs := by
  have hp : l.priority = [] := by simpa using h.priority_lane
  have hr : l.ordinary = [] := by simpa using h.ordinary_lane
  have hq := h.queued f p
  have he : l.note (.carried f p c) = (l.note (.queued f p)).note (.served c) := by
    cases p <;> simp [note, Ledger.accept, hp, hr]
  rw [he]
  cases p with
  | true => exact hq.served_priority ho
  | false => exact hq.served_ordinary ho

theorem emptied (h : l.Accounts P O logs) : (l.note .emptied).Accounts [] [] logs where
  numbered := h.numbered
  once := by
    have hp : ((l.note .emptied).delivered ++ (l.note .emptied).waiting ++
        (l.note .emptied).discarded).Perm (l.delivered ++ l.waiting ++ l.discarded) := by
      simp only [note, waiting, delivered]
      grind
    exact hp.trans h.once
  priority_lane := rfl
  ordinary_lane := rfl
  priority_class := fun t ht => by cases ht
  ordinary_class := fun t ht => by cases ht
  in_order := by
    intro p
    refine (h.in_order p).sublist (List.Sublist.filter _ ?_)
    simp [note, waiting, delivered]
  acceptances := h.acceptances
  element_logs := h.element_logs
  element_accepted := h.element_accepted
  element_once := h.element_once

end Accounts
end Ledger
end MulticastRelay
