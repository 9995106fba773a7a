import Mathlib.Data.List.Find
import Mathlib.Data.List.Rotate
import MulticastRelay.Proofs.Channel.Takers

/-! # Rounds

A round asks the elements that are enabled for transmission, in cyclic order from the cursor, up to the
first that takes the frame. Where they take whatever comes, each is asked in its turn, and as many
rounds as there are enabled elements give one frame to each.
-/
namespace MulticastRelay

namespace Element

variable {e : Element}

/-- Whatever was sent before, the element takes the next frame. -/
def AlwaysTakes (e : Element) : Prop :=
  ∀ (past : List (Frame × Option LinkAddress)) (f : Frame) (source : Option LinkAddress),
    ((past.foldl (fun e job => (e.send job.1 job.2).2) e).send f source).1 = .accepted

theorem AlwaysTakes.send (h : e.AlwaysTakes) (f : Frame) (source : Option LinkAddress) :
    (e.send f source).1 = .accepted ∧ (e.send f source).2.AlwaysTakes :=
  ⟨h [] f source, fun past => h ((f, source) :: past)⟩

@[simp] theorem send_txEnabled (e : Element) (f : Frame) (source : Option LinkAddress) :
    (e.send f source).2.txEnabled = e.txEnabled := by
  unfold Element.send
  split <;> rfl

/-- A channel that is open and accepts by default takes whatever comes. -/
theorem alwaysTakes_of_open (ho : e.device.isClosed = false) (hs : e.device.script = [])
    (hd : e.device.otherwise = .accept) : e.AlwaysTakes := by
  intro past
  induction past generalizing e with
  | nil =>
    intro f source
    simp [Element.send, Device.offerAs_eq, Device.offer, ho, hs, hd]
  | cons job past ih =>
    rw [List.foldl_cons]
    apply ih <;> simp [Element.send, Device.offerAs_eq, Device.offer, ho, hs, hd]

end Element

namespace RoundRobin

open Mirror (takesAt)

variable {cursor i : Nat} {is cs xs ys : List Nat} {es : List Element} {f : Frame}
  {source : Option LinkAddress}

/-! ## Who is asked -/

def enabledAt (es : List Element) (i : Nat) : Bool := es[i]?.any (·.txEnabled)

def blocksAt (es : List Element) (f : Frame) (source : Option LinkAddress) (i : Nat) : Bool :=
  es[i]?.any fun e => (e.send f source).1 == .blocked

/-- A round starts at the cursor, or at the first element if the cursor is past the last. -/
def start (cursor len : Nat) : Nat := if cursor < len then cursor else 0

/-- The positions enabled for transmission, in cyclic order from the start. -/
def candidates (cursor : Nat) (es : List Element) : List Nat :=
  ((List.range es.length).rotate (start cursor es.length)).filter (enabledAt es)

/-- A list up to the first position that passes a test, which is still part of it. -/
def upTo (p : Nat → Bool) : List Nat → List Nat
  | [] => []
  | i :: is => if p i then [i] else i :: upTo p is

/-- The positions asked in a round. -/
def asked (cursor : Nat) (es : List Element) (f : Frame) (source : Option LinkAddress) : List Nat :=
  upTo (takesAt es f source) (candidates cursor es)

theorem upTo_sublist (p : Nat → Bool) (is : List Nat) : (upTo p is).Sublist is := by
  induction is with
  | nil => exact List.Sublist.refl _
  | cons i is ih =>
    unfold upTo
    split
    · exact (List.nil_sublist is).cons_cons i
    · exact ih.cons_cons i

theorem upTo_congr {p q : Nat → Bool} (h : ∀ i ∈ is, p i = q i) : upTo p is = upTo q is := by
  induction is with
  | nil => rfl
  | cons i is ih =>
    unfold upTo
    rw [h i List.mem_cons_self, ih fun j hj => h j (List.mem_cons_of_mem _ hj)]

theorem find?_of_mem_upTo {p : Nat → Bool} (hi : i ∈ upTo p is) (hp : p i = true) :
    is.find? p = some i := by
  induction is with
  | nil => cases hi
  | cons j is ih =>
    unfold upTo at hi
    split at hi
    · rename_i hj
      cases List.mem_singleton.1 hi
      exact List.find?_cons_of_pos hj
    · rename_i hj
      rcases List.mem_cons.1 hi with rfl | hi
      · exact absurd hp hj
      · rw [List.find?_cons_of_neg hj, ih hi]

theorem getLast?_upTo {p : Nat → Bool} (h : is.find? p = some i) :
    (upTo p is).getLast? = some i := by
  induction is with
  | nil => cases h
  | cons j is ih =>
    unfold upTo
    split
    · rename_i hj
      rw [List.find?_cons_of_pos hj] at h
      exact h
    · rename_i hj
      rw [List.find?_cons_of_neg hj] at h
      rw [List.getLast?_cons, ih h]
      rfl

/-- Where no position passes, the whole list stays. -/
theorem upTo_of_find? {p : Nat → Bool} (h : is.find? p = none) : upTo p is = is := by
  induction is with
  | nil => rfl
  | cons j is ih =>
    have hj : ¬p j = true := List.find?_eq_none.1 h j List.mem_cons_self
    rw [upTo, if_neg hj, ih ((List.find?_cons_of_neg hj).symm.trans h)]

theorem length_of_getElem? {es after : List Element} {g : Nat → Element → Element}
    (h : ∀ j, after[j]? = es[j]?.map (g j)) : after.length = es.length := by
  have hle : ∀ j, after.length ≤ j ↔ es.length ≤ j := fun j => by
    rw [← List.getElem?_eq_none_iff, ← List.getElem?_eq_none_iff, h, Option.map_eq_none_iff]
  exact Nat.le_antisymm ((hle _).2 (Nat.le_refl _)) ((hle _).1 (Nat.le_refl _))

theorem enabledAt_of_takesAt (h : takesAt es f source i = true) : enabledAt es i = true := by
  obtain ⟨e, he, ht⟩ := (Option.any_eq_true _ _).1 h
  exact (Option.any_eq_true _ _).2 ⟨e, he, (Bool.and_eq_true_iff.1 ht).1⟩

theorem start_eq (cursor len : Nat) : clamp cursor len = start cursor len := by
  unfold clamp start
  split <;> split <;> omega

theorem cycle_eq (s len : Nat) : cycle s len = (List.range len).rotate s := by
  apply List.ext_getElem (by simp [cycle])
  intro k h₁ h₂
  simp [cycle, List.getElem_rotate, Nat.add_comm]

theorem candidates_nodup (cursor : Nat) (es : List Element) : (candidates cursor es).Nodup :=
  (List.nodup_rotate.2 List.nodup_range).filter _

theorem mem_candidates : i ∈ candidates cursor es ↔ enabledAt es i = true := by
  unfold candidates
  rw [List.mem_filter, List.mem_rotate, List.mem_range]
  refine and_iff_right_of_imp fun h => ?_
  obtain ⟨e, he, -⟩ := (Option.any_eq_true _ _).1 h
  exact (List.getElem?_eq_some_iff.1 he).1

/-! ## One round -/

/-- How a walk ends that asks the positions of a list, each enabled, after some attempts of which one
may have found a full channel. -/
structure Walked (cs : List Nat) (attempts : Nat) (blocked : Bool) (es : List Element) (f : Frame)
    (source : Option LinkAddress) (r : RoundRobinReport × List Element) : Prop where
  taker : r.1.taker = cs.find? (takesAt es f source)
  outcome : r.1.outcome = if cs.any (takesAt es f source) then .accepted
    else if blocked || cs.any (blocksAt es f source) then .blocked else .failed
  attempts : r.1.attempts = attempts + (upTo (takesAt es f source) cs).length
  elements : ∀ j, r.2[j]? =
    es[j]?.map fun e => if j ∈ upTo (takesAt es f source) cs then (e.send f source).2 else e

theorem any_congr_of_mem {p q : Nat → Bool} (h : ∀ i ∈ is, p i = q i) : is.any p = is.any q := by
  rw [Bool.eq_iff_iff, List.any_eq_true, List.any_eq_true]
  exact exists_congr fun i => and_congr_right fun hi => by rw [h i hi]

theorem getElem?_set_sent {e : Element} (he : es[i]? = some e) (e' : Element) (j : Nat) :
    (es.set i e')[j]? = if j = i then some e' else es[j]? := by
  by_cases hj : j = i
  · subst hj
    simp [(List.getElem?_eq_some_iff.1 he).1]
  · simp [hj, List.getElem?_set_ne (Ne.symm hj)]

/-- An element that does not take the frame leaves the walk to the others. -/
theorem Walked.pass {e : Element} {attempts : Nat} {blocked later : Bool}
    {r : RoundRobinReport × List Element} (he : es[i]? = some e) (hi : i ∉ cs)
    (ht : takesAt es f source i = false) (hb : later = (blocked || blocksAt es f source i))
    (h : Walked cs (attempts + 1) later (es.set i (e.send f source).2) f source r) :
    Walked (i :: cs) attempts blocked es f source r := by
  have hne : ∀ j ∈ cs, (es.set i (e.send f source).2)[j]? = es[j]? := fun j hj => by
    rw [getElem?_set_sent he, if_neg fun heq : j = i => hi (heq ▸ hj)]
  have htakes : ∀ j ∈ cs, takesAt (es.set i (e.send f source).2) f source j =
      takesAt es f source j := fun j hj => by
    unfold takesAt
    rw [hne j hj]
  have hblocks : ∀ j ∈ cs, blocksAt (es.set i (e.send f source).2) f source j =
      blocksAt es f source j := fun j hj => by
    unfold blocksAt
    rw [hne j hj]
  have hup : upTo (takesAt es f source) (i :: cs) = i :: upTo (takesAt es f source) cs := by
    rw [upTo, if_neg (by simp [ht])]
  refine ⟨?_, ?_, ?_, fun j => ?_⟩
  · rw [h.taker, List.find?_cons_of_neg (by simp [ht]), List.find?_congr htakes]
  · rw [h.outcome, hb, any_congr_of_mem htakes, any_congr_of_mem hblocks, List.any_cons,
      List.any_cons, ht, Bool.false_or, Bool.or_assoc]
  · rw [h.attempts, upTo_congr htakes, hup, List.length_cons]
    omega
  · rw [h.elements, upTo_congr htakes, hup, getElem?_set_sent he]
    by_cases hj : j = i
    · subst hj
      have hj : j ∉ upTo (takesAt es f source) cs := fun hm => hi ((upTo_sublist _ cs).mem hm)
      simp [he, hj]
    · simp [hj]

/-- The element that takes the frame ends the walk. -/
theorem walked_of_takes {e : Element} (he : es[i]? = some e) (ht : takesAt es f source i = true)
    (cs : List Nat) (attempts : Nat) (blocked : Bool) :
    Walked (i :: cs) attempts blocked es f source
      (⟨.accepted, some i, attempts + 1⟩, es.set i (e.send f source).2) := by
  have hup : upTo (takesAt es f source) (i :: cs) = [i] := if_pos ht
  refine ⟨?_, ?_, ?_, fun j => ?_⟩
  · rw [List.find?_cons_of_pos ht]
  · rw [List.any_cons, ht, Bool.true_or, if_pos rfl]
  · rw [hup]
    rfl
  · rw [hup, getElem?_set_sent he]
    by_cases hj : j = i
    · subst hj
      simp [he]
    · simp [hj]

theorem offer_walked (hn : is.Nodup) (attempts : Nat) (blocked : Bool) (es : List Element) :
    Walked (is.filter (enabledAt es)) attempts blocked es f source
      (offer f source is attempts blocked es) := by
  induction is generalizing attempts blocked es with
  | nil => exact ⟨rfl, by simp [offer], rfl, fun j => by simp [offer, upTo]⟩
  | cons i is ih =>
    obtain ⟨hi, hn⟩ := List.nodup_cons.1 hn
    cases he : es[i]? with
    | none =>
      have hskip : enabledAt es i = false := by simp [enabledAt, he]
      rw [List.filter_cons_of_neg (by simp [hskip])]
      simp only [offer, he]
      exact ih hn attempts blocked es
    | some e =>
      by_cases ht : e.txEnabled = true
      · have hask : enabledAt es i = true := by simp [enabledAt, he, ht]
        have hmem : i ∉ is.filter (enabledAt es) := fun hm => hi (List.mem_filter.1 hm).1
        have htakes : takesAt es f source i = ((e.send f source).1 == .accepted) := by
          simp [takesAt, he, Element.takes, ht]
        have hblocks : blocksAt es f source i = ((e.send f source).1 == .blocked) := by
          simp [blocksAt, he]
        -- sending enables and disables no element
        have hsame : is.filter (enabledAt (es.set i (e.send f source).2)) =
            is.filter (enabledAt es) := List.filter_congr fun j hj => by
          unfold enabledAt
          rw [getElem?_set_sent he, if_neg fun heq : j = i => hi (heq ▸ hj)]
        rw [List.filter_cons_of_pos hask]
        simp only [offer, he, if_pos ht]
        cases ho : (e.send f source).1 with
        | accepted => exact walked_of_takes he (by simp [htakes, ho]) _ attempts blocked
        | blocked =>
          have hrest := ih hn (attempts + 1) true (es.set i (e.send f source).2)
          rw [hsame] at hrest
          exact hrest.pass he hmem (by simp [htakes, ho]) (by simp [hblocks, ho])
        | failed =>
          have hrest := ih hn (attempts + 1) blocked (es.set i (e.send f source).2)
          rw [hsame] at hrest
          exact hrest.pass he hmem (by simp [htakes, ho]) (by simp [hblocks, ho])
      · have hskip : enabledAt es i = false := by simp [enabledAt, he, ht]
        rw [List.filter_cons_of_neg (by simp [hskip])]
        simp only [offer, he, if_neg ht]
        exact ih hn attempts blocked es

theorem send_walked (cursor : Nat) (es : List Element) (f : Frame) (source : Option LinkAddress) :
    Walked (candidates cursor es) 0 false es f source
      ((send cursor es f source).1, (send cursor es f source).2.2) := by
  unfold candidates
  rw [← start_eq, ← cycle_eq]
  refine offer_walked ?_ 0 false es
  rw [cycle_eq]
  exact List.nodup_rotate.2 List.nodup_range

/-- A round succeeds exactly if some element takes the frame. -/
theorem send_accepted_iff (cursor : Nat) (es : List Element) :
    (send cursor es f source).1.outcome = .accepted ↔ ∃ i, takesAt es f source i = true := by
  rw [(send_walked cursor es f source).outcome]
  constructor
  · intro ho
    split at ho
    · rename_i hany
      obtain ⟨i, -, hi⟩ := List.any_eq_true.1 hany
      exact ⟨i, hi⟩
    · split at ho <;> cases ho
  · rintro ⟨i, hi⟩
    have hmem : i ∈ candidates cursor es := mem_candidates.2 (enabledAt_of_takesAt hi)
    exact if_pos (List.any_eq_true.2 ⟨i, hmem, hi⟩)

/-- A round as it should go. -/
structure Round (cursor : Nat) (es : List Element) (f : Frame) (source : Option LinkAddress)
    (r : RoundRobinReport × Nat × List Element) : Prop where
  once : (asked cursor es f source).Nodup
  attempts : r.1.attempts = (asked cursor es f source).length
  /-- An element that is asked is sent the frame, and no other changes. -/
  elements : ∀ j, r.2.2[j]? =
    es[j]?.map fun e => if j ∈ asked cursor es f source then (e.send f source).2 else e
  /-- The first element that takes the frame is the last to be asked. -/
  first : ∀ i ∈ asked cursor es f source, takesAt es f source i = true → r.1.taker = some i
  taken : ∀ i, r.1.taker = some i → (asked cursor es f source).getLast? = some i ∧
    takesAt es f source i = true ∧ r.1.outcome = .accepted ∧ r.2.1 = (i + 1) % es.length
  untaken : r.1.taker = none → asked cursor es f source = candidates cursor es ∧
    r.1.outcome = (if (asked cursor es f source).any (blocksAt es f source) then .blocked
      else .failed) ∧
    r.2.1 = start cursor es.length

/-- The cursor is left just past the element that took the frame. -/
theorem send_cursor_of_taken (h : (send cursor es f source).1.taker = some i) :
    (send cursor es f source).2.1 = (i + 1) % (send cursor es f source).2.2.length := by
  unfold send at h ⊢
  dsimp only at h ⊢
  rw [h]

theorem send_cursor_of_refused (h : (send cursor es f source).1.taker = none) :
    (send cursor es f source).2.1 = clamp cursor es.length := by
  unfold send at h ⊢
  dsimp only at h ⊢
  rw [h]

theorem send_round (cursor : Nat) (es : List Element) (f : Frame) (source : Option LinkAddress) :
    Round cursor es f source (send cursor es f source) := by
  have h := send_walked cursor es f source
  have hlen : (send cursor es f source).2.2.length = es.length := length_of_getElem? h.elements
  refine ⟨(candidates_nodup cursor es).sublist (upTo_sublist _ _), ?_, h.elements, ?_, ?_, ?_⟩
  · rw [h.attempts, Nat.zero_add]
    rfl
  · intro i hi ht
    rw [h.taker]
    exact find?_of_mem_upTo hi ht
  · intro i hi
    have hf : (candidates cursor es).find? (takesAt es f source) = some i := h.taker.symm.trans hi
    have ht : takesAt es f source i = true := List.find?_some hf
    refine ⟨getLast?_upTo hf, ht, ?_, ?_⟩
    · exact (send_accepted_iff cursor es).2 ⟨i, ht⟩
    · rw [send_cursor_of_taken hi, hlen]
  · intro hi
    have hf : (candidates cursor es).find? (takesAt es f source) = none := h.taker.symm.trans hi
    have hnone : (candidates cursor es).any (takesAt es f source) = false := by
      rw [List.any_eq_false]
      exact List.find?_eq_none.1 hf
    refine ⟨upTo_of_find? hf, ?_, ?_⟩
    · rw [h.outcome, hnone, asked, upTo_of_find? hf]
      rfl
    · rw [send_cursor_of_refused hi, start_eq]

/-! ## Rounds in a row -/

/-- A row of sends, each with its frame and the source address it leaves under. -/
def sendAll (cursor : Nat) (es : List Element) :
    List (Frame × Option LinkAddress) → List RoundRobinReport × Nat × List Element
  | [] => ([], cursor, es)
  | (f, source) :: jobs =>
    let (report, cursor, es) := send cursor es f source
    let (reports, cursor, es) := sendAll cursor es jobs
    (report :: reports, cursor, es)

/-- Every element that is enabled takes whatever comes. -/
def Steady (es : List Element) : Prop := ∀ e ∈ es, e.txEnabled = true → e.AlwaysTakes

/-- At each position so many frames were added to what was sent, and none changed where none was. -/
structure Served (es after : List Element) (share : Nat → Nat) : Prop where
  idle : ∀ j, share j = 0 → after[j]? = es[j]?
  sent : ∀ j e, es[j]? = some e →
    ∃ e' frames, after[j]? = some e' ∧ e'.sent = e.sent ++ frames ∧ frames.length = share j

theorem Served.trans {es mid after : List Element} {p q : Nat → Nat} (h : Served es mid p)
    (h' : Served mid after q) : Served es after fun j => p j + q j := by
  refine ⟨fun j hj => ?_, fun j e he => ?_⟩
  · rw [h'.idle j (Nat.eq_zero_of_add_eq_zero_left hj), h.idle j (Nat.eq_zero_of_add_eq_zero_right hj)]
  · obtain ⟨e₁, fs₁, he₁, hs₁, hn₁⟩ := h.sent j e he
    obtain ⟨e₂, fs₂, he₂, hs₂, hn₂⟩ := h'.sent j e₁ he₁
    exact ⟨e₂, fs₁ ++ fs₂, he₂, by rw [hs₂, hs₁, List.append_assoc], by
      rw [List.length_append, hn₁, hn₂]⟩

/-- The order of the next round, once the first in it had its turn. -/
theorem candidates_next {rest : List Nat} (h : candidates cursor es = i :: rest) :
    candidates ((i + 1) % es.length) es = rest ++ [i] := by
  obtain ⟨skipped, after, hl, hskip, hi, hrest⟩ := List.filter_eq_cons_iff.1 h
  have hpos : 0 < es.length := by
    by_contra hz
    have hz : es.length = 0 := by omega
    rw [hz] at hl
    simp at hl
  -- the position asked first is that many steps from the start
  have hat : i = (skipped.length + start cursor es.length) % es.length := by
    have hget := congrArg (·[skipped.length]?) hl
    have hlt : skipped.length < es.length := by
      have := congrArg List.length hl
      simp at this
      omega
    simp [hlt] at hget
    omega
  have hstart : start ((i + 1) % es.length) es.length = (i + 1) % es.length :=
    if_pos (Nat.mod_lt _ hpos)
  have hturn := calc
    (List.range es.length).rotate ((i + 1) % es.length)
    _ = (List.range es.length).rotate (skipped.length + start cursor es.length + 1) := by
      rw [hat, Nat.mod_add_mod]
      simpa using List.rotate_mod (List.range es.length) (skipped.length + start cursor es.length + 1)
    _ = ((List.range es.length).rotate (start cursor es.length)).rotate (skipped.length + 1) := by
      rw [List.rotate_rotate]
      congr 1
      omega
    _ = after ++ (skipped ++ [i]) := by
      rw [hl]
      simpa using List.rotate_append_length_eq (skipped ++ [i]) after
  unfold candidates
  rw [hstart, hturn, List.filter_append, List.filter_append, hrest,
    List.filter_eq_nil_iff.2 hskip, List.nil_append, List.filter_cons_of_pos hi, List.filter_nil]

/-- Sending enables no element and moves none. -/
theorem candidates_congr {after : List Element} {g : Nat → Element → Element}
    (hg : ∀ j e, (g j e).txEnabled = e.txEnabled) (h : ∀ j, after[j]? = es[j]?.map (g j))
    (cursor : Nat) : candidates cursor after = candidates cursor es := by
  have hen : enabledAt after = enabledAt es := by
    funext j
    unfold enabledAt
    rw [h]
    cases es[j]? with
    | none => rfl
    | some e => exact hg j e
  unfold candidates
  rw [hen, length_of_getElem? h]

/-- Where all take what comes, a round goes to the first position, which then is the last. -/
theorem Steady.send {rest : List Nat} (hs : Steady es) (hc : candidates cursor es = i :: rest)
    (f : Frame) (source : Option LinkAddress) :
    (send cursor es f source).1.outcome = .accepted ∧
      candidates (send cursor es f source).2.1 (send cursor es f source).2.2 = rest ++ [i] ∧
      Steady (send cursor es f source).2.2 ∧
      Served es (send cursor es f source).2.2 fun j => [i].count j := by
  have hr := send_round cursor es f source
  obtain ⟨e, he, ht⟩ := (Option.any_eq_true _ _).1
    (mem_candidates.1 (hc ▸ List.mem_cons_self : i ∈ candidates cursor es))
  have htakes : takesAt es f source i = true := by
    have := ((hs e (List.mem_of_getElem? he) ht).send f source).1
    simp [takesAt, he, Element.takes, ht, this]
  have hasked : asked cursor es f source = [i] := by
    unfold asked
    rw [hc]
    exact if_pos htakes
  have htaker := hr.first i (hasked ▸ List.mem_singleton_self i) htakes
  obtain ⟨-, -, ho, hnext⟩ := hr.taken i htaker
  have hels := hr.elements
  rw [hasked] at hels
  refine ⟨ho, ?_, fun e' he' ht' => ?_, fun j hj => ?_, fun j e hj => ?_⟩
  · rw [hnext, candidates_congr (fun j e => ?_) hels, candidates_next hc]
    split
    · exact e.send_txEnabled f source
    · rfl
  · obtain ⟨j, hj⟩ := List.mem_iff_getElem?.1 he'
    rw [hels] at hj
    obtain ⟨x, hx, rfl⟩ := Option.map_eq_some_iff.1 hj
    have hx := hs x (List.mem_of_getElem? hx)
    by_cases hj : j ∈ [i]
    · rw [if_pos hj] at ht' ⊢
      exact ((hx (x.send_txEnabled f source ▸ ht')).send f source).2
    · rw [if_neg hj] at ht' ⊢
      exact hx ht'
  · have hne : j ∉ [i] := List.count_eq_zero.1 hj
    rw [hels]
    simp [hne]
  · by_cases hji : j = i
    · subst hji
      cases he.symm.trans hj
      have hsent := e.send_sent f source
      rw [if_pos ((hs e (List.mem_of_getElem? he) ht).send f source).1] at hsent
      exact ⟨(e.send f source).2, [f.leavingAs source], by rw [hels, hj]; simp, hsent, by simp⟩
    · exact ⟨e, [], by rw [hels, hj]; simp [hji], by simp, by simp [Ne.symm hji]⟩

theorem sendAll_append (cursor : Nat) (es : List Element)
    (jobs more : List (Frame × Option LinkAddress)) :
    sendAll cursor es (jobs ++ more) =
      ((sendAll cursor es jobs).1 ++
          (sendAll (sendAll cursor es jobs).2.1 (sendAll cursor es jobs).2.2 more).1,
        (sendAll (sendAll cursor es jobs).2.1 (sendAll cursor es jobs).2.2 more).2) := by
  induction jobs generalizing cursor es with
  | nil => rfl
  | cons job jobs ih =>
    rw [List.cons_append]
    simp only [sendAll, ih, List.cons_append]

/-- The first positions in the order have their turn, and then stand at its end. -/
theorem Steady.sendAll {jobs : List (Frame × Option LinkAddress)} (hs : Steady es)
    (hc : candidates cursor es = xs ++ ys) (hn : jobs.length = xs.length) :
    (∀ r ∈ (sendAll cursor es jobs).1, r.outcome = .accepted) ∧
      candidates (sendAll cursor es jobs).2.1 (sendAll cursor es jobs).2.2 = ys ++ xs ∧
      Steady (sendAll cursor es jobs).2.2 ∧
      Served es (sendAll cursor es jobs).2.2 xs.count := by
  induction xs generalizing cursor es ys jobs with
  | nil =>
    cases List.length_eq_zero_iff.1 hn
    refine ⟨fun r hr => absurd hr List.not_mem_nil, ?_, hs, fun _ _ => rfl, ?_⟩
    · rw [List.append_nil]
      exact hc
    · exact fun j e he => ⟨e, [], he, (List.append_nil _).symm, rfl⟩
  | cons x xs ih =>
    cases jobs with
    | nil => cases hn
    | cons job jobs =>
      obtain ⟨ho, hnext, hsteady, hserved⟩ := hs.send (hc.trans List.cons_append) job.1 job.2
      rw [List.append_assoc] at hnext
      obtain ⟨hos, hlast, hsteady, hrest⟩ := ih hsteady hnext (Nat.succ.inj hn)
      refine ⟨?_, ?_, hsteady, ?_⟩
      · exact List.forall_mem_cons.2 ⟨ho, hos⟩
      · rw [List.append_assoc] at hlast
        exact hlast
      · have hcount : (x :: xs).count = fun j => [x].count j + xs.count j := by
          funext j
          rw [← List.count_append, List.singleton_append]
        rw [hcount]
        exact hserved.trans hrest

/-- So many turns of all give each position as many frames. -/
theorem Steady.turns {jobs : List (Frame × Option LinkAddress)} (hs : Steady es) (m : Nat)
    (hn : jobs.length = (candidates cursor es).length * m) :
    (∀ r ∈ (RoundRobin.sendAll cursor es jobs).1, r.outcome = .accepted) ∧
      Served es (RoundRobin.sendAll cursor es jobs).2.2 fun j =>
        m * (candidates cursor es).count j := by
  induction m generalizing cursor es jobs with
  | zero =>
    have hnil : jobs = [] := List.length_eq_zero_iff.1 hn
    subst hnil
    refine ⟨fun r hr => absurd hr List.not_mem_nil, fun _ _ => rfl, ?_⟩
    exact fun j e he => ⟨e, [], he, (List.append_nil _).symm, (Nat.zero_mul _).symm⟩
  | succ m ih =>
    rw [Nat.mul_succ] at hn
    obtain ⟨first, rest, rfl, hfirst, hrest⟩ : ∃ first rest, jobs = first ++ rest ∧
        first.length = (candidates cursor es).length ∧
        rest.length = (candidates cursor es).length * m := by
      refine ⟨_, _, (List.take_append_drop (candidates cursor es).length jobs).symm, ?_, ?_⟩
      · rw [List.length_take]
        omega
      · rw [List.length_drop]
        omega
    obtain ⟨ho, hsame, hsteady, hturn⟩ := hs.sendAll (List.append_nil _).symm hfirst
    rw [List.nil_append] at hsame
    rw [← hsame] at hrest
    obtain ⟨hos, hturns⟩ := ih hsteady hrest
    rw [hsame] at hturns
    have hshare : (fun j => (m + 1) * (candidates cursor es).count j) =
        fun j => (candidates cursor es).count j + m * (candidates cursor es).count j := by
      funext j
      rw [Nat.succ_mul, Nat.add_comm]
    rw [sendAll_append, hshare]
    exact ⟨List.forall_mem_append.2 ⟨ho, hos⟩, hturn.trans hturns⟩

theorem length_candidates (cursor : Nat) (es : List Element) :
    (candidates cursor es).length = es.countP (·.txEnabled) := by
  have hperm : (candidates cursor es).Perm ((List.range es.length).filter (enabledAt es)) :=
    (List.rotate_perm _ _).filter _
  have hentries : (List.range es.length).map (fun i => es[i]?) = es.map some := by
    apply List.ext_getElem (by simp)
    intro i h₁ h₂
    simp
  rw [hperm.length_eq, ← List.countP_eq_length_filter]
  calc (List.range es.length).countP (enabledAt es)
    _ = ((List.range es.length).map fun i => es[i]?).countP (·.any (·.txEnabled)) := by
      rw [List.countP_map]
      rfl
    _ = es.countP (·.txEnabled) := by
      rw [hentries, List.countP_map]
      rfl

/-- A round asks the enabled elements in cyclic order from the cursor up to the first that takes the
frame. Where all of them take what comes, a multiple of their number of sends gives each the same
share, whatever the frames are. -/
theorem rounds_are_fair (cursor : Nat) (es : List Element) :
    (∀ f source, Round cursor es f source (send cursor es f source)) ∧
    ∀ (jobs : List (Frame × Option LinkAddress)) (m : Nat),
      (∀ e ∈ es, e.txEnabled = true → e.AlwaysTakes) →
      jobs.length = es.countP (·.txEnabled) * m →
      (∀ r ∈ (sendAll cursor es jobs).1, r.outcome = .accepted) ∧
      ∀ (j : Nat) (e : Element), es[j]? = some e → if e.txEnabled = true
        then ∃ e' frames, (sendAll cursor es jobs).2.2[j]? = some e' ∧
          e'.sent = e.sent ++ frames ∧ frames.length = m
        else (sendAll cursor es jobs).2.2[j]? = some e := by
  refine ⟨send_round cursor es, fun jobs m hs hn => ?_⟩
  rw [← length_candidates cursor es] at hn
  obtain ⟨ho, hserved⟩ := Steady.turns hs m hn
  refine ⟨ho, fun j e he => ?_⟩
  have hen : enabledAt es j = e.txEnabled := by simp [enabledAt, he]
  split
  · rename_i ht
    have hone : (candidates cursor es).count j = 1 :=
      List.count_eq_one_of_mem (candidates_nodup cursor es) (mem_candidates.2 (hen.trans ht))
    obtain ⟨e', frames, he', hsent, hlen⟩ := hserved.sent j e he
    exact ⟨e', frames, he', hsent, by rw [hlen, hone, Nat.mul_one]⟩
  · rename_i ht
    have hzero : (candidates cursor es).count j = 0 :=
      List.count_eq_zero.2 fun hm => ht (hen.symm.trans (mem_candidates.1 hm))
    exact (hserved.idle j (by rw [hzero, Nat.mul_zero])).trans he

/-- The second of three elements is muted. -/
def trio : List Element :=
  [.new { name := "eth0" }, { device := { name := "eth1" }, txEnabled := false },
    .new { name := "eth2" }]

/-- Four sends from a cursor past the end: two frames for each of the others. -/
theorem trio_shares_evenly :
    let jobs := [([1], none), ([2], none), ([3], some .zero), ([4], none)]
    (∀ e ∈ trio, e.txEnabled = true → e.AlwaysTakes) ∧
      jobs.length = trio.countP (·.txEnabled) * 2 ∧
      (∀ r ∈ (sendAll 7 trio jobs).1, r.outcome = .accepted) ∧
      (∃ e frames, (sendAll 7 trio jobs).2.2[0]? = some e ∧ e.sent = [] ++ frames ∧
        frames.length = 2) ∧
      (sendAll 7 trio jobs).2.2[1]? = trio[1]? ∧
      ∃ e frames, (sendAll 7 trio jobs).2.2[2]? = some e ∧ e.sent = [] ++ frames ∧
        frames.length = 2 := by
  intro jobs
  have hs : ∀ e ∈ trio, e.txEnabled = true → e.AlwaysTakes := by
    intro e he _
    have hopen : e.device.isClosed = false ∧ e.device.script = [] ∧ e.device.otherwise = .accept := by
      revert e
      decide
    exact Element.alwaysTakes_of_open hopen.1 hopen.2.1 hopen.2.2
  have hn : jobs.length = trio.countP (·.txEnabled) * 2 := rfl
  obtain ⟨ho, hshare⟩ := (rounds_are_fair 7 trio).2 jobs 2 hs hn
  exact ⟨hs, hn, ho, hshare 0 _ rfl, hshare 1 _ rfl, hshare 2 _ rfl⟩

end RoundRobin
end MulticastRelay
