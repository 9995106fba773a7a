import MulticastRelay.Channel.Composite

/-! # Who takes a frame

A channel that accepts a frame adds it to what it sent, under the address it leaves with. A send
succeeds exactly if some channel took the frame; in turns, or alone, no second one does.
-/
namespace MulticastRelay

/-- The frame as it leaves, under another source address if one is given. -/
def Frame.leavingAs (f : Frame) : Option LinkAddress → Frame
  | some a => f.setSource a
  | none => f

theorem Device.offerAs_eq (d : Device) (f : Frame) (source : Option LinkAddress) :
    d.offerAs f source = d.offer (f.leavingAs source) := by
  cases source <;> rfl

/-- A device keeps what it sent, and adds a frame exactly if it accepts it. -/
theorem Device.offer_sent (d : Device) (f : Frame) :
    (d.offer f = (.ok (.accepted f.length), (d.offer f).2) ∧ (d.offer f).2.sent = d.sent ++ [f]) ∨
      ((∀ n, (d.offer f).1 ≠ .ok (.accepted n)) ∧ (d.offer f).2.sent = d.sent) := by
  unfold offer
  by_cases hc : d.isClosed = true
  · exact .inr ⟨fun n h => by simp [hc] at h, by simp [hc]⟩
  · cases hs : d.script with
    | nil => cases ho : d.otherwise <;> simp [hc]
    | cons v rest => cases v <;> simp [hc]

namespace Element

def sent (e : Element) : List Frame := e.device.sent

def takes (e : Element) (f : Frame) (source : Option LinkAddress) : Bool :=
  e.txEnabled && (e.send f source).1 == .accepted

theorem send_sent (e : Element) (f : Frame) (source : Option LinkAddress) :
    (e.send f source).2.sent =
      if (e.send f source).1 = .accepted then e.sent ++ [f.leavingAs source] else e.sent := by
  unfold send sent
  rw [Device.offerAs_eq]
  rcases Device.offer_sent e.device (f.leavingAs source) with ⟨ho, hs⟩ | ⟨ho, hs⟩
  · rw [ho]
    simpa using hs
  · split
    · rename_i n d hd
      exact absurd (congrArg Prod.fst hd) (ho n)
    · rename_i d hd
      simpa [hd] using hs
    · rename_i d hd
      simpa [hd] using hs

@[simp] theorem setInput_sent (e : Element) (on : Bool) : (e.setInput on).sent = e.sent := by
  unfold setInput
  split <;> rfl

@[simp] theorem setOutput_sent (e : Element) (on : Bool) : (e.setOutput on).sent = e.sent := by
  unfold setOutput
  split <;> rfl

@[simp] theorem startInput_sent (e : Element) : e.startInput.sent = e.sent := setInput_sent e true

@[simp] theorem stopInput_sent (e : Element) : e.stopInput.sent = e.sent := setInput_sent e false

@[simp] theorem startOutput_sent (e : Element) :
    e.startOutput.sent = e.sent := setOutput_sent e true

@[simp] theorem stopOutput_sent (e : Element) : e.stopOutput.sent = e.sent := setOutput_sent e false

@[simp] theorem setTx_sent (e : Element) (on : Bool) : (e.setTx on).sent = e.sent := rfl

@[simp] theorem setRx_sent (e : Element) (on : Bool) : (e.setRx on).sent = e.sent :=
  setInput_sent _ on

@[simp] theorem close_sent (e : Element) : e.close.sent = e.sent := by
  have : e.close.sent = e.stopOutput.stopInput.sent := rfl
  rw [this, stopInput_sent, stopOutput_sent]

end Element

/-- How a list of logs grows by a frame at some positions. -/
structure GrowsAt (old new : List (List Frame)) (f : Frame) (takes : Nat → Bool) : Prop where
  logs : ∀ i, new[i]? = old[i]?.map fun log => if takes i then log ++ [f] else log
  within : ∀ i, takes i = true → i < old.length

/-! ## Mirroring -/

namespace Mirror

variable {f : Frame} {source : Option LinkAddress}

theorem offer_accepted (r : MirrorReport) (es : List Element) :
    (offer f source r es).1.accepted = r.accepted + es.countP (·.takes f source) := by
  induction es generalizing r with
  | nil => simp [offer]
  | cons e es ih =>
    unfold offer
    by_cases ht : e.txEnabled = true
    · cases ho : (e.send f source).1 with
      | accepted =>
        simp [ht, ih, MirrorReport.note, Element.takes, ho]
        omega
      | blocked | failed => simp [ht, ih, MirrorReport.note, Element.takes, ho]
    · simp [ht, ih, Element.takes]

theorem offer_sent (r : MirrorReport) (es : List Element) :
    (offer f source r es).2.map Element.sent = es.map fun e =>
      if e.takes f source then e.sent ++ [f.leavingAs source] else e.sent := by
  induction es generalizing r with
  | nil => rfl
  | cons e es ih =>
    unfold offer
    by_cases ht : e.txEnabled = true
    · simp [ht, ih, Element.takes, Element.send_sent]
    · simp [ht, ih, Element.takes]

def takesAt (es : List Element) (f : Frame) (source : Option LinkAddress) (i : Nat) : Bool :=
  es[i]?.any (·.takes f source)

theorem send_grows (es : List Element) :
    GrowsAt (es.map Element.sent) ((send es f source).2.map Element.sent) (f.leavingAs source)
      (takesAt es f source) := by
  refine ⟨fun i => ?_, fun i hi => ?_⟩
  · rw [send, offer_sent]
    cases he : es[i]? with
    | none => simp [he]
    | some e => simp [he, takesAt]
  · obtain ⟨e, he, -⟩ := (Option.any_eq_true _ _).1 hi
    simpa using (List.getElem?_eq_some_iff.1 he).1

theorem send_accepted_iff (es : List Element) :
    (send es f source).1.outcome = .accepted ↔ ∃ i, takesAt es f source i = true := by
  have hn : (send es f source).1.accepted = es.countP (·.takes f source) := by
    rw [send, offer_accepted]
    simp
  have ho : (send es f source).1.outcome = .accepted ↔ 0 < (send es f source).1.accepted := by
    unfold MirrorReport.outcome
    split
    · simp_all
    · split <;> simp_all
  rw [ho, hn, List.countP_pos_iff]
  constructor
  · rintro ⟨e, he, ht⟩
    obtain ⟨i, hi⟩ := List.mem_iff_getElem?.1 he
    exact ⟨i, by simp [takesAt, hi, ht]⟩
  · rintro ⟨i, hi⟩
    obtain ⟨e, he, ht⟩ := (Option.any_eq_true _ _).1 hi
    exact ⟨e, List.mem_of_getElem? he, ht⟩

end Mirror

/-! ## Turns -/

namespace RoundRobin

variable {f : Frame} {source : Option LinkAddress}

theorem sent_set {es : List Element} {e e' : Element} {i : Nat} (he : es[i]? = some e)
    (hs : e'.sent = e.sent) : (es.set i e').map Element.sent = es.map Element.sent := by
  apply List.ext_getElem?
  intro j
  rw [List.map_set, List.getElem?_set]
  by_cases hj : i = j
  · subst hj
    obtain ⟨hi, rfl⟩ := List.getElem?_eq_some_iff.1 he
    simp [hs, hi]
  · simp [hj]

/-- How a round over some elements ends: one of them took the frame, or none did. -/
def Settled (es : List Element) (f : Frame) (source : Option LinkAddress)
    (r : RoundRobinReport × List Element) : Prop :=
  (∃ i, r.1.outcome = .accepted ∧ i < es.length ∧
      GrowsAt (es.map Element.sent) (r.2.map Element.sent) (f.leavingAs source) (· == i)) ∨
    (r.1.outcome ≠ .accepted ∧ r.2.map Element.sent = es.map Element.sent)

theorem settled_set {es : List Element} {e e' : Element} {i : Nat} (he : es[i]? = some e)
    (hs : e'.sent = e.sent) {r : RoundRobinReport × List Element}
    (h : Settled (es.set i e') f source r) : Settled es f source r := by
  unfold Settled at h ⊢
  rwa [sent_set he hs, List.length_set] at h

theorem offer_settled (is : List Nat) (attempts : Nat) (blocked : Bool) (es : List Element) :
    Settled es f source (offer f source is attempts blocked es) := by
  induction is generalizing attempts blocked es with
  | nil => exact .inr ⟨by cases blocked <;> simp [offer], rfl⟩
  | cons i is ih =>
    cases he : es[i]? with
    | none =>
      simp only [offer, he]
      exact ih attempts blocked es
    | some e =>
      have hsent := e.send_sent f source
      by_cases ht : e.txEnabled = true
      · cases ho : e.send f source with
        | mk outcome e' =>
          rw [ho] at hsent
          simp only [offer, he, if_pos ht, ho]
          cases outcome with
          | accepted =>
            obtain ⟨hi, rfl⟩ := List.getElem?_eq_some_iff.1 he
            refine .inl ⟨i, rfl, hi, ⟨fun j => ?_, fun j hj => ?_⟩⟩
            · rw [List.map_set, List.getElem?_set]
              by_cases hj : i = j
              · subst hj
                simp [hi, hsent]
              · simp [hj, Ne.symm hj, Function.comp_def]
            · rw [List.length_map, beq_iff_eq.1 hj]
              exact hi
          | blocked => exact settled_set he (by simpa using hsent) (ih (attempts + 1) true _)
          | failed => exact settled_set he (by simpa using hsent) (ih (attempts + 1) blocked _)
      · simp only [offer, he, if_neg ht]
        exact ih attempts blocked es

theorem send_settled (cursor : Nat) (es : List Element) (f : Frame) (source : Option LinkAddress) :
    Settled es f source ((send cursor es f source).1, (send cursor es f source).2.2) :=
  offer_settled _ 0 false es

end RoundRobin

/-! ## Composite devices -/

namespace Composite

variable {c : Composite} {f : Frame} {source : Option LinkAddress}

def logs (c : Composite) : List (List Frame) := c.elements.map Element.sent

/-- No two elements may take the same frame. -/
def TakesOnce (c : Composite) : Prop := c.policy = .roundRobin ∨ c.elements.length ≤ 1

theorem map_logs {g : Element → Element} (hg : ∀ e, (g e).sent = e.sent) (c : Composite) :
    (c.map g).logs = c.logs := by
  simp [map, logs, hg]

theorem modifyFirst_logs {g : Element → Element} (hg : ∀ e, (g e).sent = e.sent) (name : String)
    (es : List Element) : (modifyFirst name g es).map Element.sent = es.map Element.sent := by
  induction es with
  | nil => rfl
  | cons e es ih =>
    by_cases he : e.name = name <;> simp [modifyFirst, he, hg, ih]

/-- A send succeeds exactly if it adds the frame to some log. -/
theorem send_cases (c : Composite) (f : Frame) (source : Option LinkAddress) :
    ∃ takes : Nat → Bool, GrowsAt c.logs (c.send f source).2.logs (f.leavingAs source) takes ∧
      ((c.send f source).1 = .accepted ↔ ∃ i, takes i = true) ∧
      (c.TakesOnce → ∀ i j, takes i = true → takes j = true → i = j) := by
  have none_taken : ∀ {old : List (List Frame)},
      GrowsAt old old (f.leavingAs source) fun _ => false :=
    ⟨fun i => by simp, fun i hi => by cases hi⟩
  unfold send logs TakesOnce
  match he : c.elements with
  | [] => exact ⟨fun _ => false, by rw [he]; exact none_taken, by simp, by simp⟩
  | [e] =>
    dsimp only
    by_cases ht : e.txEnabled = true
    · rw [if_pos ht]
      refine ⟨Mirror.takesAt [e] f source, ⟨fun i => ?_, fun i hi => ?_⟩, ?_, fun _ i j hi hj => ?_⟩
      · cases i with
        | zero => simp [Mirror.takesAt, Element.takes, ht, Element.send_sent]
        | succ i => simp
      · cases i with
        | zero => simp
        | succ i => simp [Mirror.takesAt] at hi
      · constructor
        · intro ho
          exact ⟨0, by simpa [Mirror.takesAt, Element.takes, ht] using ho⟩
        · rintro ⟨i, hi⟩
          cases i with
          | zero => simpa [Mirror.takesAt, Element.takes, ht] using hi
          | succ i => simp [Mirror.takesAt] at hi
      · cases i <;> cases j <;> simp [Mirror.takesAt] at hi hj ⊢
    · rw [if_neg ht]
      exact ⟨fun _ => false, by rw [he]; exact none_taken, by simp, by simp⟩
  | e₁ :: e₂ :: es =>
    dsimp only
    cases hp : c.policy with
    | mirror =>
      exact ⟨_, he ▸ Mirror.send_grows c.elements,
        he ▸ Mirror.send_accepted_iff c.elements, by simp⟩
    | roundRobin =>
      have hr := RoundRobin.send_settled c.cursor c.elements f source
      rw [he] at hr
      rcases hr with ⟨i, ho, -, hg⟩ | ⟨ho, hk⟩
      · exact ⟨(· == i), hg, by simpa using ho, by simp⟩
      · exact ⟨fun _ => false, hk ▸ none_taken, by simpa using ho, by simp⟩

/-- Positions of the elements whose log a send adds to. -/
def takers (c : Composite) (f : Frame) (source : Option LinkAddress) : List Nat :=
  (List.range c.elements.length).filter fun i => c.logs[i]? != (c.send f source).2.logs[i]?

theorem mem_takers_iff {takes : Nat → Bool} {i : Nat}
    (h : GrowsAt c.logs (c.send f source).2.logs (f.leavingAs source) takes) :
    i ∈ c.takers f source ↔ takes i = true := by
  simp only [takers, List.mem_filter, List.mem_range, bne_iff_ne, h.logs i]
  constructor
  · rintro ⟨hi, hne⟩
    cases ht : takes i with
    | true => rfl
    | false => simp [ht] at hne
  · intro ht
    have hi : i < c.elements.length := by simpa [logs] using h.within i ht
    refine ⟨hi, ?_⟩
    simp [ht, logs, hi]

theorem send_grows (c : Composite) (f : Frame) (source : Option LinkAddress) :
    GrowsAt c.logs (c.send f source).2.logs (f.leavingAs source) (c.takers f source).contains := by
  obtain ⟨takes, hg, -⟩ := send_cases c f source
  have : (c.takers f source).contains = takes := by
    funext i
    rw [Bool.eq_iff_iff, List.contains_iff_mem, mem_takers_iff hg]
  rwa [this]

theorem send_accepted_iff : (c.send f source).1 = .accepted ↔ c.takers f source ≠ [] := by
  obtain ⟨takes, hg, ho, -⟩ := send_cases c f source
  rw [ho, ← List.length_pos_iff, List.length_pos_iff_exists_mem]
  exact exists_congr fun i => (mem_takers_iff hg).symm

/-- A send that does not go out shows in no log. -/
theorem send_logs_of_refused (ho : (c.send f source).1 ≠ .accepted) :
    (c.send f source).2.logs = c.logs := by
  have hn : c.takers f source = [] := Decidable.not_not.1 (mt send_accepted_iff.2 ho)
  apply List.ext_getElem?
  intro i
  rw [(send_grows c f source).logs i, hn]
  simp

theorem takers_nodup (c : Composite) (f : Frame) (source : Option LinkAddress) :
    (c.takers f source).Nodup := List.nodup_range.filter _

/-- In turns, or alone, one element takes the frame. -/
theorem takers_alone (hc : c.TakesOnce) (ho : (c.send f source).1 = .accepted) :
    ∃ i, c.takers f source = [i] := by
  obtain ⟨takes, hg, -, hone⟩ := send_cases c f source
  cases ht : c.takers f source with
  | nil => exact absurd ht (send_accepted_iff.1 ho)
  | cons i is =>
    have hi : takes i = true := (mem_takers_iff hg).1 (by simp [ht])
    cases is with
    | nil => exact ⟨i, rfl⟩
    | cons j js =>
      -- the positions are pairwise different, and any two of them agree
      have hj : takes j = true := (mem_takers_iff hg).1 (by simp [ht])
      have hne : i ≠ j := by
        have := takers_nodup c f source
        rw [ht] at this
        simp at this
        exact this.1.1
      exact absurd (hone hc i j hi hj) hne

end Composite
end MulticastRelay
