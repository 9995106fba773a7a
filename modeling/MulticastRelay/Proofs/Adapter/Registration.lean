import MulticastRelay.Proofs.Adapter.Metering

/-! # Registration for room

While an adapter waits for room, exactly its elements that transmit are registered for it, and outside
a wait none is. Each channel was told what its element waits for, also one that has been detached.
-/
namespace MulticastRelay

/-! ## Elements -/

theorem Device.offerAs_watching (d : Device) (f : Frame) (source : Option LinkAddress) :
    (d.offerAs f source).2.watching = d.watching := by
  have hoffer : ∀ g : Frame, (d.offer g).2.watching = d.watching := by
    intro g
    unfold offer
    split
    · rfl
    · rcases d.script with _ | ⟨_ | _ | _, rest⟩
      · cases d.otherwise <;> rfl
      all_goals rfl
  cases source with
  | none => exact hoffer f
  | some a => exact hoffer (f.setSource a)

namespace Element

variable {e : Element} {waiting on : Bool}

/-- Registered for room in a wait if it transmits, and the channel told what the element waits for. -/
structure Registered (waiting : Bool) (e : Element) : Prop where
  output : e.interest.output = (waiting && e.txEnabled)
  told : e.device.watching = e.interest

theorem setOutput_interest (e : Element) (on : Bool) :
    (e.setOutput on).interest = { e.interest with output := on } := by
  unfold setOutput Interest.setOutput
  cases e.interest.output <;> cases on <;> rfl

theorem setOutput_txEnabled (e : Element) (on : Bool) :
    (e.setOutput on).txEnabled = e.txEnabled := by
  unfold setOutput
  split <;> rfl

theorem setInput_interest (e : Element) (on : Bool) :
    (e.setInput on).interest = { e.interest with input := on } := by
  unfold setInput Interest.setInput
  cases e.interest.input <;> cases on <;> rfl

theorem setInput_txEnabled (e : Element) (on : Bool) :
    (e.setInput on).txEnabled = e.txEnabled := by
  unfold setInput
  split <;> rfl

/-- A channel that is told of changes only knows as much as one that is told each time. -/
theorem setOutput_told (h : e.device.watching = e.interest) (on : Bool) :
    (e.setOutput on).device.watching = (e.setOutput on).interest := by
  obtain ⟨device, _, _, ⟨input, output⟩, _⟩ := e
  have hw : device.watching = ⟨input, output⟩ := h
  cases output <;> cases on <;>
    simp [setOutput, Interest.setOutput, Transition.ofChange, Device.watchOutput, hw]

theorem setInput_told (h : e.device.watching = e.interest) (on : Bool) :
    (e.setInput on).device.watching = (e.setInput on).interest := by
  obtain ⟨device, _, _, ⟨input, output⟩, _⟩ := e
  have hw : device.watching = ⟨input, output⟩ := h
  cases input <;> cases on <;>
    simp [setInput, Interest.setInput, Transition.ofChange, Device.watchInput, hw]

theorem setOutput_registered (h : e.device.watching = e.interest)
    (ho : on = (waiting && e.txEnabled)) : (e.setOutput on).Registered waiting := by
  refine ⟨?_, setOutput_told h on⟩
  rw [setOutput_interest, setOutput_txEnabled]
  exact ho

theorem Registered.setInput (h : e.Registered waiting) (on : Bool) :
    (e.setInput on).Registered waiting := by
  refine ⟨?_, setInput_told h.told on⟩
  rw [setInput_interest, setInput_txEnabled]
  exact h.output

theorem Registered.setRx (h : e.Registered waiting) (on : Bool) : (e.setRx on).Registered waiting := by
  have hx : Registered waiting { e with rxEnabled := on } := ⟨h.output, h.told⟩
  exact hx.setInput on

/-- Disabled, an element waits no longer; enabled in a wait, it waits as well. -/
theorem Registered.setTx (h : e.Registered waiting) (on : Bool) :
    (if !on then (e.setTx on).stopOutput
      else if waiting then (e.setTx on).startOutput else e.setTx on).Registered waiting := by
  have ht : (e.setTx on).device.watching = (e.setTx on).interest := h.told
  cases on with
  | false => exact setOutput_registered ht (Bool.and_false _).symm
  | true =>
    cases waiting with
    | true => exact setOutput_registered ht rfl
    | false => exact ⟨h.output, h.told⟩

theorem Registered.send (h : e.Registered waiting) (f : Frame) (source : Option LinkAddress) :
    (e.send f source).2.Registered waiting := by
  have hw := e.device.offerAs_watching f source
  unfold Element.send
  split
  all_goals
    rename_i hd
    rw [hd] at hw
    exact ⟨h.output, hw.trans h.told⟩

theorem close_registered (h : e.device.watching = e.interest) : e.close.Registered false := by
  have hs : e.stopOutput.Registered false := setOutput_registered h rfl
  have hi := hs.setInput false
  exact ⟨hi.output, hi.told⟩

end Element

/-! ## Composite devices -/

section Composites

variable {P : Element → Prop} {f : Frame} {source : Option LinkAddress}

theorem Mirror.offer_forall (hP : ∀ e, P e → P (e.send f source).2) (r : MirrorReport)
    {es : List Element} (h : ∀ e ∈ es, P e) : ∀ e ∈ (Mirror.offer f source r es).2, P e := by
  induction es generalizing r with
  | nil => exact h
  | cons e es ih =>
    obtain ⟨he, hes⟩ := List.forall_mem_cons.1 h
    unfold Mirror.offer
    split
    · exact List.forall_mem_cons.2 ⟨hP e he, ih _ hes⟩
    · exact List.forall_mem_cons.2 ⟨he, ih _ hes⟩

theorem RoundRobin.offer_forall (hP : ∀ e, P e → P (e.send f source).2) (is : List Nat) (n : Nat)
    (blocked : Bool) {es : List Element} (h : ∀ e ∈ es, P e) :
    ∀ e ∈ (RoundRobin.offer f source is n blocked es).2, P e := by
  induction is generalizing n blocked es with
  | nil => exact h
  | cons i is ih =>
    unfold RoundRobin.offer
    cases hi : es[i]? with
    | none => exact ih n blocked h
    | some e =>
      have hset : ∀ x ∈ es.set i (e.send f source).2, P x := by
        intro x hx
        rcases List.mem_or_eq_of_mem_set hx with hx | rfl
        · exact h x hx
        · exact hP e (h e (List.mem_of_getElem? hi))
      dsimp only
      split
      · split
        · exact hset
        · exact ih _ _ hset
        · exact ih _ _ hset
      · exact ih n blocked h

/-- What a send keeps of every element it keeps of all of them. -/
theorem Composite.send_forall (hP : ∀ e, P e → P (e.send f source).2) {c : Composite}
    (h : ∀ e ∈ c.elements, P e) : ∀ e ∈ (c.send f source).2.elements, P e := by
  unfold Composite.send
  split
  · exact h
  · rename_i e he
    split
    · exact List.forall_mem_singleton.2 (hP e (h e (by simp [he])))
    · exact h
  · split
    · exact Mirror.offer_forall hP {} h
    · exact RoundRobin.offer_forall hP _ 0 false h

theorem Composite.modifyFirst_forall {g : Element → Element} (hg : ∀ e, P e → P (g e)) (name : String)
    {es : List Element} (h : ∀ e ∈ es, P e) : ∀ e ∈ modifyFirst name g es, P e := by
  induction es with
  | nil => exact h
  | cons e es ih =>
    obtain ⟨he, hes⟩ := List.forall_mem_cons.1 h
    unfold modifyFirst
    split
    · exact List.forall_mem_cons.2 ⟨hg e he, hes⟩
    · exact List.forall_mem_cons.2 ⟨he, ih hes⟩

theorem Composite.detach_forall {c d : Composite} {name : String} {e : Element}
    (hd : c.detach? name = some (e, d)) (h : ∀ e ∈ c.elements, P e) :
    P e ∧ ∀ e ∈ d.elements, P e := by
  unfold detach? at hd
  split at hd
  · cases hd
  · rename_i x hx
    cases hd
    exact ⟨h e (List.mem_of_find?_eq_some hx), fun y hy => h y (List.mem_of_mem_eraseP hy)⟩

end Composites

namespace Adapter

variable {σ : Type} {a b c : Adapter σ} {n : Nat} {now : Instant} {pool rest : Pool}

/-! ## Adapters -/

/-- Every element is registered as the wait of the adapter asks. -/
def Registered (a : Adapter σ) : Prop := ∀ e ∈ a.elements, e.Registered a.outputPending

theorem Registered.of_keeps (h : Registered a)
    (hb : b.pace = a.pace ∧ b.composite = a.composite) : Registered b := by
  have ho : b.outputPending = a.outputPending := congrArg (·.2.2) hb.1
  unfold Registered elements
  rw [ho, hb.2]
  exact h

theorem Registered.scheduleNext (h : Registered a) (hb : a.scheduleNext n now = .ok b) :
    Registered b := by
  obtain ⟨t, rfl, -⟩ := scheduleNext_cases hb
  exact h

theorem Registered.armRetry (h : Registered a) (hb : a.armRetry n now = .ok b) : Registered b := by
  obtain ⟨t, rfl, -⟩ := armRetry_cases hb
  exact h

/-- A wait that begins registers whatever transmits. -/
theorem waitForRoom_registered (h : ∀ e ∈ a.elements, e.device.watching = e.interest)
    (hq : ∀ e ∈ a.elements, e.txEnabled = false → e.interest.output = false) :
    Registered a.waitForRoom := by
  intro e he
  obtain ⟨x, hx, rfl⟩ := List.mem_map.1 he
  split
  · rename_i ht
    exact Element.setOutput_registered (h x hx) (by rw [ht]; rfl)
  · rename_i ht
    rw [Bool.not_eq_true] at ht
    exact ⟨by rw [ht, hq x hx ht, Bool.and_false], h x hx⟩

theorem Registered.send {f : Frame} {o : SendOutcome} (h : Registered a) (hb : a.send f = (o, b)) :
    Registered b := by
  have hc : ∀ e ∈ (a.composite.send f a.sourceOverride).2.elements, e.Registered a.outputPending :=
    Composite.send_forall (fun _ he => he.send f a.sourceOverride) h
  rw [send_eq hb]
  cases o with
  | accepted => exact hc
  | failed => exact hc
  | blocked =>
    refine waitForRoom_registered (fun e he => (hc e he).told) fun e he ht => ?_
    rw [(hc e he).output, ht, Bool.and_false]

/-- The end of a wait leaves no element registered. -/
theorem Registered.endWait (h : Registered a) : Registered a.endWait := by
  intro e he
  obtain ⟨x, hx, rfl⟩ := List.mem_map.1 he
  exact Element.setOutput_registered (h x hx).told rfl

section Requests

variable [FrameSource σ]

theorem Registered.transmit {f : Frame} {priority : Bool} {r : Except AdapterError Delivery}
    (h : Registered a) (hb : a.transmit pool f priority now = .ok (r, b, rest)) : Registered b := by
  cases transmit_course hb with
  | nowhere => exact h
  | sent _ _ hs hc => exact (h.send hs).scheduleNext hc
  | blocked hs hh => exact (h.send hs).of_keeps (hold_keeps hh)
  | failed _ hs hc hh => exact ((h.send hs).armRetry hc).of_keeps (hold_keeps hh)
  | lost _ _ hs => exact (h.send hs).of_keeps ⟨rfl, rfl⟩
  | busy _ hh => exact h.of_keeps (hold_keeps hh)

theorem Registered.pull {r : Option (Buffer × Bool)} (h : Registered a)
    (hb : a.pull pool = (r, b, rest)) : Registered b := by
  obtain ⟨hp, -, hc⟩ := pull_keeps hb
  exact h.of_keeps ⟨hp, hc⟩

theorem Registered.service (h : Registered a) (hb : a.service pool now = .ok (b, rest)) :
    Registered b := by
  cases service_course hb with
  | suspended => exact h
  | served _ _ hs hc =>
    exact ((h.send hs).of_keeps ⟨advance_pace .., advance_composite ..⟩).scheduleNext hc
  | retried _ _ hs hc => exact (h.send hs).armRetry hc
  | blocked _ _ hs => exact h.send hs
  | heldBack => exact h
  | nothing _ _ _ hp => exact h.pull hp
  | carried _ _ _ hp hs hc => exact ((h.pull hp).send hs).scheduleNext hc
  | kept _ _ _ hp hs he => exact ((h.pull hp).send hs).of_keeps (enqueue_keeps he)
  | deferred _ _ _ hp hs he hc => exact (((h.pull hp).send hs).of_keeps (enqueue_keeps he)).armRetry hc
  | lost _ _ _ hp hs he => exact ((h.pull hp).send hs).of_keeps (enqueue_keeps he)

theorem Registered.onTimer {fired : Bool} (h : Registered a)
    (hb : a.onTimer pool now = .ok (fired, b, rest)) : Registered b := by
  have hidle : Registered { a with timer := .idle } := h
  obtain rfl | ⟨-, rfl | hs⟩ := onTimer_course hb
  · exact h
  · exact hidle
  · exact hidle.service hs

theorem Registered.onOutputReady (h : Registered a)
    (hb : a.onOutputReady pool now = .ok (b, rest)) : Registered b := by
  obtain rfl | rfl | ⟨-, hs⟩ := onOutputReady_course hb
  · exact h
  · exact h.endWait
  · exact h.endWait.service hs

theorem Registered.onSourceReady (h : Registered a)
    (hb : a.onSourceReady pool now = .ok (b, rest)) : Registered b := by
  obtain rfl | ⟨-, hs⟩ := onSourceReady_course hb
  · exact h
  · exact h.service hs

end Requests

/-! ## Elements that come, change and go -/

theorem Registered.addElement {e : Element} (h : Registered a) (he : e.Registered false) :
    Registered (a.addElement e) := by
  intro x hx
  rcases List.mem_append.1 hx with hx | hx
  · exact h x hx
  · rw [List.mem_singleton.1 hx]
    -- capture is registered before the wait is looked at, and leaves the output alone
    generalize hs : (if e.rxEnabled then e.startInput else e) = s
    have hr : s.Registered false := by
      subst hs
      split
      · exact he.setInput true
      · exact he
    change Element.Registered a.outputPending (if a.outputPending && s.txEnabled then s.startOutput else s)
    split
    · rename_i hw
      exact Element.setOutput_registered hr.told hw.symm
    · rename_i hw
      rw [Bool.not_eq_true] at hw
      exact ⟨hr.output.trans hw.symm, hr.told⟩

theorem Registered.modifyElement {g : Element → Element} (h : Registered a) (name : String)
    (hg : ∀ e, e.Registered a.outputPending → (g e).Registered a.outputPending) :
    Registered (a.orSame (a.modifyElement name g)) := by
  unfold Adapter.modifyElement
  split
  · exact Composite.modifyFirst_forall hg name h
  · exact h

theorem Registered.close (h : Registered a) (pool : Pool) : Registered (a.close pool).1 := by
  intro e he
  obtain ⟨x, hx, rfl⟩ := List.mem_map.1 he
  exact Element.close_registered (h x hx).told

theorem Registered.removeElement {e : Element} {name : String} (h : Registered a)
    (hb : a.removeElement name = .ok (e, b)) : e.Registered false ∧ Registered b := by
  unfold Adapter.removeElement at hb
  split at hb
  · rename_i x c hd
    cases hb
    obtain ⟨hx, hc⟩ := Composite.detach_forall hd h
    exact ⟨Element.setOutput_registered hx.told rfl, hc⟩
  · cases hb

/-! ## Runs -/

section Runs

variable {gone : List Element}

/-- A request that attaches fresh elements only, and leaves those that are attached to the adapter. -/
def Request.Wires : Request σ → Prop
  | .event (.addElement e) => e.Registered false
  | .elements _ => False
  | _ => True

/-- The elements that a request detaches, as it hands them back. -/
def detached (a : Adapter σ) : Request σ → List Element
  | .event (.removeElement name) =>
    match a.removeElement name with
    | .ok (e, _) => [e]
    | .error _ => []
  | _ => []

theorem Registered.detached (h : Registered a) (r : Request σ) :
    ∀ e ∈ a.detached r, e.Registered false := by
  unfold Adapter.detached
  split
  · split
    · rename_i hd
      exact List.forall_mem_singleton.2 (h.removeElement hd).1
    · exact List.forall_mem_nil _
  · exact List.forall_mem_nil _

variable [FrameSource σ]

/-- An adapter with the elements that were detached since it was made. -/
inductive Wired : Adapter σ → List Element → Prop where
  | new (owner : InterfaceId) (name : String) : Wired (new owner name) []
  | next {a b : Adapter σ} {gone : List Element} (r : Request σ) : Wired a gone → r.Wires →
      a.answer r = .ok b → Wired b (gone ++ a.detached r)

theorem Registered.answer {r : Request σ} (h : Registered a) (hr : r.Wires)
    (hb : a.answer r = .ok b) : Registered b := by
  cases r with
  | enqueue pool buffer priority =>
    cases hb
    exact h.of_keeps (enqueue_keeps rfl)
  | elements => cases hr
  | event e =>
    replace hb : a.next e = .ok b := hb
    cases e with
    | addElement e =>
      cases hb
      exact h.addElement hr
    | removeElement name =>
      cases hb
      cases hd : a.removeElement name with
      | ok r => exact (h.removeElement hd).2
      | error e => exact h
    | setElementTx name on =>
      cases hb
      exact h.modifyElement name fun e he => he.setTx on
    | setElementRx name on =>
      cases hb
      exact h.modifyElement name fun e he => he.setRx on
    | setRateLimit rate now =>
      obtain ⟨t, rfl⟩ := setRateLimit_cases hb
      exact h
    | setQueueDepth pool depth =>
      cases hb
      exact h.of_keeps ⟨resumeSource_pace _, resumeSource_composite _⟩
    | send f =>
      cases hb
      exact h.send rfl
    | transmit pool f priority now =>
      obtain ⟨⟨_, _, _⟩, ht, rfl⟩ := ok_of_map hb
      exact h.transmit ht
    | onTimer pool now =>
      obtain ⟨⟨_, _, _⟩, ht, rfl⟩ := ok_of_map hb
      exact h.onTimer ht
    | onOutputReady pool now =>
      obtain ⟨⟨_, _⟩, ht, rfl⟩ := ok_of_map hb
      exact h.onOutputReady ht
    | onSourceReady pool now =>
      obtain ⟨⟨_, _⟩, ht, rfl⟩ := ok_of_map hb
      exact h.onSourceReady ht
    | close pool =>
      cases hb
      exact h.close pool
    | channels change =>
      cases hb
      intro e he
      obtain ⟨x, hx, rfl⟩ := List.mem_map.1 he
      exact ⟨(h x hx).output, (h x hx).told⟩
    | _ =>
      cases hb
      exact h

theorem Wired.registered (h : Wired a gone) : Registered a ∧ ∀ e ∈ gone, e.Registered false := by
  induction h with
  | new owner name => exact ⟨List.forall_mem_nil _, List.forall_mem_nil _⟩
  | next r _ hr hb ih =>
    exact ⟨ih.1.answer hr hb, List.forall_mem_append.2 ⟨ih.2, ih.1.detached r⟩⟩

/-- In every run an attached element is registered for room exactly if the adapter waits and the element
transmits, a detached one is not, and every channel was told what its element waits for. -/
theorem registration_mirrors_wait (h : Wired a gone) :
    (∀ e ∈ a.elements, (e.interest.output = true ↔ a.outputPending = true ∧ e.txEnabled = true) ∧
      e.device.watching = e.interest) ∧
    ∀ e ∈ gone, e.interest.output = false ∧ e.device.watching = e.interest := by
  obtain ⟨ha, hg⟩ := h.registered
  refine ⟨fun e he => ⟨?_, (ha e he).told⟩, fun e he => ⟨(hg e he).output, (hg e he).told⟩⟩
  rw [(ha e he).output, Bool.and_eq_true]

/-- In a wait one element is muted, one joins and one parts. -/
theorem wait_follows_elements : ∃ (a : Adapter DeviceSource) (gone : List Element), Wired a gone ∧
    a.outputPending = true ∧
    a.elements.map (fun e => (e.name, e.interest.output)) = [("eth2", false), ("eth3", true)] ∧
    gone.map (·.name) = ["eth1"] ∧
    (∀ e ∈ a.elements, (e.interest.output = true ↔ a.outputPending = true ∧ e.txEnabled = true) ∧
      e.device.watching = e.interest) ∧
    ∀ e ∈ gone, e.interest.output = false ∧ e.device.watching = e.interest := by
  have fresh : Wired (new ⟨1⟩ "wan0" : Adapter DeviceSource) [] := .new _ _
  have first := fresh.next (.event (.addElement (.new { name := "eth1", script := [.block] })))
    ⟨rfl, rfl⟩ rfl
  have second := first.next (.event (.addElement (.new { name := "eth2", script := [.block] })))
    ⟨rfl, rfl⟩ rfl
  have waiting := second.next (.event (.send [1])) trivial rfl
  have muted := waiting.next (.event (.setElementTx "eth2" false)) trivial rfl
  have joined := muted.next (.event (.addElement (.new { name := "eth3" }))) ⟨rfl, rfl⟩ rfl
  have parted := joined.next (.event (.removeElement "eth1")) trivial rfl
  exact ⟨_, _, parted, rfl, rfl, rfl, registration_mirrors_wait parted⟩

end Runs
end Adapter
end MulticastRelay
