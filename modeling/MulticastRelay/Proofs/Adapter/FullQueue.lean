import MulticastRelay.Proofs.Adapter.Buffers
import MulticastRelay.Proofs.Adapter.Keeping
import MulticastRelay.Proofs.Adapter.Histories

/-! # Full queues

A queue at its bound should hold its source back. The frame that fills the queue sees to that, and a
source that was held back goes on only once there is a place. Two requests leave a source free beside
a full queue: a bound lowered to what is queued, and a source bound to a queue that is full.
-/
namespace MulticastRelay.Adapter

variable {σ : Type} {a b : Adapter σ} {pool rest : Pool}

/-- As many frames are queued as the bound allows, or more. -/
def AtBound (a : Adapter σ) : Prop := ∃ n, a.queue.depth = .bounded n ∧ n ≤ a.queueLength

theorem atBound_iff :
    a.AtBound ↔ a.queue.depth.isEnabled = true ∧ a.queue.isFull = true := by
  unfold AtBound FrameQueue.isFull queueLength
  cases a.queue.depth with
  | disabled => simp [QueueDepth.isEnabled]
  | unbounded => simp
  | bounded n => simp [QueueDepth.isEnabled]

/-- A source is held back while the queue is at its bound. -/
def HeldBack (a : Adapter σ) : Prop :=
  a.hasSource = true → a.AtBound → a.sourceSuspended = true

/-- A request that leaves a source free beside a full queue. -/
def Request.Slackens (a : Adapter σ) : Request σ → Prop
  | .event (.bindSource _) => a.AtBound
  | .event (.setQueueDepth _ depth) =>
    a.hasSource = true ∧ a.sourceSuspended = false ∧ ∃ n, depth = .bounded n ∧ n ≤ a.queueLength
  | _ => False

/-! ## Steps that hold the source back -/

theorem HeldBack.of_feed (h : HeldBack a) (hb : b.feed = a.feed) : HeldBack b := by
  obtain ⟨hs, hh, hq⟩ : b.source.isSome = a.source.isSome ∧
      b.sourceSuspended = a.sourceSuspended ∧ b.queue = a.queue := by simpa [feed] using hb
  intro hsource hfull
  rw [hh]
  apply h
  · rwa [hasSource, ← hs]
  · rwa [AtBound, queueLength, ← hq]

/-- With fewer frames in the same queue its bound is not reached sooner. -/
theorem HeldBack.of_queue {queue : FrameQueue} (h : HeldBack a) (hd : queue.depth = a.queue.depth)
    (hl : queue.length ≤ a.queue.length) : HeldBack { a with queue } := by
  rintro hsource ⟨n, hn, hle⟩
  exact h hsource ⟨n, hd.symm.trans hn, Nat.le_trans hle hl⟩

theorem heldBack_bindSource_iff (source : σ) : HeldBack (a.bindSource source) ↔ ¬a.AtBound := by
  constructor
  · intro h hfull
    have hs : false = true := h rfl hfull
    cases hs
  · intro hroom _ hfull
    exact absurd hfull hroom

theorem atBound_setDepth {depth : QueueDepth} {lost : Nat} :
    (countDropped { a with queue := (a.queue.setDepth depth).2 } lost).AtBound ↔
      ∃ n, depth = .bounded n ∧ n ≤ a.queueLength := by
  refine exists_congr fun n => ?_
  rw [countDropped_queue, FrameQueue.setDepth_depth]
  refine and_congr_right fun hd => ?_
  subst hd
  rfl

theorem HeldBack.close (h : HeldBack a) (pool : Pool) : HeldBack (a.close pool).1 := by
  have hcleared : HeldBack { a with queue := a.queue.clear.2 } := h.of_queue rfl (Nat.zero_le _)
  exact hcleared.of_feed rfl

variable [FrameSource σ]

theorem heldBack_suspendSource (a : Adapter σ) : HeldBack a.suspendSource := by
  unfold suspendSource
  split
  · rename_i hs
    exact fun _ _ => hs
  · split
    · rename_i hnone
      intro hsource _
      simp [hasSource, hnone] at hsource
    · exact fun _ _ => rfl

/-- A source goes on only beside a queue with a place. -/
theorem heldBack_resumeSource : HeldBack a.resumeSource ↔ HeldBack a := by
  unfold resumeSource
  split
  · exact Iff.rfl
  · rename_i hc
    simp only [Bool.or_eq_true, Bool.not_eq_true', Bool.and_eq_true, not_or, Bool.not_eq_false] at hc
    obtain ⟨hs, hroom⟩ := hc
    exact iff_of_true (fun _ hfull => absurd (atBound_iff.1 hfull) hroom) fun _ _ => hs

theorem HeldBack.enqueue {buffer : Buffer} {priority : Bool} {r : Except AdapterError Unit}
    (h : HeldBack a) (hb : a.enqueue pool buffer priority = (r, b, rest)) : HeldBack b := by
  unfold Adapter.enqueue at hb
  obtain ⟨-, hp⟩ | ⟨-, -, hp⟩ | ⟨-, -, queue, hp, -⟩ := a.queue.push_cases buffer priority
  · rw [hp] at hb
    cases hb
    exact h.of_feed rfl
  · rw [hp] at hb
    cases hb
    exact heldBack_suspendSource _
  · rw [hp] at hb
    dsimp only at hb
    split at hb
    · cases hb
      exact heldBack_suspendSource _
    · rename_i hroom
      cases hb
      exact fun _ hfull => absurd (atBound_iff.1 hfull).2 hroom

theorem feedInvariant_heldBack : FeedInvariant (@HeldBack σ) where
  of_feed := HeldBack.of_feed
  enqueue := HeldBack.enqueue
  depart {a _ queue} h hp := by
    have hl : queue.length ≤ a.queue.length := by
      have := FrameQueue.pop_length hp
      omega
    exact heldBack_resumeSource.2 (h.of_queue (FrameQueue.pop_depth hp) hl)
  resume := heldBack_resumeSource.2

/-! ## Requests that do not -/

theorem heldBack_setQueueDepth_iff (pool : Pool) (depth : QueueDepth) :
    HeldBack (a.setQueueDepth pool depth).1 ↔
      ¬(Request.event (.setQueueDepth pool depth)).Slackens a := by
  unfold setQueueDepth
  dsimp only
  rw [heldBack_resumeSource, HeldBack, atBound_setDepth]
  constructor
  · rintro h ⟨hsource, hs, hfull⟩
    have hheld : a.sourceSuspended = true := h hsource hfull
    exact absurd hs (by simp [hheld])
  · intro hno hsource hfull
    by_contra hs
    have hfree : a.sourceSuspended = false := Bool.eq_false_iff.2 hs
    exact hno ⟨hsource, hfree, hfull⟩

theorem HeldBack.answer_iff {r : Request σ} (h : HeldBack a) (hb : a.answer r = .ok b) :
    HeldBack b ↔ ¬r.Slackens a := by
  cases hf : r.setsFeed with
  | false =>
    refine iff_of_true (feedInvariant_heldBack.answer hf h hb) fun hs => ?_
    unfold Request.Slackens at hs
    split at hs
    · cases hf
    · cases hf
    · exact hs
  | true =>
    unfold Request.setsFeed at hf
    split at hf
    · cases hb
      exact heldBack_bindSource_iff _
    · cases hb
      exact iff_of_true (fun hs => by cases hs) id
    · cases hb
      exact heldBack_setQueueDepth_iff _ _
    · cases hb
      exact iff_of_true (h.close _) id
    · cases hf

/-- A source is held back beside a full queue throughout a history exactly if no request of it binds a
source to a full queue or lowers the bound to what is queued while the source is free. -/
theorem full_queue_holds_source_iff (owner : InterfaceId) (name : String) (rs : List (Request σ)) :
    Throughout HeldBack owner name rs ↔ Never (fun a r _ => r.Slackens a) owner name rs :=
  throughout_iff (Q := fun _ => True) trivial (fun _ _ => trivial) (fun hs => by cases hs)
    fun _ h hb => h.answer_iff hb

/-- A frame waits in a queue with two places. -/
def oneWaiting : List (Request DeviceSource) :=
  [.event (.addElement (.new { name := "eth1", script := [.block] })),
    .event (.setQueueDepth (.new 4 64) (.bounded 2)),
    .event (.bindSource (.new { name := "vif0" })), .event (.transmit (.new 4 64) [7] false 0)]

/-- Its second place is taken away. -/
def placeTaken : List (Request DeviceSource) :=
  oneWaiting ++ [.event (.setQueueDepth (.new 4 64) (.bounded 1))]

/-- The source is held back by a second frame, and then bound again. -/
def boundAgain : List (Request DeviceSource) :=
  oneWaiting ++ [.event (.transmit (.new 4 64) [8] false 0)] ++
    [.event (.bindSource (.new { name := "vif0" }))]

/-- Either way the source is free beside a full queue. -/
theorem free_beside_full_queue :
    ¬Throughout HeldBack ⟨1⟩ "wan0" placeTaken ∧ ¬Throughout HeldBack ⟨1⟩ "wan0" boundAgain := by
  rw [full_queue_holds_source_iff, full_queue_holds_source_iff]
  constructor
  · intro hno
    obtain ⟨a, ha, hshown⟩ : ∃ a, after ⟨1⟩ "wan0" oneWaiting = .ok a ∧
        (a.hasSource, a.sourceSuspended, a.queueLength) = (true, false, 1) :=
      ok_of_shown (by decide +kernel)
    simp only [Prod.mk.injEq] at hshown
    obtain ⟨hsource, hfree, hlength⟩ := hshown
    exact hno _ _ _ _ (List.prefix_refl _) ha rfl ⟨hsource, hfree, 1, rfl, Nat.le_of_eq hlength.symm⟩
  · intro hno
    obtain ⟨a, ha, hshown⟩ : ∃ a,
        after ⟨1⟩ "wan0" (oneWaiting ++ [.event (.transmit (.new 4 64) [8] false 0)]) = .ok a ∧
          (a.queue.depth, a.queueLength) = (.bounded 2, 2) :=
      ok_of_shown (by decide +kernel)
    simp only [Prod.mk.injEq] at hshown
    obtain ⟨hdepth, hlength⟩ := hshown
    exact hno _ _ _ _ (List.prefix_refl _) ha rfl ⟨2, hdepth, Nat.le_of_eq hlength.symm⟩

end MulticastRelay.Adapter
