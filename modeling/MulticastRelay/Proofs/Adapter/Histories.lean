import Mathlib.Data.List.Induction
import MulticastRelay.Proofs.Adapter.Metering

/-! # Histories of an adapter

An adapter starts new and answers one request after the other. What held throughout a history is told
from its single requests, each with the adapter before and after it.
-/
namespace MulticastRelay.Adapter

variable {σ : Type} [FrameSource σ] {owner : InterfaceId} {name : String} {a b : Adapter σ}
  {rs past : List (Request σ)} {r : Request σ} {P Q : Adapter σ → Prop}
  {Breaks : Adapter σ → Request σ → Adapter σ → Prop}

/-- The adapter after a history. -/
def after (owner : InterfaceId) (name : String) (rs : List (Request σ)) :
    Except ClockFault (Adapter σ) :=
  rs.foldlM answer (new owner name)

theorem after_concat (past : List (Request σ)) (r : Request σ) :
    after owner name (past ++ [r]) = (after owner name past >>= (·.answer r)) := by
  unfold after
  rw [List.foldlM_append]
  congr 1
  funext a
  rw [List.foldlM_cons]
  cases a.answer r <;> rfl

theorem after_answer (ha : after owner name past = .ok a) (hb : a.answer r = .ok b) :
    after owner name (past ++ [r]) = .ok b :=
  (after_concat past r).trans (answer_after ha hb)

/-- What every request keeps holds after every history. -/
theorem after_keeps (h : P (new owner name))
    (hstep : ∀ {a b : Adapter σ} {r}, P a → a.answer r = .ok b → P b)
    (ha : after owner name rs = .ok a) : P a := by
  induction rs using List.reverseRecOn generalizing a with
  | nil =>
    cases ha
    exact h
  | append_singleton past r ih =>
    rw [after_concat] at ha
    obtain ⟨c, hc, ha⟩ := ok_of_bind ha
    exact hstep (ih hc) ha

/-- A property holds of the new adapter and after each request of a history. -/
def Throughout (P : Adapter σ → Prop) (owner : InterfaceId) (name : String)
    (rs : List (Request σ)) : Prop :=
  ∀ past a, past <+: rs → after owner name past = .ok a → P a

/-- No request of a history did this. -/
def Never (Breaks : Adapter σ → Request σ → Adapter σ → Prop) (owner : InterfaceId)
    (name : String) (rs : List (Request σ)) : Prop :=
  ∀ past r a b, past ++ [r] <+: rs → after owner name past = .ok a → a.answer r = .ok b →
    ¬Breaks a r b

/-- Where certain requests break a property and no others do, it holds throughout the histories
without such a request and no others. The adapters on the way may be assumed to have what every
request keeps. -/
theorem throughout_iff (hQ : Q (new owner name))
    (hkeeps : ∀ {a b : Adapter σ} {r}, Q a → a.answer r = .ok b → Q b) (hP : P (new owner name))
    (hstep : ∀ {a b : Adapter σ} {r}, Q a → P a → a.answer r = .ok b → (P b ↔ ¬Breaks a r b)) :
    Throughout P owner name rs ↔ Never Breaks owner name rs := by
  constructor
  · intro hall past r a b hr ha hb
    have hpast : P a := hall past a ((List.prefix_append past [r]).trans hr) ha
    exact (hstep (after_keeps hQ hkeeps ha) hpast hb).1 (hall _ b hr (after_answer ha hb))
  · intro hno past
    induction past using List.reverseRecOn with
    | nil =>
      intro a _ ha
      cases ha
      exact hP
    | append_singleton past r ih =>
      intro b hr hb
      rw [after_concat] at hb
      obtain ⟨a, ha, hb⟩ := ok_of_bind hb
      have hpast : P a := ih a ((List.prefix_append past [r]).trans hr) ha
      exact (hstep (after_keeps hQ hkeeps ha) hpast hb).2 (hno past r a b hr ha hb)

end MulticastRelay.Adapter
