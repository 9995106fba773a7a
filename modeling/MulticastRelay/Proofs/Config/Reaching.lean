import MulticastRelay.Proofs.Config.Applying

/-! # Steps that succeed

A step of an application that succeeds from every node of one condition, and what it reaches then.
-/
namespace MulticastRelay.Config.Applying

variable {α β : Type} {P : Node → Prop} {Q : α → Node → Prop} {R : β → Node → Prop} {x : Applying α}

/-- From a node of which `P` holds the step succeeds, and brings about one of which `Q` holds. -/
def Reaches (P : Node → Prop) (x : Applying α) (Q : α → Node → Prop) : Prop :=
  ∀ n, P n → ∃ a m, x.run.run n = .ok (.ok a, m) ∧ Q a m

theorem reaches_bind {f : α → Applying β} (hx : Reaches P x Q) (hf : ∀ a, Reaches (Q a) (f a) R) :
    Reaches P (x >>= f) R := by
  intro n hn
  obtain ⟨a, k, hk, hq⟩ := hx n hn
  obtain ⟨b, m, hm, hr⟩ := hf a k hq
  refine ⟨b, m, ?_, hr⟩
  rw [run_bind, hk]
  exact hm

theorem reaches_of_fact {p : Prop} (h : p → Reaches P x Q) : Reaches (fun n => p ∧ P n) x Q :=
  fun n hn => h hn.1 n hn.2

theorem reaches_pure {a : α} (h : ∀ n, P n → Q a n) : Reaches P (pure a) Q :=
  fun n hn => ⟨a, n, rfl, h n hn⟩

theorem reaches_lift {r : Except ConfigError α} {a : α} (hr : r = .ok a) :
    Reaches P (liftM r : Applying α) fun b n => b = a ∧ P n := by
  subst hr
  exact fun n hn => ⟨a, n, rfl, rfl, hn⟩

theorem reaches_get : Reaches P (get : Applying Node) fun k n => k = n ∧ P n :=
  fun n hn => ⟨n, n, rfl, rfl, hn⟩

theorem reaches_modify {f : Node → Node} {R : Unit → Node → Prop} (h : ∀ n, P n → R () (f n)) :
    Reaches P (modify f : Applying Unit) R :=
  fun n hn => ⟨(), f n, rfl, h n hn⟩

theorem reaches_step {f : Node → Except NodeError α × Node}
    (h : ∀ n, P n → ∃ a m, f n = (.ok a, m) ∧ Q a m) : Reaches P (step f) Q := by
  refine reaches_bind reaches_get fun k => ?_
  rintro n ⟨rfl, hn⟩
  obtain ⟨a, m, hf, hq⟩ := h k hn
  rw [hf]
  exact ⟨a, m, rfl, hq⟩

theorem reaches_change {f : Node → Except NodeError Node} {R : Unit → Node → Prop}
    (h : ∀ n, P n → ∃ m, f n = .ok m ∧ R () m) : Reaches P (change f) R := by
  refine reaches_step fun n hn => ?_
  obtain ⟨m, hm, hr⟩ := h n hn
  exact ⟨(), m, by rw [hm], hr⟩

theorem reaches_setRate {name : String} {rate : Float} {now : Instant} {R : Unit → Node → Prop}
    (h : ∀ n, P n → ∃ m, n.setRateLimit name rate now = .ok (.ok m) ∧ R () m) :
    Reaches P (setRate name rate now) R := by
  refine reaches_bind reaches_get fun k => ?_
  rintro n ⟨rfl, hn⟩
  obtain ⟨m, hm, hr⟩ := h k hn
  rw [hm]
  exact ⟨(), m, rfl, hr⟩

/-- A loop over a list reaches what its steps reach one after another. -/
theorem reaches_forM {l : List β} {I : List β → Node → Prop} {f : β → Applying Unit}
    (h : ∀ done b rest, l = done ++ b :: rest → Reaches (I done) (f b) fun _ => I (done ++ [b])) :
    Reaches (I []) (l.forM f) fun _ => I l := by
  have hfrom : ∀ rest done, l = done ++ rest → Reaches (I done) (rest.forM f) fun _ => I l := by
    intro rest
    induction rest with
    | nil =>
      intro done hl
      rw [List.append_nil] at hl
      subst hl
      exact reaches_pure fun _ hn => hn
    | cons b rest ih =>
      intro done hl
      refine reaches_bind (h done b rest hl) fun _ => ih (done ++ [b]) ?_
      rw [hl, List.append_assoc]
      rfl
  exact hfrom l [] rfl

end MulticastRelay.Config.Applying
