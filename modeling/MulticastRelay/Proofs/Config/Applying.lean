import MulticastRelay.Config.Apply
import MulticastRelay.Proofs.Config.Filling

/-! # Applying a configuration

A step of an application leads from one condition on the node to another when it succeeds.
Interfaces keep the portrait, and each group adds its entry.
-/
namespace MulticastRelay.Config

namespace Applying

variable {α β : Type} {P : Node → Prop} {Q : α → Node → Prop} {R : β → Node → Prop} {x : Applying α}

/-- Where the step succeeds, it brings a node of which `P` holds to one of which `Q` holds. -/
def Leads (P : Node → Prop) (x : Applying α) (Q : α → Node → Prop) : Prop :=
  ∀ n a m, P n → x.run.run n = .ok (.ok a, m) → Q a m

/-- A step that fails leaves nothing to the next one. -/
theorem run_bind (x : Applying α) (f : α → Applying β) (n : Node) :
    (x >>= f).run.run n = x.run.run n >>= fun p =>
      match p with
      | (.ok a, k) => (f a).run.run k
      | (.error e, k) => .ok (.error e, k) := by
  rw [ExceptT.run_bind, StateT.run_bind]
  refine bind_congr fun p => ?_
  obtain ⟨r, k⟩ := p
  cases r <;> rfl

theorem leads_bind {f : α → Applying β} (hx : Leads P x Q) (hf : ∀ a, Leads (Q a) (f a) R) :
    Leads P (x >>= f) R := by
  intro n b m hn hr
  rw [run_bind] at hr
  cases hc : x.run.run n with
  | error e =>
    rw [hc] at hr
    cases hr
  | ok p =>
    obtain ⟨r, k⟩ := p
    rw [hc] at hr
    cases r with
    | error e => cases hr
    | ok a => exact hf a k b m (hx n a k hn hc) hr

/-- A fact apart from the node is taken out of the condition. -/
theorem leads_of_fact {p : Prop} (h : p → Leads P x Q) : Leads (fun n => p ∧ P n) x Q :=
  fun n a m hn hr => h hn.1 n a m hn.2 hr

theorem leads_weaken {R : α → Node → Prop} (hx : Leads P x Q) (h : ∀ a n, Q a n → R a n) :
    Leads P x R :=
  fun n a m hn hr => h a m (hx n a m hn hr)

def Keeps (P : Node → Prop) (x : Applying α) : Prop := Leads P x fun _ => P

theorem keeps_bind {f : α → Applying β} (hx : Keeps P x) (hf : ∀ a, Keeps P (f a)) :
    Keeps P (x >>= f) :=
  leads_bind hx hf

theorem leads_pure {a : α} (h : ∀ n, P n → Q a n) : Leads P (pure a) Q := by
  intro n b m hn hr
  cases hr
  exact h n hn

theorem leads_throw {e : ConfigError} : Leads P (throw e : Applying α) Q := by
  intro n b m hn hr
  cases hr

theorem leads_lift {r : Except ConfigError α} (h : ∀ a n, r = .ok a → P n → Q a n) :
    Leads P (liftM r : Applying α) Q := by
  intro n b m hn hr
  cases r with
  | error e => cases hr
  | ok a =>
    cases hr
    exact h _ _ rfl hn

theorem leads_get : Leads P (get : Applying Node) fun k n => k = n ∧ P n := by
  intro n k m hn hr
  cases hr
  exact ⟨rfl, hn⟩

theorem leads_set {k : Node} {R : Unit → Node → Prop} (h : ∀ n, P n → R () k) :
    Leads P (set k : Applying Unit) R := by
  intro n a m hn hr
  cases hr
  exact h n hn

theorem leads_modify {f : Node → Node} {R : Unit → Node → Prop} (h : ∀ n, P n → R () (f n)) :
    Leads P (modify f : Applying Unit) R := by
  intro n a m hn hr
  cases hr
  exact h n hn

theorem leads_clock {r : Except ClockFault α} :
    Leads P (liftM (monadLift r : StateT Node (Except ClockFault) α) : Applying α) fun a n =>
      r = .ok a ∧ P n := by
  intro n a m hn hr
  cases r with
  | error e => cases hr
  | ok b =>
    cases hr
    exact ⟨rfl, hn⟩

theorem leads_step {f : Node → Except NodeError α × Node}
    (h : ∀ n a m, P n → f n = (.ok a, m) → Q a m) : Leads P (step f) Q := by
  refine leads_bind leads_get fun k => ?_
  cases hf : f k with
  | mk r j =>
    refine leads_bind (leads_set (R := fun _ m => m = j ∧ P k) fun n hn => ⟨rfl, hn.1 ▸ hn.2⟩)
      fun _ => ?_
    cases r with
    | error e => exact leads_throw
    | ok b => exact leads_pure fun n hn => hn.1 ▸ h k b j hn.2 hf

theorem leads_change {f : Node → Except NodeError Node} {R : Unit → Node → Prop}
    (h : ∀ n m, P n → f n = .ok m → R () m) : Leads P (change f) R := by
  refine leads_step fun n a m hn hf => ?_
  cases hc : f n with
  | error e =>
    rw [hc] at hf
    cases hf
  | ok k =>
    rw [hc] at hf
    cases hf
    exact h n _ hn hc

theorem keeps_change {f : Node → Except NodeError Node} (h : ∀ n m, P n → f n = .ok m → P m) :
    Keeps P (change f) :=
  leads_change h

theorem keeps_forM {l : List β} {f : β → Applying Unit} (h : ∀ b, Keeps P (f b)) :
    Keeps P (l.forM f) := by
  induction l with
  | nil => exact leads_pure fun _ hn => hn
  | cons b l ih => exact keeps_bind (h b) fun _ => ih

/-- A loop over a list keeps a condition on how much of it is done. -/
theorem leads_forM {l : List β} {I : List β → Node → Prop} {f : β → Applying Unit}
    (h : ∀ done b rest, l = done ++ b :: rest → Leads (I done) (f b) fun _ => I (done ++ [b])) :
    Leads (I []) (l.forM f) fun _ => I l := by
  have hfrom : ∀ rest done, l = done ++ rest → Leads (I done) (rest.forM f) fun _ => I l := by
    intro rest
    induction rest with
    | nil =>
      intro done hl
      rw [List.append_nil] at hl
      subst hl
      exact leads_pure fun _ hn => hn
    | cons b rest ih =>
      intro done hl
      refine leads_bind (h done b rest hl) fun _ => ih (done ++ [b]) ?_
      rw [hl, List.append_assoc]
      rfl
  exact hfrom l [] rfl

end Applying
end MulticastRelay.Config
