import Mathlib.Logic.Function.Basic
import MulticastRelay.Proofs.Adapter.Storage

/-! # Buffers on loan

Holders take buffers from one pool, write and receive into them, look at them and give them back, in any
order. Storage goes from holder to holder with the octets that were left in it. Yet what a holder sees,
and what its receivers find, is told by what it did since it took its buffer.
-/
namespace MulticastRelay

/-- A buffer is empty when it is lent. -/
theorem Pool.take_octets {p q : Pool} {b : Buffer} (h : p.take? = some (b, q)) : b.octets = [] := by
  unfold take? at h
  split at h
  · cases h
    exact Storage.octets_clear _
  · split at h
    · cases h
      rfl
    · cases h

/-- A pool, as long as it is there, and the buffers on loan from it, each under its holder. -/
structure Lending where
  pool : Option Pool
  held : Nat → Option Buffer

namespace Lending

variable {ε σ : Type}

/-- What a holder may do with its buffer. A receiver ends with a count or with an error of type `ε`, and
hands out what it likes of type `σ`. -/
inductive Use (ε σ : Type) where
  | fill (bs : List UInt8)
  | receive (r : List UInt8 → Except ε Nat × List UInt8 × σ)
  /-- Replaces one octet in place. -/
  | set (i : Nat) (octet : UInt8)
  /-- Looks at the octets in view and goes on accordingly. -/
  | look (next : List UInt8 → Use ε σ)

inductive Request (ε σ : Type) where
  | take (who : Nat)
  | takeWith (who : Nat) (bs : List UInt8)
  | use (who : Nat) (u : Use ε σ)
  | giveBack (who : Nat)
  /-- The pool goes; buffers on loan stay with their holders. -/
  | close

def Request.holder? : Request ε σ → Option Nat
  | .take who | .takeWith who _ | .use who _ | .giveBack who => some who
  | .close => none

inductive Answer (ε σ : Type) where
  | granted
  | exhausted
  | notHeld
  | filled (length : Nat)
  | received (result : Except ε Nat) (s : σ)
  | changed
  /-- The place was not in view, and nothing changed. -/
  | outOfView
  | returned
  | closed

/-- One use of a buffer, with its answer. -/
def Use.apply (b : Buffer) : Use ε σ → Answer ε σ × Buffer
  | .fill bs => (.filled (b.fill bs).length, b.fill bs)
  | .receive r => (.received (b.fillWith r).1 (b.fillWith r).2.2, (b.fillWith r).2.1)
  | .set i octet =>
    match b.set? i octet with
    | some c => (.changed, c)
    | none => (.outOfView, b)
  | .look next => (next b.octets).apply b

/-- What a holder held goes back, and it holds another buffer or none. -/
def settle (l : Lending) (who : Nat) (b : Option Buffer) : Lending :=
  { pool := l.pool.map fun p => (l.held who).elim p p.put, held := Function.update l.held who b }

/-- Hands a holder the buffer that the pool has lent, if it has. -/
def hand (l : Lending) (who : Nat) : Option (Buffer × Pool) → Answer ε σ × Lending
  | none => (.exhausted, l)
  | some (b, p) => (.granted, { l with pool := some p }.settle who (some b))

/-- A holder uses its buffer. -/
def use (l : Lending) (who : Nat) (u : Use ε σ) : Answer ε σ × Lending :=
  match l.held who with
  | none => (.notHeld, l)
  | some b => ((u.apply b).1, { l with held := Function.update l.held who (some (u.apply b).2) })

def giveBack (l : Lending) (who : Nat) : Answer ε σ × Lending :=
  match l.held who with
  | none => (.notHeld, l)
  | some _ => (.returned, l.settle who none)

/-- One request, with its answer. -/
def answer (l : Lending) : Request ε σ → Answer ε σ × Lending
  | .take who => l.hand who (l.pool.bind Pool.take?)
  | .takeWith who bs => l.hand who (l.pool.bind (·.takeWith? bs))
  | .use who u => l.use who u
  | .giveBack who => l.giveBack who
  | .close => (.closed, { l with pool := none })

/-- Requests in turn, each recorded with its answer. -/
def run (l : Lending) : List (Request ε σ) → List (Request ε σ × Answer ε σ) × Lending
  | [] => ([], l)
  | r :: rs => ((r, (l.answer r).1) :: ((l.answer r).2.run rs).1, ((l.answer r).2.run rs).2)

/-- A new pool with nothing on loan. -/
def new (capacity frameSize : Nat) : Lending :=
  { pool := some (.new capacity frameSize), held := fun _ => none }

/-! ## The rule -/

/-- What a use answers and leaves in view, told from what was in view before. -/
def Use.shown (frameSize : Nat) (seen : List UInt8) : Use ε σ → Answer ε σ × List UInt8
  | .fill bs => (.filled bs.length, bs)
  | .receive r =>
    match r (List.replicate frameSize 0) with
    | (.ok n, space, s) => (.received (.ok (min n frameSize)) s, space.take (min n frameSize))
    | (.error e, _, s) => (.received (.error e) s, [])
  | .set i octet => if i < seen.length then (.changed, seen.set i octet) else (.outOfView, seen)
  | .look next => (next seen).shown frameSize seen

/-- What a holder did since it took its buffer. -/
structure Loan (ε σ : Type) where
  /-- The octets that the buffer was taken with. -/
  taken : List UInt8 := []
  uses : List (Use ε σ) := []

namespace Loan

/-- The octets in view. -/
def view (frameSize : Nat) (own : Loan ε σ) : List UInt8 :=
  own.uses.foldl (fun seen u => (u.shown frameSize seen).2) own.taken

/-- The loan of a holder after another request of its own. -/
def next (own : Option (Loan ε σ)) : Request ε σ × Answer ε σ → Option (Loan ε σ)
  | (.take _, .granted) => some {}
  | (.takeWith _ bs, .granted) => some { taken := bs }
  | (.use _ u, _) => own.map fun own => { own with uses := own.uses ++ [u] }
  | (.giveBack _, _) => none
  | _ => own

end Loan

/-- The loan of a holder, told from its own part of a record. -/
def loan (who : Nat) (record : List (Request ε σ × Answer ε σ)) : Option (Loan ε σ) :=
  (record.filter (·.1.holder? == some who)).foldl Loan.next none

/-! ## One use -/

variable {b : Buffer} {frameSize who : Nat}

/-- An answer and a buffer are what the rule says. -/
structure Use.Agrees (frameSize : Nat) (done : Answer ε σ × Buffer) (told : Answer ε σ × List UInt8) :
    Prop where
  answer : done.1 = told.1
  view : done.2.octets = told.2
  size : done.2.frameSize = frameSize

/-- What a receiver finds is blank, and what stays in view is what it left there. -/
theorem receive_agrees (b : Buffer) (r : List UInt8 → Except ε Nat × List UInt8 × σ) :
    Use.Agrees b.frameSize (Use.apply b (.receive r)) (Use.shown b.frameSize b.octets (.receive r)) := by
  unfold Use.apply Use.shown Buffer.fillWith
  rw [Buffer.octets_blank]
  obtain ⟨result, space, s⟩ := r (List.replicate b.frameSize 0)
  cases result with
  | ok n =>
    refine ⟨rfl, ?_, rfl⟩
    show Storage.octets _ = _
    rw [Storage.octets_truncate, Storage.octets_write]
  | error e => exact ⟨rfl, Storage.octets_clear _, rfl⟩

theorem set_agrees (b : Buffer) (i : Nat) (octet : UInt8) :
    Use.Agrees b.frameSize (Use.apply b (.set i octet) : Answer ε σ × Buffer)
      (Use.shown b.frameSize b.octets (.set i octet)) := by
  unfold Use.apply Use.shown Buffer.set? Buffer.length
  by_cases hi : i < b.octets.length
  · rw [if_pos hi, if_pos hi]
    exact ⟨rfl, Storage.octets_set _ _ _, rfl⟩
  · rw [if_neg hi, if_neg hi]
    exact ⟨rfl, rfl, rfl⟩

theorem apply_agrees (b : Buffer) (u : Use ε σ) :
    Use.Agrees b.frameSize (u.apply b) (u.shown b.frameSize b.octets) := by
  induction u with
  | fill bs =>
    have hview : (b.fill bs).octets = bs := b.octets_fill bs
    exact ⟨congrArg (fun octets : List UInt8 => Answer.filled octets.length) hview, hview, rfl⟩
  | receive r => exact receive_agrees b r
  | set i octet => exact set_agrees b i octet
  | look next ih => exact ih b.octets

/-! ## One request -/

variable {l : Lending} {r : Request ε σ} {own : Option (Loan ε σ)} {bs : List UInt8}

/-- The pool lends buffers of one size. -/
def Sized (frameSize : Nat) (l : Lending) : Prop := ∀ p, l.pool = some p → p.frameSize = frameSize

/-- A buffer that is offered has this size and shows these octets, and what is left of the pool keeps to
the size. -/
def Offers (frameSize : Nat) (bs : List UInt8) (lent : Option (Buffer × Pool)) : Prop :=
  ∀ b p, lent = some (b, p) → b.frameSize = frameSize ∧ b.octets = bs ∧ p.frameSize = frameSize

theorem offers_take (h : Sized frameSize l) : Offers frameSize [] (l.pool.bind Pool.take?) := by
  intro b q hlent
  obtain ⟨p, hp, ht⟩ := Option.bind_eq_some_iff.1 hlent
  obtain ⟨hb, hq⟩ := Pool.take_frameSize ht
  exact ⟨hb.trans (h p hp), Pool.take_octets ht, hq.trans (h p hp)⟩

theorem offers_takeWith (h : Sized frameSize l) (bs : List UInt8) :
    Offers frameSize bs (l.pool.bind (·.takeWith? bs)) := by
  intro b q hlent
  obtain ⟨p, hp, ht⟩ := Option.bind_eq_some_iff.1 hlent
  obtain ⟨⟨c, q⟩, hc, he⟩ := Option.map_eq_some_iff.1 ht
  cases he
  obtain ⟨hb, hq⟩ := Pool.take_frameSize hc
  exact ⟨hb.trans (h p hp), c.octets_fill bs, hq.trans (h p hp)⟩

/-- What a holder has is what the rule tells of its loan. -/
inductive Holds (frameSize : Nat) : Option Buffer → Option (Loan ε σ) → Prop where
  | nothing : Holds frameSize none none
  | buffer {b : Buffer} {own : Loan ε σ} (size : b.frameSize = frameSize)
      (view : b.octets = own.view frameSize) : Holds frameSize (some b) (some own)

theorem Holds.view {held : Option Buffer} (h : Holds frameSize held own) :
    held.map Buffer.octets = own.map (Loan.view frameSize) := by
  cases h with
  | nothing => rfl
  | buffer _ hview => exact congrArg some hview

/-- What comes of a request: buffers keep their size, the other holders have what they had, and the
holder has what its loan tells, with the request added. -/
structure Serves (frameSize : Nat) (l : Lending) (r : Request ε σ) (done : Answer ε σ × Lending) :
    Prop where
  sized : Sized frameSize done.2
  others : ∀ who, r.holder? ≠ some who → done.2.held who = l.held who
  own : ∀ who own, r.holder? = some who → Holds frameSize (l.held who) own →
    Holds frameSize (done.2.held who) (Loan.next own (r, done.1))

theorem settle_sized (h : Sized frameSize l) (who : Nat) (b : Option Buffer) :
    Sized frameSize (l.settle who b) := by
  intro p hp
  obtain ⟨q, hq, rfl⟩ := Option.map_eq_some_iff.1 hp
  cases l.held who with
  | none => exact h q hq
  | some c => exact h q hq

theorem settle_held (l : Lending) (who : Nat) (b : Option Buffer) : (l.settle who b).held who = b :=
  Function.update_self _ _ _

theorem update_held_of_ne {other : Nat} (h : some who ≠ some other) (l : Lending)
    (b : Option Buffer) : Function.update l.held who b other = l.held other :=
  Function.update_of_ne (fun he => h (congrArg some he.symm)) _ _

/-- A taking request begins a loan, unless there is nothing to lend. -/
theorem hand_serves {lent : Option (Buffer × Pool)} (h : Sized frameSize l)
    (ho : Offers frameSize bs lent) (hr : r.holder? = some who)
    (hgranted : ∀ own, Loan.next own (r, .granted) = some { taken := bs })
    (hexhausted : ∀ own, Loan.next own (r, .exhausted) = own) :
    Serves frameSize l r (l.hand who lent) := by
  cases lent with
  | none =>
    refine ⟨h, fun _ _ => rfl, ?_⟩
    rintro other own - hown
    rw [hand, hexhausted]
    exact hown
  | some lent =>
    -- whatever the holder had goes back, so the loan so far does not matter
    obtain ⟨hb, hbs, hp⟩ := ho _ _ rfl
    refine ⟨settle_sized ?_ who _, ?_, ?_⟩
    · rintro p ⟨⟩
      exact hp
    · intro other hne
      rw [hr] at hne
      exact update_held_of_ne hne _ _
    · rintro other own hother -
      cases hr.symm.trans hother
      show Holds frameSize ((settle _ who (some lent.1)).held who) (Loan.next own (r, .granted))
      rw [settle_held, hgranted]
      exact .buffer hb hbs

theorem view_concat (own : Loan ε σ) (u : Use ε σ) :
    ({ own with uses := own.uses ++ [u] } : Loan ε σ).view frameSize =
      (u.shown frameSize (own.view frameSize)).2 :=
  List.foldl_append

theorem use_serves (h : Sized frameSize l) (who : Nat) (u : Use ε σ) :
    Serves frameSize l (.use who u) (l.use who u) := by
  unfold use
  cases hheld : l.held who with
  | none =>
    refine ⟨h, fun _ _ => rfl, ?_⟩
    rintro other own ⟨⟩ hown
    rw [hheld] at hown ⊢
    cases hown
    exact .nothing
  | some b =>
    refine ⟨h, fun other hne => update_held_of_ne hne _ _, ?_⟩
    rintro other own ⟨⟩ hown
    rw [hheld] at hown
    obtain _ | ⟨hs, hv⟩ := hown
    subst hs
    have happly := apply_agrees b u
    show Holds _ (Function.update l.held who (some (u.apply b).2) who) (some _)
    rw [Function.update_self]
    refine .buffer happly.size ?_
    rw [view_concat, ← hv, happly.view]

theorem giveBack_serves (h : Sized frameSize l) (who : Nat) :
    Serves frameSize l (.giveBack who : Request ε σ) (l.giveBack who) := by
  unfold giveBack
  cases hheld : l.held who with
  | none =>
    refine ⟨h, fun _ _ => rfl, ?_⟩
    rintro other own ⟨⟩ -
    rw [hheld]
    exact .nothing
  | some b =>
    refine ⟨settle_sized h who none, fun other hne => update_held_of_ne hne _ _, ?_⟩
    rintro other own ⟨⟩ -
    show Holds frameSize ((l.settle who none).held who) none
    rw [settle_held]
    exact .nothing

theorem answer_serves (h : Sized frameSize l) (r : Request ε σ) :
    Serves frameSize l r (l.answer r) := by
  cases r with
  | take who => exact hand_serves h (offers_take h) rfl (fun _ => rfl) fun _ => rfl
  | takeWith who bs => exact hand_serves h (offers_takeWith h bs) rfl (fun _ => rfl) fun _ => rfl
  | use who u => exact use_serves h who u
  | giveBack who => exact giveBack_serves h who
  | close => exact ⟨nofun, fun _ _ => rfl, nofun⟩

/-- A use is answered as the rule says. -/
theorem use_answer (h : Holds frameSize (l.held who) own) (u : Use ε σ) :
    (l.use who u).1 = own.elim .notHeld fun own => (u.shown frameSize (own.view frameSize)).1 := by
  unfold use
  generalize l.held who = held at h
  cases h with
  | nothing => rfl
  | buffer hs hv =>
    subst hs
    rw [Option.elim_some, ← hv]
    exact (apply_agrees _ u).answer

/-! ## Runs -/

theorem new_sized (capacity frameSize : Nat) : Sized frameSize (new capacity frameSize) := by
  rintro p ⟨⟩
  rfl

theorem run_holds (h : Sized frameSize l) (hown : Holds frameSize (l.held who) own)
    (rs : List (Request ε σ)) :
    Holds frameSize ((l.run rs).2.held who)
      (((l.run rs).1.filter (·.1.holder? == some who)).foldl Loan.next own) := by
  induction rs generalizing l own with
  | nil => exact hown
  | cons r rs ih =>
    have hserves := answer_serves h r
    rw [run, List.filter_cons]
    split
    · next hr => exact ih hserves.sized (hserves.own who own (eq_of_beq hr) hown)
    · next hr =>
      -- what another holder asks is not in the loan, and leaves this holder's buffer alone
      refine ih hserves.sized ?_
      rwa [hserves.others who fun he => hr (beq_iff_eq.2 he)]

/-- The requests and answers since a pool was new. -/
def record (capacity frameSize : Nat) (rs : List (Request ε σ)) : List (Request ε σ × Answer ε σ) :=
  ((new capacity frameSize).run rs).1

/-- Who holds what after requests, from a new pool on. -/
def after (capacity frameSize : Nat) (rs : List (Request ε σ)) : Lending :=
  ((new capacity frameSize).run rs).2

/-- After any requests what a holder sees, and what it will be answered, is told by its own loan: what
it took and what it did since. The rule knows neither the storage nor what anyone did before, so the
same loan looks the same after any other requests, and in a pool of any number of buffers. -/
theorem loans_carry_nothing_over (frameSize who : Nat) :
    (∀ (capacity : Nat) (rs : List (Request ε σ)),
      ((after capacity frameSize rs).held who).map Buffer.octets =
          (loan who (record capacity frameSize rs)).map (Loan.view frameSize) ∧
        ∀ u : Use ε σ, ((after capacity frameSize rs).answer (.use who u)).1 =
          (loan who (record capacity frameSize rs)).elim .notHeld fun own =>
            (u.shown frameSize (own.view frameSize)).1) ∧
      ∀ (capacity₁ capacity₂ : Nat) (rs₁ rs₂ : List (Request ε σ)),
        loan who (record capacity₁ frameSize rs₁) = loan who (record capacity₂ frameSize rs₂) →
          ((after capacity₁ frameSize rs₁).held who).map Buffer.octets =
              ((after capacity₂ frameSize rs₂).held who).map Buffer.octets ∧
            ∀ u : Use ε σ, ((after capacity₁ frameSize rs₁).answer (.use who u)).1 =
              ((after capacity₂ frameSize rs₂).answer (.use who u)).1 := by
  have hholds : ∀ (capacity : Nat) (rs : List (Request ε σ)),
      Holds frameSize ((after capacity frameSize rs).held who)
        (loan who (record capacity frameSize rs)) := fun capacity rs =>
    run_holds (new_sized capacity frameSize) .nothing rs
  refine ⟨fun capacity rs => ⟨(hholds capacity rs).view, use_answer (hholds capacity rs)⟩, ?_⟩
  intro capacity₁ capacity₂ rs₁ rs₂ hsame
  have hfirst := hholds capacity₁ rs₁
  rw [hsame] at hfirst
  have hsecond := hholds capacity₂ rs₂
  refine ⟨hfirst.view.trans hsecond.view.symm, fun u => ?_⟩
  exact (use_answer hfirst u).trans (use_answer hsecond u).symm

/-! ## A storage with a past -/

/-- A receiver that writes one octet and claims nine. It hands out what it found. -/
def boast (space : List UInt8) : Except Unit Nat × List UInt8 × List UInt8 :=
  (.ok 9, 7 :: space.drop 1, space)

/-- A holder receives into the storage that another has left full. -/
def recycled : List (Request Unit (List UInt8)) :=
  [.takeWith 0 [9, 9, 9, 9, 9, 9], .giveBack 0, .take 1, .use 1 (.receive boast)]

/-- A holder receives into a storage of its own, while another keeps a buffer. -/
def undisturbed : List (Request Unit (List UInt8)) :=
  [.take 0, .take 1, .use 0 (.fill [5]), .use 1 (.receive boast)]

/-- The octets of the earlier frame are still in the storage, behind those in view, and both holders see
one octet and three zeros, as another receiver finds four zeros. -/
theorem recycled_shows_nothing :
    ((after 1 4 recycled).held 1).map (·.storage.cells) = some [7, 0, 0, 0, 9, 9] ∧
      loan 1 (record 1 4 recycled) = loan 1 (record 2 4 undisturbed) ∧
      ((after 1 4 recycled).held 1).map Buffer.octets = some [7, 0, 0, 0] ∧
      ((after 1 4 recycled).held 1).map Buffer.octets =
        ((after 2 4 undisturbed).held 1).map Buffer.octets ∧
      ((after 2 4 undisturbed).answer (.use 1 (.receive boast))).1 =
        .received (.ok 4) [0, 0, 0, 0] := by
  have hsame : loan 1 (record 1 4 recycled) = loan 1 (record 2 4 undisturbed) := rfl
  obtain ⟨htold, hruns⟩ := loans_carry_nothing_over (ε := Unit) (σ := List UInt8) 4 1
  obtain ⟨hview, -⟩ := htold 1 recycled
  obtain ⟨hviews, hanswers⟩ := hruns 1 2 recycled undisturbed hsame
  exact ⟨rfl, hsame, hview, hviews, (hanswers (.receive boast)).symm.trans rfl⟩

end Lending
end MulticastRelay
