import Mathlib.Data.List.Forall2
import Mathlib.Data.Nat.Digits.Defs
import Mathlib.Tactic.Ring
import MulticastRelay.Config.Apply
import MulticastRelay.Proofs.LinkAddress

/-! # Texts of link addresses

A link address in a configuration is six numerals between colons. A numeral is hexadecimal, of either
case and any length, may have a plus sign before it, and stands for an octet. Exactly the texts of this
form are read, each as the address of its numerals, and the written form of an address is one of them.
-/
namespace MulticastRelay

namespace Text

/-! ## Numerals -/

def upperDigits : List Char :=
  ['0', '1', '2', '3', '4', '5', '6', '7', '8', '9', 'A', 'B', 'C', 'D', 'E', 'F']

/-- A hexadecimal digit and its value: the digit's place among the sixteen of its case. -/
def IsHexDigit (c : Char) (v : Nat) : Prop := lowerDigits[v]? = some c ∨ upperDigits[v]? = some c

instance (c : Char) (v : Nat) : Decidable (IsHexDigit c v) :=
  inferInstanceAs (Decidable (_ ∨ _))

/-- A hexadecimal numeral and its value: at least one digit, the most significant first, after a plus
sign or none. -/
def IsHexNumeral (cs : List Char) (n : Nat) : Prop :=
  ∃ digits values, (cs = digits ∨ cs = '+' :: digits) ∧ digits ≠ [] ∧
    List.Forall₂ IsHexDigit digits values ∧ n = Nat.ofDigits 16 values.reverse

variable {c : Char} {cs : List Char} {n v : Nat}

theorem IsHexDigit.lt (h : IsHexDigit c v) : v < 16 := by
  rcases h with h | h <;> exact (List.getElem?_eq_some_iff.1 h).1

theorem digitBelow?_of_isHexDigit (h : IsHexDigit c v) : digitBelow? 16 c = some v := by
  have hall : ∀ v < 16, lowerDigits[v]? >>= digitBelow? 16 = some v ∧
      upperDigits[v]? >>= digitBelow? 16 = some v := by decide
  obtain ⟨hlower, hupper⟩ := hall v h.lt
  rcases h with h | h
  · rwa [h] at hlower
  · rwa [h] at hupper

/-- The digits lie among the first characters, where they can be gone through. -/
theorem toNat_lt_of_digitBelow? (h : digitBelow? 16 c = some v) : c.toNat < 103 ∧ v < 16 := by
  obtain ⟨hv, hlt⟩ := Option.filter_eq_some_iff.1 h
  refine ⟨?_, of_decide_eq_true hlt⟩
  unfold digitValue? at hv
  split_ifs at hv with h0 ha hA
  · have hle : c.toNat ≤ 57 := h0.2
    omega
  · have hle : c.toNat ≤ 102 := ha.2
    omega
  · have hle : c.toNat ≤ 70 := hA.2
    omega

theorem digitBelow?_eq_some_iff : digitBelow? 16 c = some v ↔ IsHexDigit c v := by
  refine ⟨fun h => ?_, digitBelow?_of_isHexDigit⟩
  have hall : ∀ k < 103, ∀ v < 16, digitBelow? 16 (Char.ofNat k) = some v →
      IsHexDigit (Char.ofNat k) v := by decide +kernel
  obtain ⟨hk, hv⟩ := toNat_lt_of_digitBelow? h
  have hc := hall c.toNat hk v hv
  rw [Char.ofNat_toNat] at hc
  exact hc h

theorem not_isHexDigit (h : digitBelow? 16 c = none) : ¬IsHexDigit c v := by
  rw [← digitBelow?_eq_some_iff, h]
  exact nofun

/-- Digits after others that have been read as `m`. -/
theorem foldlM_digitBelow?_eq_some_iff (m : Nat) :
    cs.foldlM (fun acc c => (digitBelow? 16 c).map (acc * 16 + ·)) m = some n ↔
      ∃ values, List.Forall₂ IsHexDigit cs values ∧
        n = m * 16 ^ cs.length + Nat.ofDigits 16 values.reverse := by
  induction cs generalizing m with
  | nil => simp [List.forall₂_nil_left_iff, eq_comm]
  | cons c cs ih =>
    have hshift : ∀ v values, List.Forall₂ IsHexDigit cs values →
        m * 16 ^ (c :: cs).length + Nat.ofDigits 16 (v :: values).reverse =
          (m * 16 + v) * 16 ^ cs.length + Nat.ofDigits 16 values.reverse := by
      intro v values hvalues
      rw [List.reverse_cons, Nat.ofDigits_append, Nat.ofDigits_singleton, List.length_reverse,
        ← hvalues.length_eq, List.length_cons]
      ring
    rw [List.foldlM_cons, Option.bind_eq_bind, Option.bind_eq_some_iff]
    constructor
    · rintro ⟨k, hk, hn⟩
      obtain ⟨v, hv, rfl⟩ := Option.map_eq_some_iff.1 hk
      obtain ⟨values, hvalues, rfl⟩ := (ih _).1 hn
      exact ⟨v :: values, .cons (digitBelow?_eq_some_iff.1 hv) hvalues, (hshift v values hvalues).symm⟩
    · rintro ⟨_, hall, rfl⟩
      obtain _ | @⟨_, v, _, values, hv, hvalues⟩ := hall
      refine ⟨m * 16 + v, by rw [digitBelow?_eq_some_iff.2 hv]; rfl, (ih _).2 ⟨values, hvalues, ?_⟩⟩
      exact hshift v values hvalues

theorem digitsValue?_eq_some_iff : digitsValue? 16 cs = some n ↔
    ∃ values, List.Forall₂ IsHexDigit cs values ∧ n = Nat.ofDigits 16 values.reverse := by
  rw [digitsValue?, foldlM_digitBelow?_eq_some_iff]
  simp

/-- What a numeral is once its sign is off. -/
theorem digits_eq_some_iff {bound : Nat} :
    (if cs.isEmpty then none else (digitsValue? 16 cs).filter (· < bound)) = some n ↔
      ∃ values, cs ≠ [] ∧ List.Forall₂ IsHexDigit cs values ∧
        n = Nat.ofDigits 16 values.reverse ∧ n < bound := by
  cases cs with
  | nil => simp
  | cons c cs =>
    simp only [List.isEmpty_cons, Bool.false_eq_true, if_false, Option.filter_eq_some_iff,
      digitsValue?_eq_some_iff, decide_eq_true_eq]
    constructor
    · rintro ⟨⟨values, hdigits, hv⟩, hn⟩
      exact ⟨values, List.cons_ne_nil c cs, hdigits, hv, hn⟩
    · rintro ⟨values, -, hdigits, hv, hn⟩
      exact ⟨⟨values, hdigits, hv⟩, hn⟩

theorem unsigned?_unsigned (base bound : Nat) (h : ∀ rest, cs ≠ '+' :: rest) :
    unsigned? base bound cs =
      if cs.isEmpty then none else (digitsValue? base cs).filter (· < bound) := by
  unfold unsigned?
  split
  · next rest => exact absurd rfl (h rest)
  · rfl

theorem unsigned?_eq_some_iff {bound : Nat} :
    unsigned? 16 bound cs = some n ↔ IsHexNumeral cs n ∧ n < bound := by
  constructor
  · intro h
    by_cases hplus : ∃ rest, cs = '+' :: rest
    · obtain ⟨rest, rfl⟩ := hplus
      obtain ⟨values, hne, hdigits, hv, hn⟩ := digits_eq_some_iff.1 h
      exact ⟨⟨rest, values, .inr rfl, hne, hdigits, hv⟩, hn⟩
    · rw [unsigned?_unsigned 16 bound fun rest hrest => hplus ⟨rest, hrest⟩] at h
      obtain ⟨values, hne, hdigits, hv, hn⟩ := digits_eq_some_iff.1 h
      exact ⟨⟨cs, values, .inl rfl, hne, hdigits, hv⟩, hn⟩
  · rintro ⟨⟨digits, values, hcs, hne, hdigits, hv⟩, hn⟩
    have hread := digits_eq_some_iff.2 ⟨values, hne, hdigits, hv, hn⟩
    rcases hcs with rfl | rfl
    · rw [unsigned?_unsigned 16 bound, hread]
      -- a run of digits does not begin with the sign
      rintro rest rfl
      cases hdigits with
      | cons hplus => exact not_isHexDigit (by decide) hplus
    · exact hread

/-- What a relation says of its left side holds of all that stands on the left. -/
theorem forall_left_of_forall₂ {α β : Type} {R : α → β → Prop} {p : α → Prop} {xs : List α}
    {ys : List β} (h : List.Forall₂ R xs ys) (hp : ∀ x y, R x y → p x) : ∀ x ∈ xs, p x :=
  ((List.forall₂_and_left xs ys).1 (h.imp fun x y hr => ⟨hp x y hr, hr⟩)).1

theorem colon_not_mem_of_isHexNumeral (h : IsHexNumeral cs n) : ':' ∉ cs := by
  obtain ⟨digits, values, hcs, -, hdigits, -⟩ := h
  have hno : ∀ c v, IsHexDigit c v → c ≠ ':' := by
    rintro c v hc rfl
    exact not_isHexDigit (by decide) hc
  have hmem : ':' ∉ digits := fun hc => forall_left_of_forall₂ hdigits hno ':' hc rfl
  rcases hcs with rfl | rfl
  · exact hmem
  · simpa using hmem

theorem join_eq_intercalate (sep : Char) (fs : List (List Char)) :
    join sep fs = [sep].intercalate fs := by
  induction fs with
  | nil => rfl
  | cons f fs ih =>
    cases fs with
    | nil => simp [join]
    | cons g fs => rw [join, ih, List.intercalate_cons_cons, List.append_assoc]; rfl

end Text

namespace LinkAddress

open Text

/-! ## Addresses -/

/-- The text is six numerals between colons, and they stand for the octets of the address in order. -/
def Spelled (text : String) (a : LinkAddress) : Prop :=
  ∃ (fs : List (List Char)) (values : List Nat),
    text.toList = [':'].intercalate fs ∧ fs.length = 6 ∧ List.Forall₂ IsHexNumeral fs values ∧
    (∀ v ∈ values, v ≤ 255) ∧ a.octets = values.map UInt8.ofNat

variable {text : String} {a : LinkAddress}

theorem field?_eq_some_iff {cs : List Char} {o : UInt8} :
    field? cs = some o ↔ ∃ v, IsHexNumeral cs v ∧ v ≤ 255 ∧ o = UInt8.ofNat v := by
  simp only [field?, Option.map_eq_some_iff, unsigned?_eq_some_iff, Nat.lt_succ_iff, and_assoc,
    eq_comm (a := o)]

theorem mapM_field?_eq_some_iff {fs : List (List Char)} {os : List UInt8} :
    fs.mapM field? = some os ↔ ∃ values, List.Forall₂ IsHexNumeral fs values ∧
      (∀ v ∈ values, v ≤ 255) ∧ os = values.map UInt8.ofNat := by
  induction fs generalizing os with
  | nil => simp [List.forall₂_nil_left_iff, eq_comm]
  | cons f fs ih =>
    simp only [List.mapM_cons, Option.bind_eq_bind, Option.bind_eq_some_iff, Option.pure_def,
      Option.some.injEq]
    constructor
    · rintro ⟨o, ho, os, hos, rfl⟩
      obtain ⟨v, hv, hle, rfl⟩ := field?_eq_some_iff.1 ho
      obtain ⟨values, hvalues, hall, rfl⟩ := ih.1 hos
      exact ⟨v :: values, .cons hv hvalues, List.forall_mem_cons.2 ⟨hle, hall⟩, rfl⟩
    · rintro ⟨_, hall, hle, rfl⟩
      obtain _ | @⟨_, v, _, values, hv, hvalues⟩ := hall
      obtain ⟨hle, hall⟩ := List.forall_mem_cons.1 hle
      exact ⟨_, field?_eq_some_iff.2 ⟨v, hv, hle, rfl⟩, _, ih.2 ⟨values, hvalues, hall, rfl⟩, rfl⟩

/-- The fields of a spelled address are those that cutting at the colons finds. -/
theorem fields_intercalate {fs : List (List Char)} {values : List Nat} (hlen : fs.length = 6)
    (h : List.Forall₂ IsHexNumeral fs values) : fields ':' ([':'].intercalate fs) = fs := by
  rw [← join_eq_intercalate]
  exact fields_join (List.ne_nil_of_length_pos (by omega))
    (forall_left_of_forall₂ h fun _ _ => colon_not_mem_of_isHexNumeral)

theorem ofOctets?_eq_some_iff {os : List UInt8} : ofOctets? os = some a ↔ a.octets = os := by
  unfold ofOctets?
  constructor
  · intro h
    split at h
    · cases h
      rfl
    · cases h
  · rintro rfl
    rw [dif_pos a.length_octets]

theorem parse?_eq_some_iff : parse? text = some a ↔ Spelled text a := by
  rw [parse?, ofChars?, Option.bind_eq_bind, Option.bind_eq_some_iff]
  constructor
  · rintro ⟨os, hos, ha⟩
    obtain ⟨values, hvalues, hle, rfl⟩ := mapM_field?_eq_some_iff.1 hos
    have ha := ofOctets?_eq_some_iff.1 ha
    refine ⟨_, values, ?_, ?_, hvalues, hle, ha⟩
    · rw [← join_eq_intercalate, join_fields]
    · rw [hvalues.length_eq, ← a.length_octets, ha, List.length_map]
  · rintro ⟨fs, values, htext, hlen, hvalues, hle, ha⟩
    refine ⟨values.map UInt8.ofNat, ?_, ofOctets?_eq_some_iff.2 ha⟩
    rw [htext, fields_intercalate hlen hvalues]
    exact mapM_field?_eq_some_iff.2 ⟨values, hvalues, hle, rfl⟩

end LinkAddress

namespace Config

open LinkAddress

theorem linkAddress_eq_ok_iff {text : String} {a : LinkAddress} :
    linkAddress text = .ok a ↔ parse? text = some a := by
  unfold linkAddress
  cases parse? text <;> simp

theorem linkAddress_eq_error_iff {text : String} {e : ConfigError} :
    linkAddress text = .error e ↔
      parse? text = none ∧ e = .invalid ("Invalid link address: " ++ text) := by
  unfold linkAddress
  cases parse? text <;> simp [eq_comm]

/-- Exactly the texts that spell an address are read, each as that address. Any other text is named as
invalid, and the written form of an address spells it. -/
theorem linkAddress_reads_spelled :
    (∀ text a, linkAddress text = .ok a ↔ Spelled text a) ∧
      (∀ text, linkAddress text = .error (.invalid ("Invalid link address: " ++ text)) ↔
        ∀ a, ¬Spelled text a) ∧
      ∀ a : LinkAddress, linkAddress a.render = .ok a := by
  refine ⟨?_, ?_, ?_⟩
  · intro text a
    rw [linkAddress_eq_ok_iff, parse?_eq_some_iff]
  · intro text
    simp only [linkAddress_eq_error_iff, ← parse?_eq_some_iff, and_true,
      Option.eq_none_iff_forall_ne_some]
  · intro a
    rw [linkAddress_eq_ok_iff, parse?_render]

/-- A sign, leading zeros and either case are read; an empty field, a seventh field and a value above
that of an octet are not. -/
example :
    linkAddress "+2:0aF:0:00:000:ff" = .ok ⟨[2, 0xaf, 0, 0, 0, 0xff], rfl⟩ ∧
      ["2:af:0:0::ff", "2:af:0:0:0:ff:", "2:af:0:0:0:100", "2:af:0:0:0:+", "2:af:0:0:0"].all
        (parse? · == none) := by
  decide +kernel

end Config
end MulticastRelay
