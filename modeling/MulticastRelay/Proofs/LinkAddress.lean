import MulticastRelay.LinkAddress

/-! # Written link addresses

An address reads back from its written form. A text is the written form of an address if it is six
pairs of lower-case digits between colons.
-/
namespace MulticastRelay

namespace Text

variable {sep : Char} {f : List Char} {fs : List (List Char)}

theorem fields_append (h : sep ∉ f) (cs : List Char) :
    fields sep (f ++ sep :: cs) = f :: fields sep cs := by
  induction f with
  | nil => simp [fields]
  | cons c f ih =>
    obtain ⟨hc, hf⟩ := not_or.1 (mt List.mem_cons.2 h)
    have hc : ¬c = sep := fun he => hc he.symm
    rw [List.cons_append, fields, if_neg hc, ih hf]

theorem fields_self (h : sep ∉ f) : fields sep f = [f] := by
  induction f with
  | nil => rfl
  | cons c f ih =>
    obtain ⟨hc, hf⟩ := not_or.1 (mt List.mem_cons.2 h)
    have hc : ¬c = sep := fun he => hc he.symm
    rw [fields, if_neg hc, ih hf]

/-- Fields that were joined are found again where the separator is in none of them. -/
theorem fields_join (hne : fs ≠ []) (h : ∀ f ∈ fs, sep ∉ f) : fields sep (join sep fs) = fs := by
  induction fs with
  | nil => exact absurd rfl hne
  | cons f fs ih =>
    cases fs with
    | nil => exact fields_self (h f List.mem_cons_self)
    | cons g fs =>
      rw [join, fields_append (h f List.mem_cons_self), ih (List.cons_ne_nil g fs) fun k hk =>
        h k (List.mem_cons_of_mem _ hk)]

def lowerDigits : List Char :=
  ['0', '1', '2', '3', '4', '5', '6', '7', '8', '9', 'a', 'b', 'c', 'd', 'e', 'f']

/-- Two lower-case digits are the digits of an octet. -/
theorem exists_octetDigits {a b : Char} (ha : a ∈ lowerDigits) (hb : b ∈ lowerDigits) :
    ∃ o, octetDigits o = [a, b] := by
  have hall : (lowerDigits.all fun a => lowerDigits.all fun b =>
      octetDigits (UInt8.ofNat ((digitsValue? 16 [a, b]).getD 0)) == [a, b]) = true := by decide +kernel
  exact ⟨_, eq_of_beq (List.all_eq_true.1 (List.all_eq_true.1 hall a ha) b hb)⟩

end Text

namespace LinkAddress

open Text

theorem field?_octetDigits (o : UInt8) : field? (octetDigits o) = some o := by
  have hall : ∀ n < 256, field? (hexDigits 2 n) = some (UInt8.ofNat n) := by decide +kernel
  have ho := hall o.toNat o.toNat_lt
  rwa [UInt8.ofNat_toNat] at ho

theorem colon_not_mem_octetDigits (o : UInt8) : ':' ∉ octetDigits o := by
  have hall : ∀ n < 256, ':' ∉ hexDigits 2 n := by decide +kernel
  exact hall o.toNat o.toNat_lt

theorem parse?_render (a : LinkAddress) : parse? a.render = some a := by
  obtain ⟨os, hlen⟩ := a
  have hne : os.map octetDigits ≠ [] := by
    rintro h
    rw [List.map_eq_nil_iff.1 h] at hlen
    cases hlen
  have hcut : fields ':' (join ':' (os.map octetDigits)) = os.map octetDigits := by
    refine fields_join hne fun f hf => ?_
    obtain ⟨o, -, rfl⟩ := List.mem_map.1 hf
    exact colon_not_mem_octetDigits o
  have hread : ∀ os : List UInt8, (os.map octetDigits).mapM field? = some os := by
    intro os
    induction os with
    | nil => rfl
    | cons o os ih => rw [List.map_cons, List.mapM_cons, field?_octetDigits, ih]; rfl
  unfold parse? render ofChars? toChars
  rw [String.toList_ofList, hcut, hread]
  simp [ofOctets?, hlen]

/-- A text of the form `aa:bb:cc:dd:ee:ff`, in lower case. -/
def Written (text : String) : Prop :=
  ∃ pairs : List (Char × Char), pairs.length = 6 ∧
    (∀ p ∈ pairs, p.1 ∈ lowerDigits ∧ p.2 ∈ lowerDigits) ∧
    text.toList = join ':' (pairs.map fun p => [p.1, p.2])

theorem Written.eq_render {text : String} (h : Written text) : ∃ a : LinkAddress, text = a.render := by
  obtain ⟨pairs, hlen, hdigits, htext⟩ := h
  have hoctets : ∀ ps : List (Char × Char), (∀ p ∈ ps, p.1 ∈ lowerDigits ∧ p.2 ∈ lowerDigits) →
      ∃ os : List UInt8, os.length = ps.length ∧
        ps.map (fun p => [p.1, p.2]) = os.map octetDigits := by
    intro ps hps
    induction ps with
    | nil => exact ⟨[], rfl, rfl⟩
    | cons p ps ih =>
      obtain ⟨os, hl, hos⟩ := ih fun q hq => hps q (List.mem_cons_of_mem _ hq)
      obtain ⟨ha, hb⟩ := hps p List.mem_cons_self
      obtain ⟨o, ho⟩ := exists_octetDigits ha hb
      exact ⟨o :: os, congrArg (· + 1) hl, by rw [List.map_cons, List.map_cons, ho, hos]⟩
  obtain ⟨os, hl, hos⟩ := hoctets pairs hdigits
  refine ⟨⟨os, hl.trans hlen⟩, ?_⟩
  rw [hos] at htext
  unfold render toChars
  rw [← htext, String.ofList_toList]

end LinkAddress
end MulticastRelay
