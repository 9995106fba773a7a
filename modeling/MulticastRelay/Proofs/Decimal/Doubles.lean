import Mathlib
import MulticastRelay.Decimal.Binary

/-! # Doubles taken apart and put together -/
namespace MulticastRelay.Decimal

open Float.Model

/-! ## The fields of a double -/

section Fields

variable (b : BitVec 64)

def exponentField : BitVec 11 := @UnpackedFloat.unpackExponent Format.binary64 b

def fractionField : BitVec 52 := @UnpackedFloat.unpackMantissa Format.binary64 b

def signField : BitVec 1 := @UnpackedFloat.unpackSign Format.binary64 b

theorem toNat_exponentField : (exponentField b).toNat = b.toNat / 2 ^ 52 % 2048 := by
  rw [exponentField, UnpackedFloat.unpackExponent_def, BitVec.extractLsb'_toNat,
    Nat.shiftRight_eq_div_pow]

theorem toNat_fractionField : (fractionField b).toNat = b.toNat % 2 ^ 52 := by
  rw [fractionField, UnpackedFloat.unpackMantissa_def, BitVec.extractLsb'_toNat, Nat.shiftRight_zero]

theorem toNat_signField : (signField b).toNat = b.toNat / 2 ^ 63 := by
  rw [signField, UnpackedFloat.unpackSign_def, BitVec.extractLsb'_toNat, Nat.shiftRight_eq_div_pow]
  have hb := b.isLt
  exact Nat.mod_eq_of_lt (Nat.div_lt_of_lt_mul (by omega))

theorem ofBitVec_signField :
    (UnpackedFloat.Sign.ofBitVec (signField b) == .negative) = (b.toNat / 2 ^ 63 == 1) := by
  rw [← toNat_signField]
  generalize signField b = s
  revert s
  decide

variable {b}

theorem unpack_infinity (ht : exponentField b = -1#11) (hz : fractionField b = 0#52) :
    UnpackedFloat.unpack Format.binary64 b = .infinity (.ofBitVec (signField b)) :=
  (if_pos ht).trans (if_pos hz)

theorem unpack_notANumber (ht : exponentField b = -1#11) (hz : fractionField b ≠ 0#52) :
    UnpackedFloat.unpack Format.binary64 b = .notANumber :=
  (if_pos ht).trans (if_neg hz)

theorem unpack_zero (hl : exponentField b = 0#11) (hz : fractionField b = 0#52) :
    UnpackedFloat.unpack Format.binary64 b = .zero (.ofBitVec (signField b)) := by
  have ht : exponentField b ≠ -1#11 := by
    rw [hl]
    decide
  exact (if_neg ht).trans ((if_pos hl).trans (dif_pos hz))

theorem unpack_subnormal (hl : exponentField b = 0#11) (hz : 0 < (fractionField b).toNat) :
    UnpackedFloat.unpack Format.binary64 b =
      .finite (.ofBitVec (signField b)) (fractionField b).toNat (-1074) hz := by
  have ht : exponentField b ≠ -1#11 := by
    rw [hl]
    decide
  have hz' : fractionField b ≠ 0#52 := fun h => Nat.ne_of_gt hz (congrArg BitVec.toNat h)
  refine (if_neg ht).trans ((if_pos hl).trans ((dif_neg hz').trans ?_))
  have he : ((exponentField b).toNat : ℤ) - 1075 + 1 = -1074 := by
    rw [hl]
    rfl
  simp only [← he]
  rfl

/-- The leading bit of a normal double goes unsaid. -/
theorem unpack_normal (ht : exponentField b ≠ -1#11) (hl : exponentField b ≠ 0#11) :
    UnpackedFloat.unpack Format.binary64 b =
      .finite (.ofBitVec (signField b)) (2 ^ 52 + (fractionField b).toNat)
        ((exponentField b).toNat - 1075) (by omega) := by
  refine (if_neg ht).trans ((if_neg hl).trans ?_)
  have hlead : (1#1 ++ fractionField b).toNat = 2 ^ 52 + (fractionField b).toNat := by
    rw [BitVec.toNat_append, ← Nat.shiftLeft_add_eq_or_of_lt (fractionField b).isLt]
    rfl
  simp only [← hlead]
  rfl

end Fields

/-! ## Readings -/

/-- What an unpacked double stands for. -/
def Reading.ofUnpacked : UnpackedFloat → Reading
  | .notANumber => .nan
  | .infinity s => .infinite (s == .negative)
  | .zero s => .finite (s == .negative) ⟨0, -1074⟩
  | .finite s m e _ => .finite (s == .negative) ⟨m, e⟩

/-- The bits of a double are read as they are unpacked. -/
theorem reading_ofFloat (x : Float) : Reading.ofFloat x = .ofUnpacked x.toModel.unpack := by
  have hn : x.toBits.toNat = x.toModel.toBits.toBitVec.toNat := rfl
  rw [Reading.ofFloat, Reading.ofBits, Float.Model.unpack]
  simp only [hn, Nat.pow_eq, ← ofBitVec_signField, ← toNat_exponentField, ← toNat_fractionField]
  generalize x.toModel.toBits.toBitVec = b
  by_cases ht : (exponentField b).toNat = 2047
  · have ht' : exponentField b = -1#11 := BitVec.eq_of_toNat_eq ht
    rw [if_pos ht]
    by_cases hz : (fractionField b).toNat = 0
    · rw [if_pos hz, unpack_infinity ht' (BitVec.eq_of_toNat_eq hz)]
      rfl
    · rw [if_neg hz, unpack_notANumber ht' fun h => hz (congrArg BitVec.toNat h)]
      rfl
  · rw [if_neg ht]
    by_cases hl : (exponentField b).toNat = 0
    · have hl' : exponentField b = 0#11 := BitVec.eq_of_toNat_eq hl
      rw [if_pos hl]
      by_cases hz : (fractionField b).toNat = 0
      · rw [hz, unpack_zero hl' (BitVec.eq_of_toNat_eq hz)]
        rfl
      · rw [unpack_subnormal hl' (Nat.pos_of_ne_zero hz)]
        rfl
    · rw [if_neg hl, unpack_normal (fun h => ht (congrArg BitVec.toNat h))
        (fun h => hl (congrArg BitVec.toNat h))]
      rfl

/-! ## Packing -/

/-- A mantissa and an exponent as doubles have them: fifty-three bits, or fewer at the least exponent. -/
structure Canonical (m : ℕ) (e : ℤ) : Prop where
  narrow : m < 2 ^ 53
  least : -1074 ≤ e
  full : 2 ^ 52 ≤ m ∨ e = -1074

section Packing

variable {m : ℕ} {e : ℤ} {s : UnpackedFloat.Sign}

theorem canonical_unpack {b : BitVec 64} {hm : 0 < m}
    (h : UnpackedFloat.unpack Format.binary64 b = .finite s m e hm) : Canonical m e ∧ e ≤ 971 := by
  have hfraction := (fractionField b).isLt
  have hexponent := (exponentField b).isLt
  by_cases ht : exponentField b = -1#11
  · by_cases hz : fractionField b = 0#52
    · cases (unpack_infinity ht hz).symm.trans h
    · cases (unpack_notANumber ht hz).symm.trans h
  · by_cases hl : exponentField b = 0#11
    · by_cases hz : fractionField b = 0#52
      · cases (unpack_zero hl hz).symm.trans h
      · have hpos : 0 < (fractionField b).toNat :=
          Nat.pos_of_ne_zero fun h => hz (BitVec.eq_of_toNat_eq h)
        cases (unpack_subnormal hl hpos).symm.trans h
        exact ⟨⟨by omega, by omega, .inr rfl⟩, by omega⟩
    · have ht' : (exponentField b).toNat ≠ 2047 := fun h => ht (BitVec.eq_of_toNat_eq h)
      have hl' : (exponentField b).toNat ≠ 0 := fun h => hl (BitVec.eq_of_toNat_eq h)
      cases (unpack_normal ht hl).symm.trans h
      exact ⟨⟨by omega, by omega, .inl (by omega)⟩, by omega⟩

/-! What is packed is found in its field again. -/

variable (s) (f : BitVec 11) (g : BitVec 52)

/-- Three fields put together. -/
def pieced : BitVec 64 := UnpackedFloat.packComponents Format.binary64 s f g

theorem exponentField_pieced : exponentField (pieced s f g) = f :=
  UnpackedFloat.unpackExponent_packComponents

theorem fractionField_pieced : fractionField (pieced s f g) = g :=
  UnpackedFloat.unpackMantissa_packComponents

theorem signField_pieced : .ofBitVec (signField (pieced s f g)) = s := by
  rw [signField, pieced, UnpackedFloat.unpackSign_packComponents]
  cases s <;> rfl

variable {s}

theorem unpack_packedInfinity :
    UnpackedFloat.unpack Format.binary64 (UnpackedFloat.packedInfinity Format.binary64 s) =
      .infinity s := by
  have hpieced : UnpackedFloat.packedInfinity Format.binary64 s = pieced s (-1#11) 0#52 := rfl
  rw [hpieced, unpack_infinity (exponentField_pieced ..) (fractionField_pieced ..), signField_pieced]

theorem unpack_pack_infinity (hm : 0 < m) (he : 971 < e) :
    (pack (.finite s m e hm)).unpack = .infinity s := by
  have hbiased : 2 ^ 11 ≤ (e + (1023 : ℕ) + (52 : ℕ)).toNat + 1 := by omega
  have hpack : UnpackedFloat.pack Format.binary64 (.finite s m e hm) =
      UnpackedFloat.packedInfinity Format.binary64 s := if_pos hbiased
  exact (congrArg (UnpackedFloat.unpack Format.binary64) hpack).trans unpack_packedInfinity

/-- A number in the form that doubles have is kept, unless it is too large. -/
theorem unpack_pack_finite (hc : Canonical m e) (hm : 0 < m) (he : e ≤ 971) :
    (pack (.finite s m e hm)).unpack = .finite s m e hm := by
  have hbiased : ¬ 2 ^ 11 ≤ (e + (1023 : ℕ) + (52 : ℕ)).toNat + 1 := by omega
  have hnarrow := hc.narrow
  have hleast := hc.least
  by_cases hfull : 2 ^ 52 ≤ m
  · have hlog : m.log2 + 1 = 1 + 52 := by
      rw [(Nat.log2_eq_iff (Nat.ne_of_gt hm)).2 ⟨hfull, hnarrow⟩]
    have hpack : UnpackedFloat.pack Format.binary64 (.finite s m e hm) =
        pieced s (.ofNat 11 (e + (1023 : ℕ) + (52 : ℕ)).toNat) (.ofNat 52 m) :=
      (if_neg hbiased).trans (if_pos hlog)
    have hexponent : (BitVec.ofNat 11 (e + (1023 : ℕ) + (52 : ℕ)).toNat).toNat = e + 1075 := by
      rw [BitVec.toNat_ofNat, Nat.mod_eq_of_lt (by omega)]
      omega
    have hfraction : 2 ^ 52 + (BitVec.ofNat 52 m).toNat = m := by
      rw [BitVec.toNat_ofNat]
      omega
    refine (congrArg (UnpackedFloat.unpack Format.binary64) hpack).trans ?_
    rw [unpack_normal]
    · simp only [signField_pieced, exponentField_pieced, fractionField_pieced, hexponent, hfraction,
        add_sub_cancel_right]
    · rw [exponentField_pieced]
      intro h
      rw [h] at hexponent
      change (2047 : ℤ) = _ at hexponent
      omega
    · rw [exponentField_pieced]
      intro h
      rw [h] at hexponent
      change (0 : ℤ) = _ at hexponent
      omega
  · have hlog : ¬ m.log2 + 1 = 1 + 52 := by
      have := (Nat.log2_lt (Nat.ne_of_gt hm)).2 (Nat.lt_of_not_le hfull)
      omega
    have hpack : UnpackedFloat.pack Format.binary64 (.finite s m e hm) =
        pieced s 0#11 (.ofNat 52 m) :=
      (if_neg hbiased).trans (if_neg hlog)
    have hfraction : (BitVec.ofNat 52 m).toNat = m :=
      (BitVec.toNat_ofNat ..).trans (Nat.mod_eq_of_lt (Nat.lt_of_not_le hfull))
    obtain rfl : e = -1074 := hc.full.resolve_left hfull
    refine (congrArg (UnpackedFloat.unpack Format.binary64) hpack).trans ?_
    rw [unpack_subnormal (exponentField_pieced ..) (by rw [fractionField_pieced, hfraction]; exact hm)]
    simp only [signField_pieced, fractionField_pieced, hfraction]

end Packing

end MulticastRelay.Decimal
