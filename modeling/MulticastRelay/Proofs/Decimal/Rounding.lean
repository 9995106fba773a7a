import MulticastRelay.Proofs.Decimal.Doubles
import MulticastRelay.Proofs.Decimal.Order

/-! # Rounding

A double that is computed is the nearest one to the exact result, and of two equally near the one with
an even mantissa. The exact result is followed through the bits that are shifted out of a mantissa, so
that it can be said from the result alone which doubles are reached.
-/
namespace MulticastRelay.Decimal

open Float.Model
open Float.Model.UnpackedFloat (ExtendedMantissa Accuracy accuracyOfFraction)

/-! ## Nearest whole numbers -/

section Nearest

variable {n k : ℕ} {w : ℚ}

theorem le_iff_of_near (hlow : (n : ℚ) - 1 / 2 < w) (hhigh : w < n + 1 / 2) :
    k ≤ n ↔ (k : ℚ) - 1 / 2 < w ∨ (k : ℚ) - 1 / 2 = w ∧ Even k := by
  rcases Nat.lt_or_ge n k with hk | hk
  · have hk' : (n : ℚ) + 1 ≤ k := by exact_mod_cast hk
    refine iff_of_false (by omega) ?_
    rintro (hlt | ⟨heq, -⟩) <;> linarith
  · have hk' : (k : ℚ) ≤ n := by exact_mod_cast hk
    exact iff_of_true hk (.inl (by linarith))

/-- From the middle above a number the way goes up if the number is odd. -/
theorem le_iff_of_middle (h : 2 * w = 2 * (n : ℚ) + 1) :
    k ≤ n + n % 2 ↔ (k : ℚ) - 1 / 2 < w ∨ (k : ℚ) - 1 / 2 = w ∧ Even k := by
  rcases Nat.lt_trichotomy k (n + 1) with hk | rfl | hk
  · have hk' : (k : ℚ) ≤ n := by exact_mod_cast Nat.lt_succ_iff.1 hk
    exact iff_of_true (by omega) (.inl (by linarith))
  · rw [Nat.even_iff]
    push_cast
    constructor
    · intro hodd
      exact .inr ⟨by linarith, by omega⟩
    · rintro (hlt | ⟨-, heven⟩)
      · linarith
      · omega
  · have hk' : (n : ℚ) + 2 ≤ k := by exact_mod_cast hk
    refine iff_of_false (by omega) ?_
    rintro (hlt | ⟨heq, -⟩) <;> linarith

end Nearest

/-! ## Bits shifted out -/

/-- A mantissa stands for a number: its round bit is the half below it, and its sticky bit says whether
anything is left below that. -/
structure Stands (x : ExtendedMantissa) (w : ℚ) : Prop where
  low : 2 * (x.mantissa : ℚ) + (x.roundBit.toNat : ℚ) ≤ 2 * w
  high : 2 * w < 2 * (x.mantissa : ℚ) + (x.roundBit.toNat : ℚ) + 1
  sticky : x.stickyBit = false ↔ 2 * w = 2 * (x.mantissa : ℚ) + (x.roundBit.toNat : ℚ)

namespace Stands

variable {x : ExtendedMantissa} {w : ℚ}

theorem exact (m : ℕ) : Stands (.ofMantissaAndAccuracy m .exact) m := by
  constructor <;> simp [ExtendedMantissa.ofMantissaAndAccuracy]

/-- A quotient is kept with what its remainder says. -/
theorem quotient (n : ℕ) {d : ℕ} (hd : 0 < d) :
    Stands (.ofMantissaAndAccuracy (n / d) (accuracyOfFraction (n % d) d)) ((n : ℚ) / d) := by
  have hd' : (0 : ℚ) < d := Nat.cast_pos.2 hd
  have hless : ((n % d : ℕ) : ℚ) < d := Nat.cast_lt.2 (Nat.mod_lt n hd)
  have hn : (n : ℚ) = d * (n / d : ℕ) + (n % d : ℕ) := by exact_mod_cast (Nat.div_add_mod n d).symm
  generalize n % d = r at hn hless
  generalize n / d = q at hn
  have hsplit : 2 * ((n : ℚ) / d) = 2 * q + 2 * (r : ℚ) / d := by
    rw [hn]
    field_simp
  rw [accuracyOfFraction]
  by_cases hr : r = 0
  · subst hr
    rw [if_pos rfl]
    constructor <;> simp [ExtendedMantissa.ofMantissaAndAccuracy, hsplit]
  · have hr' : (0 : ℚ) < r := Nat.cast_pos.2 (Nat.pos_of_ne_zero hr)
    have hrest : 0 < 2 * (r : ℚ) / d ∧ 2 * (r : ℚ) / d < 2 := by
      constructor
      · positivity
      · rw [div_lt_iff₀ hd']
        linarith
    rw [if_neg hr]
    rcases hc : compare (2 * r) d with _ | _ | _
    · have hbelow : 2 * (r : ℚ) / d < 1 := by
        rw [div_lt_one hd']
        exact_mod_cast Nat.compare_eq_lt.1 hc
      constructor <;> simp [ExtendedMantissa.ofMantissaAndAccuracy, hsplit, hr, hd.ne'] <;> linarith
    · have hmiddle : 2 * (r : ℚ) / d = 1 := by
        rw [div_eq_one_iff_eq hd'.ne']
        exact_mod_cast Nat.compare_eq_eq.1 hc
      constructor <;> simp [ExtendedMantissa.ofMantissaAndAccuracy, hsplit, hmiddle]
    · have habove : 1 < 2 * (r : ℚ) / d := by
        rw [one_lt_div hd']
        exact_mod_cast Nat.compare_eq_gt.1 hc
      constructor <;> simp [ExtendedMantissa.ofMantissaAndAccuracy, hsplit] <;> linarith

theorem half (h : Stands x w) : Stands x.shiftRightOne (w / 2) := by
  obtain ⟨m, r, s⟩ := x
  obtain ⟨hlow, hhigh, hsticky⟩ := h
  dsimp only at hlow hhigh hsticky
  have hdigit : (m % 2 != 0).toNat = m % 2 := by
    rcases Nat.mod_two_eq_zero_or_one m with h | h <;> rw [h] <;> rfl
  have hm : 2 * ((m / 2 : ℕ) : ℚ) + ((m % 2 != 0).toNat : ℚ) = m := by
    rw [hdigit]
    exact_mod_cast Nat.div_add_mod m 2
  have hr : (0 : ℚ) ≤ r.toNat ∧ (r.toNat : ℚ) ≤ 1 := by cases r <;> simp
  constructor
  · show 2 * ((m / 2 : ℕ) : ℚ) + ((m % 2 != 0).toNat : ℚ) ≤ 2 * (w / 2)
    rw [hm]
    linarith
  · show 2 * (w / 2) < 2 * ((m / 2 : ℕ) : ℚ) + ((m % 2 != 0).toNat : ℚ) + 1
    rw [hm]
    linarith
  · show (r || s) = false ↔ 2 * (w / 2) = 2 * ((m / 2 : ℕ) : ℚ) + ((m % 2 != 0).toNat : ℚ)
    rw [hm, Bool.or_eq_false_iff, hsticky]
    constructor
    · rintro ⟨rfl, hs⟩
      simp only [Bool.toNat_false, Nat.cast_zero] at hs
      linarith
    · intro hw
      have hr0 : (r.toNat : ℚ) = 0 := by linarith
      refine ⟨?_, by linarith⟩
      cases r with
      | false => rfl
      | true => simp at hr0

theorem shift (h : Stands x w) (k : ℕ) : Stands (x >>> k) (w / 2 ^ k) := by
  induction k with
  | zero =>
    rw [pow_zero, div_one]
    exact h
  | succ k ih =>
    have hstep := ih.half
    rw [div_div, ← pow_succ] at hstep
    exact hstep

/-- Rounding goes to the nearest mantissa, and from the middle between two to the even one. -/
theorem le_rounded_iff (h : Stands x w) (k : ℕ) :
    k ≤ x.roundedMantissa ↔ (k : ℚ) - 1 / 2 < w ∨ (k : ℚ) - 1 / 2 = w ∧ Even k := by
  obtain ⟨m, r, s⟩ := x
  obtain ⟨hlow, hhigh, hsticky⟩ := h
  dsimp only at hlow hhigh hsticky
  cases r with
  | false =>
    have hround : ExtendedMantissa.roundedMantissa ⟨m, false, s⟩ = m := by cases s <;> rfl
    simp only [Bool.toNat_false, Nat.cast_zero, add_zero] at hlow hhigh
    rw [hround]
    exact le_iff_of_near (by linarith) (by linarith)
  | true =>
    simp only [Bool.toNat_true, Nat.cast_one] at hlow hhigh hsticky
    cases s with
    | false => exact le_iff_of_middle (hsticky.1 rfl)
    | true =>
      have hround : ExtendedMantissa.roundedMantissa ⟨m, true, true⟩ = m + 1 := rfl
      have hne : 2 * w ≠ 2 * (m : ℚ) + 1 := fun h => Bool.noConfusion (hsticky.2 h)
      have hlow' := lt_of_le_of_ne hlow hne.symm
      rw [hround]
      refine le_iff_of_near ?_ ?_ <;> push_cast <;> linarith

end Stands

/-! ## Exponents -/

section Exponents

variable {m : ℕ} {e : ℤ}

/-- The exponent at which fifty-three bits of a number are kept, or fewer at the least exponent. -/
theorem targetExponent_eq (m : ℕ) (e : ℤ) :
    Format.binary64.targetExponent (totalExponent m e) = max (m.log2 + e - 52) (-1074) := by
  have hmin : Format.binary64.minExponent = -1074 := rfl
  have hbits : (Format.binary64.mantissaBits : ℤ) = 53 := rfl
  rw [Format.targetExponent, totalExponent, hmin, hbits]
  congr 1
  omega

/-- A mantissa with bits to spare, or at the least exponent. -/
def Fine (m : ℕ) (e : ℤ) : Prop := 52 ≤ m.log2 ∨ e ≤ -1074

theorem Fine.le_target (h : Fine m e) : e ≤ max (m.log2 + e - 52) (-1074) := by
  rcases h with h | h <;> omega

end Exponents

/-! ## The rounded mantissa -/

/-- The number `v` is rounded to the mantissa `R` at the exponent `t`. -/
structure RoundsTo (v : ℚ) (R : ℕ) (t : ℤ) : Prop where
  least : -1074 ≤ t
  below : v < 2 ^ 53 * 2 ^ t
  full : t = -1074 ∨ 2 ^ 52 * 2 ^ t ≤ v
  nearest : ∀ k : ℕ, k ≤ R ↔
    ((k : ℚ) - 1 / 2) * 2 ^ t < v ∨ ((k : ℚ) - 1 / 2) * 2 ^ t = v ∧ Even k

/-- A mantissa and an exponent as an unpacked double; a mantissa that carried over is halved. -/
def unpacked (s : UnpackedFloat.Sign) (R : ℕ) (t : ℤ) : UnpackedFloat :=
  if h : R = 0 then .zero s
  else if R < 2 ^ 53 then .finite s R t (Nat.pos_of_ne_zero h)
  else .finite s (2 ^ 52) (t + 1) (by decide)

namespace RoundsTo

variable {v : ℚ} {R : ℕ} {t : ℤ}

theorem narrow (h : RoundsTo v R t) : R ≤ 2 ^ 53 := by
  by_contra hR
  have hpos : (0 : ℚ) < 2 ^ t := by positivity
  have hbelow := h.below
  rcases (h.nearest (2 ^ 53 + 1)).1 (by omega) with hlt | ⟨heq, -⟩ <;> push_cast at * <;> nlinarith

theorem wide (h : RoundsTo v R t) : t = -1074 ∨ 2 ^ 52 ≤ R := by
  have hpos : (0 : ℚ) < 2 ^ t := by positivity
  refine h.full.imp_right fun hfull => (h.nearest (2 ^ 52)).2 (.inl ?_)
  push_cast
  nlinarith

end RoundsTo

section Shifting

variable {s : UnpackedFloat.Sign} {m : ℕ} {e : ℤ} {a : Accuracy} {w : ℚ}

/-- The bits of a mantissa that do not fit are rounded off. -/
theorem roundsTo_shifted (h : Stands (.ofMantissaAndAccuracy m a) w) (he : Fine m e) {t : ℤ}
    (ht : t = max (m.log2 + e - 52) (-1074)) :
    RoundsTo (w * 2 ^ e)
      (ExtendedMantissa.ofMantissaAndAccuracy m a >>> (t - e).toNat).roundedMantissa t := by
  have hk : ((t - e).toNat : ℤ) = t - e := Int.toNat_of_nonneg (by have := he.le_target; omega)
  have hshift := h.shift (t - e).toNat
  generalize (t - e).toNat = k at hk hshift
  have hpow : (0 : ℚ) < 2 ^ t := by positivity
  have hscale : w * 2 ^ e = w / 2 ^ k * 2 ^ t := by
    rw [show t = k + e by omega, zpow_add₀ two_ne_zero, zpow_natCast]
    field_simp
  have hmantissa : (ExtendedMantissa.ofMantissaAndAccuracy m a).mantissa = m := by
    cases a with
    | exact => rfl
    | inexact o => cases o <;> rfl
  have hmw : (m : ℚ) ≤ w ∧ w < m + 1 := by
    have hlow := h.low
    have hhigh := h.high
    rw [hmantissa] at hlow hhigh
    have hbit : (0 : ℚ) ≤ (ExtendedMantissa.ofMantissaAndAccuracy m a).roundBit.toNat ∧
        ((ExtendedMantissa.ofMantissaAndAccuracy m a).roundBit.toNat : ℚ) ≤ 1 := by
      cases (ExtendedMantissa.ofMantissaAndAccuracy m a).roundBit <;> simp
    constructor <;> linarith
  rw [hscale]
  refine ⟨by omega, ?_, ?_, fun n => ?_⟩
  · rw [mul_lt_mul_iff_left₀ hpow, div_lt_iff₀ (by positivity)]
    have hm : m + 1 ≤ 2 ^ 53 * 2 ^ k := by
      rw [← pow_add]
      exact Nat.lt_log2_self.trans_le (Nat.pow_le_pow_right (by decide) (by omega))
    have hm' : (m : ℚ) + 1 ≤ 2 ^ 53 * 2 ^ k := by exact_mod_cast hm
    exact hmw.2.trans_le hm'
  · by_cases hleast : t = -1074
    · exact .inl hleast
    · right
      rw [mul_le_mul_iff_left₀ hpow, le_div_iff₀ (by positivity)]
      have hlog : m.log2 = 52 + k := by omega
      have hm0 : m ≠ 0 := by
        rintro rfl
        rw [Nat.log2_zero] at hlog
        omega
      have hm : 2 ^ 52 * 2 ^ k ≤ m := by
        rw [← pow_add, ← hlog]
        exact Nat.log2_self_le hm0
      have hm' : (2 : ℚ) ^ 52 * 2 ^ k ≤ m := by exact_mod_cast hm
      exact hm'.trans hmw.1
  · rw [hshift.le_rounded_iff, mul_lt_mul_iff_left₀ hpow, mul_left_inj' hpow.ne']

theorem shift_exact_narrow {R : ℕ} {t : ℤ} (hR : R < 2 ^ 53) (ht : -1074 ≤ t) :
    UnpackedFloat.shiftToTargetExponent Format.binary64 R t .exact = (⟨R, false, false⟩, t) := by
  have hlog : R.log2 ≤ 52 := by
    rcases Nat.eq_zero_or_pos R with rfl | hpos
    · exact Nat.zero_le _
    · exact Nat.lt_succ_iff.1 ((Nat.log2_lt hpos.ne').2 hR)
  have hnone : (Format.binary64.targetExponent (totalExponent R t) - t).toNat = 0 := by
    rw [targetExponent_eq]
    omega
  rw [UnpackedFloat.shiftToTargetExponent, UnpackedFloat.shiftToExponent, hnone]
  exact Prod.ext rfl (add_zero t)

theorem shift_exact_carried {t : ℤ} (ht : -1074 ≤ t) :
    UnpackedFloat.shiftToTargetExponent Format.binary64 (2 ^ 53) t .exact =
      (⟨2 ^ 52, false, false⟩, t + 1) := by
  have hone : (Format.binary64.targetExponent (totalExponent (2 ^ 53) t) - t).toNat = 1 := by
    rw [targetExponent_eq, Nat.log2_two_pow]
    omega
  rw [UnpackedFloat.shiftToTargetExponent, UnpackedFloat.shiftToExponent, hone]
  rfl

theorem roundWithAccuracy_roundsTo (h : Stands (.ofMantissaAndAccuracy m a) w) (he : Fine m e) :
    ∃ R t, RoundsTo (w * 2 ^ e) R t ∧
      UnpackedFloat.roundWithAccuracy Format.binary64 s m e a = unpacked s R t := by
  obtain ⟨t, ht⟩ : ∃ t, t = max ((m.log2 : ℤ) + e - 52) (-1074) := ⟨_, rfl⟩
  have hround := roundsTo_shifted h he ht
  have hfirst : UnpackedFloat.shiftToTargetExponent Format.binary64 m e a =
      (ExtendedMantissa.ofMantissaAndAccuracy m a >>> (t - e).toNat, t) := by
    have hle := he.le_target
    rw [UnpackedFloat.shiftToTargetExponent, UnpackedFloat.shiftToExponent, targetExponent_eq, ← ht]
    exact Prod.ext rfl (by dsimp only; omega)
  refine ⟨_, t, hround, ?_⟩
  rw [UnpackedFloat.roundWithAccuracy, hfirst]
  dsimp only
  generalize (ExtendedMantissa.ofMantissaAndAccuracy m a >>> (t - e).toNat).roundedMantissa = R
    at hround
  rcases Nat.lt_or_ge R (2 ^ 53) with hR | hR
  · rw [shift_exact_narrow hR hround.least]
    simp only [unpacked, hR, if_true]
  · obtain rfl : R = 2 ^ 53 := Nat.le_antisymm hround.narrow hR
    rw [shift_exact_carried hround.least]
    rfl

end Shifting

/-! ## Doubles computed -/

namespace Magnitude

/-- The number that a magnitude stands for. -/
def value (m : Magnitude) : ℚ := m.mantissa * 2 ^ m.exponent

theorem value_eq_div (m : Magnitude) : m.value = m.numerator / m.denominator := by
  rw [value, numerator, denominator]
  rcases le_total 0 m.exponent with h | h
  · obtain ⟨n, hn⟩ := Int.eq_ofNat_of_zero_le h
    simp [hn]
  · obtain ⟨n, hn⟩ := Int.exists_eq_neg_ofNat h
    simp [hn, div_eq_mul_inv]

end Magnitude

/-- The reading is that of a number rounded, or infinite where the number is too large. -/
def Reading.IsOf (r : Reading) (negative : Bool) (v : ℚ) : Prop :=
  (∃ size, r = .finite negative size ∧ size.value = v ∧ v < 2 ^ (1024 : ℤ)) ∨
    r = .infinite negative ∧ 2 ^ (1024 : ℤ) ≤ v

theorem reading_pack_finite {s : UnpackedFloat.Sign} {m : ℕ} {e : ℤ} (hm : 0 < m)
    (hc : Canonical m e) :
    (Reading.ofUnpacked (pack (.finite s m e hm)).unpack).IsOf (s == .negative) (m * 2 ^ e) := by
  have hpos : (0 : ℚ) < 2 ^ e := by positivity
  rcases le_or_gt e 971 with he | he
  · refine .inl ⟨⟨m, e⟩, congrArg Reading.ofUnpacked (unpack_pack_finite hc hm he), rfl, ?_⟩
    have hm' : (m : ℚ) < 2 ^ (53 : ℤ) := by exact_mod_cast hc.narrow
    calc (m : ℚ) * 2 ^ e < 2 ^ (53 : ℤ) * 2 ^ e := mul_lt_mul_of_pos_right hm' hpos
      _ = 2 ^ (53 + e) := (zpow_add₀ two_ne_zero ..).symm
      _ ≤ 2 ^ (1024 : ℤ) := zpow_le_zpow_right₀ one_le_two (by omega)
  · refine .inr ⟨congrArg Reading.ofUnpacked (unpack_pack_infinity hm he), ?_⟩
    have hm' : (2 : ℚ) ^ (52 : ℤ) ≤ m := by exact_mod_cast hc.full.resolve_right (by omega)
    calc (2 : ℚ) ^ (1024 : ℤ) ≤ 2 ^ (52 + e) := zpow_le_zpow_right₀ one_le_two (by omega)
      _ = 2 ^ (52 : ℤ) * 2 ^ e := zpow_add₀ two_ne_zero ..
      _ ≤ m * 2 ^ e := mul_le_mul_of_nonneg_right hm' hpos.le

/-- The reading is that of a number of at least `2 ^ p`. -/
def Reading.Reaches (p : ℤ) : Reading → Prop
  | .finite negative size => negative = false ∧ 2 ^ p ≤ size.value
  | .infinite negative => negative = false
  | .nan => False

/-- The double `x` is the number `v`, not negative, as near as doubles are. What is larger than they
are is infinite. -/
structure Rounds (x : Float) (v : ℚ) : Prop where
  positive : (∃ size, Reading.ofFloat x = .finite false size) ∨ Reading.ofFloat x = .infinite false
  reaches_iff : ∀ p : ℤ, -1021 ≤ p → p ≤ 1024 →
    ((Reading.ofFloat x).Reaches p ↔ 2 ^ p - 2 ^ (p - 54) ≤ v)
  exact : ∀ n : ℕ, n < 2 ^ 53 → v = n →
    ∃ size, Reading.ofFloat x = .finite false size ∧ size.value = v

namespace RoundsTo

variable {v : ℚ} {R : ℕ} {t : ℤ}

/-- A power of two is reached from half a bit below it. -/
theorem reaches_iff (h : RoundsTo v R t) {p : ℤ} (hp : -1021 ≤ p) :
    2 ^ p ≤ R * (2 : ℚ) ^ t ↔ 2 ^ p - 2 ^ (p - 54) ≤ v := by
  have hpos : (0 : ℚ) < 2 ^ t := by positivity
  have hgap : (0 : ℚ) < 2 ^ (p - 54) := by positivity
  have hmono : ∀ {a b : ℤ}, a ≤ b → (2 : ℚ) ^ a ≤ 2 ^ b := fun hab =>
    zpow_le_zpow_right₀ one_le_two hab
  rcases lt_trichotomy t (p - 53) with ht | ht | ht
  · -- even the widest mantissa stays below
    have hhalf : (2 : ℚ) ^ 53 * 2 ^ t ≤ 2 ^ (p - 1) := by
      rw [← zpow_natCast, ← zpow_add₀ two_ne_zero]
      exact hmono (by push_cast; omega)
    have hnarrow : (R : ℚ) ≤ 2 ^ 53 := by exact_mod_cast h.narrow
    have hp1 : (2 : ℚ) ^ p = 2 ^ (p - 1) + 2 ^ (p - 1) := by
      rw [← two_mul, ← zpow_one_add₀ two_ne_zero]
      congr 1
      omega
    have hstep : (2 : ℚ) ^ (p - 54) ≤ 2 ^ (p - 1) := hmono (by omega)
    have hbelow := h.below
    refine iff_of_false ?_ ?_
    · intro hle
      nlinarith [mul_le_mul_of_nonneg_right hnarrow hpos.le]
    · intro hle
      linarith
  · have hp53 : (2 : ℚ) ^ p = 2 ^ 53 * 2 ^ t := by
      rw [← zpow_natCast, ← zpow_add₀ two_ne_zero]
      congr 1
      push_cast
      omega
    have hp54 : (2 : ℚ) ^ (p - 54) = 1 / 2 * 2 ^ t := by
      rw [show p - 54 = t - 1 by omega, zpow_sub_one₀ two_ne_zero]
      ring
    have hnear := h.nearest (2 ^ 53)
    rw [← Nat.cast_le (α := ℚ), and_iff_left (by decide), ← le_iff_lt_or_eq, Nat.cast_pow,
      Nat.cast_ofNat] at hnear
    rw [hp53, hp54, mul_le_mul_iff_left₀ hpos, ← sub_mul, hnear]
  · have hfull : 2 ^ 52 * 2 ^ t ≤ v := h.full.resolve_left (by omega)
    have hwide : (2 : ℚ) ^ 52 ≤ R := by exact_mod_cast h.wide.resolve_left (by omega)
    have hpt : (2 : ℚ) ^ p ≤ 2 ^ 52 * 2 ^ t := by
      rw [← zpow_natCast, ← zpow_add₀ two_ne_zero]
      exact hmono (by push_cast; omega)
    refine iff_of_true ?_ ?_
    · exact hpt.trans (mul_le_mul_of_nonneg_right hwide hpos.le)
    · linarith

/-- A whole number that fits is kept. -/
theorem exact {n : ℕ} (h : RoundsTo n R t) (hn : n < 2 ^ 53) : (R : ℚ) * 2 ^ t = n := by
  have hpos : (0 : ℚ) < 2 ^ t := by positivity
  have ht : t ≤ 0 := by
    rcases h.full with hleast | hfull
    · omega
    · have hn' : (n : ℚ) < 2 ^ 53 := by exact_mod_cast hn
      have hlt : (2 : ℚ) ^ t < 2 ^ (1 : ℤ) := by
        rw [zpow_one]
        linarith
      have := (zpow_lt_zpow_iff_right₀ one_lt_two).1 hlt
      omega
  obtain ⟨k, rfl⟩ := Int.exists_eq_neg_ofNat ht
  have hscale : ((n * 2 ^ k : ℕ) : ℚ) * 2 ^ (-(k : ℤ)) = n := by
    rw [zpow_neg, zpow_natCast]
    push_cast
    field_simp
  have hR : R = n * 2 ^ k := by
    apply Nat.le_antisymm
    · by_contra hlt
      rcases (h.nearest (n * 2 ^ k + 1)).1 (by omega) with hnear | ⟨hnear, -⟩ <;>
        rw [← hscale, Nat.cast_add_one] at hnear <;> nlinarith
    · refine (h.nearest (n * 2 ^ k)).2 (.inl ?_)
      rw [← hscale]
      nlinarith
  rw [hR]
  exact hscale

theorem canonical (h : RoundsTo v R t) (hR : R < 2 ^ 53) : Canonical R t :=
  ⟨hR, h.least, h.wide.symm⟩

/-- What is packed reads as the rounded number, unless that is too large. -/
theorem reading_pack (h : RoundsTo v R t) (s : UnpackedFloat.Sign) :
    (Reading.ofUnpacked (pack (unpacked s R t)).unpack).IsOf (s == .negative) (R * 2 ^ t) := by
  rw [unpacked]
  split
  · rename_i hR
    refine .inl ⟨⟨0, -1074⟩, congrArg Reading.ofUnpacked UnpackedFloat.unpack_packedZero, ?_, ?_⟩
    · simp [hR, Magnitude.value]
    · rw [hR, Nat.cast_zero, zero_mul]
      positivity
  · rename_i hR
    split
    · rename_i hlt
      exact reading_pack_finite (Nat.pos_of_ne_zero hR) (h.canonical hlt)
    · rename_i hge
      have hleast := h.least
      have hcarried : (R : ℚ) * 2 ^ t = (2 ^ 52 : ℕ) * 2 ^ (t + 1) := by
        rw [Nat.le_antisymm h.narrow (Nat.le_of_not_lt hge), zpow_add_one₀ two_ne_zero]
        push_cast
        ring
      rw [hcarried]
      exact reading_pack_finite _ ⟨by decide, by omega, .inl le_rfl⟩

/-- What doubles can hold is kept. -/
theorem of_canonical {m : ℕ} {e : ℤ} (h : Canonical m e) : RoundsTo (m * 2 ^ e) m e := by
  have hpos : (0 : ℚ) < 2 ^ e := by positivity
  refine ⟨h.least, ?_, h.full.symm.imp_right fun hfull => ?_, fun k => ?_⟩
  · have hm : (m : ℚ) < 2 ^ 53 := by exact_mod_cast h.narrow
    exact mul_lt_mul_of_pos_right hm hpos
  · have hm : (2 : ℚ) ^ 52 ≤ m := by exact_mod_cast hfull
    exact mul_le_mul_of_nonneg_right hm hpos.le
  · rw [mul_lt_mul_iff_left₀ hpos, mul_left_inj' hpos.ne']
    exact le_iff_of_near (by linarith) (by linarith)

/-- Nothing is rounded to nothing. -/
theorem zero : RoundsTo 0 0 (-1074) := by
  have hzero : Canonical 0 (-1074) := ⟨by decide, le_rfl, .inr rfl⟩
  have hround := of_canonical hzero
  rwa [Nat.cast_zero, zero_mul] at hround

end RoundsTo

theorem Rounds.of_roundsTo {x : Float} {v : ℚ} {R : ℕ} {t : ℤ} (h : RoundsTo v R t)
    (hx : x.toModel = pack (unpacked .positive R t)) : Rounds x v := by
  have hreading := reading_ofFloat x
  rw [hx] at hreading
  rcases h.reading_pack .positive with ⟨size, hsize, hvalue, hlt⟩ | ⟨hinf, hge⟩
  · rw [hsize] at hreading
    refine ⟨.inl ⟨size, hreading⟩, fun p hlow _ => ?_, fun n hn hv => ⟨size, hreading, ?_⟩⟩
    · rw [hreading, ← h.reaches_iff hlow, ← hvalue]
      exact and_iff_right rfl
    · subst hv
      rw [hvalue, h.exact hn]
  · rw [hinf] at hreading
    refine ⟨.inr hreading, fun p hlow hp => ?_, fun n hn hv => ?_⟩
    · rw [hreading, ← h.reaches_iff hlow]
      exact iff_of_true rfl ((zpow_le_zpow_right₀ one_le_two hp).trans hge)
    · subst hv
      have hsmall : (n : ℚ) < 2 ^ (1024 : ℤ) := by
        exact_mod_cast hn.trans (Nat.pow_lt_pow_right (by decide) (by decide))
      rw [h.exact hn] at hge
      exact absurd hsmall (not_lt.2 hge)

/-! ## Operations -/

section Operations

variable {x y : Float} {a b : Magnitude}

theorem unpack_of_finite (h : Reading.ofFloat x = .finite false a) :
    a.mantissa = 0 ∧ x.toModel.unpack = .zero .positive ∨
    ∃ hm, x.toModel.unpack = .finite .positive a.mantissa a.exponent hm ∧
      Canonical a.mantissa a.exponent := by
  rw [reading_ofFloat] at h
  cases hu : x.toModel.unpack with
  | notANumber =>
    rw [hu] at h
    cases h
  | infinity s =>
    rw [hu] at h
    cases h
  | zero s =>
    rw [hu] at h
    cases s with
    | positive =>
      cases h
      exact .inl ⟨rfl, rfl⟩
    | negative => cases h
  | finite s m e hm =>
    have hc := (canonical_unpack hu).1
    rw [hu] at h
    cases s with
    | positive =>
      cases h
      exact .inr ⟨hm, rfl, hc⟩
    | negative => cases h

theorem Magnitude.value_of_zero (h : a.mantissa = 0) : a.value = 0 := by
  rw [Magnitude.value, h, Nat.cast_zero, zero_mul]

/-- The quotient is worked out to bits enough. -/
theorem fine_quotient {m n : ℕ} {d e E : ℤ} {k : ℕ} (hm : 0 < m) (hn : 0 < n)
    (hE : E ≤ Format.binary64.targetExponent (totalExponent m d - totalExponent n e))
    (hk : (k : ℤ) = d - e - E) : Fine ((m <<< k) / n) E := by
  have htarget : Format.binary64.targetExponent (totalExponent m d - totalExponent n e) =
      max (totalExponent m d - totalExponent n e - 53) (-1074) := rfl
  rw [htarget, totalExponent, totalExponent] at hE
  by_cases hleast : E ≤ -1074
  · exact .inr hleast
  · left
    have hbits : 52 + (n.log2 + 1) ≤ m.log2 + k := by omega
    have hwide : 2 ^ 52 ≤ (m <<< k) / n := by
      rw [Nat.le_div_iff_mul_le hn, Nat.shiftLeft_eq]
      calc 2 ^ 52 * n ≤ 2 ^ 52 * 2 ^ (n.log2 + 1) := Nat.mul_le_mul_left _ Nat.lt_log2_self.le
        _ = 2 ^ (52 + (n.log2 + 1)) := (Nat.pow_add ..).symm
        _ ≤ 2 ^ (m.log2 + k) := Nat.pow_le_pow_right (by decide) hbits
        _ = 2 ^ m.log2 * 2 ^ k := Nat.pow_add ..
        _ ≤ m * 2 ^ k := Nat.mul_le_mul_right _ (Nat.log2_self_le hm.ne')
    exact (Nat.le_log2 (by omega)).2 hwide

theorem rounds_div (hx : Reading.ofFloat x = .finite false a) (hy : Reading.ofFloat y = .finite false b)
    (hb : b.mantissa ≠ 0) : Rounds (x / y) (a.value / b.value) := by
  have hdiv : (x / y).toModel =
      pack (UnpackedFloat.div Format.binary64 x.toModel.unpack y.toModel.unpack) := rfl
  obtain ⟨hn, huy, -⟩ := (unpack_of_finite hy).resolve_left fun h => hb h.1
  rcases unpack_of_finite hx with ⟨hzero, hux⟩ | ⟨hm, hux, -⟩
  · rw [hux, huy] at hdiv
    rw [Magnitude.value_of_zero hzero, zero_div]
    exact .of_roundsTo .zero hdiv
  · rw [hux, huy] at hdiv
    obtain ⟨E, hE⟩ : ∃ E, E = min (a.exponent - b.exponent) (Format.binary64.targetExponent
      (totalExponent a.mantissa a.exponent - totalExponent b.mantissa b.exponent)) := ⟨_, rfl⟩
    have hk : ((a.exponent - b.exponent - E).toNat : ℤ) = a.exponent - b.exponent - E :=
      Int.toNat_of_nonneg (by omega)
    obtain ⟨R, t, hround, hunpacked⟩ := roundWithAccuracy_roundsTo
      (s := .positive) (Stands.quotient (a.mantissa <<< (a.exponent - b.exponent - E).toNat) hn)
      (fine_quotient hm hn (by omega) hk)
    have hvalue : ((a.mantissa <<< (a.exponent - b.exponent - E).toNat : ℕ) : ℚ) / b.mantissa * 2 ^ E =
        a.value / b.value := by
      have hscale : (2 : ℚ) ^ (a.exponent - b.exponent - E).toNat * 2 ^ E =
          2 ^ a.exponent / 2 ^ b.exponent := by
        rw [← zpow_natCast, hk, ← zpow_add₀ two_ne_zero, ← zpow_sub₀ two_ne_zero]
        congr 1
        omega
      rw [Nat.shiftLeft_eq, Magnitude.value, Magnitude.value, Nat.cast_mul, Nat.cast_pow,
        Nat.cast_ofNat, mul_div_mul_comm, ← hscale]
      ring
    rw [hvalue] at hround
    refine .of_roundsTo hround (hdiv.trans (congrArg pack ?_))
    rw [← hunpacked, hE]
    rfl

/-- A product of two mantissas has bits enough. -/
theorem fine_product {m n : ℕ} {d e : ℤ} (hm : 0 < m) (hn : 0 < n) (hcm : Canonical m d)
    (hcn : Canonical n e) : Fine (m * n) (d + e) := by
  have hwide : 2 ^ 52 ≤ m * n → Fine (m * n) (d + e) := fun h =>
    .inl ((Nat.le_log2 (Nat.mul_ne_zero hm.ne' hn.ne')).2 h)
  rcases hcm.full with hfull | hd
  · exact hwide (hfull.trans (Nat.le_mul_of_pos_right m hn))
  · rcases hcn.full with hfull | he
    · exact hwide (hfull.trans (Nat.le_mul_of_pos_left n hm))
    · exact .inr (by omega)

theorem rounds_mul (hx : Reading.ofFloat x = .finite false a)
    (hy : Reading.ofFloat y = .finite false b) : Rounds (x * y) (a.value * b.value) := by
  have hmul : (x * y).toModel =
      pack (UnpackedFloat.mul Format.binary64 x.toModel.unpack y.toModel.unpack) := rfl
  rcases unpack_of_finite hx with ⟨hzero, hux⟩ | ⟨hm, hux, hcm⟩
  · rw [Magnitude.value_of_zero hzero, zero_mul]
    refine .of_roundsTo .zero (hmul.trans (congrArg pack ?_))
    rcases unpack_of_finite hy with ⟨-, huy⟩ | ⟨hn, huy, -⟩ <;> rw [hux, huy] <;> rfl
  · rcases unpack_of_finite hy with ⟨hzero, huy⟩ | ⟨hn, huy, hcn⟩
    · rw [Magnitude.value_of_zero hzero, mul_zero]
      refine .of_roundsTo .zero (hmul.trans (congrArg pack ?_))
      rw [hux, huy]
      rfl
    · rw [hux, huy] at hmul
      obtain ⟨R, t, hround, hunpacked⟩ := roundWithAccuracy_roundsTo (s := .positive)
        (Stands.exact (a.mantissa * b.mantissa)) (fine_product hm hn hcm hcn)
      have hvalue : ((a.mantissa * b.mantissa : ℕ) : ℚ) * 2 ^ (a.exponent + b.exponent) =
          a.value * b.value := by
        rw [Magnitude.value, Magnitude.value, zpow_add₀ two_ne_zero, Nat.cast_mul]
        ring
      rw [hvalue] at hround
      exact .of_roundsTo hround (hmul.trans (congrArg pack hunpacked))

/-- A number worked out exactly is given bits enough and rounded. -/
theorem round_roundsTo {m : ℕ} (hm : 0 < m) (e : ℤ) :
    ∃ R t, RoundsTo (m * 2 ^ e) R t ∧
      UnpackedFloat.round Format.binary64 .positive m e = unpacked .positive R t := by
  obtain ⟨k, hk⟩ : ∃ k, k = (e - Format.binary64.targetExponent (totalExponent m e)).toNat := ⟨_, rfl⟩
  have hfine : Fine (m <<< k) (e - k) := by
    rw [targetExponent_eq] at hk
    by_cases hleast : e - k ≤ -1074
    · exact .inr hleast
    · left
      have hbits : 52 ≤ m.log2 + k := by omega
      have hwide : 2 ^ 52 ≤ m <<< k := by
        rw [Nat.shiftLeft_eq]
        calc 2 ^ 52 ≤ 2 ^ (m.log2 + k) := Nat.pow_le_pow_right (by decide) hbits
          _ = 2 ^ m.log2 * 2 ^ k := Nat.pow_add ..
          _ ≤ m * 2 ^ k := Nat.mul_le_mul_right _ (Nat.log2_self_le hm.ne')
      exact (Nat.le_log2 (by omega)).2 hwide
  obtain ⟨R, t, hround, hunpacked⟩ :=
    roundWithAccuracy_roundsTo (s := .positive) (Stands.exact (m <<< k)) hfine
  have hvalue : ((m <<< k : ℕ) : ℚ) * 2 ^ (e - k) = m * 2 ^ e := by
    rw [Nat.shiftLeft_eq, zpow_sub₀ two_ne_zero, zpow_natCast, Nat.cast_mul, Nat.cast_pow,
      Nat.cast_ofNat]
    field_simp
  rw [hvalue] at hround
  refine ⟨R, t, hround, ?_⟩
  rw [← hunpacked, hk]
  rfl

theorem normalize_roundsTo {m : ℕ} (hm : 0 < m) (e : ℤ) :
    ∃ R t, RoundsTo (m * 2 ^ e) R t ∧
      UnpackedFloat.normalize Format.binary64 m e .positive = unpacked .positive R t := by
  obtain ⟨R, t, hround, hunpacked⟩ := round_roundsTo hm e
  have hcompare : compare (m : ℤ) 0 = .gt := Int.compare_eq_gt.2 (by omega)
  refine ⟨R, t, hround, ?_⟩
  rw [← hunpacked, UnpackedFloat.normalize, hcompare, Int.toNat_natCast]

theorem rounds_natural (n : UInt64) : Rounds n.toFloat n.toNat := by
  have hnat : n.toFloat.toModel = pack (UnpackedFloat.normalize Format.binary64 n.toNat 0 .positive) :=
    rfl
  rcases Nat.eq_zero_or_pos n.toNat with hn | hn
  · rw [hn] at hnat ⊢
    rw [Nat.cast_zero]
    exact .of_roundsTo .zero hnat
  · obtain ⟨R, t, hround, hunpacked⟩ := normalize_roundsTo hn 0
    rw [zpow_zero, mul_one] at hround
    exact .of_roundsTo hround (hnat.trans (congrArg pack hunpacked))

/-- A double packed again is the number that it was. -/
theorem rounds_packed (hx : Reading.ofFloat x = .finite false a)
    (hz : y.toModel = pack x.toModel.unpack) : Rounds y a.value := by
  rcases unpack_of_finite hx with ⟨hzero, hux⟩ | ⟨hm, hux, hc⟩
  · rw [Magnitude.value_of_zero hzero]
    exact .of_roundsTo .zero (hz.trans (congrArg pack hux))
  · refine .of_roundsTo (.of_canonical hc) (hz.trans (congrArg pack ?_))
    rw [hux, unpacked, dif_neg hm.ne', if_pos hc.narrow]

theorem rounds_add (hx : Reading.ofFloat x = .finite false a)
    (hy : Reading.ofFloat y = .finite false b) : Rounds (x + y) (a.value + b.value) := by
  have hadd : (x + y).toModel =
      pack (UnpackedFloat.add Format.binary64 x.toModel.unpack y.toModel.unpack) := rfl
  rcases unpack_of_finite hx with ⟨hzero, hux⟩ | ⟨hm, hux, hcm⟩
  · rw [Magnitude.value_of_zero hzero, zero_add]
    refine rounds_packed hy (hadd.trans (congrArg pack ?_))
    rcases unpack_of_finite hy with ⟨-, huy⟩ | ⟨hn, huy, -⟩ <;> rw [hux, huy] <;> rfl
  · rcases unpack_of_finite hy with ⟨hzero, huy⟩ | ⟨hn, huy, hcn⟩
    · rw [Magnitude.value_of_zero hzero, add_zero]
      refine rounds_packed hx (hadd.trans (congrArg pack ?_))
      rw [hux, huy]
      rfl
    · rw [hux, huy] at hadd
      obtain ⟨E, hE⟩ : ∃ E, E = min a.exponent b.exponent := ⟨_, rfl⟩
      have hpos : 0 < (a.mantissa <<< (a.exponent - E).toNat) +
          (b.mantissa <<< (b.exponent - E).toNat) := by
        rw [Nat.shiftLeft_eq]
        positivity
      obtain ⟨R, t, hround, hunpacked⟩ := normalize_roundsTo hpos E
      have hshift : ∀ m : Magnitude, E ≤ m.exponent →
          ((m.mantissa <<< (m.exponent - E).toNat : ℕ) : ℚ) * 2 ^ E = m.value := fun m hm => by
        rw [Nat.shiftLeft_eq, Nat.cast_mul, Nat.cast_pow, Nat.cast_ofNat, mul_assoc, ← zpow_natCast,
          ← zpow_add₀ two_ne_zero, Int.toNat_of_nonneg (by omega), sub_add_cancel, Magnitude.value]
      rw [Nat.cast_add, add_mul, hshift a (by omega), hshift b (by omega)] at hround
      refine .of_roundsTo hround (hadd.trans (congrArg pack ?_))
      rw [← hunpacked, hE]
      rfl

end Operations

/-! ## Values and signs -/

/-- The exact value of a double that is finite and not negative. -/
def valueOf? (x : Float) : Option ℚ :=
  match Reading.ofFloat x with
  | .finite false size => some size.value
  | _ => none

theorem valueOf?_eq_some {x : Float} {v : ℚ} :
    valueOf? x = some v ↔ ∃ size, Reading.ofFloat x = .finite false size ∧ size.value = v := by
  unfold valueOf?
  constructor
  · intro h
    split at h
    · rename_i size hsize
      exact ⟨size, hsize, Option.some.inj h⟩
    · cases h
  · rintro ⟨size, hsize, rfl⟩
    rw [hsize]

/-- The double is larger than zero. -/
def Reading.Positive : Reading → Prop
  | .finite negative size => negative = false ∧ size.mantissa ≠ 0
  | .infinite negative => negative = false
  | .nan => False

theorem unpack_zero_float : (0 : Float).toModel.unpack = .zero .positive := by
  have hzero : Reading.ofFloat 0 = .finite false ⟨0, -1074⟩ := by decide +kernel
  exact ((unpack_of_finite hzero).resolve_right fun ⟨hm, _⟩ => absurd hm (lt_irrefl 0)).2

theorem lt_iff_compare {x y : Float} :
    x < y ↔ UnpackedFloat.compare x.toModel.unpack y.toModel.unpack = some .lt :=
  decide_eq_true_iff.trans beq_iff_eq

theorem zero_lt_iff {x : Float} : 0 < x ↔ (Reading.ofFloat x).Positive := by
  rw [lt_iff_compare, unpack_zero_float, reading_ofFloat]
  cases x.toModel.unpack with
  | notANumber => exact ⟨nofun, nofun⟩
  | infinity s => cases s <;> simp [UnpackedFloat.compare, Reading.ofUnpacked, Reading.Positive]
  | zero s => cases s <;> simp [UnpackedFloat.compare, Reading.ofUnpacked, Reading.Positive]
  | finite s m e hm =>
    cases s <;> simp [UnpackedFloat.compare, Reading.ofUnpacked, Reading.Positive, hm.ne']

theorem Reading.Positive.cases {r : Reading} (h : r.Positive) :
    (∃ size, r = .finite false size ∧ size.mantissa ≠ 0) ∨ r = .infinite false := by
  cases r with
  | finite negative size =>
    obtain ⟨rfl, hsize⟩ := h
    exact .inl ⟨size, rfl, hsize⟩
  | infinite negative =>
    obtain rfl : negative = false := h
    exact .inr rfl
  | nan => exact h.elim

theorem Magnitude.value_pos {m : Magnitude} (h : m.mantissa ≠ 0) : 0 < m.value := by
  have hm : (0 : ℚ) < m.mantissa := Nat.cast_pos.2 (Nat.pos_of_ne_zero h)
  unfold Magnitude.value
  positivity

/-- What stays clear of a power of two is finite and below it. -/
theorem Rounds.finite_of_lt {x : Float} {v : ℚ} (h : Rounds x v) {p : ℤ} (hlow : -1021 ≤ p)
    (hp : p ≤ 1024) (hv : v < 2 ^ p - 2 ^ (p - 54)) :
    ∃ size, Reading.ofFloat x = .finite false size ∧ size.value < 2 ^ p := by
  have hreach := (h.reaches_iff p hlow hp).not.2 (not_le.2 hv)
  rcases h.positive with ⟨size, hsize⟩ | hinf
  · rw [hsize] at hreach
    exact ⟨size, hsize, lt_of_not_ge fun hge => hreach ⟨rfl, hge⟩⟩
  · rw [hinf] at hreach
    exact absurd rfl hreach

theorem value_lt {x : Float} {size : Magnitude} (h : Reading.ofFloat x = .finite false size) :
    size.value < 2 ^ (1024 : ℤ) := by
  rcases unpack_of_finite h with ⟨hzero, -⟩ | ⟨hm, hu, hc⟩
  · rw [Magnitude.value_of_zero hzero]
    positivity
  · have he := (canonical_unpack hu).2
    have hm' : (size.mantissa : ℚ) < 2 ^ (53 : ℤ) := by exact_mod_cast hc.narrow
    calc size.value < 2 ^ (53 : ℤ) * 2 ^ size.exponent := mul_lt_mul_of_pos_right hm' (by positivity)
      _ = 2 ^ (53 + size.exponent) := (zpow_add₀ two_ne_zero ..).symm
      _ ≤ 2 ^ (1024 : ℤ) := zpow_le_zpow_right₀ one_le_two (by omega)

/-! ## Infinite doubles -/

section Infinite

variable {x y : Float}

theorem unpack_of_infinite (h : Reading.ofFloat x = .infinite false) :
    x.toModel.unpack = .infinity .positive := by
  rw [reading_ofFloat] at h
  cases hu : x.toModel.unpack with
  | infinity s =>
    rw [hu] at h
    cases s with
    | positive => rfl
    | negative => cases h
  | notANumber | zero | finite =>
    rw [hu] at h
    cases h

/-- A number over an infinite one is nothing. -/
theorem rounds_div_infinite {a : Magnitude} (hx : Reading.ofFloat x = .finite false a)
    (hy : Reading.ofFloat y = .infinite false) : Rounds (x / y) 0 := by
  have hdiv : (x / y).toModel =
      pack (UnpackedFloat.div Format.binary64 x.toModel.unpack y.toModel.unpack) := rfl
  refine .of_roundsTo .zero (hdiv.trans (congrArg pack ?_))
  rw [unpack_of_infinite hy]
  rcases unpack_of_finite hx with ⟨-, hux⟩ | ⟨hm, hux, -⟩ <;> rw [hux] <;> rfl

theorem reading_of_nan (h : x.toModel = pack .notANumber) : Reading.ofFloat x = .nan := by
  rw [reading_ofFloat, h]
  exact congrArg Reading.ofUnpacked UnpackedFloat.unpack_packedNaN

theorem reading_of_infinity (h : x.toModel = pack (.infinity .positive)) :
    Reading.ofFloat x = .infinite false := by
  rw [reading_ofFloat, h]
  exact congrArg Reading.ofUnpacked unpack_packedInfinity

theorem infinite_div {b : Magnitude} (hx : Reading.ofFloat x = .infinite false)
    (hy : Reading.ofFloat y = .finite false b) : Reading.ofFloat (x / y) = .infinite false := by
  refine reading_of_infinity ?_
  have hdiv : (x / y).toModel =
      pack (UnpackedFloat.div Format.binary64 x.toModel.unpack y.toModel.unpack) := rfl
  rw [hdiv, unpack_of_infinite hx]
  rcases unpack_of_finite hy with ⟨-, huy⟩ | ⟨hm, huy, -⟩ <;> rw [huy] <;> rfl

theorem infinite_div_infinite (hx : Reading.ofFloat x = .infinite false)
    (hy : Reading.ofFloat y = .infinite false) : Reading.ofFloat (x / y) = .nan := by
  refine reading_of_nan ?_
  have hdiv : (x / y).toModel =
      pack (UnpackedFloat.div Format.binary64 x.toModel.unpack y.toModel.unpack) := rfl
  rw [hdiv, unpack_of_infinite hx, unpack_of_infinite hy]
  rfl

/-- An infinite multiple is no number, or infinite. -/
theorem mul_infinite {a : Magnitude} (hx : Reading.ofFloat x = .finite false a)
    (hy : Reading.ofFloat y = .infinite false) :
    Reading.ofFloat (x * y) = .nan ∨ Reading.ofFloat (x * y) = .infinite false := by
  have hmul : (x * y).toModel =
      pack (UnpackedFloat.mul Format.binary64 x.toModel.unpack y.toModel.unpack) := rfl
  rw [unpack_of_infinite hy] at hmul
  rcases unpack_of_finite hx with ⟨-, hux⟩ | ⟨hm, hux, -⟩
  · rw [hux] at hmul
    exact .inl (reading_of_nan hmul)
  · rw [hux] at hmul
    exact .inr (reading_of_infinity hmul)

end Infinite

end MulticastRelay.Decimal
