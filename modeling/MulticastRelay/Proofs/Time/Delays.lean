import MulticastRelay.Proofs.Decimal.Rounding
import MulticastRelay.Time.PacingTimer
import MulticastRelay.Time.RateLimit

/-! # Delays that are no durations

A number of seconds is worked out in doubles before it becomes a duration. Whether it can become one is
told here from the exact values: of the rate and the length of a frame, or of the two rates between
which a wait is scaled.
-/
namespace MulticastRelay

section Outcomes

variable {ε α β : Type} {x : Except ε α} {e : ε}

theorem ok_ne_error (a : α) (e : ε) : Except.ok a ≠ .error e := nofun

theorem map_eq_error_iff {f : α → β} : x.map f = .error e ↔ x = .error e := by
  cases x with
  | error d => exact ⟨fun h => congrArg _ (Except.error.inj h), fun h => congrArg _ (Except.error.inj h)⟩
  | ok a => exact ⟨nofun, nofun⟩

theorem bind_eq_error_iff {f : α → Except ε β} :
    x >>= f = .error e ↔ x = .error e ∨ ∃ a, x = .ok a ∧ f a = .error e := by
  cases x with
  | error d =>
    constructor
    · exact fun h => .inl (congrArg _ (Except.error.inj h))
    · rintro (h | ⟨a, h, -⟩)
      · exact congrArg _ (Except.error.inj h)
      · cases h
  | ok a =>
    constructor
    · exact fun h => .inr ⟨a, rfl, h⟩
    · rintro (h | ⟨b, h, hb⟩)
      · cases h
      · cases h
        exact hb

/-- A run stops at its first failure. -/
theorem foldlM_eq_error_iff {f : β → α → Except ε β} {xs : List α} {b : β} :
    xs.foldlM f b = .error e ↔ ∃ past x later c,
      xs = past ++ x :: later ∧ past.foldlM f b = .ok c ∧ f c x = .error e := by
  induction xs generalizing b with
  | nil =>
    refine ⟨nofun, ?_⟩
    rintro ⟨past, x, later, c, hxs, -⟩
    cases past <;> cases hxs
  | cons y xs ih =>
    rw [List.foldlM_cons, bind_eq_error_iff]
    constructor
    · rintro (hy | ⟨c, hc, hrest⟩)
      · exact ⟨[], y, xs, b, rfl, rfl, hy⟩
      · obtain ⟨past, x, later, d, rfl, hpast, hx⟩ := ih.1 hrest
        refine ⟨y :: past, x, later, d, rfl, ?_, hx⟩
        rw [List.foldlM_cons, hc]
        exact hpast
    · rintro ⟨past, x, later, d, hxs, hpast, hx⟩
      cases past with
      | nil =>
        obtain ⟨rfl, rfl⟩ := List.cons.inj hxs
        cases hpast
        exact .inl hx
      | cons z past =>
        obtain ⟨rfl, rfl⟩ := List.cons.inj hxs
        rw [List.foldlM_cons] at hpast
        cases hc : f b y with
        | error d =>
          rw [hc] at hpast
          cases hpast
        | ok c =>
          rw [hc] at hpast
          exact .inr ⟨c, rfl, ih.2 ⟨past, x, later, d, rfl, hpast, hx⟩⟩

end Outcomes

open Decimal Float.Model

/-! ## Durations -/

/-- The bound of durations, compared in whole numbers. -/
theorem Decimal.Magnitude.bound_le_iff (m : Magnitude) :
    m.denominator * Duration.secondsBound ≤ m.numerator ↔ 2 ^ (64 : ℤ) ≤ m.value := by
  have hden : (0 : ℚ) < m.denominator := Nat.cast_pos.2 m.denominator_pos
  rw [m.value_eq_div, le_div_iff₀ hden, mul_comm]
  have hbound : (Duration.secondsBound : ℚ) = 2 ^ (64 : ℤ) := by
    norm_num [Duration.secondsBound]
  rw [← hbound]
  exact_mod_cast Iff.rfl

/-- A number of seconds is a duration unless it reaches the bound of durations in seconds. -/
theorem Decimal.Rounds.ofSeconds_error_iff {x : Float} {v : ℚ} (h : Rounds x v) :
    Duration.ofSeconds x = .error .duration ↔ 2 ^ 64 - 2 ^ 10 ≤ v := by
  have hreach := h.reaches_iff 64 (by decide) (by decide)
  have hbound : (2 : ℚ) ^ (64 : ℤ) - 2 ^ ((64 : ℤ) - 54) = 2 ^ 64 - 2 ^ 10 := rfl
  rw [hbound] at hreach
  rw [← hreach, Duration.ofSeconds]
  rcases h.positive with ⟨size, hsize⟩ | hinf
  · rw [hsize]
    show _ ↔ false = false ∧ 2 ^ (64 : ℤ) ≤ size.value
    dsimp only
    rw [← size.bound_le_iff, and_iff_right rfl]
    by_cases hm : size.mantissa = 0
    · rw [if_pos hm]
      refine iff_of_false nofun ?_
      rw [size.bound_le_iff, Magnitude.value_of_zero hm, not_le]
      positivity
    · rw [if_neg hm, if_neg Bool.false_ne_true]
      by_cases hlong : size.denominator * Duration.secondsBound ≤ size.numerator
      · rw [if_pos hlong]
        exact iff_of_true rfl hlong
      · rw [if_neg hlong]
        exact iff_of_false nofun hlong
  · rw [hinf]
    exact iff_of_true rfl rfl

/-- A whole number of sixty-four bits has a value as a double. -/
theorem natural_value (n : UInt64) :
    ∃ size, Reading.ofFloat n.toFloat = .finite false size ∧ size.value < 2 ^ (65 : ℤ) := by
  refine (rounds_natural n).finite_of_lt (by decide) (by decide) ?_
  have hn : (n.toNat : ℚ) < 2 ^ 64 := by exact_mod_cast n.toNat_lt
  norm_num at hn ⊢
  linarith

/-- A duration has a value in seconds. -/
theorem toSeconds_value (d : Duration) :
    ∃ size, Reading.ofFloat (Duration.toSeconds d) = .finite false size := by
  have hbillion : Reading.ofFloat 1e9 = .finite false ⟨1000000000 * 2 ^ 23, -23⟩ := by decide +kernel
  have hvalue : Magnitude.value ⟨1000000000 * 2 ^ 23, -23⟩ = 1000000000 := by
    norm_num [Magnitude.value]
  obtain ⟨whole, hwhole, hwlt⟩ := natural_value (d / Duration.perSecond).toUInt64
  obtain ⟨rest, hrest, hrlt⟩ := natural_value (d % Duration.perSecond).toUInt64
  have hfraction := rounds_div hrest hbillion (by decide)
  rw [hvalue] at hfraction
  obtain ⟨fraction, hf, hflt⟩ := hfraction.finite_of_lt (p := 65) (by decide) (by decide) (by
    norm_num at hrlt ⊢
    linarith)
  obtain ⟨size, hsize, -⟩ := (rounds_add hwhole hf).finite_of_lt (p := 67) (by decide) (by decide) (by
    norm_num at hwlt hflt ⊢
    linarith)
  exact ⟨size, hsize⟩

/-! ## Rates -/

/-- A limit in bytes per second is larger than zero, if it came from a configured rate. -/
def RateLimit.Proper : RateLimit → Prop
  | .bytesPerSecond rate => (Reading.ofFloat rate).Positive
  | _ => True

theorem RateLimit.ofBytesPerSecond_proper (rate : Float) : (RateLimit.ofBytesPerSecond rate).Proper := by
  unfold RateLimit.ofBytesPerSecond
  split
  · trivial
  · rename_i hlimited
    split
    · trivial
    · rename_i hpaced
      rw [Bool.or_eq_true, decide_eq_true_eq, lt_iff_compare, unpack_zero_float, not_or] at hlimited
      obtain ⟨hnonneg, hnumber⟩ := hlimited
      have hnan : rate.toModel.unpack.isNaN ≠ true := hnumber
      have hzero : (UnpackedFloat.compare rate.toModel.unpack (0 : Float).toModel.unpack ==
          some .eq) ≠ true := hpaced
      rw [unpack_zero_float] at hzero
      show (Reading.ofFloat rate).Positive
      rw [reading_ofFloat]
      cases hu : rate.toModel.unpack with
      | notANumber =>
        rw [hu] at hnan
        exact absurd rfl hnan
      | infinity s =>
        rw [hu] at hnonneg
        cases s with
        | positive => rfl
        | negative => exact absurd rfl hnonneg
      | zero s =>
        rw [hu] at hzero
        exact absurd (by cases s <;> rfl) hzero
      | finite s m e hm =>
        rw [hu] at hnonneg
        cases s with
        | positive => exact ⟨rfl, hm.ne'⟩
        | negative => exact absurd rfl hnonneg

/-! ## The gap after a frame -/

/-- A frame of so many octets would keep the next one waiting for longer than any duration. -/
def RateLimit.TooSlow (rate : Float) (n : ℕ) : Prop :=
  ∃ r octets, valueOf? rate = some r ∧ valueOf? n.toUInt64.toFloat = some octets ∧
    (2 ^ 64 - 2 ^ 10) * r ≤ octets

theorem RateLimit.interval_error_iff {rate : Float} (h : (Reading.ofFloat rate).Positive) (n : ℕ) :
    (RateLimit.bytesPerSecond rate).interval n = .error .duration ↔ RateLimit.TooSlow rate n := by
  obtain ⟨bytes, hbytes, -⟩ := natural_value n.toUInt64
  have hmap : (RateLimit.bytesPerSecond rate).interval n = .error .duration ↔
      Duration.ofSeconds (n.toUInt64.toFloat / rate) = .error .duration := map_eq_error_iff
  rw [hmap]
  rcases h.cases with ⟨size, hsize, hm⟩ | hinf
  · have hpos := Magnitude.value_pos hm
    rw [(rounds_div hbytes hsize hm).ofSeconds_error_iff, le_div_iff₀ hpos]
    constructor
    · intro hle
      exact ⟨_, _, valueOf?_eq_some.2 ⟨size, hsize, rfl⟩, valueOf?_eq_some.2 ⟨bytes, hbytes, rfl⟩, hle⟩
    · rintro ⟨r, octets, hr, ho, hle⟩
      obtain ⟨size', hsize', rfl⟩ := valueOf?_eq_some.1 hr
      obtain ⟨bytes', hbytes', rfl⟩ := valueOf?_eq_some.1 ho
      cases hsize.symm.trans hsize'
      cases hbytes.symm.trans hbytes'
      exact hle
  · rw [(rounds_div_infinite hbytes hinf).ofSeconds_error_iff]
    refine iff_of_false (by norm_num) ?_
    rintro ⟨r, octets, hr, -⟩
    obtain ⟨size, hsize, -⟩ := valueOf?_eq_some.1 hr
    cases hinf.symm.trans hsize

/-! ## The scaled wait -/

/-- A wait that is scaled from one rate to another would be longer than any duration. -/
def PacingTimer.TooStretched (left : Duration) (previous new : Float) : Prop :=
  ∃ r, valueOf? new = some r ∧
    (Reading.ofFloat previous = .infinite false ∨
      (∃ q, valueOf? previous = some q ∧ (2 ^ 1024 - 2 ^ 970) * r ≤ q) ∨
      ∃ wait factor, valueOf? left.toSeconds = some wait ∧ valueOf? (previous / new) = some factor ∧
        2 ^ 64 - 2 ^ 10 ≤ wait * factor)

section Stretched

variable {previous new : Float} {left : Duration}

/-- Without a factor there is nothing left to wait. -/
theorem not_stretched (h : ¬ (Reading.ofFloat (previous / new)).Positive) :
    Duration.ofSeconds (left.toSeconds * PacingTimer.scaleFactor (previous / new)) ≠
      .error .duration := by
  have hzero : Reading.ofFloat 0 = .finite false ⟨0, -1074⟩ := by decide +kernel
  obtain ⟨wait, hwait⟩ := toSeconds_value left
  have hround := rounds_mul hwait hzero
  rw [Magnitude.value_of_zero (a := ⟨0, -1074⟩) rfl, mul_zero] at hround
  rw [PacingTimer.scaleFactor, if_neg (zero_lt_iff.not.2 h), ne_eq, hround.ofSeconds_error_iff]
  norm_num

/-- An infinite factor makes any wait too long, also one that is over. -/
theorem stretched_infinite (h : Reading.ofFloat (previous / new) = .infinite false) :
    Duration.ofSeconds (left.toSeconds * PacingTimer.scaleFactor (previous / new)) =
      .error .duration := by
  have hpos : (0 : Float) < previous / new := zero_lt_iff.2 (by rw [h]; rfl)
  obtain ⟨wait, hwait⟩ := toSeconds_value left
  rw [PacingTimer.scaleFactor, if_pos hpos, Duration.ofSeconds]
  rcases mul_infinite hwait h with hproduct | hproduct <;> rw [hproduct]

theorem scaled_error_iff {wait size : Magnitude}
    (hwait : Reading.ofFloat left.toSeconds = .finite false wait)
    (hsize : Reading.ofFloat (previous / new) = .finite false size) :
    Duration.ofSeconds (left.toSeconds * PacingTimer.scaleFactor (previous / new)) =
      .error .duration ↔ 2 ^ 64 - 2 ^ 10 ≤ wait.value * size.value := by
  by_cases hm : size.mantissa = 0
  · refine iff_of_false (not_stretched ?_) ?_
    · rw [hsize]
      exact fun h => h.2 hm
    · rw [Magnitude.value_of_zero hm, mul_zero]
      norm_num
  · have hpos : (0 : Float) < previous / new := zero_lt_iff.2 (by rw [hsize]; exact ⟨rfl, hm⟩)
    rw [PacingTimer.scaleFactor, if_pos hpos]
    exact (rounds_mul hwait hsize).ofSeconds_error_iff

/-- Nothing is left to wait at a rate without bound. -/
theorem not_stretched_to_infinite (hp : (Reading.ofFloat previous).Positive)
    (hn : Reading.ofFloat new = .infinite false) :
    ¬ (Reading.ofFloat (previous / new)).Positive := by
  rcases hp.cases with ⟨fast, hfast, -⟩ | hpinf
  · obtain ⟨size, hsize, hzero⟩ := (rounds_div_infinite hfast hn).exact 0 (by decide) rfl
    rw [hsize]
    rintro ⟨-, hm⟩
    exact (Magnitude.value_pos hm).ne' hzero
  · rw [infinite_div_infinite hpinf hn]
    exact id

/-- Between two rates that have values the factor is infinite, or it has a value. -/
theorem stretch_error_iff_of_values {fast slow : Magnitude}
    (hfast : Reading.ofFloat previous = .finite false fast)
    (hslow : Reading.ofFloat new = .finite false slow) (hm : slow.mantissa ≠ 0) :
    Duration.ofSeconds (left.toSeconds * PacingTimer.scaleFactor (previous / new)) =
      .error .duration ↔ (2 ^ 1024 - 2 ^ 970) * slow.value ≤ fast.value ∨
        ∃ wait factor, valueOf? left.toSeconds = some wait ∧
          valueOf? (previous / new) = some factor ∧ 2 ^ 64 - 2 ^ 10 ≤ wait * factor := by
  have hround := rounds_div hfast hslow hm
  have hover : (Reading.ofFloat (previous / new)).Reaches 1024 ↔
      (2 ^ 1024 - 2 ^ 970) * slow.value ≤ fast.value := by
    rw [hround.reaches_iff 1024 (by decide) le_rfl, le_div_iff₀ (Magnitude.value_pos hm)]
    exact Iff.rfl
  rw [← hover]
  rcases hround.positive with ⟨size, hsize⟩ | hsize
  · have hfactor : valueOf? (previous / new) = some size.value :=
      valueOf?_eq_some.2 ⟨size, hsize, rfl⟩
    have hshort : ¬ (Reading.ofFloat (previous / new)).Reaches 1024 := by
      rw [hsize]
      exact fun hreach => not_le.2 (value_lt hsize) hreach.2
    obtain ⟨wait, hwait⟩ := toSeconds_value left
    rw [scaled_error_iff hwait hsize, or_iff_right hshort]
    constructor
    · intro hle
      exact ⟨_, _, valueOf?_eq_some.2 ⟨wait, hwait, rfl⟩, hfactor, hle⟩
    · rintro ⟨w, f, hw, hf, hle⟩
      obtain ⟨wait', hwait', rfl⟩ := valueOf?_eq_some.1 hw
      cases hwait.symm.trans hwait'
      cases hfactor.symm.trans hf
      exact hle
  · have hreach : (Reading.ofFloat (previous / new)).Reaches 1024 := by
      rw [hsize]
      rfl
    exact iff_of_true (stretched_infinite hsize) (.inl hreach)

/-- A wait that is scaled is a duration unless it is stretched too far. -/
theorem stretch_error_iff (hp : (Reading.ofFloat previous).Positive)
    (hn : (Reading.ofFloat new).Positive) :
    Duration.ofSeconds (left.toSeconds * PacingTimer.scaleFactor (previous / new)) =
      .error .duration ↔ PacingTimer.TooStretched left previous new := by
  rcases hn.cases with ⟨slow, hslow, hm⟩ | hinf
  · have hr : valueOf? new = some slow.value := valueOf?_eq_some.2 ⟨slow, hslow, rfl⟩
    rcases hp.cases with ⟨fast, hfast, -⟩ | hpinf
    · have hq : valueOf? previous = some fast.value := valueOf?_eq_some.2 ⟨fast, hfast, rfl⟩
      rw [stretch_error_iff_of_values hfast hslow hm]
      constructor
      · rintro (hle | hlong)
        · exact ⟨_, hr, .inr (.inl ⟨_, hq, hle⟩)⟩
        · exact ⟨_, hr, .inr (.inr hlong)⟩
      · rintro ⟨r, hr', hpinf | ⟨q, hq', hle⟩ | hlong⟩
        · cases hfast.symm.trans hpinf
        · cases hr.symm.trans hr'
          cases hq.symm.trans hq'
          exact .inl hle
        · exact .inr hlong
    · exact iff_of_true (stretched_infinite (infinite_div hpinf hslow)) ⟨_, hr, .inl hpinf⟩
  · refine iff_of_false (not_stretched (not_stretched_to_infinite hp hinf)) ?_
    rintro ⟨r, hr, -⟩
    obtain ⟨size, hsize, -⟩ := valueOf?_eq_some.1 hr
    cases hinf.symm.trans hsize

/-- A timer is set to any delay, or to none that time could reach. -/
theorem PacingTimer.arm_ne_duration (now : Instant) (d : Duration) :
    PacingTimer.arm now d ≠ .error .duration := by
  rw [PacingTimer.arm, ne_eq, map_eq_error_iff, Instant.after]
  split <;> exact nofun

theorem PacingTimer.rescale_error_iff {t : PacingTimer} {now : Instant}
    (hp : (Reading.ofFloat previous).Positive) (hn : (Reading.ofFloat new).Positive) :
    t.rescale now (previous / new) = .error .duration ↔
      ∃ left, t.remaining? now = some left ∧ PacingTimer.TooStretched left previous new := by
  unfold PacingTimer.rescale
  cases t.remaining? now with
  | none => exact ⟨nofun, nofun⟩
  | some left =>
    dsimp only
    rw [bind_eq_error_iff, stretch_error_iff hp hn]
    constructor
    · rintro (h | ⟨d, -, h⟩)
      · exact ⟨left, rfl, h⟩
      · exact absurd h (PacingTimer.arm_ne_duration now d)
    · rintro ⟨_, hleft, h⟩
      cases hleft
      exact .inl h

end Stretched

end MulticastRelay
