import Mathlib
import MulticastRelay.Decimal.Binary

/-! # The order of doubles

A double that is at least some other one is a number, and it is not less than the other.
-/
namespace MulticastRelay.Decimal

open Float.Model

variable {x y : Float}

theorem compare_swap (u v : UnpackedFloat) :
    UnpackedFloat.compare u v = (UnpackedFloat.compare v u).map Ordering.swap := by
  have size : ∀ (d e : Int) (m n : Nat), ((compare d e).then (compare m n)) =
      ((compare e d).then (compare n m)).swap := fun d e m n => by
    rw [Ordering.swap_then, ← Std.OrientedCmp.eq_swap, ← Std.OrientedCmp.eq_swap]
  match u, v with
  | .notANumber, v => cases v <;> rfl
  | .infinity s, .notANumber | .zero s, .notANumber | .finite s _ _ _, .notANumber => rfl
  | .infinity s, .infinity t | .infinity s, .zero t | .infinity s, .finite t _ _ _
  | .zero s, .infinity t | .zero s, .zero t | .zero s, .finite t _ _ _
  | .finite s _ _ _, .infinity t | .finite s _ _ _, .zero t => cases s <;> cases t <;> rfl
  | .finite s m d _, .finite t n e _ =>
    cases s <;> cases t
    · exact congrArg (fun o => some o.swap) (size d e m n)
    · rfl
    · rfl
    · exact congrArg some (size d e m n)

theorem compare_of_le (h : y ≤ x) :
    (UnpackedFloat.compare y.toModel.unpack x.toModel.unpack).any (·.isLE) = true :=
  of_decide_eq_true (p := y.toModel ≤ x.toModel) h

theorem compare_of_lt (h : x < y) :
    UnpackedFloat.compare x.toModel.unpack y.toModel.unpack = some .lt :=
  eq_of_beq (of_decide_eq_true (p := x.toModel < y.toModel) h)

theorem not_lt_of_le (h : y ≤ x) : ¬ x < y := by
  intro hlt
  have hle := compare_of_le h
  rw [compare_swap, compare_of_lt hlt] at hle
  cases hle

theorem ne_nan_of_le (h : y ≤ x) : x ≠ .nan := by
  rintro rfl
  have hle := compare_of_le h
  have hnan : Float.nan.toModel.unpack = .notANumber := UnpackedFloat.unpack_packedNaN
  rw [hnan] at hle
  cases hu : y.toModel.unpack <;> rw [hu] at hle <;> cases hle

end MulticastRelay.Decimal
