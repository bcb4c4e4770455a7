/-! Comparisons of floats. Two floats compare unless one of them is NaN, and swapping them swaps
the outcome, so that between numbers one comparison is the negation of the other. -/
namespace MempoolWatch

open Float.Model

theorem compare_swap (a b : UnpackedFloat) : b.compare a = (a.compare b).map Ordering.swap := by
  have finite (m n : Nat) (e f : Int) :
      (compare f e).then (compare n m) = ((compare e f).then (compare m n)).swap := by
    rw [Ordering.swap_then, Int.compare_swap, Nat.compare_swap]
  cases a with
  | notANumber => cases b <;> rfl
  | infinity sign => cases sign <;> rcases b with (_ | _) | _ | _ | _ <;> rfl
  | zero sign => rcases b with (_ | _) | _ | _ | ⟨_ | _⟩ <;> rfl
  | finite sign m e =>
    cases sign with
    | negative =>
      rcases b with (_ | _) | _ | _ | ⟨_ | _, n, f⟩
      case finite.negative => exact congrArg (some ∘ Ordering.swap) (finite m n e f)
      all_goals rfl
    | positive =>
      rcases b with (_ | _) | _ | _ | ⟨_ | _, n, f⟩
      case finite.positive => exact congrArg some (finite m n e f)
      all_goals rfl

theorem isSome_compare (a b : UnpackedFloat) :
    (a.compare b).isSome = (! a.isNaN && ! b.isNaN) := by
  rcases a with (_ | _) | _ | _ | ⟨_ | _⟩ <;> rcases b with (_ | _) | _ | _ | ⟨_ | _⟩ <;> rfl

variable {a b : Float}

theorem lt_iff_compare : a < b ↔ a.toModel.unpack.compare b.toModel.unpack = some .lt :=
  decide_eq_true_iff.trans beq_iff_eq

theorem le_iff_compare : a ≤ b ↔
    ∃ order, a.toModel.unpack.compare b.toModel.unpack = some order ∧ order.isLE = true :=
  decide_eq_true_iff.trans (Option.any_eq_true _ _)

/-- Floats that compare are numbers. -/
theorem exists_compare_iff :
    (∃ order, a.toModel.unpack.compare b.toModel.unpack = some order) ↔
      a.isNaN = false ∧ b.isNaN = false := by
  rw [← Option.isSome_iff_exists, isSome_compare, Bool.and_eq_true, Bool.not_eq_true',
    Bool.not_eq_true']
  rfl

/-- Neither side of a comparison that holds is NaN. -/
theorem not_isNaN_of_lt (less : a < b) : a.isNaN = false ∧ b.isNaN = false :=
  exists_compare_iff.mp ⟨.lt, lt_iff_compare.mp less⟩

theorem not_isNaN_of_le (atMost : a ≤ b) : a.isNaN = false ∧ b.isNaN = false := by
  obtain ⟨order, compared, _⟩ := le_iff_compare.mp atMost
  exact exists_compare_iff.mp ⟨order, compared⟩

/-- Between numbers one comparison is the negation of the other, and NaN satisfies neither. -/
theorem lt_iff_not_le : a < b ↔ a.isNaN = false ∧ b.isNaN = false ∧ ¬ b ≤ a := by
  rw [le_iff_compare, compare_swap a.toModel.unpack]
  constructor
  · intro less
    obtain ⟨left, right⟩ := not_isNaN_of_lt less
    refine ⟨left, right, ?_⟩
    rw [lt_iff_compare.mp less]
    rintro ⟨_, ⟨rfl⟩, above⟩
    exact absurd above (by decide)
  · rintro ⟨left, right, unequal⟩
    obtain ⟨order, compared⟩ := exists_compare_iff.mpr ⟨left, right⟩
    rw [lt_iff_compare, compared]
    rw [compared] at unequal
    cases order with
    | lt => rfl
    | eq | gt => exact absurd ⟨_, rfl, rfl⟩ unequal

end MempoolWatch
