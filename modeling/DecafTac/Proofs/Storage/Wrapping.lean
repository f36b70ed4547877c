import DecafTac.Storage.FrameShape

/-!
Numbers of 32 bits. Wrapping around goes through sums, differences and products, so it can be put off to
the end of a computation: the offset of a slot is what is left of its position. A number in range is left
as it is, and then an offset is the position itself.
-/
namespace DecafTac

/-- A number that 32 bits hold. -/
def Fits32 (n : Int) : Prop := wrap32 n = n

instance (n : Int) : Decidable (Fits32 n) := inferInstanceAs (Decidable (wrap32 n = n))

theorem fits32_iff {n : Int} : Fits32 n ↔ -2147483648 ≤ n ∧ n < 2147483648 := by
  simp only [Fits32, wrap32, Int.bmod, Nat.pow_eq, Nat.reducePow]
  omega

/-- What lies between numbers in range is in range. -/
theorem Fits32.between {low n high : Int} (lower : Fits32 low) (upper : Fits32 high) (above : low ≤ n)
    (below : n ≤ high) : Fits32 n := by
  rw [fits32_iff] at lower upper ⊢
  omega

/-- What is left of a number from zero on is no more than it. -/
theorem wrap32_le {n : Int} (nonneg : 0 ≤ n) : wrap32 n ≤ n := by
  simp only [wrap32, Int.bmod, Nat.pow_eq, Nat.reducePow]
  omega

/-- A sum can be wrapped around once. -/
theorem wrap32_add_wrap32 (a b : Int) : wrap32 (a + wrap32 b) = wrap32 (a + b) := Int.add_bmod_bmod ..

theorem slotBytes_eq (slotSize : Int) (count : Nat) : slotBytes slotSize count = wrap32 (slotSize * count) :=
  Int.mul_bmod_bmod ..

/-- The bytes of some slots, when 32 bits hold their number. -/
theorem slotBytes_of_fits {slotSize : Int} {count : Nat} (fits : Fits32 (slotSize * count)) :
    slotBytes slotSize count = slotSize * count :=
  (slotBytes_eq ..).trans fits

/-- Fewer slots are in range where more are. -/
theorem Fits32.fewer {slotSize : Int} {more fewer : Nat} (fits : Fits32 (slotSize * more))
    (wide : 0 < slotSize) (fewer_le : fewer ≤ more) : Fits32 (slotSize * fewer) := by
  have start : 0 ≤ slotSize * (fewer : Int) := Int.mul_nonneg (by omega) (by omega)
  have stop : slotSize * (fewer : Int) ≤ slotSize * (more : Int) :=
    Int.mul_le_mul_of_nonneg_left (by omega) (by omega)
  exact .between (by decide : Fits32 0) fits start stop

/-- Different numbers of slots take different numbers of bytes. -/
theorem eq_of_slots {slotSize : Int} (wide : 0 < slotSize) {a b : Nat}
    (same : slotSize * (a : Int) = slotSize * (b : Int)) : a = b :=
  Int.ofNat_inj.mp (Int.eq_of_mul_eq_mul_left (by omega) same)

namespace FrameShape

variable (shape : FrameShape) (n : Nat)

/-! ## Offsets of positions -/

theorem wrap_localPosition : wrap32 (shape.localPosition n) = shape.localOffset n := by
  rw [localPosition, localOffset, slotBytes_eq]
  exact (Int.sub_bmod_bmod ..).symm

theorem wrap_paramPosition : wrap32 (shape.paramPosition n) = shape.paramOffset n := by
  rw [paramPosition, paramOffset, slotBytes_eq, wrap32_add_wrap32]

theorem wrap_globalPosition : wrap32 (shape.globalPosition n) = shape.globalOffset n := by
  rw [globalPosition, globalOffset, slotBytes_eq, wrap32_add_wrap32]

end FrameShape

end DecafTac
