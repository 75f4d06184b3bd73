import MyMinecraft.World

/-! Where the chunk of a block stops being its chunk.

The chunk coordinate is computed from a binary32 and the local coordinate from the
`int`. From magnitude `2 ^ 24` on, binary32 holds only every second `int`, then
every fourth, and so on; a coordinate that rounds up to the next multiple of 16, or
past a multiple of 16 that is no longer held, is looked up in another chunk. -/
namespace MyMinecraft
open Lib.Significand

/-- The coordinate rounds to one of the same chunk. The bands are those of the
exponent: each has twice the spacing of the one before, 2 in the first. -/
def Addressed (x : Int) : Prop :=
  if x.natAbs < 2 ^ 24 then True
  else if x.natAbs < 2 ^ 25 then x % 16 < 15
  else if x.natAbs < 2 ^ 26 then x % 16 < 14
  else if x.natAbs < 2 ^ 27 then x % 16 < 12
  -- a tie goes to the even multiple of 16
  else if x.natAbs < 2 ^ 28 then x % 16 < 8 ∨ x % 32 = 8
  -- of the multiples of 16 only some are held
  else if x.natAbs < 2 ^ 29 then x % 32 < 16
  else if x.natAbs < 2 ^ 30 then x % 64 < 16
  else x % 128 < 16

theorem chunkCoord_band {x : Int} (k : Nat) (hlo : 2 ^ k ≤ x.natAbs) (hhi : x.natAbs < 2 ^ (k + 1)) :
    chunkCoord x = nearestMultiple (2 ^ (k + 1 - 24) : Nat) x / 16 * 16 := by
  rw [chunkCoord, roundInt_eq, excess_eq hlo hhi]

/-- Held to a spacing of at most 8, a coordinate leaves its chunk only upwards. -/
theorem nearestMultiple_fine {s : Int} (hs : s = 2 ∨ s = 4 ∨ s = 8) (x : Int) :
    nearestMultiple s x / 16 * 16 = 16 * (x / 16) ↔ 2 * (x % 16) + s < 32 := by
  unfold nearestMultiple
  rcases hs with rfl | rfl | rfl <;> split <;> omega

theorem nearestMultiple_sixteen (x : Int) :
    nearestMultiple 16 x / 16 * 16 = 16 * (x / 16) ↔ x % 16 < 8 ∨ x % 32 = 8 := by
  unfold nearestMultiple
  split <;> omega

/-- Held to a wider spacing, it stays in its chunk when the chunk begins at a multiple of that. -/
theorem nearestMultiple_coarse {s : Int} (hs : s = 32 ∨ s = 64 ∨ s = 128) (x : Int) :
    nearestMultiple s x / 16 * 16 = 16 * (x / 16) ↔ x % s < 16 := by
  unfold nearestMultiple
  rcases hs with rfl | rfl | rfl <;> split <;> omega

theorem chunkCoord_iff {x : Int} (h : x.natAbs ≤ 2 ^ 31) :
    chunkCoord x = 16 * (x / 16) ↔ Addressed x := by
  unfold Addressed
  split
  · next h24 => exact iff_of_true (chunkCoord_eq (Nat.le_of_lt h24)) trivial
  split
  · next h24 h25 =>
    rw [chunkCoord_band 24 (by omega) h25]
    exact (nearestMultiple_fine (.inl rfl) x).trans (by omega)
  split
  · next h25 h26 =>
    rw [chunkCoord_band 25 (by omega) h26]
    exact (nearestMultiple_fine (.inr (.inl rfl)) x).trans (by omega)
  split
  · next h26 h27 =>
    rw [chunkCoord_band 26 (by omega) h27]
    exact (nearestMultiple_fine (.inr (.inr rfl)) x).trans (by omega)
  split
  · next h27 h28 =>
    rw [chunkCoord_band 27 (by omega) h28]
    exact nearestMultiple_sixteen x
  split
  · next h28 h29 =>
    rw [chunkCoord_band 28 (by omega) h29]
    exact nearestMultiple_coarse (.inl rfl) x
  split
  · next h29 h30 =>
    rw [chunkCoord_band 29 (by omega) h30]
    exact nearestMultiple_coarse (.inr (.inl rfl)) x
  · next h30 =>
    rcases Nat.lt_or_eq_of_le h with hlt | heq
    · rw [chunkCoord_band 30 (by omega) hlt]
      exact nearestMultiple_coarse (.inr (.inr rfl)) x
    · -- the least `int` is a power of two
      have hx : x = 2 ^ 31 ∨ x = -2 ^ 31 := by omega
      rcases hx with rfl | rfl <;> decide

/-- **The chunk and the local coordinate add up exactly on these.** -/
theorem chunkCoord_exact_iff (x : Int32) :
    (chunkCoord x.toInt = 16 * (x.toInt / 16) ∧ chunkCoord x.toInt + localCoord x.toInt = x.toInt) ↔
      Addressed x.toInt := by
  have hlo := x.le_toInt
  have hhi := x.toInt_lt
  rw [← chunkCoord_iff (by omega), localCoord_eq]
  constructor
  · exact fun h => h.1
  · intro h
    exact ⟨h, by omega⟩

/-- The first coordinate that is looked up in another chunk. -/
theorem chunkCoord_rounds_up : ¬ ∀ x : Int32, chunkCoord x.toInt = 16 * (x.toInt / 16) ∧
    chunkCoord x.toInt + localCoord x.toInt = x.toInt := by
  intro h
  have hx := (h 16777231).1
  revert hx
  decide

end MyMinecraft
