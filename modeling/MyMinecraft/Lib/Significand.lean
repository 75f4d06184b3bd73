import Mathlib

/-! Integers in a binary floating-point format.

A format with `p` significant bits holds an integer exactly when the bits past
the leading `p` are zero. Converting any other integer rounds to nearest, ties
to even, and the result is again an integer. `roundNat` and `roundInt` are that
conversion; they are the identity up to magnitude `2 ^ p`. -/
namespace Lib.Significand

/-- The multiple of `2 ^ e` nearest to `n`, the even one of two equally near. -/
def roundAt (e n : Nat) : Nat :=
  if 2 ^ e < 2 * (n % 2 ^ e) ∨ (2 * (n % 2 ^ e) = 2 ^ e ∧ n / 2 ^ e % 2 = 1) then
    (n / 2 ^ e + 1) * 2 ^ e
  else n / 2 ^ e * 2 ^ e

/-- How many low bits of `n` do not fit `p` significant bits. -/
def excess (p n : Nat) : Nat := n.log2 + 1 - p

def roundNat (p n : Nat) : Nat := roundAt (excess p n) n

def roundInt (p : Nat) (x : Int) : Int :=
  if x < 0 then -(roundNat p x.natAbs : Int) else (roundNat p x.natAbs : Int)

theorem roundAt_of_dvd {e n : Nat} (h : 2 ^ e ∣ n) : roundAt e n = n := by
  have hr : n % 2 ^ e = 0 := Nat.mod_eq_zero_of_dvd h
  have hp : 0 < 2 ^ e := Nat.two_pow_pos e
  unfold roundAt
  rw [hr, if_neg (by omega), Nat.div_mul_cancel h]

theorem excess_of_lt {p n : Nat} (h : n < 2 ^ p) (hp : 0 < p) : excess p n = 0 := by
  unfold excess
  by_cases hn : n = 0
  · subst hn
    simp only [Nat.log2_zero]
    omega
  · have := (Nat.log2_lt hn).mpr h
    omega

/-- Up to `2 ^ p` nothing is rounded: below it every bit fits, and `2 ^ p` itself
has a single one. -/
theorem roundNat_of_le {p n : Nat} (h : n ≤ 2 ^ p) (hp : 0 < p) : roundNat p n = n := by
  unfold roundNat
  rcases Nat.lt_or_eq_of_le h with hlt | rfl
  · rw [excess_of_lt hlt hp]
    exact roundAt_of_dvd (by simp)
  · have he : excess p (2 ^ p) = 1 := by
      unfold excess
      rw [Nat.log2_two_pow]
      omega
    rw [he]
    exact roundAt_of_dvd (pow_dvd_pow 2 hp)

theorem roundInt_of_le {p : Nat} {x : Int} (h : x.natAbs ≤ 2 ^ p) (hp : 0 < p) :
    roundInt p x = x := by
  unfold roundInt
  rw [roundNat_of_le h hp]
  split <;> omega

/-- Rounding does not bring a number back below `2 ^ p`. -/
theorem le_roundNat {p n : Nat} (h : 2 ^ p ≤ n) (hp : 0 < p) : 2 ^ p ≤ roundNat p n := by
  have hn : n ≠ 0 := (Nat.lt_of_lt_of_le (Nat.two_pow_pos p) h).ne'
  have hlog : p ≤ n.log2 := (Nat.le_log2 hn).mpr h
  have hdvd : 2 ^ excess p n ∣ 2 ^ n.log2 := by
    apply pow_dvd_pow
    unfold excess
    omega
  have hfloor : 2 ^ n.log2 ≤ n / 2 ^ excess p n * 2 ^ excess p n :=
    calc 2 ^ n.log2 = 2 ^ n.log2 / 2 ^ excess p n * 2 ^ excess p n := (Nat.div_mul_cancel hdvd).symm
      _ ≤ n / 2 ^ excess p n * 2 ^ excess p n :=
        Nat.mul_le_mul_right _ (Nat.div_le_div_right (Nat.log2_self_le hn))
  have hround : n / 2 ^ excess p n * 2 ^ excess p n ≤ roundNat p n := by
    unfold roundNat roundAt
    split
    · exact Nat.mul_le_mul_right _ (Nat.le_succ _)
    · exact le_rfl
  exact (Nat.pow_le_pow_right (by decide) hlog).trans (hfloor.trans hround)

/-! ### Rounding, on either side of 0 -/

/-- The multiple of `s` nearest to `x`, the even one of two equally near. -/
def nearestMultiple (s x : Int) : Int :=
  if s < 2 * (x % s) ∨ (2 * (x % s) = s ∧ x / s % 2 = 1) then (x / s + 1) * s else x / s * s

theorem roundAt_cast (e n : Nat) : (roundAt e n : Int) = nearestMultiple (2 ^ e : Nat) n := by
  unfold roundAt nearestMultiple
  split
  · next h =>
    rw [if_pos (by omega)]
    push_cast
    rfl
  · next h =>
    rw [if_neg (by omega)]
    push_cast
    rfl

/-- Rounding is symmetric: a tie on either side of 0 goes to the same even multiple. -/
theorem nearestMultiple_neg {s : Int} (hs : 0 < s) (x : Int) :
    nearestMultiple s (-x) = -nearestMultiple s x := by
  have hx := Int.mul_ediv_add_emod x s
  have hr := Int.emod_nonneg x hs.ne'
  have hlt := Int.emod_lt_of_pos x hs
  by_cases h0 : x % s = 0
  · have hq : -x / s = -(x / s) ∧ -x % s = 0 := by
      refine (Int.ediv_emod_unique hs).mpr ⟨?_, Int.le_refl 0, hs⟩
      rw [mul_neg]
      omega
    unfold nearestMultiple
    rw [hq.1, hq.2, h0, if_neg (by omega), if_neg (by omega), neg_mul]
  · have hq : -x / s = -(x / s) - 1 ∧ -x % s = s - x % s := by
      refine (Int.ediv_emod_unique hs).mpr ⟨?_, by omega, by omega⟩
      rw [mul_sub, mul_neg, mul_one]
      omega
    unfold nearestMultiple
    rw [hq.1, hq.2]
    by_cases hup : s < 2 * (x % s) ∨ (2 * (x % s) = s ∧ x / s % 2 = 1)
    · rw [if_pos hup, if_neg (by omega)]
      ring
    · rw [if_neg hup, if_pos (by omega)]
      ring

theorem roundInt_eq (p : Nat) (x : Int) :
    roundInt p x = nearestMultiple (2 ^ excess p x.natAbs : Nat) x := by
  unfold roundInt roundNat
  rw [roundAt_cast]
  split
  · rw [Int.ofNat_natAbs_of_nonpos (by omega), nearestMultiple_neg (by positivity), neg_neg]
  · rw [Int.natAbs_of_nonneg (by omega)]

theorem excess_eq {p k n : Nat} (hlo : 2 ^ k ≤ n) (hhi : n < 2 ^ (k + 1)) :
    excess p n = k + 1 - p := by
  have hn : n ≠ 0 := (Nat.lt_of_lt_of_le (Nat.two_pow_pos k) hlo).ne'
  rw [excess, (Nat.log2_eq_iff hn).mpr ⟨hlo, hhi⟩]

end Lib.Significand
