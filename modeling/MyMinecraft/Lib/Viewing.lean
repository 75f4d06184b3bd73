import Mathlib

/-! A camera's frustum, measured along a direction.

The points of a frustum are those ahead of its apex between two distances, up to a slope to the sides. Along a
direction they reach from the middle as far as one of the eight corners (`le_reach`, `exists_corner`), at most
three times as far one way as the other (`reach_neg_le`). -/
namespace Lib.Viewing
open Matrix

/-- A camera's axes, and how far it sees along them. -/
structure Frustum (ι K : Type*) where
  apex : ι → K
  front : ι → K
  right : ι → K
  up : ι → K
  /-- The slopes to the sides. -/
  tanX : K
  tanY : K
  near : K
  far : K

variable {ι K : Type*}

section
variable [Fintype ι] [DecidableEq ι] [CommRing K] {b : ι → ι → K}
  (hb : ∀ i j, b i ⬝ᵥ b j = if i = j then 1 else 0) (g : ι → K)
include hb

/-- A vector in an orthonormal basis. -/
theorem sum_dotProduct_smul : ∑ i, (b i ⬝ᵥ g) • b i = g := by
  have hone : of b * (of b)ᵀ = 1 := by
    ext i j
    rw [mul_apply, one_apply, ← hb i j]
    rfl
  have hone' : (of b)ᵀ * of b = 1 := mul_eq_one_comm.mp hone
  calc ∑ i, (b i ⬝ᵥ g) • b i = (of b *ᵥ g) ᵥ* of b := (vecMul_eq_sum _ _).symm
    _ = ((of b)ᵀ * of b) *ᵥ g := by rw [← mulVec_transpose, mulVec_mulVec]
    _ = g := by rw [hone', one_mulVec]

/-- Along one axis alone. -/
theorem eq_smul_of_orthogonal {k : ι} (h : ∀ i, i ≠ k → b i ⬝ᵥ g = 0) : g = (b k ⬝ᵥ g) • b k := by
  have hsum : ∑ i, (b i ⬝ᵥ g) • b i = (b k ⬝ᵥ g) • b k :=
    Finset.sum_eq_single k (fun i _ hi => by rw [h i hi, zero_smul]) fun hk => (hk (Finset.mem_univ k)).elim
  rw [← hsum, sum_dotProduct_smul hb]

/-- It is as long there as anywhere. -/
theorem sum_sq_dotProduct : ∑ i, (b i ⬝ᵥ g) ^ 2 = g ⬝ᵥ g := by
  calc ∑ i, (b i ⬝ᵥ g) ^ 2 = (∑ i, (b i ⬝ᵥ g) • b i) ⬝ᵥ g := by
        rw [sum_dotProduct]
        exact Finset.sum_congr rfl fun i _ => by rw [smul_dotProduct, smul_eq_mul, sq]
    _ = g ⬝ᵥ g := by rw [sum_dotProduct_smul hb]

end

namespace Frustum

section
variable [Field K]

/-- The point at distance `d`, `a` of the way to the side and `b` of the way up. -/
def point (F : Frustum ι K) (d a b : K) : ι → K :=
  F.apex + d • (F.front + (a * F.tanX) • F.right + (b * F.tanY) • F.up)

def corners (F : Frustum ι K) : List (ι → K) :=
  [F.point F.near 1 1, F.point F.near 1 (-1), F.point F.near (-1) 1, F.point F.near (-1) (-1),
    F.point F.far 1 1, F.point F.far 1 (-1), F.point F.far (-1) 1, F.point F.far (-1) (-1)]

/-- The mean of the corners. -/
def middle (F : Frustum ι K) : ι → K := (F.corners.length : K)⁻¹ • F.corners.sum

theorem middle_eq [CharZero K] (F : Frustum ι K) : F.middle = F.apex + ((F.near + F.far) / 2) • F.front := by
  have hlength : (F.corners.length : K) = 8 := by norm_num [corners]
  have hsum : F.corners.sum = (8 : K) • (F.apex + ((F.near + F.far) / 2) • F.front) := by
    simp only [corners, point, List.sum_cons, List.sum_nil]
    module
  rw [middle, hlength, hsum, inv_smul_smul₀ (by norm_num)]

variable [Fintype ι]

theorem dotProduct_point [CharZero K] (F : Frustum ι K) (g : ι → K) (d a b : K) :
    g ⬝ᵥ (F.point d a b - F.middle) =
      d * (g ⬝ᵥ F.front + a * F.tanX * (g ⬝ᵥ F.right) + b * F.tanY * (g ⬝ᵥ F.up)) -
        (F.near + F.far) / 2 * (g ⬝ᵥ F.front) := by
  simp only [point, middle_eq, add_sub_add_left_eq_sub, dotProduct_sub, dotProduct_add, dotProduct_smul, smul_eq_mul]

end

variable [Field K] [LinearOrder K]

/-- The points of the frustum. -/
def InView (F : Frustum ι K) (x : ι → K) : Prop :=
  ∃ d a b, F.near ≤ d ∧ d ≤ F.far ∧ |a| ≤ 1 ∧ |b| ≤ 1 ∧ x = F.point d a b

/-- The frustum is not turned inside out. -/
structure Proper (F : Frustum ι K) : Prop where
  tanX : 0 ≤ F.tanX
  tanY : 0 ≤ F.tanY
  near : 0 ≤ F.near
  far : F.near ≤ F.far

variable [Fintype ι] (F : Frustum ι K) (g : ι → K)

/-- How far a cut reaches along `g`, at distance one. -/
def side : K := F.tanX * |g ⬝ᵥ F.right| + F.tanY * |g ⬝ᵥ F.up|

/-- How far the frustum reaches along `g`, from the middle. -/
def reach : K :=
  max (F.near * (g ⬝ᵥ F.front + F.side g)) (F.far * (g ⬝ᵥ F.front + F.side g)) - g ⬝ᵥ (F.middle - F.apex)

theorem side_neg : F.side (-g) = F.side g := by
  simp only [side, neg_dotProduct, abs_neg]

theorem exists_distance (n m s : K) : ∃ d, (d = n ∨ d = m) ∧ d * s = max (n * s) (m * s) := by
  obtain h | h := max_choice (n * s) (m * s)
  · exact ⟨n, .inl rfl, h.symm⟩
  · exact ⟨m, .inr rfl, h.symm⟩

variable [IsStrictOrderedRing K] {F}

theorem side_nonneg (hF : F.Proper) : 0 ≤ F.side g :=
  add_nonneg (mul_nonneg hF.tanX (abs_nonneg _)) (mul_nonneg hF.tanY (abs_nonneg _))

/-- No slope is more than the sides. -/
theorem slope_le {a s t : K} (ha : |a| ≤ 1) (ht : 0 ≤ t) : a * t * s ≤ t * |s| := by
  calc a * t * s = t * (a * s) := by ring
    _ ≤ t * |a * s| := mul_le_mul_of_nonneg_left (le_abs_self _) ht
    _ ≤ t * |s| := by
      rw [abs_mul]
      exact mul_le_mul_of_nonneg_left (mul_le_of_le_one_left (abs_nonneg s) ha) ht

/-- One of the two distances is the better, as the slope goes. -/
theorem max_distance {n m s : K} (h : n ≤ m) : max (n * s) (m * s) = (n + m) / 2 * s + (m - n) / 2 * |s| := by
  obtain hs | hs := le_total 0 s
  · rw [max_eq_right (mul_le_mul_of_nonneg_right h hs), abs_of_nonneg hs]
    ring
  · rw [max_eq_left (mul_le_mul_of_nonpos_right h hs), abs_of_nonpos hs]
    ring

theorem le_max_distance {n m d s : K} (hn : n ≤ d) (hm : d ≤ m) : d * s ≤ max (n * s) (m * s) := by
  obtain h | h := le_total 0 s
  · exact le_max_of_le_right (mul_le_mul_of_nonneg_right hm h)
  · exact le_max_of_le_left (mul_le_mul_of_nonpos_right hn h)

theorem reach_eq_max (F : Frustum ι K) : F.reach g =
    max (F.near * (g ⬝ᵥ F.front + F.side g)) (F.far * (g ⬝ᵥ F.front + F.side g)) -
      (F.near + F.far) / 2 * (g ⬝ᵥ F.front) := by
  rw [reach, middle_eq, add_sub_cancel_left, dotProduct_smul, smul_eq_mul]

theorem reach_eq (hF : F.Proper) : F.reach g =
    (F.near + F.far) / 2 * F.side g + (F.far - F.near) / 2 * |g ⬝ᵥ F.front + F.side g| := by
  rw [reach_eq_max, max_distance hF.far]
  ring

theorem le_reach (hF : F.Proper) {x : ι → K} (hx : F.InView x) : g ⬝ᵥ (x - F.middle) ≤ F.reach g := by
  obtain ⟨d, a, b, hn, hm, ha, hb, rfl⟩ := hx
  have hslope : g ⬝ᵥ F.front + a * F.tanX * (g ⬝ᵥ F.right) + b * F.tanY * (g ⬝ᵥ F.up) ≤
      g ⬝ᵥ F.front + F.side g := by
    have hX := slope_le (s := g ⬝ᵥ F.right) ha hF.tanX
    have hY := slope_le (s := g ⬝ᵥ F.up) hb hF.tanY
    rw [side]
    linarith
  have hd : 0 ≤ d := hF.near.trans hn
  have hdistance := le_max_distance (s := g ⬝ᵥ F.front + F.side g) hn hm
  rw [dotProduct_point, reach_eq_max]
  linarith [mul_le_mul_of_nonneg_left hslope hd]

/-- A corner on the side `s` is on. -/
theorem exists_sign (s t : K) : ∃ a : K, (a = 1 ∨ a = -1) ∧ a * t * s = t * |s| := by
  obtain h | h := le_total 0 s
  · exact ⟨1, .inl rfl, by rw [abs_of_nonneg h, one_mul]⟩
  · exact ⟨-1, .inr rfl, by rw [abs_of_nonpos h]; ring⟩

theorem exists_corner (F : Frustum ι K) : ∃ v ∈ F.corners, g ⬝ᵥ (v - F.middle) = F.reach g := by
  obtain ⟨a, ha, hX⟩ := exists_sign (g ⬝ᵥ F.right) F.tanX
  obtain ⟨b, hb, hY⟩ := exists_sign (g ⬝ᵥ F.up) F.tanY
  obtain ⟨d, hd, hdistance⟩ := exists_distance F.near F.far (g ⬝ᵥ F.front + F.side g)
  refine ⟨F.point d a b, ?_, ?_⟩
  · obtain rfl | rfl := ha <;> obtain rfl | rfl := hb <;> obtain rfl | rfl := hd <;> simp [corners]
  · rw [dotProduct_point, hX, hY, add_assoc (g ⬝ᵥ F.front), reach_eq_max, ← hdistance]
    rfl

/-- A bound on the corners leaves room for all of the frustum. -/
theorem reach_of_corners {lo hi : K}
    (h : ∀ v ∈ F.corners, lo ≤ g ⬝ᵥ (v - F.middle) ∧ g ⬝ᵥ (v - F.middle) ≤ hi) :
    lo ≤ -F.reach (-g) ∧ F.reach g ≤ hi := by
  obtain ⟨v, hv, hreach⟩ := exists_corner (-g) F
  obtain ⟨v', hv', hreach'⟩ := exists_corner g F
  rw [← hreach, ← hreach', neg_dotProduct, neg_neg]
  exact ⟨(h v hv).1, (h v' hv').2⟩

/-- A bound on the corners is one on the frustum. -/
theorem le_of_corners (hF : F.Proper) {g : ι → K} {c : K} (h : ∀ v ∈ F.corners, g ⬝ᵥ (v - F.middle) ≤ c)
    {x : ι → K} (hx : F.InView x) : g ⬝ᵥ (x - F.middle) ≤ c := by
  obtain ⟨v, hv, hreach⟩ := exists_corner g F
  calc g ⬝ᵥ (x - F.middle) ≤ F.reach g := le_reach g hF hx
    _ = g ⬝ᵥ (v - F.middle) := hreach.symm
    _ ≤ c := h v hv

theorem ge_of_corners (hF : F.Proper) {g : ι → K} {c : K} (h : ∀ v ∈ F.corners, c ≤ g ⬝ᵥ (v - F.middle))
    {x : ι → K} (hx : F.InView x) : c ≤ g ⬝ᵥ (x - F.middle) := by
  have hneg : -g ⬝ᵥ (x - F.middle) ≤ -c := le_of_corners hF (fun v hv => by
    rw [neg_dotProduct]
    exact neg_le_neg (h v hv)) hx
  rw [neg_dotProduct] at hneg
  exact neg_le_neg_iff.mp hneg

theorem side_le_reach (hF : F.Proper) : (F.near + F.far) / 2 * F.side g ≤ F.reach g := by
  have h : 0 ≤ (F.far - F.near) / 2 * |g ⬝ᵥ F.front + F.side g| :=
    mul_nonneg (by linarith [hF.far]) (abs_nonneg _)
  rw [reach_eq g hF]
  linarith

theorem front_le_reach (hF : F.Proper) : (F.far - F.near) / 2 * |g ⬝ᵥ F.front| ≤ F.reach g := by
  have hside := side_nonneg g hF
  have hfront : |g ⬝ᵥ F.front| ≤ |g ⬝ᵥ F.front + F.side g| + F.side g := by
    have h := abs_sub (g ⬝ᵥ F.front + F.side g) (F.side g)
    rwa [add_sub_cancel_right, abs_of_nonneg hside] at h
  have hdepth : 0 ≤ (F.far - F.near) / 2 := by linarith [hF.far]
  have hnear : 0 ≤ F.near * F.side g := mul_nonneg hF.near hside
  rw [reach_eq g hF]
  linarith [mul_le_mul_of_nonneg_left hfront hdepth]

/-- The middle is not far to one side. -/
theorem reach_neg_le (hF : F.Proper) : F.reach (-g) ≤ 3 * F.reach g := by
  have hside := side_nonneg g hF
  have habs : |-(g ⬝ᵥ F.front) + F.side g| ≤ |g ⬝ᵥ F.front + F.side g| + 2 * F.side g := by
    rw [abs_le]
    constructor
    · linarith [le_abs_self (g ⬝ᵥ F.front + F.side g)]
    · linarith [neg_abs_le (g ⬝ᵥ F.front + F.side g)]
  have hdepth : 0 ≤ (F.far - F.near) / 2 := by linarith [hF.far]
  have hnear : 0 ≤ F.near * F.side g := mul_nonneg hF.near hside
  have hmore : 0 ≤ (F.far - F.near) / 2 * |g ⬝ᵥ F.front + F.side g| := mul_nonneg hdepth (abs_nonneg _)
  rw [reach_eq _ hF, reach_eq _ hF, side_neg, neg_dotProduct]
  linarith [mul_le_mul_of_nonneg_left habs hdepth]

end Frustum

/-! ### Clipping -/

/-- The interval from `l` to `r` laid over the one from -1 to 1. -/
def clip [Field K] (l r x : K) : K := ((x - l) - (r - x)) / (r - l)

theorem clip_eq [Field K] (l r x : K) : clip l r x = (2 * x - (r + l)) / (r - l) := by
  rw [clip]
  congr 1
  ring

section
variable [Field K] [LinearOrder K] [IsStrictOrderedRing K] {l r x y : K} (h : l < r)
include h

theorem abs_clip_le (hl : l ≤ x) (hr : x ≤ r) : |clip l r x| ≤ 1 := by
  have hpos : 0 < r - l := sub_pos.mpr h
  rw [clip_eq, abs_div, abs_of_pos hpos, div_le_one hpos, abs_le]
  constructor
  · linarith
  · linarith

theorem clip_inj : clip l r x = clip l r y ↔ x = y := by
  have hpos : r - l ≠ 0 := (sub_pos.mpr h).ne'
  rw [clip_eq, clip_eq, div_left_inj' hpos, sub_left_inj, mul_right_inj' two_ne_zero]

theorem clip_lt_clip : clip l r x < clip l r y ↔ x < y := by
  rw [clip_eq, clip_eq, div_lt_div_iff_of_pos_right (sub_pos.mpr h), sub_lt_sub_iff_right,
    mul_lt_mul_iff_right₀ two_pos]

end
end Lib.Viewing
