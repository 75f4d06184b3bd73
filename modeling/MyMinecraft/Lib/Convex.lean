import Mathlib

/-! Boxes, half-spaces and parallelograms.

An affine function on a box is greatest at one of the box's corners, so the box has a
point on the side of a plane where the function is not negative exactly when one of
its corners is there. A point of the parallelogram spanned by `p` and `q` at `o` is on one
side of the diagonal or the other, and so in one of the two triangles it is cut into. -/
namespace Lib.HalfSpace
variable {ι K : Type*}

/-- A corner of the box from `lo` to `hi`. -/
def Corner (lo hi c : ι → K) : Prop := ∀ i, c i = lo i ∨ c i = hi i

theorem Corner.mem_box [Preorder K] {lo hi c : ι → K} (hc : Corner lo hi c) (h : lo ≤ hi) :
    c ∈ Set.Icc lo hi := by
  constructor
  · intro i
    obtain heq | heq := hc i
    · exact heq.ge
    · exact (h i).trans heq.ge
  · intro i
    obtain heq | heq := hc i
    · exact heq.le.trans (h i)
    · exact heq.le

variable [Field K] [LinearOrder K] [IsStrictOrderedRing K]

/-- On one axis the end to take depends on the sign of the coefficient. -/
theorem exists_end (k : K) {a b t : K} (ha : a ≤ t) (hb : t ≤ b) :
    ∃ e, (e = a ∨ e = b) ∧ k * t ≤ k * e := by
  obtain hk | hk := le_total 0 k
  · exact ⟨b, .inr rfl, mul_le_mul_of_nonneg_left hb hk⟩
  · exact ⟨a, .inl rfl, mul_le_mul_of_nonpos_left ha hk⟩

variable [Fintype ι]

/-- The affine function of a plane. -/
def value (normal : ι → K) (offset : K) (x : ι → K) : K := ∑ i, normal i * x i + offset

variable (normal : ι → K) (offset : K) {lo hi : ι → K}

/-- Some corner is at least as far on the plane's side as any given point. -/
theorem exists_corner {x : ι → K} (hx : x ∈ Set.Icc lo hi) :
    ∃ c, Corner lo hi c ∧ value normal offset x ≤ value normal offset c := by
  choose c hc hle using fun i => exists_end (normal i) (hx.1 i) (hx.2 i)
  exact ⟨c, hc, add_le_add_left (Finset.sum_le_sum fun i _ => hle i) offset⟩

/-- **A box reaches a plane's side exactly with its corners.** -/
theorem box_meets_iff (h : lo ≤ hi) :
    (∃ x ∈ Set.Icc lo hi, 0 ≤ value normal offset x) ↔
      ∃ c, Corner lo hi c ∧ 0 ≤ value normal offset c := by
  constructor
  · intro hmeets
    obtain ⟨x, hx, hpos⟩ := hmeets
    obtain ⟨c, hc, hle⟩ := exists_corner normal offset hx
    exact ⟨c, hc, hpos.trans hle⟩
  · intro hmeets
    obtain ⟨c, hc, hpos⟩ := hmeets
    exact ⟨c, hc.mem_box h, hpos⟩

end Lib.HalfSpace

namespace Lib.Parallelogram

variable {K E : Type*} [Field K] [LinearOrder K] [IsStrictOrderedRing K] [AddCommGroup E] [Module K E]
  {u v : K}

/-- The half on the side of `p`. -/
theorem mem_half (o p q : E) (hv : 0 ≤ v) (hvu : v ≤ u) (hu : u ≤ 1) :
    o + u • p + v • q ∈ convexHull K {o, o + p, o + p + q} := by
  let corner : Fin 3 → E := ![o, o + p, o + p + q]
  let weight : Fin 3 → K := ![1 - u, u - v, v]
  have hweights : ∀ i ∈ Finset.univ, 0 ≤ weight i := by
    intro i _
    fin_cases i
    · exact sub_nonneg.mpr hu
    · exact sub_nonneg.mpr hvu
    · exact hv
  have hone : ∑ i, weight i = 1 := by
    simp only [weight, Fin.sum_univ_three, Matrix.cons_val]
    ring
  have hcorners : ∀ i ∈ Finset.univ, corner i ∈ convexHull K {o, o + p, o + p + q} := by
    intro i _
    apply subset_convexHull
    fin_cases i <;> simp [corner]
  have hsum : o + u • p + v • q = ∑ i, weight i • corner i := by
    simp only [weight, corner, Fin.sum_univ_three, Matrix.cons_val]
    module
  rw [hsum]
  exact (convex_convexHull K _).sum_mem hweights hone hcorners

/-- The two halves are all of it. -/
theorem mem_halves (o p q : E) (hu : 0 ≤ u) (hu' : u ≤ 1) (hv : 0 ≤ v) (hv' : v ≤ 1) :
    o + u • p + v • q ∈ convexHull K {o, o + p, o + p + q} ∨
      o + u • p + v • q ∈ convexHull K {o, o + q, o + p + q} := by
  obtain h | h := le_total v u
  · exact .inl (mem_half o p q hv h hu')
  · right
    have hswap := mem_half o q p hu h hv'
    rwa [add_right_comm, add_right_comm o (v • q)] at hswap

end Lib.Parallelogram
