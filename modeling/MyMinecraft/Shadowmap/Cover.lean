import MyMinecraft.Shadowmap

/-! What the light's view covers.

`ortho` takes distances ahead of the light, but the pass hands it the depths of the
corners, which are negative there. The depths are stretched five times and the light
stands one unit before the middle of the frustum, so the mirrored box still reaches
over the frustum as long as that is no thin needle. -/
namespace MyMinecraft
open Scalar Matrix Lib.Viewing

section
variable {K : Type} [Field K] [LinearOrder K] [FloorRing K] [SquareRoot K]

/-! ### The box of the corners -/

namespace Bounds

theorem least_eq (a b : K) : least a b = min a b := by
  rw [least, lt_exact]
  obtain h | h := lt_or_ge b a
  · rw [decide_eq_true h, min_eq_right h.le]
    rfl
  · rw [decide_eq_false h.not_gt, min_eq_left h]
    rfl

theorem greatest_eq (a b : K) : greatest a b = max a b := by
  rw [greatest, lt_exact]
  obtain h | h := lt_or_ge a b
  · rw [decide_eq_true h, max_eq_right h.le]
    rfl
  · rw [decide_eq_false h.not_gt, max_eq_left h]
    rfl

/-- The point is within the bounds. -/
structure Holds (b : Bounds K) (v : Vec4 K) : Prop where
  minX : b.minX ≤ v.x
  maxX : v.x ≤ b.maxX
  minY : b.minY ≤ v.y
  maxY : v.y ≤ b.maxY
  minZ : b.minZ ≤ v.z
  maxZ : v.z ≤ b.maxZ

theorem add_holds (b : Bounds K) (v : Vec4 K) : (b.add v).Holds v where
  minX := (least_eq _ _).trans_le (min_le_right _ _)
  maxX := (le_max_right _ _).trans (greatest_eq _ _).ge
  minY := (least_eq _ _).trans_le (min_le_right _ _)
  maxY := (le_max_right _ _).trans (greatest_eq _ _).ge
  minZ := (least_eq _ _).trans_le (min_le_right _ _)
  maxZ := (le_max_right _ _).trans (greatest_eq _ _).ge

theorem Holds.add {b : Bounds K} {w : Vec4 K} (h : b.Holds w) (v : Vec4 K) : (b.add v).Holds w where
  minX := ((least_eq _ _).trans_le (min_le_left _ _)).trans h.minX
  maxX := h.maxX.trans ((le_max_left _ _).trans (greatest_eq _ _).ge)
  minY := ((least_eq _ _).trans_le (min_le_left _ _)).trans h.minY
  maxY := h.maxY.trans ((le_max_left _ _).trans (greatest_eq _ _).ge)
  minZ := ((least_eq _ _).trans_le (min_le_left _ _)).trans h.minZ
  maxZ := h.maxZ.trans ((le_max_left _ _).trans (greatest_eq _ _).ge)

end Bounds

namespace Shadowmap

/-- What the box has held it holds to the end. -/
theorem foldl_holds (m : Mat4 K) {b : Bounds K} {w : Vec4 K} (h : b.Holds w) (points : List (Vec4 K)) :
    (points.foldl (fun b v => b.add (m * v)) b).Holds w := by
  induction points generalizing b with
  | nil => exact h
  | cons v points ih => exact ih (h.add (m * v))

theorem bounds_holds (limit : K) (m : Mat4 K) {points : List (Vec4 K)} {v : Vec4 K} (hv : v ∈ points) :
    (bounds limit m points).Holds (m * v) := by
  rw [bounds]
  generalize Bounds.start limit = b
  induction points generalizing b with
  | nil => cases hv
  | cons u points ih =>
    obtain rfl | hrest := List.mem_cons.mp hv
    · exact foldl_holds m (b.add_holds (m * v)) points
    · exact ih hrest (b.add (m * u))

/-! ### The middle of the frustum -/

theorem foldl_center (points : List (Axis → K)) (sum : Vec3 K) :
    ((points.map World.homogeneous).foldl (fun center v => center + ⟨v.x, v.y, v.z⟩) sum).get =
      sum.get + points.sum := by
  induction points generalizing sum with
  | nil => simp
  | cons v points ih =>
    have hsum : (sum + ⟨v .x, v .y, v .z⟩ : Vec3 K).get = sum.get + v := by
      funext a
      cases a <;> rfl
    rw [List.map_cons, List.foldl_cons, ih, List.sum_cons, ← add_assoc]
    exact congrArg (· + points.sum) hsum

theorem center_get (points : List (Axis → K)) :
    (center (points.map World.homogeneous)).get = ((points.length : K)⁻¹) • points.sum := by
  have hzero : Vec3.get (⟨ofInt 0, ofInt 0, ofInt 0⟩ : Vec3 K) = 0 := by
    funext a
    cases a <;> exact Int.cast_zero
  have hdiv (v : Vec3 K) (k : K) : (v / k).get = k⁻¹ • v.get := by
    funext a
    cases a <;> exact (div_eq_inv_mul _ _)
  rw [center, hdiv, foldl_center, hzero, zero_add, List.length_map, ofInt_exact, Int.cast_natCast]

/-! ### The camera -/

/-- The camera's own directions. -/
def axes (F : Frustum Axis K) : Axis → Axis → K
  | .x => F.right
  | .y => F.up
  | .z => F.front

/-- The camera shows `F` between the planes of the pass: its corners are `F`'s in some order,
and the slopes to its sides are no less than 3/40. -/
structure Shows (camera : Camera3D K) (F : Frustum Axis K) : Prop where
  corners : ∃ points : List (Axis → K),
    points.Perm F.corners ∧ camera.corners (1 / 10) 85 = points.map World.homogeneous
  near : F.near = 1 / 10
  far : F.far = 85
  square : ∀ a b, axes F a ⬝ᵥ axes F b = if a = b then 1 else 0
  tanX : 3 / 40 ≤ F.tanX
  tanY : 3 / 40 ≤ F.tanY

/-- The direction the sliders give. -/
def sliders (s : Shadowmap K) : Vec3 K := ⟨s.lightdirX, s.lightdirY, s.lightdirZ⟩

def up : Vec3 K := ⟨ofInt 0, ofInt 1, ofInt 0⟩

/-- The place in the light's view, as `cube_shadow.vs` and `depth_shader.vs` have it. -/
def lightPosition (limit : K) (s : Shadowmap K) (camera : Camera3D K) (x : Axis → K) : Vec4 K :=
  (computeLightSpaceMatrix limit s camera).1.lightSpaceMatrix * World.homogeneous x

/-- The axes of the light's view. -/
def lightAxes (s : Shadowmap K) (a : Axis) : Axis → K := (lookAxes s.sliders.normalize up a).get

theorem Shows.center {camera : Camera3D K} {F : Frustum Axis K} (hF : Shows camera F) :
    (center (camera.corners (1 / 10) 85)).get = F.middle := by
  obtain ⟨points, hperm, hcorners⟩ := hF.corners
  rw [hcorners, center_get, hperm.length_eq, hperm.sum_eq, Frustum.middle]

variable [IsStrictOrderedRing K]

section
variable {camera : Camera3D K} {F : Frustum Axis K} (hF : Shows camera F)
include hF

theorem Shows.proper : F.Proper where
  tanX := by linarith [hF.tanX]
  tanY := by linarith [hF.tanY]
  near := by norm_num [hF.near]
  far := by norm_num [hF.near, hF.far]

/-- Along any direction there are three units to either side of the middle. -/
theorem Shows.reach {g : Axis → K} (hg : g ⬝ᵥ g = 1) : 3 ≤ F.reach g := by
  by_contra! hless
  have hside := (Frustum.side_le_reach g hF.proper).trans_lt hless
  have hfront := (Frustum.front_le_reach g hF.proper).trans_lt hless
  rw [hF.near, hF.far] at hside hfront
  have hslopes : 3 / 40 * (|g ⬝ᵥ F.right| + |g ⬝ᵥ F.up|) ≤ F.side g := by
    have hright := mul_le_mul_of_nonneg_right hF.tanX (abs_nonneg (g ⬝ᵥ F.right))
    have hup := mul_le_mul_of_nonneg_right hF.tanY (abs_nonneg (g ⬝ᵥ F.up))
    rw [Frustum.side]
    linarith
  have hacross : |g ⬝ᵥ F.right| + |g ⬝ᵥ F.up| ≤ 19 / 20 := by linarith
  have hahead : |g ⬝ᵥ F.front| ≤ 1 / 10 := by linarith
  have hlength := sum_sq_dotProduct hF.square g
  rw [Axis.sum_eq, hg] at hlength
  simp only [axes] at hlength
  rw [dotProduct_comm F.right, dotProduct_comm F.up, dotProduct_comm F.front, ← sq_abs (g ⬝ᵥ F.right),
    ← sq_abs (g ⬝ᵥ F.up), ← sq_abs (g ⬝ᵥ F.front)] at hlength
  have hsquare : (|g ⬝ᵥ F.right| + |g ⬝ᵥ F.up|) ^ 2 ≤ (19 / 20) ^ 2 := pow_le_pow_left₀ (by positivity) hacross 2
  have hsquare' : |g ⬝ᵥ F.front| ^ 2 ≤ (1 / 10) ^ 2 := pow_le_pow_left₀ (abs_nonneg _) hahead 2
  have hboth : 0 ≤ |g ⬝ᵥ F.right| * |g ⬝ᵥ F.up| := by positivity
  nlinarith

end

/-! ### The light -/

section
variable {s : Shadowmap K} (hlight : s.lightdirX ≠ 0 ∨ s.lightdirZ ≠ 0)
include hlight

theorem sliders_pos : 0 < s.sliders.dot s.sliders := by
  show 0 < s.lightdirX * s.lightdirX + s.lightdirY * s.lightdirY + s.lightdirZ * s.lightdirZ
  have hx := mul_self_nonneg s.lightdirX
  have hy := mul_self_nonneg s.lightdirY
  have hz := mul_self_nonneg s.lightdirZ
  obtain h | h := hlight
  · linarith [mul_self_pos.mpr h]
  · linarith [mul_self_pos.mpr h]

variable (hroot : Rooted K)
include hroot

/-- The light is not straight up or down. -/
theorem sliders_up : 0 < (s.sliders.normalize.cross up).dot (s.sliders.normalize.cross up) := by
  have hscale : 0 < 1 / SquareRoot.sqrt (s.sliders.dot s.sliders) :=
    one_div_pos.mpr (hroot.pos (sliders_pos hlight))
  have hx : s.sliders.normalize.x = 1 / SquareRoot.sqrt (s.sliders.dot s.sliders) * s.lightdirX :=
    congrFun s.sliders.normalize_get .x
  have hz : s.sliders.normalize.z = 1 / SquareRoot.sqrt (s.sliders.dot s.sliders) * s.lightdirZ :=
    congrFun s.sliders.normalize_get .z
  generalize s.sliders.normalize = f at hx hz ⊢
  have hcross : (f.cross up).dot (f.cross up) = f.z * f.z + f.x * f.x := by
    rw [up, ofInt_zero, ofInt_one]
    show (f.y * 0 - 1 * f.z) * (f.y * 0 - 1 * f.z) + (f.z * 0 - 0 * f.x) * (f.z * 0 - 0 * f.x) +
      (f.x * 1 - 0 * f.y) * (f.x * 1 - 0 * f.y) = f.z * f.z + f.x * f.x
    ring
  rw [hcross, hx, hz]
  obtain h | h := hlight
  · exact add_pos_of_nonneg_of_pos (mul_self_nonneg _) (mul_self_pos.mpr (mul_ne_zero hscale.ne' h))
  · exact add_pos_of_pos_of_nonneg (mul_self_pos.mpr (mul_ne_zero hscale.ne' h)) (mul_self_nonneg _)

theorem lightAxes_orthonormal (a b : Axis) : s.lightAxes a ⬝ᵥ s.lightAxes b = if a = b then 1 else 0 :=
  lookAxes_orthonormal hroot (normalize_unit hroot (sliders_pos hlight)) (sliders_up hlight hroot) a b

/-- The light looks at the middle from one unit away. -/
theorem lightView_mul {center : Vec3 K} {middle : Axis → K} (hcenter : center.get = middle) (x : Axis → K) :
    Glm.lookAt (center - s.sliders.normalize) center up * World.homogeneous x =
      ⟨s.lightAxes .x ⬝ᵥ (x - middle), s.lightAxes .y ⬝ᵥ (x - middle),
        -(s.lightAxes .z ⬝ᵥ (x - middle)) - 1, 1⟩ := by
  have hlook : center - (center - s.sliders.normalize) = s.sliders.normalize := by
    apply Vec3.get_injective
    rw [Vec3.sub_get, Vec3.sub_get, sub_sub_cancel]
  have heye : x - (center - s.sliders.normalize).get = x - middle + s.lightAxes .z := by
    rw [Vec3.sub_get, hcenter, sub_sub_eq_add_sub, add_sub_right_comm]
    rfl
  have hnormal := normalize_of_unit hroot (normalize_unit hroot (sliders_pos hlight))
  rw [Glm.lookAt_mul, hlook, hnormal, heye]
  show Vec4.mk (s.lightAxes .x ⬝ᵥ _) (s.lightAxes .y ⬝ᵥ _) (-(s.lightAxes .z ⬝ᵥ _)) (1 : K) = _
  simp only [dotProduct_add, lightAxes_orthonormal hlight hroot, reduceCtorEq, if_false, if_true, add_zero]
  congr 1
  ring

end

/-! ### The box of the light -/

/-- In the volume that is drawn to. -/
structure Clipped (v : Vec4 K) : Prop where
  x : |v.x| ≤ 1
  y : |v.y| ≤ 1
  z : |v.z| ≤ 1
  w : v.w = 1

/-- The box around the corners, before it is stretched. -/
def box (limit : K) (s : Shadowmap K) (camera : Camera3D K) : Bounds K :=
  bounds limit (Glm.lookAt (center (camera.corners (1 / 10) 85) - s.sliders.normalize)
    (center (camera.corners (1 / 10) 85)) up) (camera.corners (1 / 10) 85)

/-- On one spot of the map, the first nearer to the light. -/
def Shades (p q : Vec4 K) : Prop := p.x = q.x ∧ p.y = q.y ∧ p.z < q.z

variable (limit : K) {s : Shadowmap K} {camera : Camera3D K} {F : Frustum Axis K} (hroot : Rooted K)
  (hlight : s.lightdirX ≠ 0 ∨ s.lightdirZ ≠ 0) (hF : Shows camera F)
include hroot hlight hF

/-- A place measured along the light's axes. -/
theorem lightPosition_eq (x : Axis → K) : lightPosition limit s camera x =
    ⟨clip (box limit s camera).minX (box limit s camera).maxX (s.lightAxes .x ⬝ᵥ (x - F.middle)),
      clip (box limit s camera).minY (box limit s camera).maxY (s.lightAxes .y ⬝ᵥ (x - F.middle)),
      clip (box limit s camera).stretch.minZ (box limit s camera).stretch.maxZ
        (s.lightAxes .z ⬝ᵥ (x - F.middle) + 1), 1⟩ := by
  have hplanes : camera.corners (ofInt 1 / ofInt 10) (ofInt 85) = camera.corners (1 / 10) 85 := by
    rw [ofInt_one, ofInt_exact, ofInt_exact, Int.cast_ofNat, Int.cast_ofNat]
  have hdepth : -(-(s.lightAxes .z ⬝ᵥ (x - F.middle)) - 1) = s.lightAxes .z ⬝ᵥ (x - F.middle) + 1 := by
    ring
  rw [← hdepth, ← Glm.ortho_mul, ← lightView_mul hlight hroot hF.center, ← Mat4.mul_mul, box, ← hplanes]
  rfl

theorem box_holds {v : Axis → K} (hv : v ∈ F.corners) : (box limit s camera).Holds
    ⟨s.lightAxes .x ⬝ᵥ (v - F.middle), s.lightAxes .y ⬝ᵥ (v - F.middle),
      -(s.lightAxes .z ⬝ᵥ (v - F.middle)) - 1, 1⟩ := by
  obtain ⟨points, hperm, hcorners⟩ := hF.corners
  have hmem : World.homogeneous v ∈ camera.corners (1 / 10) 85 := by
    rw [hcorners]
    exact List.mem_map_of_mem (hperm.mem_iff.mpr hv)
  rw [← lightView_mul hlight hroot hF.center]
  exact bounds_holds limit _ hmem

theorem box_x : (box limit s camera).minX ≤ -F.reach (-s.lightAxes .x) ∧
    F.reach (s.lightAxes .x) ≤ (box limit s camera).maxX := by
  apply Frustum.reach_of_corners
  intro v hv
  exact ⟨(box_holds limit hroot hlight hF hv).minX, (box_holds limit hroot hlight hF hv).maxX⟩

theorem box_y : (box limit s camera).minY ≤ -F.reach (-s.lightAxes .y) ∧
    F.reach (s.lightAxes .y) ≤ (box limit s camera).maxY := by
  apply Frustum.reach_of_corners
  intro v hv
  exact ⟨(box_holds limit hroot hlight hF hv).minY, (box_holds limit hroot hlight hF hv).maxY⟩

/-- The depths count from the light, backwards. -/
theorem box_z : (box limit s camera).minZ ≤ -F.reach (s.lightAxes .z) - 1 ∧
    F.reach (-s.lightAxes .z) - 1 ≤ (box limit s camera).maxZ := by
  have hreach : -(box limit s camera).maxZ - 1 ≤ -F.reach (-s.lightAxes .z) ∧
      F.reach (s.lightAxes .z) ≤ -(box limit s camera).minZ - 1 := by
    apply Frustum.reach_of_corners
    intro v hv
    have hmin : (box limit s camera).minZ ≤ -(s.lightAxes .z ⬝ᵥ (v - F.middle)) - 1 :=
      (box_holds limit hroot hlight hF hv).minZ
    have hmax : -(s.lightAxes .z ⬝ᵥ (v - F.middle)) - 1 ≤ (box limit s camera).maxZ :=
      (box_holds limit hroot hlight hF hv).maxZ
    constructor
    · linarith
    · linarith
  obtain ⟨hmin, hmax⟩ := hreach
  constructor
  · linarith
  · linarith

theorem reach_lightAxes (a : Axis) : 3 ≤ F.reach (s.lightAxes a) ∧ 3 ≤ F.reach (-s.lightAxes a) := by
  have hunit := lightAxes_orthonormal hlight hroot a a
  rw [if_pos rfl] at hunit
  have hneg : -s.lightAxes a ⬝ᵥ -s.lightAxes a = 1 := by
    rw [neg_dotProduct_neg, hunit]
  exact ⟨hF.reach hunit, hF.reach hneg⟩

theorem stretch_z : (box limit s camera).stretch.minZ ≤ 5 * (-F.reach (s.lightAxes .z) - 1) ∧
    5 * (F.reach (-s.lightAxes .z) - 1) ≤ (box limit s camera).stretch.maxZ := by
  obtain ⟨hmin, hmax⟩ := box_z limit hroot hlight hF
  obtain ⟨hahead, hbehind⟩ := reach_lightAxes hroot hlight hF .z
  have hminus : (box limit s camera).minZ < 0 := by linarith
  have hplus : ¬(box limit s camera).maxZ < 0 := by linarith
  have hfive : (ofInt 5 : K) = 5 := by rw [ofInt_exact, Int.cast_ofNat]
  rw [Bounds.stretch, lt_exact, lt_exact, ofInt_zero, decide_eq_true hminus, decide_eq_false hplus,
    Bounds.zMult, hfive]
  show (box limit s camera).minZ * 5 ≤ _ ∧ _ ≤ (box limit s camera).maxZ * 5
  constructor
  · linarith
  · linarith

theorem box_wide : (box limit s camera).minX < (box limit s camera).maxX ∧
    (box limit s camera).minY < (box limit s camera).maxY ∧
    (box limit s camera).stretch.minZ < (box limit s camera).stretch.maxZ := by
  have hX := box_x limit hroot hlight hF
  have hY := box_y limit hroot hlight hF
  have hZ := stretch_z limit hroot hlight hF
  have hx := reach_lightAxes hroot hlight hF .x
  have hy := reach_lightAxes hroot hlight hF .y
  have hz := reach_lightAxes hroot hlight hF .z
  refine ⟨?_, ?_, ?_⟩ <;> linarith

theorem lightPosition_clipped {x : Axis → K} (hx : F.InView x) : Clipped (lightPosition limit s camera x) := by
  have hheld : ∀ v ∈ F.corners, _ := fun v hv => box_holds limit hroot hlight hF hv
  obtain ⟨hX, hY, hZ⟩ := box_wide limit hroot hlight hF
  rw [lightPosition_eq limit hroot hlight hF]
  constructor
  · refine abs_clip_le hX ?_ ?_
    · exact Frustum.ge_of_corners hF.proper (fun v hv => (hheld v hv).minX) hx
    · exact Frustum.le_of_corners hF.proper (fun v hv => (hheld v hv).maxX) hx
  · refine abs_clip_le hY ?_ ?_
    · exact Frustum.ge_of_corners hF.proper (fun v hv => (hheld v hv).minY) hx
    · exact Frustum.le_of_corners hF.proper (fun v hv => (hheld v hv).maxY) hx
  · -- the box is mirrored, so either end has to do for the other
    obtain ⟨hmin, hmax⟩ := stretch_z limit hroot hlight hF
    obtain ⟨hahead, hbehind⟩ := reach_lightAxes hroot hlight hF .z
    have hle := Frustum.le_reach (s.lightAxes .z) hF.proper hx
    have hge := Frustum.le_reach (-s.lightAxes .z) hF.proper hx
    have hfar := Frustum.reach_neg_le (s.lightAxes .z) hF.proper
    have hnear := Frustum.reach_neg_le (-s.lightAxes .z) hF.proper
    rw [neg_neg] at hnear
    rw [neg_dotProduct] at hge
    exact abs_clip_le hZ (by linarith) (by linarith)
  · rfl

omit hF in
/-- The way of the light, in units or by the sliders. -/
theorem exists_sliders_iff (x y : Axis → K) :
    (∃ t : K, 0 < t ∧ y = x + t • s.sliders.get) ↔ ∃ t : K, 0 < t ∧ y = x + t • s.lightAxes .z := by
  have hscale := hroot.pos (sliders_pos hlight)
  have haxis : s.lightAxes .z = (1 / SquareRoot.sqrt (s.sliders.dot s.sliders)) • s.sliders.get :=
    s.sliders.normalize_get
  rw [haxis]
  constructor
  · intro h
    obtain ⟨t, ht, rfl⟩ := h
    refine ⟨t * SquareRoot.sqrt (s.sliders.dot s.sliders), mul_pos ht hscale, ?_⟩
    rw [smul_smul, mul_assoc, mul_one_div_cancel hscale.ne', mul_one]
  · intro h
    obtain ⟨t, ht, rfl⟩ := h
    exact ⟨t * (1 / SquareRoot.sqrt (s.sliders.dot s.sliders)), mul_pos ht (one_div_pos.mpr hscale),
      by rw [smul_smul]⟩

/-- One place shades another just when the light meets it first on its way there. -/
theorem shades_iff (x y : Axis → K) :
    Shades (lightPosition limit s camera x) (lightPosition limit s camera y) ↔
      ∃ t : K, 0 < t ∧ y = x + t • s.lightAxes .z := by
  obtain ⟨hX, hY, hZ⟩ := box_wide limit hroot hlight hF
  have hsame := lightAxes_orthonormal hlight hroot
  have hsub : y - F.middle = x - F.middle + (y - x) := by
    abel
  rw [lightPosition_eq limit hroot hlight hF, lightPosition_eq limit hroot hlight hF, Shades, clip_inj hX,
    clip_inj hY, clip_lt_clip hZ, hsub, dotProduct_add, dotProduct_add, dotProduct_add, left_eq_add,
    left_eq_add, add_lt_add_iff_right, lt_add_iff_pos_right]
  constructor
  · intro h
    obtain ⟨hx, hy, hz⟩ := h
    have halong := eq_smul_of_orthogonal (b := s.lightAxes) hsame (y - x) (k := .z) fun a ha => by
      cases a with
      | x => exact hx
      | y => exact hy
      | z => exact (ha rfl).elim
    refine ⟨s.lightAxes .z ⬝ᵥ (y - x), hz, ?_⟩
    rw [← halong, add_sub_cancel]
  · intro h
    obtain ⟨t, ht, rfl⟩ := h
    simp only [add_sub_cancel_left, dotProduct_smul, hsame, reduceCtorEq, if_false, if_true, smul_eq_mul,
      mul_zero, mul_one]
    exact ⟨trivial, trivial, ht⟩

/-- **The shadow map covers the view and keeps its order.** Every place in view is in the
volume drawn to, and of two places the one with the lesser depth on the same spot is the one
the light meets first. -/
theorem computeLightSpaceMatrix_shadows :
    (∀ x, F.InView x → Clipped (lightPosition limit s camera x)) ∧
      ∀ x y, Shades (lightPosition limit s camera x) (lightPosition limit s camera y) ↔
        ∃ t : K, 0 < t ∧ y = x + t • s.sliders.get := by
  constructor
  · exact fun x hx => lightPosition_clipped limit hroot hlight hF hx
  · intro x y
    rw [exists_sliders_iff hroot hlight, shades_iff limit hroot hlight hF]

end Shadowmap
end

/-! ### The first light and a camera -/

noncomputable section

instance : SquareRoot ℝ := ⟨Real.sqrt⟩

theorem rooted_real : Rooted ℝ := fun x hx => ⟨Real.sqrt_nonneg x, Real.mul_self_sqrt hx⟩

namespace Shadowmap

/-- Looking along -z from the origin, a right angle wide and high. -/
def straight : Frustum Axis ℝ where
  apex := 0
  front := Vec3.get ⟨0, 0, -1⟩
  right := Vec3.get ⟨1, 0, 0⟩
  up := Vec3.get ⟨0, 1, 0⟩
  tanX := 1
  tanY := 1
  near := 1 / 10
  far := 85

/-- The sliders as the program starts. -/
def initial : Shadowmap ℝ where
  lightdirX := -3 / 10
  lightdirY := -1
  lightdirZ := 1 / 5
  lightDir := Vec3.normalize ⟨-3 / 10, -1, 1 / 5⟩
  frustrumCorners := []
  lightProjection := Glm.ortho (-128) 128 (-128) 128 (-40) 40
  lightSpaceMatrix := Glm.ortho (-128) 128 (-128) 128 (-40) 40

def straightCamera : Camera3D ℝ := ⟨1 / 10, 1000, fun _ _ => straight.corners.map World.homogeneous⟩

theorem straightCamera_shows : Shows straightCamera straight where
  corners := ⟨straight.corners, .rfl, rfl⟩
  near := rfl
  far := rfl
  square a b := by
    rw [dotProduct, Axis.sum_eq]
    cases a <;> cases b <;> simp [axes, straight, Vec3.get]
  tanX := by norm_num [straight]
  tanY := by norm_num [straight]

theorem computeLightSpaceMatrix_shadows_initial :
    (∀ x, straight.InView x → Clipped (lightPosition 1000000 initial straightCamera x)) ∧
      ∀ x y, Shades (lightPosition 1000000 initial straightCamera x)
          (lightPosition 1000000 initial straightCamera y) ↔
        ∃ t : ℝ, 0 < t ∧ y = x + t • initial.sliders.get :=
  computeLightSpaceMatrix_shadows 1000000 rooted_real (.inl (by norm_num [initial])) straightCamera_shows

end Shadowmap
end
end MyMinecraft
