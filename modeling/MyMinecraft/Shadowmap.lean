import MyMinecraft.Lib.Viewing
import MyMinecraft.World.Frustum

/-! The light's view (`Shadowmap.cpp`).

`computeLightSpaceMatrix` puts an orthographic box, seen from the light, around the
part of the camera's frustum where shadows are shown. -/
namespace MyMinecraft
open Scalar

/-! ### Of glm -/

section
variable {R : Type} [Scalar R]

namespace Vec3

instance : Add (Vec3 R) := ⟨fun a b => ⟨a.x + b.x, a.y + b.y, a.z + b.z⟩⟩
instance : Sub (Vec3 R) := ⟨fun a b => ⟨a.x - b.x, a.y - b.y, a.z - b.z⟩⟩
instance : HMul (Vec3 R) R (Vec3 R) := ⟨fun a k => ⟨a.x * k, a.y * k, a.z * k⟩⟩
instance : HDiv (Vec3 R) R (Vec3 R) := ⟨fun a k => ⟨a.x / k, a.y / k, a.z / k⟩⟩

def dot (a b : Vec3 R) : R := a.x * b.x + a.y * b.y + a.z * b.z

def cross (a b : Vec3 R) : Vec3 R :=
  ⟨a.y * b.z - b.y * a.z, a.z * b.x - b.z * a.x, a.x * b.y - b.x * a.y⟩

def normalize (v : Vec3 R) : Vec3 R := v * (ofInt 1 / sqrt (dot v v))

end Vec3

instance : Add (Vec4 R) := ⟨fun a b => ⟨a.x + b.x, a.y + b.y, a.z + b.z, a.w + b.w⟩⟩
instance : HMul (Vec4 R) R (Vec4 R) := ⟨fun a k => ⟨a.x * k, a.y * k, a.z * k, a.w * k⟩⟩

/-- `glm::mat4`, by its columns. -/
structure Mat4 (R : Type) where
  c0 : Vec4 R
  c1 : Vec4 R
  c2 : Vec4 R
  c3 : Vec4 R

instance : HMul (Mat4 R) (Vec4 R) (Vec4 R) where
  hMul m v := (m.c0 * v.x + m.c1 * v.y) + (m.c2 * v.z + m.c3 * v.w)

/-- A column of the product. -/
def Mat4.column (m : Mat4 R) (v : Vec4 R) : Vec4 R := m.c0 * v.x + m.c1 * v.y + m.c2 * v.z + m.c3 * v.w

instance : Mul (Mat4 R) := ⟨fun m n => ⟨m.column n.c0, m.column n.c1, m.column n.c2, m.column n.c3⟩⟩

variable [Neg R]

namespace Glm

def lookAt (eye center up : Vec3 R) : Mat4 R :=
  let f := (center - eye).normalize
  let s := (f.cross up).normalize
  let u := s.cross f
  { c0 := ⟨s.x, u.x, -f.x, ofInt 0⟩
    c1 := ⟨s.y, u.y, -f.y, ofInt 0⟩
    c2 := ⟨s.z, u.z, -f.z, ofInt 0⟩
    c3 := ⟨-s.dot eye, -u.dot eye, f.dot eye, ofInt 1⟩ }

def ortho (left right bottom top zNear zFar : R) : Mat4 R :=
  { c0 := ⟨ofInt 2 / (right - left), ofInt 0, ofInt 0, ofInt 0⟩
    c1 := ⟨ofInt 0, ofInt 2 / (top - bottom), ofInt 0, ofInt 0⟩
    c2 := ⟨ofInt 0, ofInt 0, -ofInt 2 / (zFar - zNear), ofInt 0⟩
    c3 := ⟨-(right + left) / (right - left), -(top + bottom) / (top - bottom),
      -(zFar + zNear) / (zFar - zNear), ofInt 1⟩ }

end Glm

/-! ### The matrix -/

/-- What is used of a `Camera3D`; its corners depend on the planes set. -/
structure Camera3D (R : Type) where
  near : R
  far : R
  corners : R → R → List (Vec4 R)

namespace Camera3D

def setNearFarPlanes (camera : Camera3D R) (near far : R) : Camera3D R :=
  { camera with near := near, far := far }

def getFrustumCornersWorldSpace (camera : Camera3D R) : List (Vec4 R) := camera.corners camera.near camera.far

end Camera3D

/-- The running extremes of the loop. -/
structure Bounds (R : Type) where
  minX : R
  maxX : R
  minY : R
  maxY : R
  minZ : R
  maxZ : R

namespace Bounds

/-- `std::min`. -/
def least (a b : R) : R := if lt b a then b else a

/-- `std::max`. -/
def greatest (a b : R) : R := if lt a b then b else a

def add (b : Bounds R) (trf : Vec4 R) : Bounds R :=
  { minX := least b.minX trf.x
    maxX := greatest b.maxX trf.x
    minY := least b.minY trf.y
    maxY := greatest b.maxY trf.y
    minZ := least b.minZ trf.z
    maxZ := greatest b.maxZ trf.z }

/-- Before the loop; `limit` is `std::numeric_limits<float>::max()`. -/
def start (limit : R) : Bounds R := ⟨limit, -limit, limit, -limit, limit, -limit⟩

def zMult : R := ofInt 5

/-- The depths moved away from zero or towards it. -/
def stretch (b : Bounds R) : Bounds R :=
  { b with
    minZ := if lt b.minZ (ofInt 0) then b.minZ * zMult else b.minZ / zMult
    maxZ := if lt b.maxZ (ofInt 0) then b.maxZ / zMult else b.maxZ * zMult }

end Bounds

structure Shadowmap (R : Type) where
  lightdirX : R
  lightdirY : R
  lightdirZ : R
  lightDir : Vec3 R
  frustrumCorners : List (Vec4 R)
  lightProjection : Mat4 R
  lightSpaceMatrix : Mat4 R

namespace Shadowmap

def center (corners : List (Vec4 R)) : Vec3 R :=
  let sum : Vec3 R := corners.foldl (fun center v => center + ⟨v.x, v.y, v.z⟩) ⟨ofInt 0, ofInt 0, ofInt 0⟩
  sum / (ofInt corners.length : R)

def bounds (limit : R) (lightView : Mat4 R) (corners : List (Vec4 R)) : Bounds R :=
  corners.foldl (fun b v => b.add (lightView * v)) (Bounds.start limit)

def computeLightSpaceMatrix (limit : R) (s : Shadowmap R) (camera : Camera3D R) : Shadowmap R × Camera3D R :=
  let camera := camera.setNearFarPlanes (ofInt 1 / ofInt 10) (ofInt 85)
  let corners := camera.getFrustumCornersWorldSpace
  let camera := camera.setNearFarPlanes (ofInt 1 / ofInt 10) (ofInt 1000)
  let lightDir := Vec3.normalize ⟨s.lightdirX, s.lightdirY, s.lightdirZ⟩
  let lightView := Glm.lookAt (center corners - lightDir) (center corners) ⟨ofInt 0, ofInt 1, ofInt 0⟩
  let b := (bounds limit lightView corners).stretch
  let lightProjection := Glm.ortho b.minX b.maxX b.minY b.maxY b.minZ b.maxZ
  ({ s with
      lightDir := lightDir
      frustrumCorners := corners
      lightProjection := lightProjection
      lightSpaceMatrix := lightProjection * lightView }, camera)

end Shadowmap
end

/-! ### In exact arithmetic -/

theorem Vec3.get_injective {R : Type} : Function.Injective (Vec3.get (R := R)) := by
  intro u v h
  obtain ⟨ux, uy, uz⟩ := u
  obtain ⟨vx, vy, vz⟩ := v
  obtain rfl : ux = vx := congrFun h .x
  obtain rfl : uy = vy := congrFun h .y
  obtain rfl : uz = vz := congrFun h .z
  rfl

section
variable {K : Type} [Field K] [LinearOrder K] [FloorRing K] [SquareRoot K]
open Matrix Lib.Viewing

theorem ofInt_zero : (ofInt 0 : K) = 0 := by
  rw [ofInt_exact, Int.cast_zero]

theorem ofInt_one : (ofInt 1 : K) = 1 := by
  rw [ofInt_exact, Int.cast_one]

namespace Vec3

theorem dot_get (a b : Vec3 K) : a.dot b = a.get ⬝ᵥ b.get := by
  rw [dotProduct, Axis.sum_eq]
  rfl

theorem sub_get (a b : Vec3 K) : (a - b).get = a.get - b.get := by
  funext i
  cases i <;> rfl

theorem dot_cross_left (a b : Vec3 K) : a.dot (a.cross b) = 0 := by
  show a.x * (a.y * b.z - b.y * a.z) + a.y * (a.z * b.x - b.z * a.x) + a.z * (a.x * b.y - b.x * a.y) = 0
  ring

theorem cross_dot_left (a b : Vec3 K) : (a.cross b).dot a = 0 := by
  rw [dot_get, dotProduct_comm, ← dot_get, dot_cross_left]

theorem cross_dot_right (a b : Vec3 K) : (a.cross b).dot b = 0 := by
  show (a.y * b.z - b.y * a.z) * b.x + (a.z * b.x - b.z * a.x) * b.y + (a.x * b.y - b.x * a.y) * b.z = 0
  ring

theorem cross_dot_cross (a b : Vec3 K) :
    (a.cross b).dot (a.cross b) = a.dot a * b.dot b - a.dot b * a.dot b := by
  show (a.y * b.z - b.y * a.z) * (a.y * b.z - b.y * a.z) + (a.z * b.x - b.z * a.x) * (a.z * b.x - b.z * a.x) +
      (a.x * b.y - b.x * a.y) * (a.x * b.y - b.x * a.y) =
    (a.x * a.x + a.y * a.y + a.z * a.z) * (b.x * b.x + b.y * b.y + b.z * b.z) -
      (a.x * b.x + a.y * b.y + a.z * b.z) * (a.x * b.x + a.y * b.y + a.z * b.z)
  ring

theorem normalize_get (v : Vec3 K) : v.normalize.get = (1 / SquareRoot.sqrt (v.dot v)) • v.get := by
  have hmul (c : K) : c * (ofInt 1 / SquareRoot.sqrt (v.dot v)) = 1 / SquareRoot.sqrt (v.dot v) * c := by
    rw [ofInt_one, mul_comm]
  funext a
  cases a with
  | x => exact hmul v.x
  | y => exact hmul v.y
  | z => exact hmul v.z

end Vec3

/-- The axes of `lookAt`, the way it looks last. -/
def lookAxes (f up : Vec3 K) : Axis → Vec3 K
  | .x => (f.cross up).normalize
  | .y => (f.cross up).normalize.cross f
  | .z => f

namespace Glm

theorem lookAt_mul (eye center up : Vec3 K) (x : Axis → K) :
    lookAt eye center up * World.homogeneous x =
      ⟨(lookAxes (center - eye).normalize up .x).get ⬝ᵥ (x - eye.get),
        (lookAxes (center - eye).normalize up .y).get ⬝ᵥ (x - eye.get),
        -((lookAxes (center - eye).normalize up .z).get ⬝ᵥ (x - eye.get)), 1⟩ := by
  have hdot (v : Vec3 K) : v.get ⬝ᵥ (x - eye.get) = v.x * x .x + v.y * x .y + v.z * x .z - v.dot eye := by
    rw [dotProduct_sub, ← Vec3.dot_get, dotProduct, Axis.sum_eq]
    rfl
  simp only [lookAxes]
  rw [hdot, hdot, hdot, lookAt, World.homogeneous, ofInt_zero, ofInt_one]
  generalize (center - eye).normalize = f
  generalize (f.cross up).normalize = s
  show (Vec4.mk ((s.x * x .x + s.y * x .y) + (s.z * x .z + -s.dot eye * 1))
    (((s.cross f).x * x .x + (s.cross f).y * x .y) + ((s.cross f).z * x .z + -(s.cross f).dot eye * 1))
    ((-f.x * x .x + -f.y * x .y) + (-f.z * x .z + f.dot eye * 1))
    ((0 * x .x + 0 * x .y) + (0 * x .z + 1 * 1)) : Vec4 K) = _
  congr 1 <;> ring

theorem ortho_mul (l r b t n f x y z : K) :
    ortho l r b t n f * (⟨x, y, z, 1⟩ : Vec4 K) =
      ⟨clip l r x, clip b t y, clip n f (-z), 1⟩ := by
  have htwo : (ofInt 2 : K) = 2 := by rw [ofInt_exact, Int.cast_ofNat]
  rw [ortho, ofInt_zero, ofInt_one, htwo, clip_eq, clip_eq, clip_eq]
  show (Vec4.mk ((2 / (r - l) * x + 0 * y) + (0 * z + -(r + l) / (r - l) * 1))
    ((0 * x + 2 / (t - b) * y) + (0 * z + -(t + b) / (t - b) * 1))
    ((0 * x + 0 * y) + (-2 / (f - n) * z + -(f + n) / (f - n) * 1))
    ((0 * x + 0 * y) + (0 * z + 1 * 1)) : Vec4 K) = _
  congr 1 <;> ring

end Glm

theorem Mat4.mul_mul (m n : Mat4 K) (v : Vec4 K) : m * n * v = m * (n * v) := by
  have hrow (a b c d : K) :
      (a * n.c0.x + b * n.c0.y + c * n.c0.z + d * n.c0.w) * v.x +
          (a * n.c1.x + b * n.c1.y + c * n.c1.z + d * n.c1.w) * v.y +
        ((a * n.c2.x + b * n.c2.y + c * n.c2.z + d * n.c2.w) * v.z +
          (a * n.c3.x + b * n.c3.y + c * n.c3.z + d * n.c3.w) * v.w) =
      a * (n.c0.x * v.x + n.c1.x * v.y + (n.c2.x * v.z + n.c3.x * v.w)) +
        b * (n.c0.y * v.x + n.c1.y * v.y + (n.c2.y * v.z + n.c3.y * v.w)) +
        (c * (n.c0.z * v.x + n.c1.z * v.y + (n.c2.z * v.z + n.c3.z * v.w)) +
          d * (n.c0.w * v.x + n.c1.w * v.y + (n.c2.w * v.z + n.c3.w * v.w))) := by
    ring
  show Vec4.mk _ _ _ _ = Vec4.mk _ _ _ _
  congr 1
  · exact hrow m.c0.x m.c1.x m.c2.x m.c3.x
  · exact hrow m.c0.y m.c1.y m.c2.y m.c3.y
  · exact hrow m.c0.z m.c1.z m.c2.z m.c3.z
  · exact hrow m.c0.w m.c1.w m.c2.w m.c3.w

/-! ### Unit vectors -/

/-- The square root is one. -/
def Rooted (K : Type) [Field K] [LinearOrder K] [SquareRoot K] : Prop :=
  ∀ x : K, 0 ≤ x → 0 ≤ SquareRoot.sqrt x ∧ SquareRoot.sqrt x * SquareRoot.sqrt x = x

section
omit [FloorRing K]

theorem Rooted.pos (hroot : Rooted K) {x : K} (hx : 0 < x) : 0 < SquareRoot.sqrt x := by
  obtain ⟨hnonneg, hsquare⟩ := hroot x hx.le
  refine lt_of_le_of_ne hnonneg fun h => ?_
  rw [← h, mul_zero] at hsquare
  exact hx.ne hsquare

end

variable (hroot : Rooted K)
include hroot

theorem normalize_unit {v : Vec3 K} (hv : 0 < v.dot v) : v.normalize.dot v.normalize = 1 := by
  obtain ⟨-, hsquare⟩ := hroot _ hv.le
  have hpos := hroot.pos hv
  rw [Vec3.dot_get, Vec3.normalize_get, dotProduct_smul, smul_dotProduct, ← Vec3.dot_get, smul_eq_mul,
    smul_eq_mul]
  field_simp
  rw [sq, hsquare]

theorem normalize_of_unit [IsStrictOrderedRing K] {v : Vec3 K} (hv : v.dot v = 1) : v.normalize = v := by
  obtain ⟨hnonneg, hsquare⟩ := hroot 1 zero_le_one
  have hone : SquareRoot.sqrt (1 : K) = 1 :=
    (mul_self_eq_one_iff.mp hsquare).resolve_right fun h => by linarith
  apply Vec3.get_injective
  rw [Vec3.normalize_get, hv, hone, div_one, one_smul]

/-- Unless it looks up or down. -/
theorem lookAxes_orthonormal {f up : Vec3 K} (hf : f.dot f = 1)
    (hup : 0 < (f.cross up).dot (f.cross up)) (a b : Axis) :
    (lookAxes f up a).get ⬝ᵥ (lookAxes f up b).get = if a = b then 1 else 0 := by
  have hss := normalize_unit hroot hup
  have hsf : (f.cross up).normalize.dot f = 0 := by
    rw [Vec3.dot_get, Vec3.normalize_get, smul_dotProduct, ← Vec3.dot_get, Vec3.cross_dot_left, smul_zero]
  have hsu := (f.cross up).normalize.dot_cross_left f
  have huf := (f.cross up).normalize.cross_dot_right f
  have huu := (f.cross up).normalize.cross_dot_cross f
  rw [hss, hf, hsf, mul_one, mul_zero, sub_zero] at huu
  rw [Vec3.dot_get] at hf hss hsf hsu huf huu
  cases a <;> cases b <;> simp only [lookAxes, reduceCtorEq, if_true, if_false]
  · exact hss
  · exact hsu
  · exact hsf
  · rw [dotProduct_comm, hsu]
  · exact huu
  · exact huf
  · rw [dotProduct_comm, hsf]
  · rw [dotProduct_comm, huf]
  · exact hf

end

end MyMinecraft
