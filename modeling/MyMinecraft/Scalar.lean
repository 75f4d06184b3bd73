import MyMinecraft.Glm

/-! The arithmetic of the client's `float`s.

`Scalar` has the operations the source uses and nothing is assumed of them. Two
kinds of numbers have them: `Float32`, and any ordered field, where they are exact. A
field has no square root of its own, so there it is one more parameter. -/
namespace MyMinecraft

/-- The operations of `float` that the source uses; `ofInt` and `floor` are the conversions from
and to `int`. -/
class Scalar (R : Type) extends Add R, Sub R, Mul R, Div R where
  ofInt : Int → R
  half : R
  abs : R → R
  sqrt : R → R
  floor : R → Int
  lt : R → R → Bool

instance : Scalar Float32 where
  ofInt := Float32.ofInt
  half := 0.5
  abs := Float32.abs
  sqrt := Float32.sqrt
  floor x := x.floor.toInt32.toInt
  lt x y := decide (x < y)

/-- What stands for the square root in exact arithmetic. -/
class SquareRoot (K : Type) where
  sqrt : K → K

/-- Exact arithmetic. -/
instance exactScalar {K : Type} [Field K] [LinearOrder K] [FloorRing K] [SquareRoot K] : Scalar K where
  ofInt n := n
  half := 1 / 2
  abs x := |x|
  sqrt := SquareRoot.sqrt
  floor x := ⌊x⌋
  lt x y := decide (x < y)

namespace Scalar
variable {K : Type} [Field K] [LinearOrder K] [FloorRing K] [SquareRoot K]

@[simp] theorem ofInt_exact (n : Int) : (ofInt n : K) = n := rfl
@[simp] theorem half_exact : (half : K) = 1 / 2 := rfl
@[simp] theorem abs_exact (x : K) : abs x = |x| := rfl
@[simp] theorem floor_exact (x : K) : floor x = ⌊x⌋ := rfl
@[simp] theorem lt_exact (x y : K) : lt x y = decide (x < y) := rfl

end Scalar

/-- The root of a square; of other numbers something near it. -/
instance : SquareRoot ℚ := ⟨Rat.sqrt⟩

/-- `glm::vec3`. -/
structure Vec3 (R : Type) where
  x : R
  y : R
  z : R

def Vec3.get {R : Type} (v : Vec3 R) : Axis → R
  | .x => v.x
  | .y => v.y
  | .z => v.z

/-- `glm::vec4`. -/
structure Vec4 (R : Type) where
  x : R
  y : R
  z : R
  w : R

section
variable {R : Type} [Scalar R]
open Scalar

namespace Glm

def sign (x : R) : Int := (if lt (ofInt 0) x then 1 else 0) - (if lt x (ofInt 0) then 1 else 0)

def step (edge x : R) : Int := if lt x edge then 0 else 1

def length (v : Vec3 R) : R := sqrt (v.x * v.x + v.y * v.y + v.z * v.z)

def dot (a b : Vec4 R) : R := (a.x * b.x + a.y * b.y) + (a.z * b.z + a.w * b.w)

end Glm
end

end MyMinecraft
