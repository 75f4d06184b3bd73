import Mathlib

/-! The part of glm the client's integer code uses.

A C `int` is an `Int` here. Sums and products of `int`s that leave the 32-bit
range are undefined in the source, so they have no other value to model. -/
namespace MyMinecraft

/-- `glm::ivec3`. -/
@[ext] structure Ivec3 where
  x : Int
  y : Int
  z : Int
  deriving DecidableEq, Repr

namespace Ivec3

instance : Zero Ivec3 := ⟨⟨0, 0, 0⟩⟩
instance : Add Ivec3 := ⟨fun a b => ⟨a.x + b.x, a.y + b.y, a.z + b.z⟩⟩
instance : Neg Ivec3 := ⟨fun a => ⟨-a.x, -a.y, -a.z⟩⟩
instance : Sub Ivec3 := ⟨fun a b => ⟨a.x - b.x, a.y - b.y, a.z - b.z⟩⟩
instance : HMul Ivec3 Int Ivec3 := ⟨fun a k => ⟨a.x * k, a.y * k, a.z * k⟩⟩

@[simp] theorem zero_x : (0 : Ivec3).x = 0 := rfl
@[simp] theorem zero_y : (0 : Ivec3).y = 0 := rfl
@[simp] theorem zero_z : (0 : Ivec3).z = 0 := rfl
@[simp] theorem add_x (a b : Ivec3) : (a + b).x = a.x + b.x := rfl
@[simp] theorem add_y (a b : Ivec3) : (a + b).y = a.y + b.y := rfl
@[simp] theorem add_z (a b : Ivec3) : (a + b).z = a.z + b.z := rfl
@[simp] theorem neg_x (a : Ivec3) : (-a).x = -a.x := rfl
@[simp] theorem neg_y (a : Ivec3) : (-a).y = -a.y := rfl
@[simp] theorem neg_z (a : Ivec3) : (-a).z = -a.z := rfl
@[simp] theorem sub_x (a b : Ivec3) : (a - b).x = a.x - b.x := rfl
@[simp] theorem sub_y (a b : Ivec3) : (a - b).y = a.y - b.y := rfl
@[simp] theorem sub_z (a b : Ivec3) : (a - b).z = a.z - b.z := rfl
@[simp] theorem mul_x (a : Ivec3) (k : Int) : (a * k).x = a.x * k := rfl
@[simp] theorem mul_y (a : Ivec3) (k : Int) : (a * k).y = a.y * k := rfl
@[simp] theorem mul_z (a : Ivec3) (k : Int) : (a * k).z = a.z * k := rfl

instance : AddCommGroup Ivec3 where
  add_assoc a b c := by ext <;> simp [add_assoc]
  zero_add a := by ext <;> simp
  add_zero a := by ext <;> simp
  neg_add_cancel a := by ext <;> simp
  add_comm a b := by ext <;> simp [add_comm]
  sub_eq_add_neg a b := by ext <;> simp [sub_eq_add_neg]
  nsmul := nsmulRec
  zsmul := zsmulRec

/-- Every component within `b` of zero. -/
def Within (b : Nat) (a : Ivec3) : Prop :=
  a.x.natAbs ≤ b ∧ a.y.natAbs ≤ b ∧ a.z.natAbs ≤ b

instance (b : Nat) (a : Ivec3) : Decidable (Within b a) := inferInstanceAs (Decidable (_ ∧ _ ∧ _))

/-- Every component a multiple of 16, as chunk positions are. -/
def Aligned (a : Ivec3) : Prop := a.x % 16 = 0 ∧ a.y % 16 = 0 ∧ a.z % 16 = 0

instance (a : Ivec3) : Decidable (Aligned a) := inferInstanceAs (Decidable (_ ∧ _ ∧ _))

end Ivec3

/-! ### One axis at a time -/

inductive Axis where
  | x
  | y
  | z
  deriving DecidableEq

instance : Fintype Axis where
  elems := {.x, .y, .z}
  complete a := by cases a <;> decide

instance : Nonempty Axis := ⟨.x⟩

theorem Axis.forall_iff {P : Axis → Prop} : (∀ a, P a) ↔ P .x ∧ P .y ∧ P .z := by
  constructor
  · exact fun h => ⟨h .x, h .y, h .z⟩
  · intro h a
    obtain ⟨hx, hy, hz⟩ := h
    cases a with
    | x => exact hx
    | y => exact hy
    | z => exact hz

theorem Axis.sum_eq {M : Type*} [AddCommMonoid M] (f : Axis → M) : ∑ a, f a = f .x + f .y + f .z := by
  show f .x + (f .y + (f .z + 0)) = _
  rw [add_zero, add_assoc]

def Ivec3.get (v : Ivec3) : Axis → Int
  | .x => v.x
  | .y => v.y
  | .z => v.z

theorem Ivec3.get_injective : Function.Injective Ivec3.get := by
  intro u v h
  ext
  · exact congrFun h .x
  · exact congrFun h .y
  · exact congrFun h .z

end MyMinecraft
