import MyMinecraft.Lib.Loops
import MyMinecraft.Scalar
import MyMinecraft.World

/-! The ray march and the mouse (`GameScene.cpp`).

`dda` walks from the camera's cell along the view, at most 100 cells, and writes
what it hits to `dda_data`. A press runs it and sends `dda_data` to the server. The
arithmetic of the walk is a parameter: `R` has the operations the source uses, and
nothing is assumed of them here. `mask` and `rayStep` hold only -1, 0 and 1, which
every `float` format has, so they are integers. -/
namespace MyMinecraft

structure Camera (R : Type) where
  position : Vec3 R
  front : Vec3 R

/-- `DDA_Data`, the member that keeps the last hit. -/
structure DdaData where
  blocktype : UInt8
  xpos : Int
  ypos : Int
  zpos : Int
  face : Ivec3
  deriving DecidableEq

/-- The local variables that change in the loop. -/
structure Ray (R : Type) where
  mapPos : Ivec3
  sideDist : Vec3 R
  mask : Ivec3

section
variable {R : Type} [Scalar R]
open Scalar

namespace Camera
open Glm

def rayStep (camera : Camera R) : Ivec3 :=
  ⟨sign camera.front.x, sign camera.front.y, sign camera.front.z⟩

def deltaDist (camera : Camera R) : Vec3 R :=
  let l := length camera.front
  ⟨abs (l / camera.front.x), abs (l / camera.front.y), abs (l / camera.front.z)⟩

/-- The distance along the ray to the first cell border on one axis. -/
def firstSide (front position deltaDist : R) (mapPos : Int) : R :=
  (ofInt (sign front) * (ofInt mapPos - position) + ofInt (sign front) * half + half) * deltaDist

/-- The variables before the loop. `mask` is not initialized: it holds anything. -/
def startRay (camera : Camera R) (mask : Ivec3) : Ray R :=
  let mapPos : Ivec3 := ⟨floor camera.position.x, floor camera.position.y, floor camera.position.z⟩
  let deltaDist := camera.deltaDist
  { mapPos
    sideDist :=
      ⟨firstSide camera.front.x camera.position.x deltaDist.x mapPos.x,
        firstSide camera.front.y camera.position.y deltaDist.y mapPos.y,
        firstSide camera.front.z camera.position.z deltaDist.z mapPos.z⟩
    mask }

/-- The lines after the `if`: the axes whose border is nearest are crossed. -/
def advance (camera : Camera R) (ray : Ray R) : Ray R :=
  let s := ray.sideDist
  let mask : Ivec3 :=
    ⟨step s.x s.y * step s.x s.z, step s.y s.z * step s.y s.x, step s.z s.x * step s.z s.y⟩
  { mapPos := ray.mapPos + ⟨mask.x * camera.rayStep.x, mask.y * camera.rayStep.y, mask.z * camera.rayStep.z⟩
    sideDist :=
      ⟨s.x + ofInt mask.x * camera.deltaDist.x, s.y + ofInt mask.y * camera.deltaDist.y,
        s.z + ofInt mask.z * camera.deltaDist.z⟩
    mask }

/-- `dda_data.face`. -/
def face (camera : Camera R) (mask : Ivec3) : Ivec3 :=
  ⟨-mask.x * camera.rayStep.x, -mask.y * camera.rayStep.y, -mask.z * camera.rayStep.z⟩

end Camera

/-- The loop, with so many turns left; `data` is returned when they run out. -/
def ddaLoop (w : World) (camera : Camera R) (data : DdaData) : Nat → Ray R → Except Fault DdaData
  | 0, _ => .ok data
  | n + 1, ray => do
    let bt ← w.getBlockAt ray.mapPos.x ray.mapPos.y ray.mapPos.z
    if bt ≠ 0 then
      return ⟨bt, ray.mapPos.x, ray.mapPos.y, ray.mapPos.z, camera.face ray.mask⟩
    ddaLoop w camera data n (camera.advance ray)

def dda (w : World) (camera : Camera R) (mask : Ivec3) (data : DdaData) : Except Fault DdaData :=
  ddaLoop w camera data 100 (camera.startRay mask)

/-- The packet of `sendUpdateBlock`. -/
structure UpdateBlock where
  blocktype : UInt8
  xpos : Int
  ypos : Int
  zpos : Int
  deriving DecidableEq

/-- The members of `GameScene` that a press reads or writes, and the world. -/
structure GameScene (R : Type) where
  world : World
  camera : Camera R
  ddaData : DdaData
  selectedCube : BlockType
  /-- `cursor_input_mode` is not `GLFW_CURSOR_NORMAL`. -/
  captured : Bool

inductive Button where
  | left
  | right

/-- `leftClickCallback` at a press; `mask` is what the uninitialized variable of `dda` holds. -/
def leftClickCallback (s : GameScene R) (button : Button) (mask : Ivec3) :
    Except Fault (GameScene R × Option UpdateBlock) :=
  if s.captured then do
    let ddaData ← dda s.world s.camera mask s.ddaData
    match button with
    | .left =>
      return ({s with ddaData}, some ⟨BlockType.air.value, ddaData.xpos, ddaData.ypos, ddaData.zpos⟩)
    | .right =>
      return ({s with ddaData}, some ⟨s.selectedCube.value, ddaData.xpos + ddaData.face.x,
        ddaData.ypos + ddaData.face.y, ddaData.zpos + ddaData.face.z⟩)
  else .ok (s, none)

/-! ### What the loop does -/

/-- The cell the `i`-th turn examines, if the loop gets there. -/
def Camera.cellAt (camera : Camera R) (i : Nat) : Ivec3 := (camera.advance^[i] (camera.startRay 0)).mapPos

def World.blockAt (w : World) (c : Ivec3) : Except Fault UInt8 := w.getBlockAt c.x c.y c.z

/-- What one turn records. -/
def hitAt (w : World) (camera : Camera R) (ray : Ray R) : Option DdaData :=
  match w.blockAt ray.mapPos with
  | .ok bt =>
    if bt ≠ 0 then some ⟨bt, ray.mapPos.x, ray.mapPos.y, ray.mapPos.z, camera.face ray.mask⟩ else none
  | .error _ => none

/-- The loop is a search for the first cell that is not air, and it always returns. -/
theorem ddaLoop_eq (w : World) (camera : Camera R) (data : DdaData) (n : Nat) (ray : Ray R) :
    ddaLoop w camera data n ray =
      .ok ((Lib.Loops.search (hitAt w camera) camera.advance n ray).getD data) := by
  induction n generalizing ray with
  | zero => rfl
  | succ n ih =>
    obtain ⟨bt, hbt⟩ := lookupBlock_ok w.chunks ray.mapPos
    have hread : w.getBlockAt ray.mapPos.x ray.mapPos.y ray.mapPos.z = .ok bt := hbt
    rw [ddaLoop, hread, Lib.Loops.search, hitAt, World.blockAt, hread]
    show (if bt ≠ 0 then _ else _) = _
    by_cases h : bt ≠ 0
    · simp only [if_pos h]
      rfl
    · simp only [if_neg h]
      exact ih _

/-- What the mask held at first moves no cell. -/
theorem cellAt_mask (camera : Camera R) (mask : Ivec3) (i : Nat) :
    (camera.advance^[i] (camera.startRay mask)).mapPos = camera.cellAt i := by
  cases i <;> rfl

end
end MyMinecraft
