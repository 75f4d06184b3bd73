import MyMinecraft.ChunkVertices
import MyMinecraft.Client.Outgoing
import MyMinecraft.GameScene.Clicks
import MyMinecraft.Lib.Throttle

/-! The player (`GameScene.cpp`).

The keys choose the block and give the mouse away, the buttons edit, and each frame may send a text and, twenty
times a second, the pose. A session is the constructor, `openScene` and any inputs after it; here it is a
function of them, with the calls it makes of the client's senders. -/
namespace MyMinecraft

/-- The keys `keyCallback` looks for. -/
inductive Key where
  | escape
  | leftAlt
  | c
  | x
  | other (code : Int)
  deriving DecidableEq

inductive Action where
  | release
  | press
  | repeated
  deriving DecidableEq

/-! ### The selected cube -/

def enumerators : List BlockType :=
  [.air, .grass, .dirt, .stone, .oakLog, .oakLeaves, .glass, .water, .sand, .snow, .oakPlank, .stoneBrick, .netherrack,
    .goldBlock, .packedIce, .lava, .barrel, .bookshelf, .undefined]

/-- `(BlockType)n`, for the value of an enumerator. -/
def blockTypeOf (n : Int) : BlockType := enumerators.getD n.toNat .undefined

/-- After `GLFW_KEY_C`. -/
def nextCube (selectedCube : BlockType) : BlockType :=
  if selectedCube.value.toNat + 1 > texturesUmap.length - 1 then blockTypeOf 1
  else blockTypeOf (selectedCube.value.toNat + 1)

/-- After `GLFW_KEY_X`. -/
def previousCube (selectedCube : BlockType) : BlockType :=
  if (selectedCube.value.toNat : Int) - 1 < 1 then blockTypeOf (texturesUmap.length - 1 : Nat)
  else blockTypeOf (selectedCube.value.toNat - 1)

/-- The uniform `BlockTextures`. -/
def selectCubeUpdate (selectedCube : BlockType) : Except Fault Ivec3 :=
  match texturesUmap.lookup selectedCube with
  | some textures => .ok ⟨textures.top.value.toNat, textures.side.value.toNat, textures.bottom.value.toNat⟩
  | none => .error .outOfRange

/-- The layer `cube.fs` takes, which is not set for a normal none of its tests is true of. -/
def cubeLayer {R : Type} [Scalar R] (blockTextures : Ivec3) (normal : Vec3 R) : Option Int :=
  let layer := if Scalar.lt Scalar.half normal.y then some blockTextures.x else none
  let layer := if Scalar.lt Scalar.half (Scalar.abs normal.z) || Scalar.lt Scalar.half (Scalar.abs normal.x) then
    some blockTextures.y else layer
  if Scalar.lt normal.y (Scalar.ofInt 0 - Scalar.half) then some blockTextures.z else layer

/-! ### The callbacks and the frame -/

/-- The members that the callbacks and `update` read and write. -/
structure Player (R T : Type) where
  scene : GameScene R
  /-- `camera.setLock`. -/
  locked : Bool
  windowShouldClose : Bool
  /-- The uniform of `scube_shader`. -/
  blockTextures : Ivec3
  requestInterval : T
  updateChunk : Bool
  inputChat : Vector UInt8 4096

/-- What one frame brings from outside. -/
structure Update (T : Type) where
  /-- `clock.delta_time`. -/
  delta : T
  /-- The camera's position, yaw and pitch, by their bits. -/
  pose : Pose
  /-- The box in the settings window is clicked. -/
  toggled : Bool
  /-- What is typed does this to the line of text. -/
  typed : Vector UInt8 4096 → Vector UInt8 4096
  /-- The button beside it is clicked. -/
  send : Bool
  /-- The chunks in the queue when it is drained. -/
  received : List ChunkData

inductive Input (R T : Type) where
  | key (key : Key) (action : Action)
  | press (button : Button) (mask : Ivec3)
  /-- `processInput` and the mouse move the camera. -/
  | move (camera : Camera R)
  | update (frame : Update T)

/-- The arguments of `sendUpdateBlock`. -/
def UpdateBlock.call (packet : UpdateBlock) : Send :=
  .updateBlock packet.blocktype (Int32.ofInt packet.xpos) (Int32.ofInt packet.ypos) (Int32.ofInt packet.zpos)

namespace Player
variable {R T : Type}

def select (p : Player R T) (selectedCube : BlockType) : Except Fault (Player R T) := do
  let blockTextures ← selectCubeUpdate selectedCube
  return {p with blockTextures, scene := {p.scene with selectedCube}}

/-- `cursor_input_mode` is one of two since `openScene`. -/
def keyCallback (p : Player R T) (key : Key) (action : Action) : Except Fault (Player R T) :=
  match key, action with
  | .escape, .press => .ok {p with windowShouldClose := true}
  | .leftAlt, .press =>
    if p.scene.captured then .ok {p with locked := true, scene := {p.scene with captured := false}}
    else .ok {p with locked := false, scene := {p.scene with captured := true}}
  | .c, .press => p.select (nextCube p.scene.selectedCube)
  | .x, .press => p.select (previousCube p.scene.selectedCube)
  | _, _ => .ok p

/-- The text box of `imguiLayout`. -/
def chat (p : Player R T) (frame : Update T) : Player R T × List Send :=
  let inputChat := frame.typed p.inputChat
  if frame.send then ({p with inputChat := Vector.replicate 4096 0}, [.textChat inputChat])
  else ({p with inputChat}, [])

section
variable [Add T] [Zero T] [LE T] [DecidableLE T]

/-- The pose is sent when `period` has passed. -/
def request (p : Player R T) (period : T) (frame : Update T) : Player R T × List Send :=
  let tick := Lib.Throttle.tick period p.requestInterval frame.delta
  ({p with requestInterval := tick.1}, if tick.2 then [.updateEntity frame.pose] else [])

/-- `updateChunks`, for what it does to the world. -/
def updateChunks (p : Player R T) (received : List ChunkData) : Player R T :=
  if p.updateChunk then
    {p with scene := {p.scene with
      world := received.foldl (fun w c => w.createOrReplaceChunk c.pos c.blocktypes) p.scene.world}}
  else p

/-- A frame, without what it draws and without the entities. -/
def update (p : Player R T) (period : T) (frame : Update T) : Player R T × List Send :=
  let (p, text) := {p with updateChunk := p.updateChunk != frame.toggled}.chat frame
  let (p, pose) := p.request period frame
  (p.updateChunks frame.received, text ++ pose)

variable [Scalar R]

/-- An input, and the calls it makes. -/
def after (p : Player R T) (period : T) : Input R T → Except Fault (Player R T × List Send)
  | .key key action => do
    let p ← p.keyCallback key action
    return (p, [])
  | .press button mask => do
    let (scene, packet) ← leftClickCallback p.scene button mask
    return ({p with scene}, packet.toList.map UpdateBlock.call)
  | .move camera => .ok ({p with scene := {p.scene with camera}}, [])
  | .update frame => .ok (p.update period frame)

/-- Inputs in a row, and all the calls they make. -/
def run (period : T) (p : Player R T) : List (Input R T) → Except Fault (Player R T × List Send)
  | [] => .ok (p, [])
  | input :: rest => do
    let (p, calls) ← p.after period input
    let (p, more) ← p.run period rest
    return (p, calls ++ more)

/-- After the constructor and `openScene`; whether the camera was locked is not known. -/
def opened (camera : Camera R) (locked : Bool) : Except Fault (Player R T × List Send) := do
  let scene := .start camera
  let blockTextures ← selectCubeUpdate scene.selectedCube
  return (⟨scene, locked, false, blockTextures, 0, true, Vector.replicate 4096 0⟩, [.renderDistance 16])

/-- A whole session, and all the calls of it. -/
def session (camera : Camera R) (locked : Bool) (period : T) (inputs : List (Input R T)) :
    Except Fault (Player R T × List Send) := do
  let (p, calls) ← opened camera locked
  let (p, more) ← p.run period inputs
  return (p, calls ++ more)

end
end Player

/-! ### What is counted off the inputs -/

section
variable {R T : Type}

/-- How often the key was pressed. -/
def presses (key : Key) (inputs : List (Input R T)) : Nat :=
  inputs.countP fun
    | .key k .press => k = key
    | _ => false

/-- The type chosen, from 1 to 17. -/
def picked (inputs : List (Input R T)) : Int := 1 + ((presses .c inputs : Int) - presses .x inputs) % 17

/-- The type a press asks for. -/
def editOf (before : List (Input R T)) : Input R T → Option UInt8
  | .press .left _ => if Even (presses .leftAlt before) then some 0 else none
  | .press .right _ => if Even (presses .leftAlt before) then some (UInt8.ofNat (picked before).toNat) else none
  | _ => none

def edits (inputs : List (Input R T)) : List UInt8 :=
  (List.range inputs.length).filterMap fun i => inputs[i]?.bind (editOf (inputs.take i))

def Input.delta [Zero T] : Input R T → T
  | .update frame => frame.delta
  | _ => 0

def Send.edit? : Send → Option UInt8
  | .updateBlock blockType _ _ _ => some blockType
  | _ => none

def Send.isPose : Send → Bool
  | .updateEntity _ => true
  | _ => false

theorem presses_snoc (key : Key) (inputs : List (Input R T)) (input : Input R T) :
    presses key (inputs ++ [input]) = presses key inputs + presses key [input] := List.countP_append

theorem edits_snoc (inputs : List (Input R T)) (input : Input R T) :
    edits (inputs ++ [input]) = edits inputs ++ (editOf inputs input).toList := by
  rw [edits, List.length_append, List.length_singleton, List.range_succ, List.filterMap_append]
  congr 1
  · refine List.filterMap_congr fun i hi => ?_
    have hlt := List.mem_range.mp hi
    rw [List.getElem?_append_left hlt, List.take_append_of_le_length hlt.le]
  · cases h : editOf inputs input <;> simp [h]

end

/-! ### The selected cube -/

theorem selectCubeUpdate_ok {t : BlockType} (h : t ≠ .air) : ∃ blockTextures, selectCubeUpdate t = .ok blockTextures := by
  obtain ⟨textures, ht⟩ := texturesUmap_lookup h
  exact ⟨_, by rw [selectCubeUpdate, ht]⟩

/-- The types that can be placed come around. -/
theorem nextCube_value {t : BlockType} (h : 1 ≤ t.value.toNat ∧ t.value.toNat ≤ 17) :
    ((nextCube t).value.toNat : Int) = 1 + (t.value.toNat - 1 + 1) % 17 := by
  revert h
  cases t <;> decide

theorem previousCube_value {t : BlockType} (h : 1 ≤ t.value.toNat ∧ t.value.toNat ≤ 17) :
    ((previousCube t).value.toNat : Int) = 1 + (t.value.toNat - 1 - 1) % 17 := by
  revert h
  cases t <;> decide

end MyMinecraft
