import MyMinecraft.Glm

/-! Block types, their textures and the face orientations (`Blocktype.h`). -/
namespace MyMinecraft

inductive BlockType where
  | air | grass | dirt | stone | oakLog | oakLeaves | glass | water | sand | snow | oakPlank
  | stoneBrick | netherrack | goldBlock | packedIce | lava | barrel | bookshelf | undefined
  deriving DecidableEq, Repr

/-- The enumerator's value, as comparisons with bytes and packets see it. -/
def BlockType.value (t : BlockType) : UInt8 := UInt8.ofNat t.ctorIdx

inductive BlockTextures where
  | undefinedTex | grassTop | grassSide | dirtTex | stoneTex | oakLogSide | oakLogTop
  | leavesOakTex | glassTex | waterTex | sandTex | snowTex | oakPlankTex | stoneBrickTex
  | netherrackTex | goldBlockTex | packedIceTex | lavaTex | barrelTopTex | barrelSideTex
  | barrelBottomTex | bookshelfTex
  deriving DecidableEq, Repr

def BlockTextures.value (t : BlockTextures) : UInt8 := UInt8.ofNat t.ctorIdx

inductive FaceOrientation where
  | front | back | left | right | top | bottom
  deriving DecidableEq, Repr

def getBlockType (bt : UInt8) : BlockType :=
  match bt.toNat with
  | 0 => .air
  | 1 => .grass
  | 2 => .dirt
  | 3 => .stone
  | 4 => .oakLog
  | 5 => .oakLeaves
  | 6 => .glass
  | 7 => .water
  | 8 => .sand
  | 9 => .snow
  | 10 => .oakPlank
  | 11 => .stoneBrick
  | 12 => .netherrack
  | 13 => .goldBlock
  | 14 => .packedIce
  | 15 => .lava
  | 16 => .barrel
  | 17 => .bookshelf
  | _ => .undefined

def getFaceOrientationVector : FaceOrientation → Ivec3
  | .front => ⟨0, 0, -1⟩
  | .back => ⟨0, 0, 1⟩
  | .left => ⟨-1, 0, 0⟩
  | .right => ⟨1, 0, 0⟩
  | .top => ⟨0, 1, 0⟩
  | .bottom => ⟨0, -1, 0⟩

/-- `{top, side, bottom}`: the entries `at(0)`, `at(1)` and `at(2)` of the source's arrays. -/
structure FaceTextures where
  top : BlockTextures
  side : BlockTextures
  bottom : BlockTextures

/-- Air has no entry. -/
def texturesUmap : List (BlockType × FaceTextures) :=
  [(.undefined, ⟨.undefinedTex, .undefinedTex, .undefinedTex⟩),
    (.grass, ⟨.grassTop, .grassSide, .dirtTex⟩),
    (.dirt, ⟨.dirtTex, .dirtTex, .dirtTex⟩),
    (.stone, ⟨.stoneTex, .stoneTex, .stoneTex⟩),
    (.oakLog, ⟨.oakLogTop, .oakLogSide, .oakLogTop⟩),
    (.oakLeaves, ⟨.leavesOakTex, .leavesOakTex, .leavesOakTex⟩),
    (.glass, ⟨.glassTex, .glassTex, .glassTex⟩),
    (.water, ⟨.waterTex, .waterTex, .waterTex⟩),
    (.sand, ⟨.sandTex, .sandTex, .sandTex⟩),
    (.snow, ⟨.snowTex, .snowTex, .snowTex⟩),
    (.oakPlank, ⟨.oakPlankTex, .oakPlankTex, .oakPlankTex⟩),
    (.stoneBrick, ⟨.stoneBrickTex, .stoneBrickTex, .stoneBrickTex⟩),
    (.netherrack, ⟨.netherrackTex, .netherrackTex, .netherrackTex⟩),
    (.goldBlock, ⟨.goldBlockTex, .goldBlockTex, .goldBlockTex⟩),
    (.packedIce, ⟨.packedIceTex, .packedIceTex, .packedIceTex⟩),
    (.lava, ⟨.lavaTex, .lavaTex, .lavaTex⟩),
    (.barrel, ⟨.barrelTopTex, .barrelSideTex, .barrelBottomTex⟩),
    (.bookshelf, ⟨.oakPlankTex, .bookshelfTex, .oakPlankTex⟩)]

/-- Every block type but air has textures. -/
theorem texturesUmap_lookup {t : BlockType} (h : t ≠ .air) :
    ∃ textures, texturesUmap.lookup t = some textures := by
  cases t <;> first | exact absurd rfl h | exact ⟨_, rfl⟩

/-- Only the byte 0 is air. -/
theorem getBlockType_ne_air {bt : UInt8} (h : bt ≠ 0) : getBlockType bt ≠ .air := by
  have hn : bt.toNat ≠ 0 := fun h0 => h (UInt8.toNat_inj.mp h0)
  unfold getBlockType
  split <;> first | contradiction | exact BlockType.noConfusion

/-- Texture indices fit the five bits a packed vertex has for them. -/
theorem BlockTextures.value_lt (t : BlockTextures) : t.value.toNat < 32 := by
  cases t <;> decide

end MyMinecraft
