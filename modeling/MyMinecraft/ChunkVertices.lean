import MyMinecraft.World
import MyMinecraft.Lib.Loops

/-! The mesher (`ChunkVertices.cpp`).

`createChunkVertices` copies the chunk and its six neighbours, then visits the
4096 cells and appends, for each face of a block that can be seen, six packed
vertices. `meshOf` is the list it appends, as a function of the blocks it reads;
`createChunkVertices_eq` says the loops compute exactly that and never fail. -/
namespace MyMinecraft

/-- Six vertices of six numbers: position, texture coordinates, normal index. -/
abbrev FaceVertices := Vector UInt8 36

structure FaceRow where
  x : UInt8
  y : UInt8
  z : UInt8
  u : UInt8
  v : UInt8
  normal : UInt8

/-- `face_vertices[i]` to `face_vertices[i + 5]` at the `k`-th turn of the loop, where
`i = 6 * k`. -/
def FaceVertices.row (face : FaceVertices) (k : Fin 6) : FaceRow :=
  ⟨face.get ⟨6 * k, by omega⟩, face.get ⟨6 * k + 1, by omega⟩, face.get ⟨6 * k + 2, by omega⟩,
    face.get ⟨6 * k + 3, by omega⟩, face.get ⟨6 * k + 4, by omega⟩, face.get ⟨6 * k + 5, by omega⟩⟩

def frontFaceVertices : FaceVertices := #v[
  0, 0, 0,  1, 0,  0,
  1, 1, 0,  0, 1,  0,
  1, 0, 0,  0, 0,  0,
  1, 1, 0,  0, 1,  0,
  0, 0, 0,  1, 0,  0,
  0, 1, 0,  1, 1,  0]

def backFaceVertices : FaceVertices := #v[
  0, 0, 1,  0, 0,  1,
  1, 0, 1,  1, 0,  1,
  1, 1, 1,  1, 1,  1,
  1, 1, 1,  1, 1,  1,
  0, 1, 1,  0, 1,  1,
  0, 0, 1,  0, 0,  1]

def leftFaceVertices : FaceVertices := #v[
  0, 1, 1,  1, 1,  2,
  0, 1, 0,  0, 1,  2,
  0, 0, 0,  0, 0,  2,
  0, 0, 0,  0, 0,  2,
  0, 0, 1,  1, 0,  2,
  0, 1, 1,  1, 1,  2]

def rightFaceVertices : FaceVertices := #v[
  1, 1, 1,  0, 1,  3,
  1, 0, 0,  1, 0,  3,
  1, 1, 0,  1, 1,  3,
  1, 0, 0,  1, 0,  3,
  1, 1, 1,  0, 1,  3,
  1, 0, 1,  0, 0,  3]

def bottomFaceVertices : FaceVertices := #v[
  0, 0, 0,  1, 1,  4,
  1, 0, 0,  0, 1,  4,
  1, 0, 1,  0, 0,  4,
  1, 0, 1,  0, 0,  4,
  0, 0, 1,  1, 0,  4,
  0, 0, 0,  1, 1,  4]

def topFaceVertices : FaceVertices := #v[
  0, 1, 0,  1, 0,  5,
  1, 1, 1,  0, 1,  5,
  1, 1, 0,  0, 0,  5,
  0, 1, 1,  1, 1,  5,
  1, 1, 1,  0, 1,  5,
  0, 1, 0,  1, 0,  5]

namespace ChunkVertices

def neighborChunkpos : Vector Ivec3 7 :=
  #v[⟨1, 0, 0⟩, ⟨-1, 0, 0⟩, ⟨0, 1, 0⟩, ⟨0, -1, 0⟩, ⟨0, 0, 1⟩, ⟨0, 0, -1⟩, ⟨0, 0, 0⟩]

/-- The mesher's own `getBlockAt`, over its copies. -/
def getBlockAt (pos : Ivec3) (nchunks : Chunks) : Except Fault UInt8 := lookupBlock nchunks pos

/-- `neighbor_chunks`, copied under `chunk_mtx`. -/
def snapshot (chunks : Chunks) (worldpos : Ivec3) : Chunks :=
  Lib.Map.copyKeys chunks ∅ (neighborChunkpos.toList.map fun off => worldpos + off * (16 : Int))

/-- The entry a face takes. -/
def textureFor (textures : FaceTextures) : FaceOrientation → UInt8
  | .front | .back | .left | .right => textures.side.value
  | .top => textures.top.value
  | .bottom => textures.bottom.value

def findBlockTextures (type : BlockType) (orientation : FaceOrientation) : Except Fault UInt8 :=
  match texturesUmap.lookup type with
  | some textures => .ok (textureFor textures orientation)
  | none => .error .outOfRange

/-- One packed vertex; the sums are `int`s in the source, never negative. -/
def packVertex (x y z : Int) (u v n texture : UInt8) : UInt32 :=
  ((UInt32.ofInt x &&& 0b11111) <<< 0) ||| ((UInt32.ofInt y &&& 0b11111) <<< 5) |||
    ((UInt32.ofInt z &&& 0b11111) <<< 10) ||| ((u.toUInt32 &&& 0b1) <<< 15) |||
    ((v.toUInt32 &&& 0b1) <<< 16) ||| ((n.toUInt32 &&& 0b111) <<< 17) |||
    ((texture.toUInt32 &&& 0b11111) <<< 20)

/-- The `k`-th vertex of a face of the cell at `localPos`. -/
def faceVertex (face : FaceVertices) (localPos : Ivec3) (texture : UInt8) (k : Fin 6) : UInt32 :=
  let row := face.row k
  packVertex (row.x.toNat + localPos.x) (row.y.toNat + localPos.y) (row.z.toNat + localPos.z)
    row.u row.v row.normal texture

/-- `World::positionToIndex` of the neighbour is computed here as well and not used. -/
def loadFaceVertices (face : FaceVertices) (orientation : FaceOrientation) (localPos : Ivec3)
    (bt : UInt8) (vertices : List UInt32) : Except Fault (List UInt32) :=
  (List.finRange 6).foldlM (fun vertices k => do
    let texture ← findBlockTextures (getBlockType bt) orientation
    return vertices ++ [faceVertex face localPos texture k]) vertices

/-- The blocks a face is seen through. -/
def seeThrough (bt : UInt8) : Bool :=
  bt == BlockType.air.value || bt == BlockType.oakLeaves.value || bt == BlockType.glass.value

/-- The faces in the order a cell tries them: the offset looked at, the table, the name. -/
def faces : List (Fin 7 × FaceVertices × FaceOrientation) :=
  [(5, frontFaceVertices, .front), (4, backFaceVertices, .back), (1, leftFaceVertices, .left),
    (0, rightFaceVertices, .right), (2, topFaceVertices, .top), (3, bottomFaceVertices, .bottom)]

/-- The body of the three loops, at one cell. -/
def loadCell (nchunks : Chunks) (worldpos : Ivec3) (vertices : List UInt32) (localPos : Ivec3) :
    Except Fault (List UInt32) := do
  let worldPos := localPos + worldpos
  let blocktype ← getBlockAt worldPos nchunks
  if blocktype = 0 then
    return vertices
  faces.foldlM (fun vertices f => do
    let bt ← getBlockAt (worldPos + neighborChunkpos.get f.1) nchunks
    if seeThrough bt then loadFaceVertices f.2.1 f.2.2 localPos blocktype vertices
    else return vertices) vertices

/-- The cells in the order of the loops: `z` outermost, `x` innermost. -/
def cells : List Ivec3 :=
  (List.range 16).flatMap fun (z : Nat) => (List.range 16).flatMap fun (y : Nat) =>
    (List.range 16).map fun (x : Nat) => ⟨x, y, z⟩

/-- The list from one snapshot. -/
def verticesOf (nchunks : Chunks) (worldpos : Ivec3) : Except Fault (List UInt32) :=
  cells.foldlM (loadCell nchunks worldpos) []

/-- `createChunkVertices(worldpos)` on the chunks stored when it takes its snapshot. -/
def createChunkVertices (chunks : Chunks) (worldpos : Ivec3) : Except Fault (List UInt32) :=
  verticesOf (snapshot chunks worldpos) worldpos

/-! ### The list it computes -/

/-- The texture index of a face, top, side or bottom. -/
def blockTexture (bt : UInt8) (orientation : FaceOrientation) : UInt8 :=
  match texturesUmap.lookup (getBlockType bt) with
  | some textures => textureFor textures orientation
  | none => 0

def quadOf (f : Fin 7 × FaceVertices × FaceOrientation) (bt : UInt8) (localPos : Ivec3) : List UInt32 :=
  (List.finRange 6).map (faceVertex f.2.1 localPos (blockTexture bt f.2.2))

/-- What one cell adds, by the blocks it sees. -/
def cellVertices (block : Ivec3 → UInt8) (worldpos localPos : Ivec3) : List UInt32 :=
  if block (localPos + worldpos) = 0 then []
  else faces.flatMap fun f =>
    if seeThrough (block (localPos + worldpos + neighborChunkpos.get f.1)) then
      quadOf f (block (localPos + worldpos)) localPos
    else []

def meshOf (block : Ivec3 → UInt8) (worldpos : Ivec3) : List UInt32 :=
  cells.flatMap (cellVertices block worldpos)

/-- What `getBlockAt` reads from some copies. -/
def read (nchunks : Chunks) (c : Ivec3) : UInt8 :=
  match getBlockAt c nchunks with
  | .ok b => b
  | .error _ => 0

theorem getBlockAt_read (nchunks : Chunks) (c : Ivec3) : getBlockAt c nchunks = .ok (read nchunks c) := by
  obtain ⟨b, hb⟩ := lookupBlock_ok nchunks c
  rw [read, getBlockAt, hb]

/-- No block that is drawn is missing from `textures_umap`. -/
theorem findBlockTextures_eq {bt : UInt8} (h : bt ≠ 0) (orientation : FaceOrientation) :
    findBlockTextures (getBlockType bt) orientation = .ok (blockTexture bt orientation) := by
  obtain ⟨textures, ht⟩ := texturesUmap_lookup (getBlockType_ne_air h)
  rw [findBlockTextures, blockTexture, ht]

theorem loadFaceVertices_eq (f : Fin 7 × FaceVertices × FaceOrientation) {bt : UInt8} (h : bt ≠ 0)
    (localPos : Ivec3) (vertices : List UInt32) :
    loadFaceVertices f.2.1 f.2.2 localPos bt vertices = .ok (vertices ++ quadOf f bt localPos) := by
  rw [loadFaceVertices, Lib.Loops.foldlM_append _
    (fun k => [faceVertex f.2.1 localPos (blockTexture bt f.2.2) k])]
  · rw [quadOf, List.map_eq_flatMap]
  · intro k _ acc
    rw [findBlockTextures_eq h]
    rfl

theorem loadCell_eq (nchunks : Chunks) (worldpos : Ivec3) (vertices : List UInt32) (localPos : Ivec3) :
    loadCell nchunks worldpos vertices localPos =
      .ok (vertices ++ cellVertices (read nchunks) worldpos localPos) := by
  simp only [loadCell, getBlockAt_read]
  show (if read nchunks (localPos + worldpos) = 0 then _ else _) = _
  by_cases h0 : read nchunks (localPos + worldpos) = 0
  · rw [if_pos h0, cellVertices, if_pos h0, List.append_nil]
    rfl
  · rw [if_neg h0, cellVertices, if_neg h0]
    refine Lib.Loops.foldlM_append _ _ faces (fun f _ acc => ?_) vertices
    show (if seeThrough _ = true then _ else _) = _
    split
    · exact loadFaceVertices_eq f h0 localPos acc
    · rw [List.append_nil]
      rfl

theorem verticesOf_eq (nchunks : Chunks) (worldpos : Ivec3) :
    verticesOf nchunks worldpos = .ok (meshOf (read nchunks) worldpos) := by
  rw [verticesOf, meshOf, Lib.Loops.foldlM_append _ (cellVertices (read nchunks) worldpos) cells
    (fun l _ acc => loadCell_eq nchunks worldpos acc l), List.nil_append]

/-- The lists as functions of the blocks, so that a run is evaluated without building them. -/
theorem verticesOf_eq_meshOf : verticesOf = fun nchunks p => .ok (meshOf (read nchunks) p) := by
  funext nchunks p
  exact verticesOf_eq nchunks p

/-- The mesher always returns: no index is out of bounds and no texture is missing. -/
theorem createChunkVertices_eq (chunks : Chunks) (worldpos : Ivec3) :
    createChunkVertices chunks worldpos =
      .ok (meshOf (read (snapshot chunks worldpos)) worldpos) := verticesOf_eq _ worldpos

end ChunkVertices
end MyMinecraft
