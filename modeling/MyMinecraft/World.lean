import MyMinecraft.Blocktype
import MyMinecraft.Lib.Map
import MyMinecraft.Lib.Significand

/-! The store of chunks (`World.cpp`, `Chunk.hpp`, `ChunkMesh.cpp`).

`World` keeps two maps by chunk position: the blocks received and the meshes
drawn. A block is addressed by its chunk, found through binary32 arithmetic, and
by its cell, found through C's truncating `%`. `blockOf` is what the address
means, in integers; `lookupBlock_eq` says the two agree up to `2 ^ 24`. -/
namespace MyMinecraft

structure Chunk where
  blocktypes : Vector UInt8 4096
  worldpos : Ivec3

/-- `vbo` is the vertex buffer's data store, `none` while the name is 0. -/
structure ChunkMesh where
  worldpos : Ivec3
  vbo : Option (List UInt32)

abbrev Chunks := AList fun _ : Ivec3 => Chunk

/-- What ends a call without a result: an index outside `blocktypes`, which is
undefined behaviour, or `textures_umap.at` on a missing key, which throws. -/
inductive Fault where
  | outOfBounds
  | outOfRange
  deriving DecidableEq, Repr

/-! ### The address of a block -/

/-- The chunk coordinate through floats: only the conversion of `x` rounds, the
division by 16, `floor` and the product are exact. -/
def chunkCoord (x : Int) : Int := Lib.Significand.roundInt 24 x / 16 * 16

def localCoord (x : Int) : Int :=
  let r := x.tmod 16
  if r < 0 then r + 16 else r

def positionToIndex (pos : Ivec3) : Int :=
  if pos.x < 0 ∨ pos.x > 15 ∨ pos.y < 0 ∨ pos.y > 15 ∨ pos.z < 0 ∨ pos.z > 15 then -1
  else pos.x + pos.y * 16 + pos.z * 16 * 16

/-- `blocktypes[i]`. -/
def Chunk.blockAt (c : Chunk) (i : Int) : Except Fault UInt8 :=
  if h : 0 ≤ i ∧ i < 4096 then .ok (c.blocktypes.get ⟨i.toNat, by omega⟩) else .error .outOfBounds

/-- The body `World::getBlockAt` and the mesher's own `getBlockAt` share. -/
def lookupBlock (chunks : Chunks) (pos : Ivec3) : Except Fault UInt8 :=
  let chunkPos : Ivec3 := ⟨chunkCoord pos.x, chunkCoord pos.y, chunkCoord pos.z⟩
  let localPos : Ivec3 := ⟨localCoord pos.x, localCoord pos.y, localCoord pos.z⟩
  match chunks.lookup chunkPos with
  | some chunk => chunk.blockAt (positionToIndex localPos)
  | none => .ok 0

theorem localCoord_eq (x : Int) : localCoord x = x % 16 := by
  simp only [localCoord, Int.tmod_eq_emod]
  split <;> split <;> omega

theorem chunkCoord_eq {x : Int} (h : x.natAbs ≤ 2 ^ 24) : chunkCoord x = 16 * (x / 16) := by
  unfold chunkCoord
  rw [Lib.Significand.roundInt_of_le h (by decide), mul_comm]

/-- The cell of a block in its chunk. -/
def cellIndex (c : Ivec3) : Fin 4096 :=
  ⟨(c.x % 16 + 16 * (c.y % 16) + 256 * (c.z % 16)).toNat, by omega⟩

/-- The position of the chunk a block lies in. -/
def chunkOf (c : Ivec3) : Ivec3 := ⟨16 * (c.x / 16), 16 * (c.y / 16), 16 * (c.z / 16)⟩

/-- The block at `c`, air where no chunk is loaded. -/
def blockOf (chunks : Chunks) (c : Ivec3) : UInt8 :=
  match chunks.lookup (chunkOf c) with
  | some chunk => chunk.blocktypes.get (cellIndex c)
  | none => 0

/-- The local cell always has an index: no read is out of bounds. -/
theorem blockAt_local (chunk : Chunk) (c : Ivec3) :
    chunk.blockAt (positionToIndex ⟨localCoord c.x, localCoord c.y, localCoord c.z⟩) =
      .ok (chunk.blocktypes.get (cellIndex c)) := by
  have hi : positionToIndex ⟨localCoord c.x, localCoord c.y, localCoord c.z⟩ = (cellIndex c : Nat) := by
    simp only [positionToIndex, localCoord_eq, cellIndex]
    rw [if_neg (by omega)]
    omega
  have hlt := (cellIndex c).isLt
  rw [hi, Chunk.blockAt, dif_pos (by omega)]
  simp only [Int.toNat_natCast]

theorem lookupBlock_eq (chunks : Chunks) {c : Ivec3} (h : c.Within (2 ^ 24)) :
    lookupBlock chunks c = .ok (blockOf chunks c) := by
  obtain ⟨hx, hy, hz⟩ := h
  have hc : (⟨chunkCoord c.x, chunkCoord c.y, chunkCoord c.z⟩ : Ivec3) = chunkOf c := by
    rw [chunkCoord_eq hx, chunkCoord_eq hy, chunkCoord_eq hz, chunkOf]
  simp only [lookupBlock]
  rw [hc, blockOf]
  cases chunks.lookup (chunkOf c) with
  | none => rfl
  | some chunk => exact blockAt_local chunk c

/-- Wherever it is asked, `getBlockAt` returns. -/
theorem lookupBlock_ok (chunks : Chunks) (c : Ivec3) : ∃ b, lookupBlock chunks c = .ok b := by
  simp only [lookupBlock]
  split
  · exact ⟨_, blockAt_local _ c⟩
  · exact ⟨0, rfl⟩

/-! ### The store -/

structure World where
  chunks : Chunks
  chunkMeshes : AList fun _ : Ivec3 => ChunkMesh

namespace World

def empty : World := ⟨∅, ∅⟩

def createOrReplaceChunk (w : World) (pos : Ivec3) (blocktypes : Vector UInt8 4096) : World :=
  let chunk : Chunk := ⟨blocktypes, pos⟩
  match w.chunks.lookup chunk.worldpos with
  | some _ => {w with chunks := w.chunks.insert chunk.worldpos chunk}
  | none =>
    { chunks := w.chunks.insert chunk.worldpos chunk
      chunkMeshes := w.chunkMeshes.insert chunk.worldpos ⟨chunk.worldpos, none⟩ }

def getBlockAt (w : World) (x y z : Int) : Except Fault UInt8 := lookupBlock w.chunks ⟨x, y, z⟩

/-- The meshes' buffers are deleted with their entries; the chunks stay. -/
def clearAllChunks (w : World) : World := {w with chunkMeshes := ∅}

/-- `ChunkMesh::createChunkMesh` on the entry at `pos`, if there is one. -/
def uploadMesh (w : World) (pos : Ivec3) (vertices : List UInt32) : World :=
  match w.chunkMeshes.lookup pos with
  | some mesh => {w with chunkMeshes := w.chunkMeshes.insert pos {mesh with vbo := some vertices}}
  | none => w

/-- The loop of `Renderer::createChunksMesh` over the published lists. -/
def createChunksMesh (w : World) (published : AList fun _ : Ivec3 => List UInt32) : World :=
  published.entries.foldl (fun w e => w.uploadMesh e.1 e.2) w

/-! ### What the operations do to the maps -/

theorem createOrReplaceChunk_chunks (w : World) (pos : Ivec3) (b : Vector UInt8 4096) :
    (w.createOrReplaceChunk pos b).chunks = w.chunks.insert pos ⟨b, pos⟩ := by
  simp only [createOrReplaceChunk]
  split <;> rfl

theorem createOrReplaceChunk_mesh (w : World) (pos : Ivec3) (b : Vector UInt8 4096) (p : Ivec3) :
    (w.createOrReplaceChunk pos b).chunkMeshes.lookup p =
      if p = pos ∧ w.chunks.lookup pos = none then some ⟨pos, none⟩
      else w.chunkMeshes.lookup p := by
  simp only [createOrReplaceChunk]
  split
  · next h => simp [h]
  · next h => simp [h, Lib.Map.lookup_insert]

theorem uploadMesh_chunks (w : World) (pos : Ivec3) (vs : List UInt32) :
    (w.uploadMesh pos vs).chunks = w.chunks := by
  unfold uploadMesh
  split <;> rfl

theorem uploadMesh_mesh (w : World) (pos : Ivec3) (vs : List UInt32) (p : Ivec3) :
    (w.uploadMesh pos vs).chunkMeshes.lookup p =
      if p = pos then (w.chunkMeshes.lookup p).map (fun m => {m with vbo := some vs})
      else w.chunkMeshes.lookup p := by
  unfold uploadMesh
  split
  · next m hm =>
    rw [Lib.Map.lookup_insert]
    split
    · next h => rw [h, hm, Option.map_some]
    · rfl
  · next hm =>
    split
    · next h => rw [h, hm, Option.map_none]
    · rfl

theorem uploadAll_chunks (es : List (Sigma fun _ : Ivec3 => List UInt32)) (w : World) :
    (es.foldl (fun w e => w.uploadMesh e.1 e.2) w).chunks = w.chunks := by
  induction es generalizing w with
  | nil => rfl
  | cons e es ih => rw [List.foldl_cons, ih, uploadMesh_chunks]

theorem createChunksMesh_chunks (w : World) (published : AList fun _ : Ivec3 => List UInt32) :
    (w.createChunksMesh published).chunks = w.chunks := uploadAll_chunks _ w

theorem uploadAll_mesh (es : List (Sigma fun _ : Ivec3 => List UInt32)) (hnd : es.NodupKeys)
    (w : World) (p : Ivec3) :
    (es.foldl (fun w e => w.uploadMesh e.1 e.2) w).chunkMeshes.lookup p =
      match es.dlookup p with
      | some vs => (w.chunkMeshes.lookup p).map (fun m => {m with vbo := some vs})
      | none => w.chunkMeshes.lookup p := by
  induction es generalizing w with
  | nil => rfl
  | cons e es ih =>
    obtain ⟨k, vs⟩ := e
    obtain ⟨hfresh, hnd⟩ := List.nodupKeys_cons.mp hnd
    rw [List.foldl_cons, ih hnd, uploadMesh_mesh]
    by_cases hk : p = k
    · -- the rest of the map does not hold this key again
      subst hk
      rw [List.dlookup_eq_none.mpr hfresh, List.dlookup_cons_eq]
      simp only [if_true]
    · rw [List.dlookup_cons_ne _ _ hk, if_neg hk]

/-- A published list reaches exactly the mesh at its position, and nothing else moves. -/
theorem createChunksMesh_mesh (w : World) (published : AList fun _ : Ivec3 => List UInt32)
    (p : Ivec3) :
    (w.createChunksMesh published).chunkMeshes.lookup p =
      match published.lookup p with
      | some vs => (w.chunkMeshes.lookup p).map (fun m => {m with vbo := some vs})
      | none => w.chunkMeshes.lookup p := uploadAll_mesh _ published.nodupKeys w p

end World
end MyMinecraft
