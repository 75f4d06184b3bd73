import MyMinecraft.ChunkVertices.Triangles

/-! How much a chunk draws.

A list is six vertices for each visible face, so it is never longer than six faces for each of 4096 cells
make it, and every vertex names a texture that is loaded. -/
namespace MyMinecraft

/-- The layers of the texture array, in order. -/
def blockTexturesPath : List String :=
  ["../assets/textures/default/undefined.png", "../assets/textures/default/grasstop.jpg",
    "../assets/textures/default/grass_block_side.png", "../assets/textures/default/dirt.png",
    "../assets/textures/default/stone.png", "../assets/textures/default/oak_log.png",
    "../assets/textures/default/oak_log_top.png", "../assets/textures/default/leaves_oak.png",
    "../assets/textures/default/glass.png", "../assets/textures/default/water.png",
    "../assets/textures/default/sand.png", "../assets/textures/default/snow.png",
    "../assets/textures/default/planks_oak.png", "../assets/textures/default/stonebrick.png",
    "../assets/textures/default/netherrack.png", "../assets/textures/default/gold_block.png",
    "../assets/textures/default/ice_packed.png", "../assets/textures/default/lava.png",
    "../assets/textures/default/barrel_top.png", "../assets/textures/default/barrel_side.png",
    "../assets/textures/default/barrel_bottom.png", "../assets/textures/default/bookshelf.png"]

namespace ChunkVertices
open Shader

theorem cells_length : cells.length = 4096 := by decide +kernel

theorem seenDirections_le (block : Ivec3 → UInt8) (c : Ivec3) : (seenDirections block c).length ≤ 6 :=
  List.length_filter_le _ directions

/-- Six vertices for each face that is seen. -/
theorem cellVertices_count (block : Ivec3 → UInt8) (p l : Ivec3) :
    (cellVertices block p l).length = 6 * (seenDirections block (l + p)).length := by
  rw [cellVertices_seen, List.length_flatMap]
  simp only [quad_length, List.map_const', List.sum_replicate, smul_eq_mul, Nat.mul_comm]

theorem meshOf_count (block : Ivec3 → UInt8) (p : Ivec3) :
    (meshOf block p).length = 6 * (cells.flatMap fun l => seenDirections block (l + p)).length := by
  rw [meshOf, List.length_flatMap, List.length_flatMap, ← List.sum_map_mul_left]
  congr 1
  exact List.map_congr_left fun l _ => cellVertices_count block p l

/-! ### The faces of a chunk, listed -/

theorem facesOf_length (chunks : Chunks) (p : Ivec3) :
    (facesOf chunks p).length = (cells.flatMap fun l => seenDirections (blockOf chunks) (l + p)).length := by
  rw [facesOf, List.length_flatMap, List.length_flatMap]
  simp only [List.length_map]

theorem facesOf_nodup (chunks : Chunks) (p : Ivec3) : (facesOf chunks p).Nodup := by
  refine List.nodup_flatMap.mpr ⟨fun l _ => ?_, cells_nodup.imp fun {l l'} hne => ?_⟩
  · refine (List.Nodup.filter _ (by decide)).map fun d d' h => ?_
    exact congrArg Prod.snd h
  · simp only [Function.onFun, List.disjoint_left, List.mem_map]
    rintro _ ⟨_, _, rfl⟩ ⟨_, _, h⟩
    exact hne (add_right_cancel (congrArg Prod.fst h).symm)

/-! ### What a vertex says -/

/-- The position is in the chunk's box, the normal is one of the six, and the texture is a layer of the
array. -/
structure WellFormed (v : Vertex) : Prop where
  position : ∀ a, 0 ≤ v.position.get a ∧ v.position.get a ≤ 16
  texCoords : v.texCoords.1 ≤ 1 ∧ v.texCoords.2 ≤ 1
  normal : ∃ d, v.normal = some (getFaceOrientationVector d)
  blockType : v.blockType < blockTexturesPath.length

theorem BlockTextures.value_lt_length (t : BlockTextures) : t.value.toNat < blockTexturesPath.length := by
  cases t <;> decide

theorem blockTexture_layer (bt : UInt8) (d : FaceOrientation) :
    (blockTexture bt d).toNat < blockTexturesPath.length := by
  unfold blockTexture
  split
  · cases d <;> exact BlockTextures.value_lt_length _
  · decide

theorem wellFormed_faceVertex (d : FaceOrientation) (bt : UInt8) {l : Ivec3} (hl : l ∈ cells) (k : Fin 6) :
    WellFormed (unpack (faceVertex (faceTable d) l (blockTexture bt d) k)) := by
  obtain ⟨hx, hy, hz⟩ := mem_cells.mp hl
  obtain ⟨hrx, hry, hrz, hu, hv, _⟩ := faceTable_row d k
  rw [unpack_faceVertex d bt hl k]
  refine ⟨fun a => ?_, ⟨hu, hv⟩, ⟨d, rfl⟩, blockTexture_layer bt d⟩
  cases a <;> simp only [Ivec3.get, Ivec3.add_x, Ivec3.add_y, Ivec3.add_z, corner] <;> omega

theorem wellFormed_mesh {block : Ivec3 → UInt8} {p : Ivec3} {packed : UInt32} (h : packed ∈ meshOf block p) :
    WellFormed (unpack packed) := by
  obtain ⟨l, hl, hcell⟩ := List.mem_flatMap.mp h
  rw [cellVertices] at hcell
  split at hcell
  · cases hcell
  · obtain ⟨f, hf, hface⟩ := List.mem_flatMap.mp hcell
    split at hface
    · obtain ⟨k, _, rfl⟩ := List.mem_map.mp hface
      rw [(faces_match f hf).1]
      exact wellFormed_faceVertex f.2.2 _ hl k
    · cases hface

/-- **A chunk's list is six vertices for each visible face**, at most 147456 of them, and each is one the shader
can draw. -/
theorem vertices_counted (w : World) (p : Ivec3) (hp : p.Aligned) (hb : p.Within (2 ^ 24 - 32)) :
    ∃ vertices, createChunkVertices w.chunks p = .ok vertices ∧
      vertices.length = 6 * {e : Ivec3 × FaceOrientation | chunkOf e.1 = p ∧ Visible w e.1 e.2}.ncard ∧
      vertices.length ≤ 147456 ∧ ∀ packed ∈ vertices, WellFormed (unpack packed) := by
  refine ⟨_, createChunkVertices_blocks w.chunks hp hb, ?_, ?_, fun packed h => wellFormed_mesh h⟩
  · have hfaces : {e : Ivec3 × FaceOrientation | chunkOf e.1 = p ∧ Visible w e.1 e.2} =
        (facesOf w.chunks p).toFinset := by
      ext e
      exact ((List.mem_toFinset).trans (mem_facesOf_visible hp hb e)).symm
    rw [meshOf_count, ← facesOf_length, hfaces, Set.ncard_coe_finset, List.toFinset_card_of_nodup (facesOf_nodup _ _)]
  · rw [meshOf_count, List.length_flatMap]
    have hsum := List.sum_le_card_nsmul (cells.map fun l => (seenDirections (blockOf w.chunks) (l + p)).length) 6
      fun n hn => by
        obtain ⟨l, _, rfl⟩ := List.mem_map.mp hn
        exact seenDirections_le _ _
    rw [List.length_map, cells_length, smul_eq_mul] at hsum
    omega

/-- A chunk of leaves with nothing around it. -/
def leavesWorld : World := World.empty.createOrReplaceChunk ⟨-16, 0, 0⟩ (Vector.replicate 4096 5)

theorem blockOf_leavesWorld (c : Ivec3) : blockOf leavesWorld.chunks c = if chunkOf c = ⟨-16, 0, 0⟩ then 5 else 0 := by
  rw [blockOf, leavesWorld, World.createOrReplaceChunk_chunks, Lib.Map.lookup_insert]
  by_cases hc : chunkOf c = ⟨-16, 0, 0⟩
  · rw [if_pos hc, if_pos hc]
    exact Vector.getElem_replicate (cellIndex c).isLt
  · rw [if_neg hc, if_neg hc]
    rfl

/-- Leaves are seen through, so every face of every cell is there: no smaller bound holds. -/
theorem vertices_counted_leaves : ∃ vertices, createChunkVertices leavesWorld.chunks ⟨-16, 0, 0⟩ = .ok vertices ∧
    vertices.length ≤ 147456 ∧ vertices.length = 147456 := by
  obtain ⟨vertices, hlist, _, hle, _⟩ := vertices_counted leavesWorld ⟨-16, 0, 0⟩ (by decide) (by decide)
  refine ⟨vertices, hlist, hle, ?_⟩
  rw [createChunkVertices_blocks leavesWorld.chunks (by decide) (by decide)] at hlist
  obtain rfl := Except.ok.inj hlist
  have hall (l : Ivec3) (hl : l ∈ cells) : seenDirections (blockOf leavesWorld.chunks) (l + ⟨-16, 0, 0⟩) = directions := by
    rw [seenDirections, List.filter_eq_self]
    intro d _
    have hown : blockOf leavesWorld.chunks (l + ⟨-16, 0, 0⟩) = 5 := by
      rw [blockOf_leavesWorld, chunkOf_add (by decide) hl, if_pos rfl]
    rw [hown, blockOf_leavesWorld]
    split <;> decide
  rw [meshOf_count, List.flatMap_congr hall, List.length_flatMap, List.map_const', List.sum_replicate, cells_length]
  rfl

end ChunkVertices
end MyMinecraft
