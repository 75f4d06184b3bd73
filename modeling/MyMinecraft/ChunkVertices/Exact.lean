import MyMinecraft.Shader

/-! The mesher is exact.

Seen through the shader, the list for a chunk is one quad for each visible face of
its cells and nothing else. Two things have to agree for that: what the mesher
reads from its seven copies with what the world holds (`read_snapshot`), and what
it packs with what the shader unpacks (`unpack_quadOf`). -/
namespace MyMinecraft.ChunkVertices
open Shader

/-! ### The cells of a chunk -/

theorem mem_cells {l : Ivec3} :
    l ∈ cells ↔ (0 ≤ l.x ∧ l.x < 16) ∧ (0 ≤ l.y ∧ l.y < 16) ∧ (0 ≤ l.z ∧ l.z < 16) := by
  simp only [cells, List.mem_flatMap, List.mem_map, List.mem_range]
  constructor
  · intro h
    obtain ⟨z, hz, y, hy, x, hx, rfl⟩ := h
    simp only
    omega
  · intro h
    obtain ⟨hx, hy, hz⟩ := h
    refine ⟨l.z.toNat, by omega, l.y.toNat, by omega, l.x.toNat, by omega, ?_⟩
    ext <;> simp only <;> omega

theorem cells_nodup : cells.Nodup := by
  have inj : Function.Injective fun x : Nat => (x : Int) := fun _ _ => Int.ofNat.inj
  refine List.nodup_flatMap.mpr ⟨fun z _ => List.nodup_flatMap.mpr ⟨fun y _ => ?_, ?_⟩, ?_⟩
  · refine List.nodup_range.map fun a b h => inj ?_
    exact congrArg Ivec3.x h
  · refine List.nodup_range.imp fun {a b} hab => ?_
    simp only [Function.onFun, List.disjoint_left, List.mem_map]
    rintro _ ⟨_, _, rfl⟩ ⟨_, _, h⟩
    exact hab (inj (congrArg Ivec3.y h).symm)
  · refine List.nodup_range.imp fun {a b} hab => ?_
    simp only [Function.onFun, List.disjoint_left, List.mem_flatMap, List.mem_map]
    rintro _ ⟨_, _, _, _, rfl⟩ ⟨_, _, _, _, h⟩
    exact hab (inj (congrArg Ivec3.z h).symm)

/-! ### Reading through the snapshot -/

/-- The seven positions the snapshot copies. -/
def copied (worldpos : Ivec3) : List Ivec3 :=
  neighborChunkpos.toList.map fun off => worldpos + off * (16 : Int)

theorem lookup_snapshot (chunks : Chunks) (p q : Ivec3) :
    (snapshot chunks p).lookup q = if q ∈ copied p then chunks.lookup q else none := by
  rw [snapshot, Lib.Map.lookup_copyKeys _ _ _ _ (Or.inl (AList.lookup_empty q)), AList.lookup_empty]
  rfl

theorem read_eq (nchunks : Chunks) {c : Ivec3} (h : c.Within (2 ^ 24)) :
    read nchunks c = blockOf nchunks c := by
  rw [read, getBlockAt, lookupBlock_eq nchunks h]

theorem blockOf_snapshot (chunks : Chunks) (p : Ivec3) {c : Ivec3} (h : chunkOf c ∈ copied p) :
    blockOf (snapshot chunks p) c = blockOf chunks c := by
  rw [blockOf, blockOf, lookup_snapshot, if_pos h]

/-- A cell of the chunk, or a face neighbour of one, lies in a copied chunk. -/
theorem chunkOf_mem_copied {p l : Ivec3} (hp : p.Aligned) (hl : l ∈ cells) (i : Fin 7) :
    chunkOf (l + p + neighborChunkpos.get i) ∈ copied p := by
  obtain ⟨hx, hy, hz⟩ := mem_cells.mp hl
  obtain ⟨hpx, hpy, hpz⟩ := hp
  -- the neighbour is either in the chunk itself or across the border on its own side
  have hown : chunkOf (l + p + neighborChunkpos.get i) = p + neighborChunkpos.get 6 * (16 : Int) ∨
      chunkOf (l + p + neighborChunkpos.get i) = p + neighborChunkpos.get i * (16 : Int) := by
    fin_cases i <;>
      simp only [chunkOf, neighborChunkpos, Ivec3.ext_iff, Ivec3.add_x, Ivec3.add_y, Ivec3.add_z,
        Ivec3.mul_x, Ivec3.mul_y, Ivec3.mul_z, Vector.get] <;> simp <;> omega
  have hmem (j : Fin 7) : p + neighborChunkpos.get j * (16 : Int) ∈ copied p := by
    refine List.mem_map.mpr ⟨neighborChunkpos.get j, ?_, rfl⟩
    revert j
    decide
  rcases hown with h | h
  · rw [h]
    exact hmem 6
  · rw [h]
    exact hmem i

theorem within_neighbor {p l : Ivec3} (hb : p.Within (2 ^ 24 - 32)) (hl : l ∈ cells) (i : Fin 7) :
    (l + p + neighborChunkpos.get i).Within (2 ^ 24) := by
  obtain ⟨hx, hy, hz⟩ := mem_cells.mp hl
  obtain ⟨hbx, hby, hbz⟩ := hb
  have hoff : (neighborChunkpos.get i).Within 1 := by
    revert i
    decide
  obtain ⟨hox, hoy, hoz⟩ := hoff
  refine ⟨?_, ?_, ?_⟩ <;> simp only [Ivec3.add_x, Ivec3.add_y, Ivec3.add_z] <;> omega

/-- **What the mesher reads is what the world holds**, for every cell it looks at. -/
theorem read_snapshot (chunks : Chunks) {p l : Ivec3} (hp : p.Aligned) (hb : p.Within (2 ^ 24 - 32))
    (hl : l ∈ cells) (i : Fin 7) :
    read (snapshot chunks p) (l + p + neighborChunkpos.get i) =
      blockOf chunks (l + p + neighborChunkpos.get i) := by
  rw [read_eq _ (within_neighbor hb hl i), blockOf_snapshot _ _ (chunkOf_mem_copied hp hl i)]

theorem read_snapshot_self (chunks : Chunks) {p l : Ivec3} (hp : p.Aligned)
    (hb : p.Within (2 ^ 24 - 32)) (hl : l ∈ cells) :
    read (snapshot chunks p) (l + p) = blockOf chunks (l + p) := by
  have h := read_snapshot chunks hp hb hl 6
  have h6 : l + p + neighborChunkpos.get 6 = l + p := add_zero (l + p)
  rwa [h6] at h

/-- The mesh of a chunk, from the blocks of the whole world. -/
theorem createChunkVertices_blocks (chunks : Chunks) {p : Ivec3} (hp : p.Aligned)
    (hb : p.Within (2 ^ 24 - 32)) :
    createChunkVertices chunks p = .ok (meshOf (blockOf chunks) p) := by
  rw [createChunkVertices_eq, meshOf, meshOf]
  congr 1
  refine List.flatMap_congr fun l hl => ?_
  simp only [cellVertices, read_snapshot_self chunks hp hb hl, read_snapshot chunks hp hb hl]

/-! ### The quads, unpacked -/

/-- The six directions in the order a cell tries them. -/
def directions : List FaceOrientation := [.front, .back, .left, .right, .top, .bottom]

def faceTable : FaceOrientation → FaceVertices
  | .front => frontFaceVertices
  | .back => backFaceVertices
  | .left => leftFaceVertices
  | .right => rightFaceVertices
  | .top => topFaceVertices
  | .bottom => bottomFaceVertices

/-- The corner of the unit cube a table row names. -/
def corner (d : FaceOrientation) (k : Fin 6) : Ivec3 :=
  ⟨((faceTable d).row k).x.toNat, ((faceTable d).row k).y.toNat, ((faceTable d).row k).z.toNat⟩

/-- The quad the shader should see for a face of the cell at `localPos`. -/
def expectedQuad (d : FaceOrientation) (bt : UInt8) (localPos : Ivec3) : List Vertex :=
  (List.finRange 6).map fun k =>
    { position := corner d k + localPos
      texCoords := (((faceTable d).row k).u.toNat, ((faceTable d).row k).v.toNat)
      normal := some (getFaceOrientationVector d)
      blockType := (blockTexture bt d).toNat }

/-- Every call of `loadFaceVertices` passes the table and the offset of its orientation. -/
theorem faces_match : ∀ f ∈ faces, f.2.1 = faceTable f.2.2 ∧
    neighborChunkpos.get f.1 = getFaceOrientationVector f.2.2 := by decide

theorem faces_directions : faces.map (fun f => f.2.2) = directions := rfl

/-- The tables' own numbers: corners and texture coordinates are 0 or 1, and the
normal index names the face's direction. -/
theorem faceTable_row (d : FaceOrientation) (k : Fin 6) :
    ((faceTable d).row k).x.toNat ≤ 1 ∧ ((faceTable d).row k).y.toNat ≤ 1 ∧
      ((faceTable d).row k).z.toNat ≤ 1 ∧ ((faceTable d).row k).u.toNat ≤ 1 ∧
      ((faceTable d).row k).v.toNat ≤ 1 ∧
      normals[((faceTable d).row k).normal.toNat % 8]? = some (getFaceOrientationVector d) := by
  cases d <;> revert k <;> decide

theorem blockTexture_lt (bt : UInt8) (d : FaceOrientation) : (blockTexture bt d).toNat < 32 := by
  unfold blockTexture
  split
  · cases d <;> exact BlockTextures.value_lt _
  · decide

theorem unpack_faceVertex (d : FaceOrientation) (bt : UInt8) {l : Ivec3} (hl : l ∈ cells) (k : Fin 6) :
    unpack (faceVertex (faceTable d) l (blockTexture bt d) k) =
      { position := corner d k + l
        texCoords := (((faceTable d).row k).u.toNat, ((faceTable d).row k).v.toNat)
        normal := some (getFaceOrientationVector d)
        blockType := (blockTexture bt d).toNat } := by
  obtain ⟨⟨hx0, hx⟩, ⟨hy0, hy⟩, ⟨hz0, hz⟩⟩ := mem_cells.mp hl
  obtain ⟨h0, h1, h2, h3, h4, h5⟩ := faceTable_row d k
  have htex := blockTexture_lt bt d
  have hsum (a : Nat) {b : Int} (hb : 0 ≤ b) : ((a : Int) + b) = ((a + b.toNat : Nat) : Int) := by
    omega
  simp only [faceVertex]
  rw [hsum _ hx0, hsum _ hy0, hsum _ hz0,
    unpack_packVertex (by omega) (by omega) (by omega), h5,
    -- 16 still fits five bits
    Nat.mod_eq_of_lt (by omega), Nat.mod_eq_of_lt (by omega), Nat.mod_eq_of_lt (by omega),
    Nat.mod_eq_of_lt (by omega), Nat.mod_eq_of_lt (by omega), Nat.mod_eq_of_lt htex,
    ← hsum _ hx0, ← hsum _ hy0, ← hsum _ hz0]
  rfl

theorem unpack_quadOf {f : Fin 7 × FaceVertices × FaceOrientation} (hf : f ∈ faces) (bt : UInt8)
    {l : Ivec3} (hl : l ∈ cells) :
    (quadOf f bt l).map unpack = expectedQuad f.2.2 bt l := by
  rw [quadOf, List.map_map, expectedQuad, (faces_match f hf).1]
  exact List.map_congr_left fun k _ => unpack_faceVertex f.2.2 bt hl k

/-! ### The theorem -/

/-- The face of cell `c` in direction `d`, as the world's blocks decide it. -/
def visibleFace (w : World) (c localPos : Ivec3) (d : FaceOrientation) : List Vertex :=
  let n := c + getFaceOrientationVector d
  match w.getBlockAt c.x c.y c.z, w.getBlockAt n.x n.y n.z with
  | .ok bt, .ok nb => if bt ≠ 0 ∧ seeThrough nb then expectedQuad d bt localPos else []
  | _, _ => []

theorem cellVertices_unpack (w : World) {p l : Ivec3} (hb : p.Within (2 ^ 24 - 32)) (hl : l ∈ cells) :
    (cellVertices (blockOf w.chunks) p l).map unpack = directions.flatMap (visibleFace w (l + p) l) := by
  have hself : lookupBlock w.chunks (l + p) = .ok (blockOf w.chunks (l + p)) := by
    have h := within_neighbor hb hl 6
    have h6 : l + p + neighborChunkpos.get 6 = l + p := add_zero (l + p)
    rw [h6] at h
    exact lookupBlock_eq _ h
  have hface : ∀ f ∈ faces, visibleFace w (l + p) l f.2.2 =
      if blockOf w.chunks (l + p) ≠ 0 ∧
          seeThrough (blockOf w.chunks (l + p + neighborChunkpos.get f.1)) then
        expectedQuad f.2.2 (blockOf w.chunks (l + p)) l else [] := by
    intro f hf
    have hn := lookupBlock_eq w.chunks (within_neighbor hb hl f.1)
    rw [(faces_match f hf).2] at hn ⊢
    simp only [visibleFace, World.getBlockAt]
    rw [hself, hn]
  rw [← faces_directions, List.flatMap_map, cellVertices]
  by_cases h0 : blockOf w.chunks (l + p) = 0
  · rw [if_pos h0, List.map_nil]
    refine (List.flatMap_eq_nil_iff.mpr fun f hf => ?_).symm
    rw [hface f hf, if_neg (fun h => h.1 h0)]
  · rw [if_neg h0, List.map_flatMap]
    refine List.flatMap_congr fun f hf => ?_
    rw [hface f hf]
    by_cases hs : seeThrough (blockOf w.chunks (l + p + neighborChunkpos.get f.1)) = true
    · rw [if_pos hs, if_pos ⟨h0, hs⟩]
      exact unpack_quadOf hf _ hl
    · rw [if_neg hs, if_neg (fun h => hs h.2), List.map_nil]

/-- **The mesher is exact, through the packing and the shader.** The call returns, and
what the shader unpacks is, cell by cell and direction by direction, the six
vertices of each face that can be seen. -/
theorem createChunkVertices_exact (w : World) (p : Ivec3) (hp : p.Aligned)
    (hb : p.Within (2 ^ 24 - 32)) :
    ∃ vertices, createChunkVertices w.chunks p = .ok vertices ∧
      vertices.map unpack =
        cells.flatMap fun l => directions.flatMap fun d => visibleFace w (l + p) l d := by
  refine ⟨_, createChunkVertices_blocks w.chunks hp hb, ?_⟩
  rw [meshOf, List.map_flatMap]
  exact List.flatMap_congr fun l hl => cellVertices_unpack w hb hl

/-- A chunk on the negative side, with nothing loaded around it. -/
theorem createChunkVertices_exact_negative :
    ∃ vertices, createChunkVertices
        (World.empty.createOrReplaceChunk ⟨-16, 0, -32⟩ (Vector.replicate 4096 3)).chunks ⟨-16, 0, -32⟩ =
          .ok vertices ∧
      vertices.map unpack = cells.flatMap fun l => directions.flatMap fun d =>
        visibleFace (World.empty.createOrReplaceChunk ⟨-16, 0, -32⟩ (Vector.replicate 4096 3))
          (l + ⟨-16, 0, -32⟩) l d :=
  createChunkVertices_exact _ ⟨-16, 0, -32⟩ (by decide) (by decide)

end MyMinecraft.ChunkVertices
