import MyMinecraft.ChunkVertices.Watertight

/-! The triangles of a mesh face outwards.

Back faces are culled (`glEnable(GL_CULL_FACE)`), so a triangle is drawn only for an eye that sees its corners run
counterclockwise. The triangles of a chunk are two for each face between a block and a cell it
is seen through (`mem_mesh_iff`), and each is counterclockwise exactly from beyond that face
(`frontFacing_iff`). -/
namespace MyMinecraft

/-- `glm::cross`. -/
def Ivec3.cross (a b : Ivec3) : Ivec3 :=
  ⟨a.y * b.z - b.y * a.z, a.z * b.x - b.z * a.x, a.x * b.y - b.x * a.y⟩

namespace ChunkVertices
open Shader

abbrev Triangle := Ivec3 × Ivec3 × Ivec3

def moved (c : Ivec3) (t : Triangle) : Triangle := (t.1 + c, t.2.1 + c, t.2.2 + c)

/-- The two triangles of the face of cell `c` in direction `d`. -/
def faceTriangles (d : FaceOrientation) (c : Ivec3) : List Triangle :=
  (triangles ((List.finRange 6).map (corner d))).map (moved c)

/-- Perpendicular to the triangle, on the side its corners run counterclockwise from. -/
def normal (t : Triangle) : Ivec3 := (t.2.1 - t.1).cross (t.2.2 - t.1)

/-- A block is there, and the next cell in direction `d` is one it is seen through. -/
def Visible (w : World) (c : Ivec3) (d : FaceOrientation) : Prop :=
  ∃ bt nb, w.getBlockAt c.x c.y c.z = .ok bt ∧ bt ≠ 0 ∧
    w.getBlockAt (c + getFaceOrientationVector d).x (c + getFaceOrientationVector d).y
      (c + getFaceOrientationVector d).z = .ok nb ∧ seeThrough nb = true

/-! ### The list, as quads -/

/-- The quad of a cell's face. -/
def quad (d : FaceOrientation) (bt : UInt8) (l : Ivec3) : List UInt32 :=
  (List.finRange 6).map (faceVertex (faceTable d) l (blockTexture bt d))

theorem quad_length (d : FaceOrientation) (bt : UInt8) (l : Ivec3) : (quad d bt l).length = 6 := by
  rw [quad, List.length_map, List.length_finRange]

/-- The directions in which a cell's block is seen. -/
def seenDirections (block : Ivec3 → UInt8) (c : Ivec3) : List FaceOrientation :=
  directions.filter fun d => decide (block c ≠ 0) && seeThrough (block (c + getFaceOrientationVector d))

/-- A cell adds a quad for each of them. -/
theorem cellVertices_seen (block : Ivec3 → UInt8) (p l : Ivec3) :
    cellVertices block p l = (seenDirections block (l + p)).flatMap fun d => quad d (block (l + p)) l := by
  rw [cellVertices, seenDirections, flatMap_filter, ← faces_directions, List.flatMap_map]
  by_cases h0 : block (l + p) = 0
  · simp [h0]
  · rw [if_neg h0]
    refine List.flatMap_congr fun f hf => ?_
    obtain ⟨htable, hdir⟩ := faces_match f hf
    rw [hdir, quadOf, htable, quad]
    simp [h0]

/-- The visible faces of a chunk's cells, in the order of the list. -/
def facesOf (chunks : Chunks) (p : Ivec3) : List (Ivec3 × FaceOrientation) :=
  cells.flatMap fun l => (seenDirections (blockOf chunks) (l + p)).map fun d => (l + p, d)

/-- A face is visible by the blocks the world holds. -/
theorem visible_iff (w : World) {p l : Ivec3} (hb : p.Within (2 ^ 24 - 32)) (hl : l ∈ cells) (d : FaceOrientation) :
    Visible w (l + p) d ↔ blockOf w.chunks (l + p) ≠ 0 ∧
      seeThrough (blockOf w.chunks (l + p + getFaceOrientationVector d)) = true := by
  obtain ⟨f, hf, rfl⟩ : ∃ f ∈ faces, f.2.2 = d := by cases d <;> decide
  have hself := within_neighbor hb hl 6
  have hnext := within_neighbor hb hl f.1
  have h6 : l + p + neighborChunkpos.get 6 = l + p := add_zero (l + p)
  rw [h6] at hself
  rw [(faces_match f hf).2] at hnext
  simp only [Visible, World.getBlockAt]
  rw [lookupBlock_eq w.chunks hself, lookupBlock_eq w.chunks hnext]
  constructor
  · intro h
    obtain ⟨bt, nb, hbt, hne, hnb, hsee⟩ := h
    obtain rfl := Except.ok.inj hbt
    obtain rfl := Except.ok.inj hnb
    exact ⟨hne, hsee⟩
  · intro h
    exact ⟨_, _, rfl, h.1, rfl, h.2⟩

theorem mem_facesOf {chunks : Chunks} {p : Ivec3} (hp : p.Aligned) (e : Ivec3 × FaceOrientation) :
    e ∈ facesOf chunks p ↔ chunkOf e.1 = p ∧ blockOf chunks e.1 ≠ 0 ∧
      seeThrough (blockOf chunks (e.1 + getFaceOrientationVector e.2)) = true := by
  have hseen (c : Ivec3) (d : FaceOrientation) : d ∈ seenDirections (blockOf chunks) c ↔
      blockOf chunks c ≠ 0 ∧ seeThrough (blockOf chunks (c + getFaceOrientationVector d)) = true := by
    have hall : d ∈ directions := by cases d <;> decide
    rw [seenDirections, List.mem_filter]
    simp [hall]
  obtain ⟨c, d⟩ := e
  simp only [facesOf, List.mem_flatMap, List.mem_map, Prod.mk.injEq, hseen]
  constructor
  · intro h
    obtain ⟨l, hl, _, hd, rfl, rfl⟩ := h
    exact ⟨chunkOf_add hp hl, hd⟩
  · intro h
    obtain ⟨rfl, hvisible⟩ := h
    obtain ⟨l, hl, hc⟩ := exists_local c
    refine ⟨l, hl, d, ?_, hc, rfl⟩
    rwa [hc]

theorem mem_facesOf_visible {w : World} {p : Ivec3} (hp : p.Aligned) (hb : p.Within (2 ^ 24 - 32))
    (e : Ivec3 × FaceOrientation) : e ∈ facesOf w.chunks p ↔ chunkOf e.1 = p ∧ Visible w e.1 e.2 := by
  rw [mem_facesOf hp]
  refine and_congr_right fun hc => ?_
  obtain ⟨l, hl, hcell⟩ := exists_local e.1
  rw [← hcell, hc, visible_iff w hb hl]

/-! ### The list, as triangles -/

/-- A quad in the world is the two triangles of its face. -/
theorem triangles_quad (d : FaceOrientation) (bt : UInt8) {p l : Ivec3} (hl : l ∈ cells) :
    triangles ((quad d bt l).map (worldpos p)) = faceTriangles d (l + p) := by
  have hplaced : (quad d bt l).map (worldpos p) = ((List.finRange 6).map (corner d)).map (· + (l + p)) := by
    rw [quad, List.map_map, List.map_map]
    refine List.map_congr_left fun k _ => ?_
    have h := congrArg Vertex.position (unpack_faceVertex d bt hl k)
    simp only [Function.comp_apply, worldpos]
    rw [← add_assoc]
    exact congrArg (· + p) h
  rw [hplaced, triangles_map, faceTriangles]
  rfl

/-- No triangle straddles two faces. -/
theorem triangles_mesh (chunks : Chunks) (p : Ivec3) :
    triangles ((meshOf (blockOf chunks) p).map (worldpos p)) =
      (facesOf chunks p).flatMap fun e => faceTriangles e.2 e.1 := by
  have hcell (l : Ivec3) : 3 ∣ ((cellVertices (blockOf chunks) p l).map (worldpos p)).length := by
    rw [List.length_map]
    exact cellVertices_length _ p l
  rw [meshOf, List.map_flatMap, triangles_flatMap _ _ hcell, facesOf, List.flatMap_assoc]
  refine List.flatMap_congr fun l hl => ?_
  have hquad (d : FaceOrientation) : 3 ∣ ((quad d (blockOf chunks (l + p)) l).map (worldpos p)).length := by
    rw [List.length_map, quad_length]
    decide
  rw [cellVertices_seen, List.map_flatMap, triangles_flatMap _ _ hquad, List.flatMap_map]
  exact List.flatMap_congr fun d _ => triangles_quad d _ hl

/-- The mesh has the triangles of the visible faces of its cells and no others. -/
theorem mem_mesh_iff {w : World} {p : Ivec3} (hp : p.Aligned) (hb : p.Within (2 ^ 24 - 32)) {vertices : List UInt32}
    (h : createChunkVertices w.chunks p = .ok vertices) (t : Triangle) :
    t ∈ triangles (vertices.map (worldpos p)) ↔
      ∃ c d, chunkOf c = p ∧ Visible w c d ∧ t ∈ faceTriangles d c := by
  rw [createChunkVertices_blocks w.chunks hp hb] at h
  obtain rfl := Except.ok.inj h
  simp only [triangles_mesh, List.mem_flatMap, mem_facesOf_visible hp hb, Prod.exists, and_assoc]

/-! ### Which way they face -/

theorem normal_moved (c : Ivec3) (t : Triangle) : normal (moved c t) = normal t := by
  simp only [normal, moved, add_sub_add_right_eq_sub]

/-- The tables run counterclockwise around their directions. -/
theorem normal_table (d : FaceOrientation) :
    ∀ t ∈ triangles ((List.finRange 6).map (corner d)), normal t = getFaceOrientationVector d := by
  cases d <;> decide

theorem normal_faceTriangles {d : FaceOrientation} {c : Ivec3} {t : Triangle} (ht : t ∈ faceTriangles d c) :
    normal t = getFaceOrientationVector d := by
  obtain ⟨t₀, ht₀, rfl⟩ := List.mem_map.mp ht
  rw [normal_moved, normal_table d t₀ ht₀]

section
variable {K : Type} [Field K] [LinearOrder K]

/-- From `eye` the corners run counterclockwise. -/
def FrontFacing (t : Triangle) (eye : Axis → K) : Prop := 0 < ∑ a, ((normal t).get a : K) * (eye a - t.1.get a)

/-- The point is past the face of the cell in direction `d`. -/
def Beyond (c : Ivec3) (d : FaceOrientation) (x : Axis → K) : Prop :=
  ∃ a, (getFaceOrientationVector d).get a = 1 ∧ (c.get a + 1 : K) < x a ∨
    (getFaceOrientationVector d).get a = -1 ∧ x a < c.get a

/-- The first corner is on the face's plane. -/
theorem corner_plane (d : FaceOrientation) :
    ∀ t ∈ triangles ((List.finRange 6).map (corner d)), ∀ a,
      ((getFaceOrientationVector d).get a = 1 → t.1.get a = 1) ∧
        ((getFaceOrientationVector d).get a = -1 → t.1.get a = 0) := by
  cases d <;> decide

theorem direction_axis (d : FaceOrientation) :
    ∃ a, ((getFaceOrientationVector d).get a = 1 ∨ (getFaceOrientationVector d).get a = -1) ∧
      ∀ b, b ≠ a → (getFaceOrientationVector d).get b = 0 := by
  cases d <;> decide

variable [IsStrictOrderedRing K]

/-- A triangle faces the eyes that are past its face, and no others. -/
theorem frontFacing_iff {d : FaceOrientation} {c : Ivec3} {t : Triangle} (ht : t ∈ faceTriangles d c)
    (eye : Axis → K) : FrontFacing t eye ↔ Beyond c d eye := by
  have hnormal := normal_faceTriangles ht
  obtain ⟨t₀, ht₀, rfl⟩ := List.mem_map.mp ht
  obtain ⟨a, hunit, hrest⟩ := direction_axis d
  obtain ⟨hup, hdown⟩ := corner_plane d t₀ ht₀ a
  have hfirst : (moved c t₀).1.get a = t₀.1.get a + c.get a := by cases a <;> rfl
  have hfront : FrontFacing (moved c t₀) eye ↔
      0 < ((getFaceOrientationVector d).get a : K) * (eye a - (t₀.1.get a + c.get a : Int)) := by
    rw [FrontFacing, hnormal, Finset.sum_eq_single a, hfirst]
    · intro b _ hb
      rw [hrest b hb, Int.cast_zero, zero_mul]
    · exact fun h => absurd (Finset.mem_univ a) h
  have hbeyond : Beyond c d eye ↔ (getFaceOrientationVector d).get a = 1 ∧ (c.get a + 1 : K) < eye a ∨
      (getFaceOrientationVector d).get a = -1 ∧ eye a < c.get a := by
    refine ⟨fun h => ?_, fun h => ⟨a, h⟩⟩
    obtain ⟨b, hb⟩ := h
    by_cases hab : b = a
    · exact hab ▸ hb
    · rw [hrest b hab] at hb
      omega
  rw [hfront, hbeyond]
  obtain h1 | h1 := hunit
  · rw [h1, hup h1, Int.cast_one, one_mul, sub_pos, Int.cast_add, Int.cast_one, add_comm (1 : K)]
    simp
  · rw [h1, hdown h1, zero_add, Int.cast_neg, Int.cast_one, neg_one_mul, neg_sub, sub_pos]
    simp

/-- **A chunk draws its visible faces, each from outside.** Its triangles are those of the visible faces of its
cells, and culling keeps a triangle exactly for the eyes that are past its face. -/
theorem triangles_face_out (w : World) (p : Ivec3) (hp : p.Aligned) (hb : p.Within (2 ^ 24 - 32)) :
    ∃ vertices, createChunkVertices w.chunks p = .ok vertices ∧
      (∀ t, t ∈ triangles (vertices.map (worldpos p)) ↔
        ∃ c d, chunkOf c = p ∧ Visible w c d ∧ t ∈ faceTriangles d c) ∧
      ∀ c d, ∀ t ∈ faceTriangles d c, ∀ eye : Axis → K, FrontFacing t eye ↔ Beyond c d eye := by
  refine ⟨_, createChunkVertices_blocks w.chunks hp hb, fun t => ?_, fun c d t ht eye => frontFacing_iff ht eye⟩
  exact mem_mesh_iff hp hb (createChunkVertices_blocks w.chunks hp hb) t

end

theorem triangles_face_out_negative : ∃ vertices,
    createChunkVertices (World.empty.createOrReplaceChunk ⟨-16, 0, -32⟩ (Vector.replicate 4096 3)).chunks ⟨-16, 0, -32⟩ =
      .ok vertices ∧
    ∀ c d, ∀ t ∈ faceTriangles d c, ∀ eye : Axis → ℚ, FrontFacing t eye ↔ Beyond c d eye := by
  obtain ⟨vertices, hlist, _, hfront⟩ := triangles_face_out (K := ℚ)
    (World.empty.createOrReplaceChunk ⟨-16, 0, -32⟩ (Vector.replicate 4096 3)) ⟨-16, 0, -32⟩ (by decide) (by decide)
  exact ⟨vertices, hlist, hfront⟩

end ChunkVertices
end MyMinecraft
