import MyMinecraft.ChunkVertices.Count
import MyMinecraft.ChunkVertices.Faces
import MyMinecraft.World.Drawable

/-! The terrain of one frame.

When every mesh shows the list its chunk has, what `renderTerrain` draws is decided by the blocks and the
planes alone: the faces of the chunks it does not cull, each as two triangles and each once (`terrain_eq`,
`terrain_nodup`). Every face with a point in the frustum is among them (`drawn_of_point`). -/
namespace MyMinecraft
open ChunkVertices Shader

/-- The triangles of a draw, where they are. -/
def Draw.placed (d : Draw) : List Triangle := triangles (d.vertices.map (worldpos d.chunkpos))

namespace ChunkVertices

/-! ### A triangle is of one face -/

theorem direction_injective {d d' : FaceOrientation} (h : getFaceOrientationVector d = getFaceOrientationVector d') :
    d = d' := by
  cases d <;> cases d' <;> first | rfl | exact absurd h (by decide)

/-- Either triangle of a table starts where its face does. -/
theorem table_least (d : FaceOrientation) : ∀ t ∈ triangles ((List.finRange 6).map (corner d)), ∀ a,
    min (t.1.get a) (min (t.2.1.get a) (t.2.2.get a)) = (faceBase d).get a := by
  cases d <;> decide

theorem table_nodup (d : FaceOrientation) : (triangles ((List.finRange 6).map (corner d))).Nodup := by
  cases d <;> decide

theorem moved_injective (c : Ivec3) : Function.Injective (moved c) := by
  intro t t' h
  obtain ⟨h1, h2⟩ := Prod.mk.inj h
  obtain ⟨h2, h3⟩ := Prod.mk.inj h2
  exact Prod.ext (add_right_cancel h1) (Prod.ext (add_right_cancel h2) (add_right_cancel h3))

theorem faceTriangles_nodup (d : FaceOrientation) (c : Ivec3) : (faceTriangles d c).Nodup :=
  (table_nodup d).map (moved_injective c)

/-- The normal tells the direction, and the least corner the cell. -/
theorem face_unique {d d' : FaceOrientation} {c c' : Ivec3} {t : Triangle} (h : t ∈ faceTriangles d c)
    (h' : t ∈ faceTriangles d' c') : (c, d) = (c', d') := by
  obtain rfl := direction_injective ((normal_faceTriangles h).symm.trans (normal_faceTriangles h'))
  obtain ⟨t₀, ht₀, rfl⟩ := List.mem_map.mp h
  obtain ⟨t₀', ht₀', hmoved⟩ := List.mem_map.mp h'
  obtain ⟨h1, h2⟩ := Prod.mk.inj hmoved
  obtain ⟨h2, h3⟩ := Prod.mk.inj h2
  refine Prod.ext (Ivec3.get_injective (funext fun a => ?_)) rfl
  have hleast := table_least d t₀ ht₀ a
  have hleast' := table_least d t₀' ht₀' a
  have ha1 := congrArg (Ivec3.get · a) h1
  have ha2 := congrArg (Ivec3.get · a) h2
  have ha3 := congrArg (Ivec3.get · a) h3
  simp only [get_add] at ha1 ha2 ha3
  show c.get a = c'.get a
  omega

end ChunkVertices

namespace World

/-! ### The draws, as faces -/

/-- Every chunk has a mesh that shows its list. -/
structure Current (w : World) : Prop where
  drawable : Drawable w
  shown : ∀ p ∈ w.chunks, ∃ mesh vertices, w.chunkMeshes.lookup p = some mesh ∧ mesh.vbo = some vertices ∧
    createChunkVertices w.chunks p = .ok vertices
  placed : ∀ p ∈ w.chunks, p.Aligned ∧ p.Within (2 ^ 24 - 32)

section
variable {R : Type} [Scalar R] {w : World} {planes : Vector (Vec4 R) 6}

/-- What is drawn, by triangles. -/
def terrain (w : World) (planes : Vector (Vec4 R) 6) : List Triangle := (w.renderTerrain planes).flatMap Draw.placed

/-- The faces of the chunks that are not culled. -/
def drawnFaces (w : World) (planes : Vector (Vec4 R) 6) : List (Ivec3 × FaceOrientation) :=
  (w.chunkMeshes.keys.filter fun p => boxInFrustum planes (getChunkAABB p)).flatMap (facesOf w.chunks)

/-- A chunk that is not culled is drawn whole. -/
theorem terrain_eq (h : Current w) (planes : Vector (Vec4 R) 6) :
    w.terrain planes = (w.drawnFaces planes).flatMap fun f => faceTriangles f.2 f.1 := by
  rw [terrain, renderTerrain, drawnFaces, AList.keys, List.keys, flatMap_filter, List.flatMap_map,
    List.flatMap_assoc, List.flatMap_assoc]
  refine List.flatMap_congr fun e he => ?_
  obtain ⟨p, mesh⟩ := e
  have hmesh : w.chunkMeshes.lookup p = some mesh := List.mem_dlookup w.chunkMeshes.nodupKeys he
  have hloaded : p ∈ w.chunks := (h.drawable.keys p).mpr (Lib.Map.mem_iff_lookup.mpr ⟨mesh, hmesh⟩)
  obtain ⟨mesh', vertices, hmesh', hvbo, hlist⟩ := h.shown p hloaded
  obtain rfl := Option.some.inj (hmesh.symm.trans hmesh')
  obtain ⟨hp, hb⟩ := h.placed p hloaded
  rw [createChunkVertices_blocks w.chunks hp hb] at hlist
  obtain rfl := Except.ok.inj hlist
  simp only [hvbo, Option.isSome_some, if_true]
  split
  · rw [← triangles_mesh, ChunkMesh.render, hvbo, h.drawable.worldpos p mesh hmesh]
    dsimp only
    split
    · next hnil =>
      rw [List.length_eq_zero_iff.mp hnil]
      rfl
    · exact List.flatMap_singleton ..
  · rfl

theorem mem_drawnFaces (h : Current w) (f : Ivec3 × FaceOrientation) : f ∈ w.drawnFaces planes ↔
    (blockOf w.chunks f.1 ≠ 0 ∧ seeThrough (blockOf w.chunks (f.1 + getFaceOrientationVector f.2)) = true) ∧
      boxInFrustum planes (getChunkAABB (chunkOf f.1)) = true := by
  simp only [drawnFaces, List.mem_flatMap, List.mem_filter, ← AList.mem_keys, ← h.drawable.keys]
  constructor
  · intro hf
    obtain ⟨p, ⟨hloaded, hbox⟩, hf⟩ := hf
    obtain ⟨rfl, hface⟩ := (mem_facesOf (h.placed p hloaded).1 f).mp hf
    exact ⟨hface, hbox⟩
  · intro hf
    obtain ⟨hface, hbox⟩ := hf
    have hloaded : chunkOf f.1 ∈ w.chunks := by
      by_contra hno
      refine hface.1 ?_
      rw [blockOf, AList.lookup_eq_none.mpr hno]
    exact ⟨chunkOf f.1, ⟨hloaded, hbox⟩, (mem_facesOf (h.placed _ hloaded).1 f).mpr ⟨rfl, hface⟩⟩

theorem drawnFaces_nodup (h : Current w) : (w.drawnFaces planes).Nodup := by
  refine List.nodup_flatMap.mpr ⟨fun p _ => facesOf_nodup _ p, ?_⟩
  refine ((AList.keys_nodup _).filter _).imp_of_mem fun {p q} hp hq hne => ?_
  have haligned {r : Ivec3} (hr : r ∈ w.chunkMeshes.keys.filter fun r => boxInFrustum planes (getChunkAABB r)) :
      r.Aligned :=
    (h.placed r ((h.drawable.keys r).mpr (AList.mem_keys.mpr (List.mem_of_mem_filter hr)))).1
  intro f hf hf'
  exact hne (((mem_facesOf (haligned hp) f).mp hf).1.symm.trans ((mem_facesOf (haligned hq) f).mp hf').1)

/-- No triangle is drawn twice. -/
theorem terrain_nodup (h : Current w) : (w.terrain planes).Nodup := by
  rw [terrain_eq h]
  refine List.nodup_flatMap.mpr ⟨fun f _ => faceTriangles_nodup f.2 f.1, (drawnFaces_nodup h).imp fun {f f'} hne => ?_⟩
  intro t ht ht'
  exact hne (face_unique ht ht')

end

section
variable {K : Type} [Field K] [LinearOrder K] [FloorRing K] [SquareRoot K] [IsStrictOrderedRing K]

/-- A cell lies in its chunk's box. -/
theorem box_of_cell {c : Ivec3} {x : Axis → K} (hx : Lib.GridWalk.Touches x c.get) :
    x ∈ Set.Icc (coords (chunkOf c)) (fun a => coords (chunkOf c) a + 16) := by
  have hcell (a : Axis) : (chunkOf c).get a ≤ c.get a ∧ c.get a + 1 ≤ (chunkOf c).get a + 16 := by
    cases a <;> simp only [chunkOf, Ivec3.get] <;> omega
  constructor
  · intro a
    exact (Int.cast_le.mpr (hcell a).1).trans (hx a).1
  · intro a
    have hle : ((c.get a + 1 : Int) : K) ≤ ((chunkOf c).get a + 16 : Int) := Int.cast_le.mpr (hcell a).2
    rw [Int.cast_add, Int.cast_one, Int.cast_add, Int.cast_ofNat] at hle
    exact (hx a).2.trans hle

/-- A face with a point in the frustum is in a chunk that is not culled. -/
theorem drawn_of_point {planes : Vector (Vec4 K) 6} {d : FaceOrientation} {c : Ivec3} {t : Triangle}
    (ht : t ∈ faceTriangles d c) {x : Vec3 K} (hx : InTriangle t x) (hin : InFrustum planes x) :
    boxInFrustum planes (getChunkAABB (chunkOf c)) = true := by
  obtain ⟨hmin, hmax⟩ := box_eq (K := K) (chunkOf c)
  have hmem : x.get ∈ Set.Icc (coords (chunkOf c)) (fun a => coords (chunkOf c) a + 16) :=
    box_of_cell (touches_of_contains ht hx)
  rw [boxInFrustum_iff, hmin, hmax]
  · exact fun plane hplane => ⟨x.get, hmem, hin plane hplane⟩
  · rw [hmin, hmax]
    exact hmem.1.trans hmem.2

end

end World
end MyMinecraft
