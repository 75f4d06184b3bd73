import MyMinecraft.ChunkVertices.Watertight
import MyMinecraft.Lib.Convex
import MyMinecraft.Scalar

/-! What of the terrain is drawn (`World.cpp`, `ChunkMesh.cpp`).

`renderTerrain` draws the meshes whose chunk's box is in the frustum, and
`boxInFrustum` drops a box only when all eight of its corners are behind one plane.
The mesher puts every vertex of a chunk in that box, the far borders at 16 included
(`vertex_mem_box`), and a box with a point in front of a plane has a corner there. So
nothing that could be seen is dropped: `renderTerrain_draws`. -/
namespace MyMinecraft
open ChunkVertices Shader

structure ChunkAABB (R : Type) where
  min : Vec3 R
  max : Vec3 R

/-- A call of `glDrawArrays`. -/
structure Draw where
  chunkpos : Ivec3
  vertices : List UInt32
  deriving DecidableEq

def ChunkMesh.render (mesh : ChunkMesh) : List Draw :=
  match mesh.vbo with
  | some vertices => if vertices.length = 0 then [] else [⟨mesh.worldpos, vertices⟩]
  | none => []

namespace World

section
variable {R : Type} [Scalar R]
open Scalar

def getChunkAABB (pos : Ivec3) : ChunkAABB R :=
  { min := ⟨ofInt pos.x, ofInt pos.y, ofInt pos.z⟩
    max := ⟨ofInt (pos.x + 16), ofInt (pos.y + 16), ofInt (pos.z + 16)⟩ }

/-- The points tested, in the order of the lines. -/
def corners (box : ChunkAABB R) : List (Vec4 R) :=
  [⟨box.min.x, box.min.y, box.min.z, ofInt 1⟩, ⟨box.max.x, box.min.y, box.min.z, ofInt 1⟩,
    ⟨box.min.x, box.max.y, box.min.z, ofInt 1⟩, ⟨box.max.x, box.max.y, box.min.z, ofInt 1⟩,
    ⟨box.min.x, box.min.y, box.max.z, ofInt 1⟩, ⟨box.max.x, box.min.y, box.max.z, ofInt 1⟩,
    ⟨box.min.x, box.max.y, box.max.z, ofInt 1⟩, ⟨box.max.x, box.max.y, box.max.z, ofInt 1⟩]

/-- How many of the points are behind the plane. -/
def out (plane : Vec4 R) (points : List (Vec4 R)) : Nat :=
  (points.map fun c => if lt (Glm.dot plane c) (ofInt 0) then 1 else 0).sum

def boxInFrustum (planes : Vector (Vec4 R) 6) (box : ChunkAABB R) : Bool :=
  planes.toList.all fun plane => out plane (corners box) != 8

/-- The draws for the planes taken from the camera, in the order of the map. -/
def renderTerrain (w : World) (planes : Vector (Vec4 R) 6) : List Draw :=
  w.chunkMeshes.entries.flatMap fun e =>
    if e.2.vbo.isSome then
      if boxInFrustum planes (getChunkAABB e.1) then e.2.render else []
    else []

end

/-! ### Where the vertices are -/

theorem mem_triangles {α : Type} {xs : List α} {t : α × α × α} (h : t ∈ triangles xs) :
    t.1 ∈ xs ∧ t.2.1 ∈ xs ∧ t.2.2 ∈ xs := by
  induction xs using triangles.induct with
  | case1 x y z rest ih =>
    rw [triangles] at h
    obtain rfl | hrest := List.mem_cons.mp h
    · simp
    · obtain ⟨h1, h2, h3⟩ := ih hrest
      simp [h1, h2, h3]
  | case2 rest hne =>
    rw [triangles] at h
    · cases h
    · exact hne

theorem worldpos_faceVertex (d : FaceOrientation) (bt : UInt8) (p : Ivec3) {l : Ivec3} (hl : l ∈ cells)
    (k : Fin 6) (a : Axis) :
    p.get a ≤ (worldpos p (faceVertex (faceTable d) l (blockTexture bt d) k)).get a ∧
      (worldpos p (faceVertex (faceTable d) l (blockTexture bt d) k)).get a ≤ p.get a + 16 := by
  have hpos := congrArg Vertex.position (unpack_faceVertex d bt hl k)
  have hplaced : worldpos p (faceVertex (faceTable d) l (blockTexture bt d) k) = corner d k + l + p :=
    congrArg (· + p) hpos
  obtain ⟨hx, hy, hz⟩ := mem_cells.mp hl
  obtain ⟨hrx, hry, hrz, _⟩ := faceTable_row d k
  rw [hplaced]
  cases a <;> simp only [Ivec3.get, Ivec3.add_x, Ivec3.add_y, Ivec3.add_z, corner] <;> omega

/-- The vertices of a chunk stay in its box, for any blocks. -/
theorem vertex_mem_box {chunks : Chunks} {p : Ivec3} {vertices : List UInt32}
    (h : createChunkVertices chunks p = .ok vertices) {v : Ivec3} (hv : v ∈ vertices.map (worldpos p))
    (a : Axis) : p.get a ≤ v.get a ∧ v.get a ≤ p.get a + 16 := by
  rw [(createChunkVertices_cells chunks p).1] at h
  obtain rfl := Except.ok.inj h
  obtain ⟨packed, hpacked, rfl⟩ := List.mem_map.mp hv
  obtain ⟨l, hl, hcell⟩ := List.mem_flatMap.mp hpacked
  rw [cellOutput_eq, cellVertices] at hcell
  split at hcell
  · cases hcell
  · obtain ⟨f, hf, hface⟩ := List.mem_flatMap.mp hcell
    split at hface
    · obtain ⟨k, _, rfl⟩ := List.mem_map.mp hface
      rw [(faces_match f hf).1]
      exact worldpos_faceVertex f.2.2 _ p hl k a
    · cases hface

/-! ### What the corner tests decide -/

section
variable {K : Type} [Field K] [LinearOrder K] [FloorRing K] [SquareRoot K]
open Lib.HalfSpace

/-- A point as `boxInFrustum` hands it to `dot`. -/
def homogeneous (c : Axis → K) : Vec4 K := ⟨c .x, c .y, c .z, Scalar.ofInt 1⟩

theorem dot_eq (plane : Vec4 K) (c : Axis → K) :
    Glm.dot plane (homogeneous c) = value (Vec3.get ⟨plane.x, plane.y, plane.z⟩) plane.w c := by
  rw [homogeneous, value, Axis.sum_eq, Scalar.ofInt_exact, Int.cast_one]
  show (plane.x * c .x + plane.y * c .y) + (plane.z * c .z + plane.w * 1) =
    plane.x * c .x + plane.y * c .y + plane.z * c .z + plane.w
  ring

theorem out_eq_countP (plane : Vec4 K) (points : List (Vec4 K)) :
    out plane points = points.countP fun c => Glm.dot plane c < 0 := by
  rw [← Int.cast_zero, ← Scalar.ofInt_exact]
  induction points with
  | nil => rfl
  | cons c points ih =>
    rw [List.countP_cons, ← ih, Nat.add_comm]
    exact List.sum_cons

theorem out_ne_iff (plane : Vec4 K) (box : ChunkAABB K) :
    out plane (corners box) ≠ 8 ↔ ∃ c ∈ corners box, 0 ≤ Glm.dot plane c := by
  have hlen : (corners box).length = 8 := rfl
  rw [out_eq_countP, ← hlen, Ne, List.countP_eq_length]
  simp

/-- The eight points are the corners. -/
theorem mem_corners (box : ChunkAABB K) (v : Vec4 K) :
    v ∈ corners box ↔ ∃ c, Corner box.min.get box.max.get c ∧ v = homogeneous c := by
  constructor
  · intro h
    simp only [corners, List.mem_cons, List.not_mem_nil, or_false] at h
    refine ⟨Vec3.get ⟨v.x, v.y, v.z⟩, fun a => ?_, ?_⟩
    · obtain rfl | rfl | rfl | rfl | rfl | rfl | rfl | rfl := h <;> cases a <;> simp [Vec3.get]
    · obtain rfl | rfl | rfl | rfl | rfl | rfl | rfl | rfl := h <;> rfl
  · intro h
    obtain ⟨c, hc, rfl⟩ := h
    obtain hx | hx := hc .x <;> obtain hy | hy := hc .y <;> obtain hz | hz := hc .z <;>
      simp [homogeneous, corners, hx, hy, hz, Vec3.get]

/-- A lattice point among the others. -/
def coords (v : Ivec3) : Axis → K := fun a => v.get a

theorem box_eq (p : Ivec3) : (getChunkAABB p : ChunkAABB K).min.get = coords p ∧
    (getChunkAABB p : ChunkAABB K).max.get = fun a => coords p a + 16 := by
  constructor <;> funext a <;> cases a <;> simp [getChunkAABB, Vec3.get, coords, Ivec3.get]

variable [IsStrictOrderedRing K]

/-- **The tests keep a box exactly when every plane has a point of the box in front of it.** -/
theorem boxInFrustum_iff (planes : Vector (Vec4 K) 6) (box : ChunkAABB K)
    (h : box.min.get ≤ box.max.get) :
    boxInFrustum planes box = true ↔
      ∀ plane ∈ planes.toList, ∃ x ∈ Set.Icc box.min.get box.max.get, 0 ≤ Glm.dot plane (homogeneous x) := by
  have hplane (plane : Vec4 K) : out plane (corners box) ≠ 8 ↔
      ∃ x ∈ Set.Icc box.min.get box.max.get, 0 ≤ Glm.dot plane (homogeneous x) := by
    simp only [out_ne_iff, mem_corners, dot_eq, box_meets_iff _ _ h]
    constructor
    · intro hsome
      obtain ⟨_, ⟨c, hc, rfl⟩, hpos⟩ := hsome
      rw [dot_eq] at hpos
      exact ⟨c, hc, hpos⟩
    · intro hsome
      obtain ⟨c, hc, hpos⟩ := hsome
      rw [← dot_eq] at hpos
      exact ⟨homogeneous c, ⟨c, hc, rfl⟩, hpos⟩
  simp only [boxInFrustum, List.all_eq_true, bne_iff_ne, hplane]

/-! ### Nothing visible is dropped -/

/-- The triangle has the point `x`. -/
def InTriangle (t : Ivec3 × Ivec3 × Ivec3) (x : Vec3 K) : Prop :=
  x.get ∈ convexHull K {coords t.1, coords t.2.1, coords t.2.2}

/-- No plane has the point behind it. -/
def InFrustum (planes : Vector (Vec4 K) 6) (x : Vec3 K) : Prop :=
  ∀ plane ∈ planes.toList, 0 ≤ Glm.dot plane ⟨x.x, x.y, x.z, Scalar.ofInt 1⟩

theorem coords_mem_box {chunks : Chunks} {p : Ivec3} {vertices : List UInt32}
    (h : createChunkVertices chunks p = .ok vertices) {v : Ivec3} (hv : v ∈ vertices.map (worldpos p)) :
    (coords v : Axis → K) ∈ Set.Icc (coords p) (fun a => coords p a + 16) := by
  constructor
  · intro a
    exact Int.cast_le.mpr (vertex_mem_box h hv a).1
  · intro a
    have hle : (v.get a : K) ≤ (p.get a + 16 : Int) := Int.cast_le.mpr (vertex_mem_box h hv a).2
    rwa [Int.cast_add, Int.cast_ofNat] at hle

/-- The box has its triangles whole, being convex. -/
theorem triangle_mem_box {chunks : Chunks} {p : Ivec3} {vertices : List UInt32}
    (h : createChunkVertices chunks p = .ok vertices) {t : Ivec3 × Ivec3 × Ivec3}
    (ht : t ∈ triangles (vertices.map (worldpos p))) {x : Vec3 K} (hx : InTriangle t x) :
    x.get ∈ Set.Icc (coords p) (fun a => coords p a + 16) := by
  obtain ⟨h1, h2, h3⟩ := mem_triangles ht
  refine convexHull_min ?_ (convex_Icc _ _) hx
  intro v hv
  obtain rfl | rfl | rfl := hv
  · exact coords_mem_box h h1
  · exact coords_mem_box h h2
  · exact coords_mem_box h h3

/-- **Culling hides nothing that can be seen.** A chunk with a point of one of its triangles in
the frustum passes the test, and `renderTerrain` draws it, once it has a mesh with anything
in it. -/
theorem renderTerrain_draws (w : World) (p : Ivec3) {vertices : List UInt32}
    (h : createChunkVertices w.chunks p = .ok vertices) {t : Ivec3 × Ivec3 × Ivec3}
    (ht : t ∈ triangles (vertices.map (worldpos p))) {x : Vec3 K} (hx : InTriangle t x)
    {planes : Vector (Vec4 K) 6} (hin : InFrustum planes x) :
    boxInFrustum planes (getChunkAABB p) = true ∧
      ∀ mesh uploaded, w.chunkMeshes.lookup p = some mesh → mesh.vbo = some uploaded → uploaded ≠ [] →
        ⟨mesh.worldpos, uploaded⟩ ∈ w.renderTerrain planes := by
  obtain ⟨hmin, hmax⟩ := box_eq (K := K) p
  have hmem := triangle_mem_box h ht hx
  have hbox : boxInFrustum planes (getChunkAABB p : ChunkAABB K) = true := by
    rw [boxInFrustum_iff, hmin, hmax]
    · exact fun plane hplane => ⟨x.get, hmem, hin plane hplane⟩
    · rw [hmin, hmax]
      exact hmem.1.trans hmem.2
  refine ⟨hbox, fun mesh uploaded hmesh hvbo hne => ?_⟩
  refine List.mem_flatMap.mpr ⟨⟨p, mesh⟩, List.of_mem_dlookup hmesh, ?_⟩
  simp only [hvbo, Option.isSome_some, if_true, hbox, ChunkMesh.render]
  rw [if_neg (List.length_pos_iff.mpr hne).ne']
  exact List.mem_singleton_self _

end

/-- A chunk of stone with nothing around it. -/
def stoneWorld : World := World.empty.createOrReplaceChunk ⟨-16, 0, 0⟩ (Vector.replicate 4096 3)

theorem stoneWorld_triangle : (⟨-16, 0, 0⟩, ⟨-15, 1, 0⟩, ⟨-15, 0, 0⟩) ∈
    triangles ((cells.flatMap (cellOutput stoneWorld.chunks ⟨-16, 0, 0⟩)).map (worldpos ⟨-16, 0, 0⟩)) := by
  rw [triangles_map, (createChunkVertices_cells _ _).2]
  have hcell : (⟨-16, 0, 0⟩, ⟨-15, 1, 0⟩, ⟨-15, 0, 0⟩) ∈
      triangles ((cellOutput stoneWorld.chunks ⟨-16, 0, 0⟩ 0).map (worldpos ⟨-16, 0, 0⟩)) := by
    decide +kernel
  rw [triangles_map] at hcell
  obtain ⟨t, ht, heq⟩ := List.mem_map.mp hcell
  exact List.mem_map.mpr ⟨t, List.mem_flatMap.mpr ⟨0, mem_cells.mpr (by decide), ht⟩, heq⟩

/-- Six planes through a corner of that triangle, with the rest of it behind them. -/
def throughCorner : Vector (Vec4 ℚ) 6 := Vector.replicate 6 ⟨-1, 0, 0, -16⟩

theorem renderTerrain_draws_corner :
    boxInFrustum throughCorner (getChunkAABB ⟨-16, 0, 0⟩ : ChunkAABB ℚ) = true := by
  have hcorner : InTriangle (⟨-16, 0, 0⟩, ⟨-15, 1, 0⟩, ⟨-15, 0, 0⟩) (⟨-16, 0, 0⟩ : Vec3 ℚ) := by
    refine subset_convexHull ℚ _ (Or.inl ?_)
    funext a
    cases a <;> simp [Vec3.get, coords, Ivec3.get]
  have hfront : InFrustum throughCorner (⟨-16, 0, 0⟩ : Vec3 ℚ) := by
    intro plane hplane
    rw [throughCorner, Vector.toList_replicate, List.mem_replicate] at hplane
    rw [hplane.2]
    decide +kernel
  exact (renderTerrain_draws stoneWorld ⟨-16, 0, 0⟩ (createChunkVertices_cells _ _).1
    stoneWorld_triangle hcorner hfront).1

end World
end MyMinecraft
