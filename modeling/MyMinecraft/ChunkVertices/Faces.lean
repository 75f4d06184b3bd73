import MyMinecraft.ChunkVertices.Triangles
import MyMinecraft.Lib.GridWalk
import MyMinecraft.Lib.Convex
import MyMinecraft.World.Frustum

/-! The faces of a mesh, as points of space.

A face is cut along a diagonal into its two triangles, which cover it (`exists_contains`) and stay in its
cell (`touches_of_contains`). -/
namespace MyMinecraft.ChunkVertices
open Lib.GridWalk (Touches)

variable {K : Type} [Field K]
open World (coords)

theorem coords_add (u v : Ivec3) : (coords (u + v) : Axis → K) = coords u + coords v := by
  funext a
  cases a <;> exact Int.cast_add ..

variable {d : FaceOrientation} {c : Ivec3} {x : Axis → K}

theorem get_add (u v : Ivec3) (a : Axis) : (u + v).get a = u.get a + v.get a := by
  cases a <;> rfl

/-- The corner of the face and its sides, as the diagonal of the tables goes. -/
def faceBase : FaceOrientation → Ivec3
  | .front | .left | .bottom => 0
  | .back => ⟨0, 0, 1⟩
  | .right => ⟨1, 0, 0⟩
  | .top => ⟨0, 1, 0⟩

def faceSides : FaceOrientation → Ivec3 × Ivec3
  | .front | .back => (⟨1, 0, 0⟩, ⟨0, 1, 0⟩)
  | .left | .right => (⟨0, 1, 0⟩, ⟨0, 0, 1⟩)
  | .top | .bottom => (⟨1, 0, 0⟩, ⟨0, 0, 1⟩)

/-- The point is on the plane of the face. -/
def OnPlane (c : Ivec3) (d : FaceOrientation) (x : Axis → K) : Prop :=
  ∀ a, ((getFaceOrientationVector d).get a = 1 → x a = c.get a + 1) ∧
    ((getFaceOrientationVector d).get a = -1 → x a = c.get a)

/-- How far the point is along a side. -/
def along (side c : Ivec3) (x : Axis → K) : K := ∑ a, side.get a * (x a - c.get a)

theorem eq_along (hplane : OnPlane c d x) : x = coords (faceBase d + c) +
    along (faceSides d).1 c x • coords (faceSides d).1 + along (faceSides d).2 c x • coords (faceSides d).2 := by
  funext a
  obtain ⟨hup, hdown⟩ := hplane a
  simp only [Pi.add_apply, Pi.smul_apply, smul_eq_mul, along, Axis.sum_eq, coords, get_add]
  cases d <;> cases a <;> simp_all [faceBase, faceSides, getFaceOrientationVector, Ivec3.get, add_comm]

variable [LinearOrder K]

/-- A point of the triangle. -/
def Contains (t : Triangle) (x : Axis → K) : Prop := x ∈ convexHull K {coords t.1, coords t.2.1, coords t.2.2}

/-- The two triangles of a table lie on either side of one diagonal. -/
theorem table_halves (d : FaceOrientation) :
    (∃ t ∈ triangles ((List.finRange 6).map (corner d)), ∀ v ∈ [faceBase d, faceBase d + (faceSides d).1,
      faceBase d + (faceSides d).1 + (faceSides d).2], v ∈ [t.1, t.2.1, t.2.2]) ∧
    ∃ t ∈ triangles ((List.finRange 6).map (corner d)), ∀ v ∈ [faceBase d, faceBase d + (faceSides d).2,
      faceBase d + (faceSides d).1 + (faceSides d).2], v ∈ [t.1, t.2.1, t.2.2] := by
  cases d <;> decide

/-- The corners of the tables are corners of the cell. -/
theorem table_unit (d : FaceOrientation) : ∀ t ∈ triangles ((List.finRange 6).map (corner d)),
    ∀ v ∈ [t.1, t.2.1, t.2.2], ∀ a, 0 ≤ v.get a ∧ v.get a ≤ 1 := by
  cases d <;> decide

/-- A point of a half of the face is in the triangle that is that half. -/
theorem contains_of_half {t₀ : Triangle} {u v w : Ivec3} (h : ∀ v' ∈ [u, v, w], v' ∈ [t₀.1, t₀.2.1, t₀.2.2])
    (hx : x ∈ convexHull K {coords (u + c), coords (v + c), coords (w + c)}) : Contains (moved c t₀) x := by
  refine convexHull_mono ?_ hx
  intro y hy
  have hu := h u (by simp)
  have hv := h v (by simp)
  have hw := h w (by simp)
  simp only [List.mem_cons, List.not_mem_nil, or_false] at hu hv hw
  obtain rfl | rfl | rfl := hy
  · obtain rfl | rfl | rfl := hu <;> simp [moved]
  · obtain rfl | rfl | rfl := hv <;> simp [moved]
  · obtain rfl | rfl | rfl := hw <;> simp [moved]

variable [IsStrictOrderedRing K]

theorem coords_touches {v : Ivec3} (h : ∀ a, 0 ≤ v.get a ∧ v.get a ≤ 1) :
    (coords (v + c) : Axis → K) ∈ Set.Icc (coords c) (fun a => coords c a + 1) := by
  constructor
  · intro a
    apply Int.cast_le.mpr
    rw [get_add]
    have := (h a).1
    omega
  · intro a
    have hle : ((v + c).get a : K) ≤ (c.get a + 1 : Int) := by
      apply Int.cast_le.mpr
      rw [get_add]
      have := (h a).2
      omega
    rwa [Int.cast_add, Int.cast_one] at hle

/-- The triangles of a cell's faces are in the cell. -/
theorem touches_of_contains {t : Triangle} (ht : t ∈ faceTriangles d c) (hx : Contains t x) : Touches x c.get := by
  obtain ⟨t₀, ht₀, rfl⟩ := List.mem_map.mp ht
  have hunit := table_unit d t₀ ht₀
  simp only [List.forall_mem_cons, List.not_mem_nil, false_implies, implies_true, and_true] at hunit
  obtain ⟨h1, h2, h3⟩ := hunit
  have hbox : x ∈ Set.Icc (coords c) (fun a => coords c a + 1) := by
    refine convexHull_min ?_ (convex_Icc _ _) hx
    intro v hv
    obtain rfl | rfl | rfl := hv
    · exact coords_touches h1
    · exact coords_touches h2
    · exact coords_touches h3
  exact fun a => ⟨hbox.1 a, hbox.2 a⟩

theorem along_unit (hx : Touches x c.get) (side : Ivec3) (h : side = (faceSides d).1 ∨ side = (faceSides d).2) :
    0 ≤ along side c x ∧ along side c x ≤ 1 := by
  have hside : ∃ a, side.get a = 1 ∧ ∀ b, b ≠ a → side.get b = 0 := by
    obtain rfl | rfl := h <;> cases d <;> decide
  obtain ⟨a, hone, hrest⟩ := hside
  have hsum : along side c x = x a - c.get a := by
    rw [along, Finset.sum_eq_single a, hone, Int.cast_one, one_mul]
    · intro b _ hb
      rw [hrest b hb, Int.cast_zero, zero_mul]
    · exact fun h => absurd (Finset.mem_univ a) h
  rw [hsum]
  exact ⟨sub_nonneg.mpr (hx a).1, sub_le_iff_le_add'.mpr (hx a).2⟩

/-- **A point of a face is in one of its two triangles.** -/
theorem exists_contains (hx : Touches x c.get) (hplane : OnPlane c d x) : ∃ t ∈ faceTriangles d c, Contains t x := by
  obtain ⟨hu, hu'⟩ := along_unit hx (d := d) _ (.inl rfl)
  obtain ⟨hv, hv'⟩ := along_unit hx (d := d) _ (.inr rfl)
  obtain ⟨⟨t, ht, hhalf⟩, t', ht', hhalf'⟩ := table_halves d
  have hpoint := eq_along hplane
  have hcut := Lib.Parallelogram.mem_halves (coords (faceBase d + c) : Axis → K) (coords (faceSides d).1)
    (coords (faceSides d).2) hu hu' hv hv'
  rw [← hpoint] at hcut
  have hcorner (side : Ivec3) : (coords (faceBase d + c) + coords side : Axis → K) = coords (faceBase d + side + c) := by
    rw [← coords_add, add_right_comm]
  have hopposite : (coords (faceBase d + c) + coords (faceSides d).1 + coords (faceSides d).2 : Axis → K) =
      coords (faceBase d + (faceSides d).1 + (faceSides d).2 + c) := by
    rw [hcorner, ← coords_add, add_right_comm]
  rw [hopposite, hcorner, hcorner] at hcut
  obtain h | h := hcut
  · exact ⟨moved c t, List.mem_map.mpr ⟨t, ht, rfl⟩, contains_of_half hhalf h⟩
  · exact ⟨moved c t', List.mem_map.mpr ⟨t', ht', rfl⟩, contains_of_half hhalf' h⟩

end MyMinecraft.ChunkVertices
