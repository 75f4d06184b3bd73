import MyMinecraft.ChunkVertices.Exact
import MyMinecraft.Lib.ClosedSurface

/-! The terrain is watertight.

The opaque cells of the loaded chunks are one finite set of lattice cells, wherever
the chunk borders run, and a face is drawn between an opaque cell and one that is
not. The six tables are the faces of a cell in the sense of `Lib.ClosedSurface`:
they close up around one cell, and opposite faces cancel. So the triangles drawn
for opaque cells close up everywhere. -/
namespace MyMinecraft.ChunkVertices
open Lib.ClosedSurface Shader

/-- Consecutive triples, as `GL_TRIANGLES` groups the list. -/
def triangles {α : Type} : List α → List (α × α × α)
  | a :: b :: c :: rest => (a, b, c) :: triangles rest
  | _ => []

def triangleEdges {α : Type} (t : α × α × α) : List (α × α) :=
  [(t.1, t.2.1), (t.2.1, t.2.2), (t.2.2, t.1)]

/-- What the loop body appends at one cell. -/
def cellOutput (chunks : Chunks) (p l : Ivec3) : List UInt32 :=
  match loadCell (snapshot chunks p) p [] l with
  | .ok vertices => vertices
  | .error _ => []

/-- Neither air, leaves nor glass. -/
def Opaque (bt : UInt8) : Prop := seeThrough bt = false

instance (bt : UInt8) : Decidable (Opaque bt) := inferInstanceAs (Decidable (_ = _))

/-- The triangles of the opaque cells of all loaded chunks, placed in the world. -/
def keptTriangles (w : World) : List (Ivec3 × Ivec3 × Ivec3) :=
  w.chunks.keys.flatMap fun p => cells.flatMap fun l =>
    if Opaque (blockOf w.chunks (l + p)) then
      triangles ((cellOutput w.chunks p l).map (worldpos p))
    else []

/-! ### Triangles of a list made of quads -/

theorem triangles_append {α : Type} {a : List α} (b : List α) (h : 3 ∣ a.length) :
    triangles (a ++ b) = triangles a ++ triangles b := by
  induction a using triangles.induct with
  | case1 x y z rest ih =>
    have h' : 3 ∣ rest.length := by
      simp only [List.length_cons] at h
      omega
    simp only [List.cons_append, triangles, ih h']
  | case2 rest hne =>
    match rest, hne, h with
    | [], _, _ => rfl
    | [_], _, h => simp at h
    | [_, _], _, h => simp at h
    | x :: y :: z :: rest, hne, _ => exact absurd rfl (hne x y z rest)

theorem triangles_flatMap {α β : Type} (xs : List α) (f : α → List β) (h : ∀ x, 3 ∣ (f x).length) :
    triangles (xs.flatMap f) = xs.flatMap fun x => triangles (f x) := by
  induction xs with
  | nil => rfl
  | cons x xs ih => rw [List.flatMap_cons, triangles_append _ (h x), ih, List.flatMap_cons]

theorem cellVertices_length (block : Ivec3 → UInt8) (p l : Ivec3) :
    3 ∣ (cellVertices block p l).length := by
  unfold cellVertices
  split
  · exact dvd_zero 3
  · rw [List.length_flatMap]
    refine List.dvd_sum fun n hn => ?_
    obtain ⟨f, _, rfl⟩ := List.mem_map.mp hn
    split
    · rw [quadOf, List.length_map, List.length_finRange]
      decide
    · exact dvd_zero 3

theorem cellOutput_eq (chunks : Chunks) (p l : Ivec3) :
    cellOutput chunks p l = cellVertices (read (snapshot chunks p)) p l := by
  rw [cellOutput, loadCell_eq, List.nil_append]

/-- The cells' outputs, end to end, are the mesh, and no triangle straddles two cells. -/
theorem createChunkVertices_cells (chunks : Chunks) (p : Ivec3) :
    createChunkVertices chunks p = .ok (cells.flatMap (cellOutput chunks p)) ∧
      triangles (cells.flatMap (cellOutput chunks p)) =
        cells.flatMap fun l => triangles (cellOutput chunks p l) := by
  constructor
  · rw [createChunkVertices_eq, meshOf]
    congr 1
    exact List.flatMap_congr fun l _ => (cellOutput_eq chunks p l).symm
  · refine triangles_flatMap _ _ fun l => ?_
    rw [cellOutput_eq]
    exact cellVertices_length _ p l

/-! ### The face tables as a face system -/

/-- The edges of a face's two triangles, for the cell at 0. -/
def faceEdges (d : FaceOrientation) : List (Ivec3 × Ivec3) :=
  (triangles ((List.finRange 6).map (corner d))).flatMap triangleEdges

def opposite : FaceOrientation → FaceOrientation
  | .front => .back
  | .back => .front
  | .left => .right
  | .right => .left
  | .top => .bottom
  | .bottom => .top

instance : Fintype FaceOrientation where
  elems := ⟨directions, by decide⟩
  complete d := by cases d <;> decide

/-- The six tables close up around a cell: with their diagonals, every edge of one
face is run the other way by its neighbour. -/
theorem cube_balanced : Balanced (directions.flatMap faceEdges) :=
  balanced_of_perm (by decide)

/-- Two opposite faces that meet run every edge both ways, the diagonals included. -/
theorem glue_balanced (d : FaceOrientation) :
    Balanced (faceEdges d ++ shift (getFaceOrientationVector d) (faceEdges (opposite d))) := by
  apply balanced_of_perm
  cases d <;> decide

def faceSystem : FaceSystem Ivec3 FaceOrientation where
  dir := getFaceOrientationVector
  opp := opposite
  edges := faceEdges
  dir_ne := by intro d; cases d <;> decide
  dir_opp := by intro d; cases d <;> decide
  opp_opp := by intro d; cases d <;> rfl
  cube := by
    intro u v
    have h := balanced_iff_net.mp cube_balanced u v
    rw [net_flatMap, ← List.sum_toFinset _ (by decide : directions.Nodup)] at h
    exact h
  glue := glue_balanced

/-! ### The drawn faces are a boundary -/

/-- The opaque cells of all loaded chunks. -/
def opaqueCells (w : World) : List Ivec3 :=
  (w.chunks.keys.flatMap fun p => cells.map (· + p)).filter fun c => Opaque (blockOf w.chunks c)

theorem opaque_ne_zero {bt : UInt8} (h : Opaque bt) : bt ≠ 0 := by
  rintro rfl
  exact absurd h (by decide)

theorem chunkOf_add {p l : Ivec3} (hp : p.Aligned) (hl : l ∈ cells) : chunkOf (l + p) = p := by
  obtain ⟨hx, hy, hz⟩ := mem_cells.mp hl
  obtain ⟨hpx, hpy, hpz⟩ := hp
  ext <;> simp only [chunkOf, Ivec3.add_x, Ivec3.add_y, Ivec3.add_z] <;> omega

/-- A cell is its place in its chunk plus the chunk's position. -/
theorem exists_local (c : Ivec3) : ∃ l ∈ cells, l + chunkOf c = c := by
  refine ⟨⟨c.x % 16, c.y % 16, c.z % 16⟩, mem_cells.mpr (by simp only; omega), ?_⟩
  ext <;> simp only [chunkOf, Ivec3.add_x, Ivec3.add_y, Ivec3.add_z] <;> omega

/-- Every opaque cell of the world is in a loaded chunk. -/
theorem mem_opaqueCells (w : World) {c : Ivec3} :
    c ∈ opaqueCells w ↔ Opaque (blockOf w.chunks c) := by
  simp only [opaqueCells, List.mem_filter, decide_eq_true_eq, List.mem_flatMap, List.mem_map]
  refine ⟨fun h => h.2, fun h => ⟨?_, h⟩⟩
  obtain ⟨l, hl, hc⟩ := exists_local c
  refine ⟨chunkOf c, ?_, l, hl, hc⟩
  rw [← AList.mem_keys]
  by_contra hnot
  apply opaque_ne_zero h
  rw [blockOf, AList.lookup_eq_none.mpr hnot]

theorem opaqueCells_nodup {w : World} (hw : ∀ p ∈ w.chunks.keys, p.Aligned) :
    (opaqueCells w).Nodup := by
  refine List.Nodup.filter _ (List.nodup_flatMap.mpr ⟨fun p _ => ?_, ?_⟩)
  · exact cells_nodup.map (add_left_injective p)
  · refine w.chunks.keys_nodup.imp_of_mem fun {p q} hp hq hne => ?_
    -- a common cell would have both positions as its chunk
    simp only [Function.onFun, List.disjoint_left, List.mem_map]
    rintro _ ⟨l, hl, rfl⟩ ⟨l', hl', h⟩
    have hpq : p = q := by
      rw [← chunkOf_add (hw p hp) hl, ← h, chunkOf_add (hw q hq) hl']
    exact hne hpq

theorem triangles_map {α β : Type} (g : α → β) (xs : List α) :
    triangles (xs.map g) = (triangles xs).map fun t => (g t.1, g t.2.1, g t.2.2) := by
  induction xs using triangles.induct with
  | case1 x y z rest ih => simp only [List.map_cons, triangles, ih]
  | case2 rest hne =>
    match rest, hne with
    | [], _ => rfl
    | [_], _ => rfl
    | [_, _], _ => rfl
    | x :: y :: z :: rest, hne => exact absurd rfl (hne x y z rest)

theorem edges_translate (g : Ivec3) (ts : List (Ivec3 × Ivec3 × Ivec3)) :
    (ts.map fun t => (t.1 + g, t.2.1 + g, t.2.2 + g)).flatMap triangleEdges =
      shift g (ts.flatMap triangleEdges) := by
  rw [shift, List.flatMap_map, List.map_flatMap]
  rfl

/-- One quad in the world is its table, moved to the cell. -/
theorem quad_edges {f : Fin 7 × FaceVertices × FaceOrientation} (hf : f ∈ faces) (bt : UInt8)
    {p l : Ivec3} (hl : l ∈ cells) :
    (triangles ((quadOf f bt l).map (worldpos p))).flatMap triangleEdges =
      shift (l + p) (faceEdges f.2.2) := by
  have hplaced : (quadOf f bt l).map (worldpos p) =
      ((List.finRange 6).map (corner f.2.2)).map (· + (l + p)) := by
    rw [quadOf, List.map_map, List.map_map, (faces_match f hf).1]
    refine List.map_congr_left fun k _ => ?_
    have h := congrArg Vertex.position (unpack_faceVertex f.2.2 bt hl k)
    simp only [Function.comp_apply, worldpos]
    rw [← add_assoc]
    exact congrArg (· + p) h
  rw [hplaced, triangles_map, edges_translate, faceEdges]

/-- What an opaque cell draws: its faces towards cells that are not opaque. -/
theorem cell_edges {w : World} {p l : Ivec3} (hp : p.Aligned) (hb : p.Within (2 ^ 24 - 32))
    (hl : l ∈ cells) (ho : Opaque (blockOf w.chunks (l + p))) :
    (triangles ((cellOutput w.chunks p l).map (worldpos p))).flatMap triangleEdges =
      directions.flatMap fun d =>
        if l + p + faceSystem.dir d ∈ opaqueCells w then [] else shift (l + p) (faceSystem.edges d) := by
  have hout : cellOutput w.chunks p l = faces.flatMap fun f =>
      if seeThrough (blockOf w.chunks (l + p + neighborChunkpos.get f.1)) then
        quadOf f (blockOf w.chunks (l + p)) l else [] := by
    rw [cellOutput_eq, cellVertices]
    simp only [read_snapshot_self w.chunks hp hb hl, read_snapshot w.chunks hp hb hl]
    rw [if_neg (opaque_ne_zero ho)]
  rw [hout, List.map_flatMap, triangles_flatMap, List.flatMap_assoc, ← faces_directions,
    List.flatMap_map]
  · refine List.flatMap_congr fun f hf => ?_
    have hdir : faceSystem.dir f.2.2 = neighborChunkpos.get f.1 := (faces_match f hf).2.symm
    by_cases hs : seeThrough (blockOf w.chunks (l + p + neighborChunkpos.get f.1)) = true
    · rw [if_pos hs, quad_edges hf _ hl, hdir, if_neg]
      · rfl
      · rw [mem_opaqueCells, Opaque, hs]
        exact Bool.noConfusion
    · rw [if_neg hs, hdir, if_pos]
      · rfl
      · rw [mem_opaqueCells, Opaque]
        exact Bool.eq_false_iff.mpr hs
  · intro f
    split
    · rw [List.length_map, quadOf, List.length_map, List.length_finRange]
      decide
    · exact dvd_zero 3

theorem flatMap_filter {α β : Type} (xs : List α) (q : α → Bool) (g : α → List β) :
    (xs.filter q).flatMap g = xs.flatMap fun x => if q x then g x else [] := by
  induction xs with
  | nil => rfl
  | cons x xs ih =>
    rw [List.filter_cons, List.flatMap_cons, ← ih]
    cases q x <;> simp

theorem flatMap_opaqueCells {β : Type} (w : World) (g : Ivec3 → List β) :
    (opaqueCells w).flatMap g = w.chunks.keys.flatMap fun p => cells.flatMap fun l =>
      if Opaque (blockOf w.chunks (l + p)) then g (l + p) else [] := by
  rw [opaqueCells, flatMap_filter, List.flatMap_assoc]
  refine List.flatMap_congr fun p _ => ?_
  rw [List.flatMap_map]
  simp only [decide_eq_true_eq]

theorem kept_edges {w : World} (hw : ∀ p ∈ w.chunks.keys, p.Aligned ∧ p.Within (2 ^ 24 - 32)) :
    (keptTriangles w).flatMap triangleEdges = faceSystem.boundary directions (opaqueCells w) := by
  rw [FaceSystem.boundary, flatMap_opaqueCells, keptTriangles, List.flatMap_assoc]
  refine List.flatMap_congr fun p hp => ?_
  rw [List.flatMap_assoc]
  refine List.flatMap_congr fun l hl => ?_
  split
  · next ho => exact cell_edges (hw p hp).1 (hw p hp).2 hl ho
  · rfl

/-- **The terrain is watertight.** The triangles kept are those of the meshes of all
loaded chunks, and every directed edge among them occurs as often as its reverse,
across chunk borders and next to chunks that are not loaded. -/
theorem watertight (w : World) (hw : ∀ p ∈ w.chunks.keys, p.Aligned ∧ p.Within (2 ^ 24 - 32)) :
    (∀ p ∈ w.chunks.keys,
      createChunkVertices w.chunks p = .ok (cells.flatMap (cellOutput w.chunks p)) ∧
        triangles (cells.flatMap (cellOutput w.chunks p)) =
          cells.flatMap fun l => triangles (cellOutput w.chunks p l)) ∧
      ∀ u v, ((keptTriangles w).flatMap triangleEdges).count (u, v) =
        ((keptTriangles w).flatMap triangleEdges).count (v, u) := by
  refine ⟨fun p _ => createChunkVertices_cells w.chunks p, ?_⟩
  rw [kept_edges hw]
  exact faceSystem.boundary_balanced (by decide) (fun d => by cases d <;> decide)
    (opaqueCells_nodup fun p hp => (hw p hp).1)

/-- Two chunks side by side, one of stone and one of glass. -/
theorem watertight_two_chunks : ∃ w : World, w.chunks.keys = [⟨-16, 0, 0⟩, ⟨0, 0, 0⟩] ∧
    ∀ u v, ((keptTriangles w).flatMap triangleEdges).count (u, v) =
      ((keptTriangles w).flatMap triangleEdges).count (v, u) :=
  ⟨(World.empty.createOrReplaceChunk ⟨0, 0, 0⟩ (Vector.replicate 4096 3)).createOrReplaceChunk
      ⟨-16, 0, 0⟩ (Vector.replicate 4096 6), by decide, (watertight _ (by decide)).2⟩

end MyMinecraft.ChunkVertices
