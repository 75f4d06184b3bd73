import MyMinecraft.ChunkVertices.Faces
import MyMinecraft.GameScene.Face

/-! What is under the crosshair.

A click edits what `dda` finds in the world; the player sees triangles. The cell before a hit is air, so the face
the march comes in by is drawn (`press_on_drawn_face`), and in exact arithmetic it is the
first thing the view ray meets of what is drawn, seen from its outside
(`crosshair`): what is clicked is what is seen. -/
namespace MyMinecraft
open ChunkVertices Shader
open Lib.GridWalk (Inside Touches)

/-- Every loaded chunk is where `int`s and `float`s agree. -/
def InRange (w : World) : Prop := ∀ p ∈ w.chunks.keys, p.Aligned ∧ p.Within (2 ^ 24 - 32)

/-! ### Where blocks are -/

theorem chunkCoord_far {x : Int} (h : 2 ^ 24 < x.natAbs) : 2 ^ 24 ≤ (chunkCoord x).natAbs := by
  have hround := Lib.Significand.le_roundNat h.le (by decide)
  unfold chunkCoord Lib.Significand.roundInt
  split <;> omega

/-- A block is in a loaded chunk, and not where coordinates round. -/
theorem within_of_block {w : World} (hw : InRange w) {c : Ivec3} (h : w.blockAt c ≠ .ok 0) :
    c.Within (2 ^ 24) ∧ (chunkOf c).Within (2 ^ 24 - 32) ∧ chunkOf c ∈ w.chunks.keys ∧
      ∃ bt, w.getBlockAt c.x c.y c.z = .ok bt ∧ bt ≠ 0 := by
  obtain ⟨bt, hbt⟩ := lookupBlock_ok w.chunks c
  have hread : w.blockAt c = .ok bt := hbt
  have hne : bt ≠ 0 := fun h0 => h (h0 ▸ hread)
  have hloaded : (⟨chunkCoord c.x, chunkCoord c.y, chunkCoord c.z⟩ : Ivec3) ∈ w.chunks.keys := by
    rw [← AList.mem_keys]
    by_contra hnot
    rw [lookupBlock] at hbt
    simp only [AList.lookup_eq_none.mpr hnot] at hbt
    exact hne (Except.ok.inj hbt).symm
  obtain ⟨hx, hy, hz⟩ := (hw _ hloaded).2
  have hnear {x : Int} (hchunk : (chunkCoord x).natAbs ≤ 2 ^ 24 - 32) : x.natAbs ≤ 2 ^ 24 := by
    by_contra hfar
    have := chunkCoord_far (not_le.mp hfar)
    omega
  have hposition : (⟨chunkCoord c.x, chunkCoord c.y, chunkCoord c.z⟩ : Ivec3) = chunkOf c := by
    rw [chunkCoord_eq (hnear hx), chunkCoord_eq (hnear hy), chunkCoord_eq (hnear hz), chunkOf]
  refine ⟨⟨hnear hx, hnear hy, hnear hz⟩, ?_, hposition ▸ hloaded, bt, hbt, hne⟩
  rw [← hposition]
  exact ⟨hx, hy, hz⟩

theorem chunkOf_aligned (c : Ivec3) : (chunkOf c).Aligned := by
  refine ⟨?_, ?_, ?_⟩ <;> simp only [chunkOf] <;> omega

/-- The mesh of the cell's chunk has the two triangles of the face. -/
def FaceDrawn (w : World) (c : Ivec3) (d : FaceOrientation) : Prop :=
  ∃ vertices, createChunkVertices w.chunks (chunkOf c) = .ok vertices ∧
    ∀ t ∈ faceTriangles d c, t ∈ triangles (vertices.map (worldpos (chunkOf c)))

/-- A face between a block and an empty cell is drawn. -/
theorem drawn_of_air {w : World} (hw : InRange w) {c : Ivec3} (h : w.blockAt c ≠ .ok 0) {d : FaceOrientation}
    (hair : w.blockAt (c + getFaceOrientationVector d) = .ok 0) : FaceDrawn w c d := by
  obtain ⟨_, hb, _, bt, hbt, hne⟩ := within_of_block hw h
  have hlist := createChunkVertices_blocks w.chunks (chunkOf_aligned c) hb
  refine ⟨_, hlist, fun t ht => (mem_mesh_iff (chunkOf_aligned c) hb hlist t).mpr ⟨c, d, rfl, ?_, ht⟩⟩
  exact ⟨bt, 0, hbt, hne, hair, by decide⟩

/-! ### The face that is clicked -/

section
variable {R : Type} [Scalar R]

/-- On target, both buttons send the cell of the hit, the right one with its face added. -/
theorem press_hits (s : GameScene R) (hs : s.captured = true) (hon : OnTarget s .right) (mask : Ivec3) :
    ∃ k s' c face, FirstHit s.world s.camera (k + 1) ∧ c = s.camera.cellAt (k + 1) ∧
      face = s.camera.face (s.camera.advance^[k + 1] (s.camera.startRay mask)).mask ∧
      leftClickCallback s .left mask = .ok (s', some ⟨BlockType.air.value, c.x, c.y, c.z⟩) ∧
      leftClickCallback s .right mask =
        .ok (s', some ⟨s.selectedCube.value, (c + face).x, (c + face).y, (c + face).z⟩) := by
  obtain ⟨⟨i, hi, hsolid⟩, hown⟩ := hon
  obtain ⟨j, data, hfirst, hdda, hx, hy, hz, hface⟩ | ⟨hair, _⟩ := dda_cases s.world s.camera mask s.ddaData
  · cases j with
    | zero => exact absurd hown hfirst.hit
    | succ k =>
      refine ⟨k, {s with ddaData := data}, ⟨data.xpos, data.ypos, data.zpos⟩, data.face, hfirst, ?_, hface,
        click_sends hs .left hdda, click_sends hs .right hdda⟩
      rw [hx, hy, hz]
  · exact absurd (hair i hi) hsolid

/-- The face of a hit, where it is one, is drawn. -/
theorem drawn_of_hit {w : World} (hw : InRange w) {camera : Camera R} {k : Nat} (hhit : FirstHit w camera (k + 1))
    {mask : Ivec3} {d : FaceOrientation}
    (hd : camera.face (camera.advance^[k + 1] (camera.startRay mask)).mask = getFaceOrientationVector d) :
    FaceDrawn w (camera.cellAt (k + 1)) d := by
  apply drawn_of_air hw hhit.hit
  rw [← hd, cellAt_face]
  exact hhit.before k k.lt_succ_self

/-- **A press is on a drawn face.** On target, in whatever arithmetic: a left press removes a block, a right press
fills the empty cell before it, and where the two cells share a face, that face is drawn. -/
theorem press_on_drawn_face (s : GameScene R) (hw : InRange s.world) (hs : s.captured = true)
    (hon : OnTarget s .right) (mask : Ivec3) :
    ∃ s' c face, leftClickCallback s .left mask = .ok (s', some ⟨BlockType.air.value, c.x, c.y, c.z⟩) ∧
      leftClickCallback s .right mask =
        .ok (s', some ⟨s.selectedCube.value, (c + face).x, (c + face).y, (c + face).z⟩) ∧
      s.world.blockAt c ≠ .ok 0 ∧ s.world.blockAt (c + face) = .ok 0 ∧
      ∀ d, face = getFaceOrientationVector d → FaceDrawn s.world c d := by
  obtain ⟨k, s', c, face, hhit, rfl, rfl, hleft, hright⟩ := press_hits s hs hon mask
  refine ⟨s', _, _, hleft, hright, hhit.hit, ?_, fun d hd => drawn_of_hit hw hhit hd⟩
  rw [cellAt_face]
  exact hhit.before k k.lt_succ_self

end

/-- A scene that looks at a face of a stone. -/
def sceneAtFace : GameScene ℚ := ⟨stoneAtOrigin, atFace, ⟨0, 0, 0, 0, 0⟩, .grass, true⟩

theorem inRange_atFace : InRange stoneAtOrigin := by unfold InRange; decide

theorem onTarget_atFace : OnTarget sceneAtFace .right := by
  refine ⟨⟨1, by decide, ?_⟩, ?_⟩ <;> decide +kernel

theorem press_on_drawn_face_atFace : ∃ c, sceneAtFace.world.blockAt c ≠ .ok 0 ∧
    ∃ s' p, leftClickCallback sceneAtFace .left 0 = .ok (s', some ⟨p, c.x, c.y, c.z⟩) := by
  obtain ⟨s', c, _, hleft, _, hsolid, _⟩ :=
    press_on_drawn_face sceneAtFace inRange_atFace rfl onTarget_atFace 0
  exact ⟨c, hsolid, s', _, hleft⟩

/-! ### What the view ray meets -/

section
variable {K : Type} [Field K] [LinearOrder K]

/-- The ray is in a triangle of a loaded chunk's mesh. -/
def Meets (w : World) (r : Lib.GridWalk.Ray Axis K) (u : K) : Prop :=
  ∃ p ∈ w.chunks.keys, ∃ vertices, createChunkVertices w.chunks p = .ok vertices ∧
    ∃ t ∈ triangles (vertices.map (worldpos p)), Contains t (r.point u)

/-- At time `s` the ray comes to the face of `c` in direction `d`, which is drawn and seen from outside, and
before that it meets nothing drawn but where it crosses two planes of the grid at once. -/
structure SeenFirst [FloorRing K] (w : World) (r : Lib.GridWalk.Ray Axis K) (c : Ivec3) (d : FaceOrientation) (s : K) :
    Prop where
  first : IsLeast {u | 0 ≤ u ∧ Touches (r.point u) c.get} s
  drawn : FaceDrawn w c d
  seen : ∃ t ∈ faceTriangles d c, Contains t (r.point s) ∧ (0 < s → FrontFacing t r.origin)
  before : ∀ u, 0 < u → u < s → Meets w r u → ∃ a b, a ≠ b ∧ r.Crosses u a ∧ r.Crosses u b

variable [IsStrictOrderedRing K]

/-- What is drawn where the ray is belongs to a block there. -/
theorem block_of_meets {w : World} (hw : InRange w) {r : Lib.GridWalk.Ray Axis K} {u : K} (h : Meets w r u) :
    ∃ c : Ivec3, w.blockAt c ≠ .ok 0 ∧ Touches (r.point u) c.get := by
  obtain ⟨p, hp, vertices, hlist, t, ht, hcontains⟩ := h
  obtain ⟨haligned, hnear⟩ := hw p hp
  obtain ⟨c, d, _, ⟨bt, _, hbt, hne, _⟩, hface⟩ := (mem_mesh_iff haligned hnear hlist t).mp ht
  have hread : w.blockAt c = .ok bt := hbt
  refine ⟨c, ?_, touches_of_contains hface hcontains⟩
  rw [hread]
  exact fun h0 => hne (Except.ok.inj h0)

variable [FloorRing K] [SquareRoot K] {camera : Camera K} {w : World} {k : Nat}

/-- Until the hit the ray meets air only, but for the cells it grazes. -/
theorem crosses_twice (h : Aimed camera) (hw : InRange w) (hhit : FirstHit w camera (k + 1)) {u : K} (hu : 0 < u)
    (hlt : u < h.ray.time k) (hmeets : Meets w h.ray u) :
    ∃ a b, a ≠ b ∧ h.ray.Crosses u a ∧ h.ray.Crosses u b := by
  obtain ⟨c, hsolid, htouches⟩ := block_of_meets hw hmeets
  obtain ⟨i, hi, hduring⟩ := h.ray.exists_during hu.le hlt.le
  by_contra hone
  have hone' : ∀ a b, h.ray.Crosses u a → h.ray.Crosses u b → a = b := by
    intro a b ha hb
    by_contra hne
    exact hone ⟨a, b, hne, ha, hb⟩
  have hair (j : Nat) (hj : j ≤ k) : c.get ≠ h.ray.walk j := by
    intro heq
    rw [← cellAt_walk h] at heq
    obtain rfl := Ivec3.get_injective heq
    exact hsolid (hhit.before j (Nat.lt_succ_of_le hj))
  obtain hown | ⟨htime, hnext⟩ := hduring.eq_of_touches hu htouches hone'
  · exact hair i hi hown
  · have hik : i < k := by
      rw [htime] at hlt
      exact h.ray.time_strictMono.lt_iff_lt.mp hlt
    exact hair (i + 1) hik hnext

/-- Where the ray comes in, it is on the plane of the face, and came from outside. -/
theorem onPlane_of_face (h : Aimed camera) {mask : Ivec3} {d : FaceOrientation}
    (hd : camera.face (camera.advance^[k + 1] (camera.startRay mask)).mask = getFaceOrientationVector d) :
    OnPlane (camera.cellAt (k + 1)) d (h.ray.point (h.ray.time k)) ∧
      (0 < h.ray.time k → Beyond (camera.cellAt (k + 1)) d h.ray.origin) := by
  have hface (a : Axis) : (getFaceOrientationVector d).get a =
      if h.ray.Leaves (h.ray.walk k) a then -h.ray.heading a else 0 := by rw [← hd, face_walk h]
  have hpoint (a : Axis) (hleaves : h.ray.Leaves (h.ray.walk k) a) : h.ray.point (h.ray.time k) a =
      (h.ray.walk k a + if 0 < h.ray.direction a then 1 else 0 : ℤ) := by
    rw [Lib.GridWalk.Ray.time, ← (h.ray.leaves_iff _ a).mp hleaves, h.ray.point_exit_eq]
  have hcell (a : Axis) (hleaves : h.ray.Leaves (h.ray.walk k) a) :
      (camera.cellAt (k + 1)).get a = h.ray.walk k a + h.ray.heading a := by
    rw [cellAt_walk h, h.ray.walk_succ, Lib.GridWalk.Ray.next, if_pos hleaves]
  have hcrossed (a : Axis) (ha : (getFaceOrientationVector d).get a ≠ 0) : h.ray.Leaves (h.ray.walk k) a := by
    by_contra hnot
    exact ha ((hface a).trans (if_neg hnot))
  -- on the axis of the face, which way the ray goes and where it is
  have hup (a : Axis) (ha : (getFaceOrientationVector d).get a = 1) : h.ray.direction a < 0 ∧
      h.ray.point (h.ray.time k) a = (camera.cellAt (k + 1)).get a + 1 := by
    have hleaves := hcrossed a (by omega)
    rw [hface, if_pos hleaves, Lib.GridWalk.Ray.heading] at ha
    obtain hpos | hneg := h.ray.lt_or_gt_zero a
    · rw [if_pos hpos] at ha
      omega
    · refine ⟨hneg, ?_⟩
      rw [hpoint a hleaves, hcell a hleaves, Lib.GridWalk.Ray.heading, if_neg hneg.not_gt, if_neg hneg.not_gt]
      push_cast
      ring
  have hdown (a : Axis) (ha : (getFaceOrientationVector d).get a = -1) : 0 < h.ray.direction a ∧
      h.ray.point (h.ray.time k) a = (camera.cellAt (k + 1)).get a := by
    have hleaves := hcrossed a (by omega)
    rw [hface, if_pos hleaves, Lib.GridWalk.Ray.heading] at ha
    obtain hpos | hneg := h.ray.lt_or_gt_zero a
    · refine ⟨hpos, ?_⟩
      rw [hpoint a hleaves, hcell a hleaves, Lib.GridWalk.Ray.heading, if_pos hpos, if_pos hpos]
    · rw [if_neg hneg.not_gt] at ha
      omega
  refine ⟨fun a => ⟨fun ha => (hup a ha).2, fun ha => (hdown a ha).2⟩, fun hpos => ?_⟩
  obtain ⟨a, hunit, _⟩ := direction_axis d
  refine ⟨a, ?_⟩
  obtain ha | ha := hunit
  · left
    obtain ⟨hdirection, hplane⟩ := hup a ha
    refine ⟨ha, ?_⟩
    rw [← hplane]
    exact add_lt_of_neg_right _ (mul_neg_of_pos_of_neg hpos hdirection)
  · right
    obtain ⟨hdirection, hplane⟩ := hdown a ha
    refine ⟨ha, ?_⟩
    rw [← hplane]
    exact lt_add_of_pos_right _ (mul_pos hpos hdirection)

/-- **What is clicked is what is seen.** On target, in exact arithmetic, where the hit has a face: the view
ray meets that face first of everything drawn, from its outside, and the packets of the two buttons are for the
cells on its two sides. -/
theorem crosshair (s : GameScene K) (h : Aimed s.camera) (hw : InRange s.world) (hs : s.captured = true)
    (hon : OnTarget s .right) (mask : Ivec3) :
    ∃ s' c face, leftClickCallback s .left mask = .ok (s', some ⟨BlockType.air.value, c.x, c.y, c.z⟩) ∧
      leftClickCallback s .right mask =
        .ok (s', some ⟨s.selectedCube.value, (c + face).x, (c + face).y, (c + face).z⟩) ∧
      ∀ d, face = getFaceOrientationVector d → ∃ time, SeenFirst s.world h.ray c d time := by
  obtain ⟨k, s', c, face, hhit, rfl, rfl, hleft, hright⟩ := press_hits s hs hon mask
  refine ⟨s', _, _, hleft, hright, fun d hd => ⟨h.ray.time k, ?_, drawn_of_hit hw hhit hd, ?_, ?_⟩⟩
  · rw [cellAt_walk h]
    exact h.ray.isLeast_touches k
  · obtain ⟨hplane, hbeyond⟩ := onPlane_of_face h hd
    have htouches : Touches (h.ray.point (h.ray.time k)) (s.camera.cellAt (k + 1)).get := by
      rw [cellAt_walk h]
      exact (h.ray.isLeast_touches k).1.2
    obtain ⟨t, ht, hcontains⟩ := exists_contains htouches hplane
    exact ⟨t, ht, hcontains, fun hpos => (frontFacing_iff ht _).mpr (hbeyond hpos)⟩
  · exact fun u hu hlt hmeets => crosses_twice h hw hhit hu hlt hmeets

end

theorem crosshair_atFace : ∃ time, SeenFirst stoneAtOrigin aimed_atFace.ray 0 .left time := by
  obtain ⟨s', c, face, hleft, hright, hseen⟩ :=
    crosshair sceneAtFace aimed_atFace inRange_atFace rfl onTarget_atFace 0
  have hfound : dda sceneAtFace.world sceneAtFace.camera 0 sceneAtFace.ddaData = .ok ⟨3, 0, 0, 0, ⟨-1, 0, 0⟩⟩ := by
    decide +kernel
  have hpacket := (click_sends rfl .left hfound).symm.trans hleft
  have hpacket' := (click_sends rfl .right hfound).symm.trans hright
  simp only [Except.ok.injEq, Prod.mk.injEq, Option.some.injEq, sent, UpdateBlock.mk.injEq, Ivec3.add_x, Ivec3.add_y,
    Ivec3.add_z] at hpacket hpacket'
  have hcell : c = 0 := by
    obtain ⟨_, _, hx, hy, hz⟩ := hpacket
    exact Ivec3.ext hx.symm hy.symm hz.symm
  have hface : face = ⟨-1, 0, 0⟩ := by
    obtain ⟨_, _, hx, hy, hz⟩ := hpacket
    obtain ⟨_, _, hx', hy', hz'⟩ := hpacket'
    ext <;> simp only <;> omega
  subst hcell
  exact hseen .left hface

end MyMinecraft
