import MyMinecraft.GameScene.March

/-! The face of a hit.

`dda_data.face` is made of the last mask, so it has a component for each axis the ray
crossed into the block. Where the ray comes in through an edge or a corner that is two
or three, and the cell before the hit touches the block there and nowhere else. So the
face is a face exactly when the ray enters the first block on its way across one plane:
`face_iff`. That is a matter of the ray and the world, without the loop (`FirstSolid`). -/
namespace MyMinecraft
open Lib.GridWalk (Inside Touches)

/-- A unit step along one axis. -/
def IsFace (v : Ivec3) : Prop := ∃ a, (v.get a = 1 ∨ v.get a = -1) ∧ ∀ b, b ≠ a → v.get b = 0

instance (v : Ivec3) : Decidable (IsFace v) := inferInstanceAs (Decidable (∃ _, _))

variable {K : Type} [Field K] [LinearOrder K] [IsStrictOrderedRing K] [FloorRing K] [SquareRoot K]

/-- At time `t` the ray is inside the cell `c`, which has a block, and it has been inside no other such
cell and crossed at most 99 times. -/
structure FirstSolid (w : World) (r : Lib.GridWalk.Ray Axis K) (c : Ivec3) (t : K) : Prop where
  nonneg : 0 ≤ t
  inside : Inside (r.point t) c.get
  solid : w.blockAt c ≠ .ok 0
  near : (r.crossings t).encard ≤ 99
  before : ∀ s, 0 ≤ s → s ≤ t → ∀ c' : Ivec3, Inside (r.point s) c'.get → c' ≠ c → w.blockAt c' = .ok 0

/-- The ray crosses just one plane when it first meets the first cell with a block. -/
def EntersByFace (w : World) (r : Lib.GridWalk.Ray Axis K) : Prop :=
  ∀ c t s, FirstSolid w r c t → IsLeast {u | 0 ≤ u ∧ Touches (r.point u) c.get} s → ∃! a, r.Crosses s a

variable {camera : Camera K} {w : World}

/-! ### The first block, by the march and by the ray -/

/-- A hit after the camera's own cell is the first block the ray is inside. -/
theorem firstSolid_of_hit (h : Aimed camera) {k : ℕ} (hhit : FirstHit w camera (k + 1)) :
    ∃ t, FirstSolid w h.ray (camera.cellAt (k + 1)) t := by
  obtain ⟨t, hlt, hgt⟩ := exists_between (h.ray.time_strictMono k.lt_succ_self)
  refine ⟨t, (h.ray.time_nonneg k).trans hlt.le, ?_, hhit.hit, ?_, fun s hs hst c' hc' hne => ?_⟩
  · rw [cellAt_walk h]
    exact h.ray.inside_walk hlt hgt
  · refine (h.ray.encard_crossings_le_iff 99 t).mpr (hgt.trans_le ?_)
    exact h.ray.time_strictMono.monotone (Nat.le_of_lt_succ hhit.turn)
  · obtain ⟨i, hi, hduring⟩ := h.ray.exists_during hs (hst.trans hgt.le)
    have hcell := cell_of_inside h hduring hc'
    rw [hcell]
    exact hhit.before i (lt_of_le_of_ne hi fun heq => hne (hcell.trans (congrArg camera.cellAt heq)))

/-- The first block the ray is inside is hit, and not in the camera's own cell if that is air. -/
theorem hit_of_firstSolid (h : Aimed camera) (hown : w.blockAt (camera.cellAt 0) = .ok 0) {c : Ivec3} {t : K}
    (hsolid : FirstSolid w h.ray c t) : ∃ k, FirstHit w camera (k + 1) ∧ c = camera.cellAt (k + 1) := by
  have hlt : t < h.ray.time 99 := (h.ray.encard_crossings_le_iff 99 t).mp hsolid.near
  obtain ⟨i, hi, hduring⟩ := h.ray.exists_during hsolid.nonneg hlt.le
  have hcell := cell_of_inside h hduring hsolid.inside
  cases i with
  | zero => exact absurd (hcell ▸ hown) hsolid.solid
  | succ k =>
    refine ⟨k, ⟨Nat.lt_succ_of_le hi, hcell ▸ hsolid.solid, fun j hj => ?_⟩, hcell⟩
    cases j with
    | zero => exact hown
    | succ j =>
      -- the ray was inside that cell earlier, and left it for good
      have hleft : h.ray.time (j + 1) < t := hduring.since (j + 1) hj
      obtain ⟨s, hlow, hhigh⟩ := exists_between (h.ray.time_strictMono j.lt_succ_self)
      refine hsolid.before s ((h.ray.time_nonneg j).trans hlow.le) (hhigh.trans hleft).le _ ?_ fun heq => ?_
      · rw [cellAt_walk h]
        exact h.ray.inside_walk hlow hhigh
      · have htouches := hsolid.inside.touches
        rw [← heq, cellAt_walk h] at htouches
        exact absurd (h.ray.le_time_of_touches htouches) hleft.not_ge

/-! ### The face -/

theorem isFace_walk (h : Aimed camera) (mask : Ivec3) (k : ℕ) :
    IsFace (camera.face (camera.advance^[k + 1] (camera.startRay mask)).mask) ↔
      ∃! a, h.ray.Crosses (h.ray.time k) a := by
  simp only [IsFace, face_walk h, h.ray.crosses_time_iff]
  have hone (a : Axis) : -h.ray.heading a = 1 ∨ -h.ray.heading a = -1 := by
    obtain heq | heq := h.ray.heading_eq a <;> rw [heq]
    · exact .inr rfl
    · exact .inl (neg_neg 1)
  constructor
  · intro hface
    obtain ⟨a, hunit, hrest⟩ := hface
    have hleaves : h.ray.Leaves (h.ray.walk k) a := by
      by_contra hnot
      rw [if_neg hnot] at hunit
      omega
    refine ⟨a, hleaves, fun b hb => ?_⟩
    by_contra hne
    have hzero := hrest b hne
    rw [if_pos hb] at hzero
    have hb' := hone b
    omega
  · intro hunique
    obtain ⟨a, ha, hrest⟩ := hunique
    refine ⟨a, ?_, fun b hb => if_neg fun hleaves => hb (hrest b hleaves)⟩
    rw [if_pos ha]
    exact hone a

/-- A hit has a face, the cell examined before it is on the other side of that face, and it is air. -/
def FacesRight (w : World) (camera : Camera K) (mask : Ivec3) (data : DdaData) : Prop :=
  ∀ i data', FirstHit w camera i → dda w camera mask data = .ok data' →
    IsFace data'.face ∧ ∃ k, i = k + 1 ∧
      (⟨data'.xpos, data'.ypos, data'.zpos⟩ : Ivec3) + data'.face = camera.cellAt k ∧
      w.blockAt (camera.cellAt k) = .ok 0

/-- **The face of a hit is a face exactly when the ray enters the block across one plane**, the camera
being in air. -/
theorem face_iff (h : Aimed camera) (w : World) (mask : Ivec3) (data : DdaData)
    (hown : w.blockAt ⟨⌊camera.position.x⌋, ⌊camera.position.y⌋, ⌊camera.position.z⌋⟩ = .ok 0) :
    FacesRight w camera mask data ↔ EntersByFace w h.ray := by
  have hown' : w.blockAt (camera.cellAt 0) = .ok 0 := hown
  constructor
  · intro hfaces c t s hsolid hleast
    obtain ⟨k, hhit, rfl⟩ := hit_of_firstSolid h hown' hsolid
    rw [cellAt_walk h] at hleast
    obtain rfl := hleast.unique (h.ray.isLeast_touches k)
    obtain ⟨data', hdda, _, hface⟩ := dda_hit hhit mask data
    rw [← isFace_walk h mask k, ← hface]
    exact (hfaces (k + 1) data' hhit hdda).1
  · intro henters i data' hhit hdda
    obtain ⟨found, hfound, hpos, hface⟩ := dda_hit hhit mask data
    obtain rfl := Except.ok.inj (hfound.symm.trans hdda)
    cases i with
    | zero => exact absurd hown' hhit.hit
    | succ k =>
      obtain ⟨t, hsolid⟩ := firstSolid_of_hit h hhit
      have hleast := h.ray.isLeast_touches k
      rw [← cellAt_walk h] at hleast
      refine ⟨?_, k, rfl, ?_, hhit.before k k.lt_succ_self⟩
      · rw [hface, isFace_walk h]
        exact henters _ t _ hsolid hleast
      · rw [hpos, hface]
        exact cellAt_face camera mask k

/-- A chunk of stone at the origin. -/
def stoneAtOrigin : World := World.empty.createOrReplaceChunk ⟨0, 0, 0⟩ (Vector.replicate 4096 3)

/-- A camera that looks at one of its faces. -/
def atFace : Camera ℚ := ⟨⟨-1 / 2, 1 / 2, 1 / 4⟩, ⟨2 / 3, -1 / 3, 2 / 3⟩⟩

theorem aimed_atFace : Aimed atFace where
  moves a := by cases a <;> decide +kernel
  length_pos := by decide +kernel

theorem face_iff_atFace : EntersByFace stoneAtOrigin aimed_atFace.ray := by
  apply (face_iff aimed_atFace stoneAtOrigin 0 ⟨0, 0, 0, 0, 0⟩ (by decide +kernel)).mp
  intro i data' hhit hdda
  have hfirst : FirstHit stoneAtOrigin atFace 1 := ⟨by decide, by decide +kernel, by decide +kernel⟩
  obtain rfl := firstHit_unique hfirst hhit
  have hfound : dda stoneAtOrigin atFace 0 ⟨0, 0, 0, 0, 0⟩ = .ok ⟨3, 0, 0, 0, ⟨-1, 0, 0⟩⟩ := by decide +kernel
  obtain rfl := Except.ok.inj (hfound.symm.trans hdda)
  exact ⟨by decide, 0, rfl, by decide +kernel, by decide +kernel⟩

/-- A camera that looks at one of its edges. -/
def atEdge : Camera ℚ := ⟨⟨-1 / 2, 1 / 2, -1 / 2⟩, ⟨2 / 3, -1 / 3, 2 / 3⟩⟩

theorem aimed_atEdge : Aimed atEdge where
  moves a := by cases a <;> decide +kernel
  length_pos := by decide +kernel

/-- The face of a block hit on its edge: the cell on its other side does not share a face with it. -/
theorem edge_is_no_face : Aimed atEdge ∧ stoneAtOrigin.blockAt ⟨-1, 0, -1⟩ = .ok 0 ∧
    dda stoneAtOrigin atEdge 0 ⟨0, 0, 0, 0, 0⟩ = .ok ⟨3, 0, 0, 0, ⟨-1, 0, -1⟩⟩ ∧
    ¬ FacesRight stoneAtOrigin atEdge 0 ⟨0, 0, 0, 0, 0⟩ := by
  have hfound : dda stoneAtOrigin atEdge 0 ⟨0, 0, 0, 0, 0⟩ = .ok ⟨3, 0, 0, 0, ⟨-1, 0, -1⟩⟩ := by decide +kernel
  refine ⟨aimed_atEdge, by decide +kernel, hfound, fun hfaces => ?_⟩
  have hfirst : FirstHit stoneAtOrigin atEdge 1 := ⟨by decide, by decide +kernel, by decide +kernel⟩
  exact absurd (hfaces 1 _ hfirst hfound).1 (by decide)

end MyMinecraft
