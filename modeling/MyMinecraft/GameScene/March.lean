import MyMinecraft.GameScene.Clicks
import MyMinecraft.Lib.GridWalk

/-! The march of `dda`, in exact arithmetic.

`sideDist` is, on each axis, the length of `camera.front` times the time at which the
view ray leaves the cell's interval there, and the mask marks the axes where that
time is least. That holds before the loop on either side of 0 (`tracks_start`) and a turn
preserves it (`Tracks.advance`), so the cells examined are the cells the ray walks
through: `cellAt_walk`. -/
namespace MyMinecraft
open Scalar
open Lib.GridWalk (Inside Touches)

variable {K : Type} [Field K] [LinearOrder K] [FloorRing K] [SquareRoot K]

/-- The camera looks along no plane of the grid, and whatever stands for the length of its front is a
length. -/
structure Aimed (camera : Camera K) : Prop where
  moves : ∀ a, camera.front.get a ≠ 0
  length_pos : 0 < Glm.length camera.front

/-- The view ray. -/
def Aimed.ray {camera : Camera K} (h : Aimed camera) : Lib.GridWalk.Ray Axis K where
  origin := camera.position.get
  direction := camera.front.get
  moves := h.moves

section
variable {R : Type} [Scalar R] (camera : Camera R)

theorem advance_mapPos (v : Ray R) (a : Axis) : (camera.advance v).mapPos.get a =
    v.mapPos.get a + (camera.advance v).mask.get a * Glm.sign (camera.front.get a) := by
  cases a <;> rfl

theorem face_get (mask : Ivec3) (a : Axis) :
    (camera.face mask).get a = -mask.get a * Glm.sign (camera.front.get a) := by
  cases a <;> rfl

end

/-! ### glm, exactly -/

theorem sign_exact {x : K} (h : x ≠ 0) : Glm.sign x = if 0 < x then 1 else -1 := by
  simp only [Glm.sign, lt_exact, ofInt_exact, Int.cast_zero, decide_eq_true_eq]
  obtain hneg | hpos := h.lt_or_gt
  · rw [if_neg hneg.not_gt, if_pos hneg, if_neg hneg.not_gt]
    rfl
  · rw [if_pos hpos, if_neg hpos.not_gt, if_pos hpos]
    rfl

theorem step_exact (edge x : K) : Glm.step edge x = if edge ≤ x then 1 else 0 := by
  simp only [Glm.step, lt_exact, decide_eq_true_eq, ← not_le]
  split <;> simp_all

theorem advance_sideDist (camera : Camera K) (v : Ray K) (a : Axis) : (camera.advance v).sideDist.get a =
    v.sideDist.get a + (camera.advance v).mask.get a * |Glm.length camera.front / camera.front.get a| := by
  cases a <;> rfl

theorem step_mul (s t u : K) : Glm.step s t * Glm.step s u = if s ≤ t ∧ s ≤ u then 1 else 0 := by
  rw [step_exact, step_exact]
  split_ifs <;> simp_all

variable [IsStrictOrderedRing K]

/-- A length along the ray, from a distance on one axis. -/
theorem deltaDist_exact (front : K) {l : K} (hl : 0 < l) : |l / front| = l * (1 / |front|) := by
  rw [abs_div, abs_of_pos hl, mul_one_div]

/-- The distance to the first border, as the time the ray takes to it. -/
theorem firstSide_exact {front : K} (hfront : front ≠ 0) (position : K) {l : K} (hl : 0 < l) (mapPos : Int) :
    Camera.firstSide front position |l / front| mapPos =
      l * ((mapPos + (if 0 < front then 1 else 0) - position) / front) := by
  rw [deltaDist_exact front hl]
  show ((Glm.sign front : ℤ) * (mapPos - position) + (Glm.sign front : ℤ) * (1 / 2) + 1 / 2) * (l * (1 / |front|)) = _
  rw [sign_exact hfront]
  obtain hneg | hpos := hfront.lt_or_gt
  · rw [if_neg hneg.not_gt, if_neg hneg.not_gt, abs_of_neg hneg]
    push_cast
    field_simp
    ring
  · rw [if_pos hpos, if_pos hpos, abs_of_pos hpos]
    push_cast
    field_simp
    ring

/-! ### The loop keeps the times -/

/-- The loop's variables are those of a march that stands in the cell `c`. -/
structure Tracks {camera : Camera K} (h : Aimed camera) (c : Axis → ℤ) (v : Ray K) : Prop where
  mapPos : v.mapPos.get = c
  sideDist : ∀ a, v.sideDist.get a = Glm.length camera.front * h.ray.exit c a

variable {camera : Camera K} (h : Aimed camera)

theorem tracks_start (mask : Ivec3) : Tracks h h.ray.first (camera.startRay mask) where
  mapPos := by
    funext a
    cases a <;> rfl
  sideDist a := by
    cases a with
    | x => exact firstSide_exact (h.moves .x) _ h.length_pos _
    | y => exact firstSide_exact (h.moves .y) _ h.length_pos _
    | z => exact firstSide_exact (h.moves .z) _ h.length_pos _

variable {h} {c : Axis → ℤ} {v : Ray K}

/-- The comparisons are those of the times. -/
theorem Tracks.le_iff (ht : Tracks h c v) (a b : Axis) :
    v.sideDist.get a ≤ v.sideDist.get b ↔ h.ray.exit c a ≤ h.ray.exit c b := by
  rw [ht.sideDist, ht.sideDist, mul_le_mul_iff_right₀ h.length_pos]

/-- The mask marks the axes the ray crosses. -/
theorem Tracks.mask (ht : Tracks h c v) (a : Axis) :
    (camera.advance v).mask.get a = if h.ray.Leaves c a then 1 else 0 := by
  have hleaves : h.ray.Leaves c a ↔ v.sideDist.get a ≤ v.sideDist.get .x ∧
      v.sideDist.get a ≤ v.sideDist.get .y ∧ v.sideDist.get a ≤ v.sideDist.get .z := by
    rw [Lib.GridWalk.Ray.Leaves, Axis.forall_iff, ht.le_iff, ht.le_iff, ht.le_iff]
  cases a with
  | x =>
    refine (step_mul v.sideDist.x v.sideDist.y v.sideDist.z).trans (if_congr ?_ rfl rfl)
    rw [hleaves]
    simp [Vec3.get]
  | y =>
    refine (step_mul v.sideDist.y v.sideDist.z v.sideDist.x).trans (if_congr ?_ rfl rfl)
    rw [hleaves]
    simp [Vec3.get, and_comm]
  | z =>
    refine (step_mul v.sideDist.z v.sideDist.x v.sideDist.y).trans (if_congr ?_ rfl rfl)
    rw [hleaves]
    simp [Vec3.get]

/-- **A turn takes the march to the next cell of the ray**, ties included. -/
theorem Tracks.advance (ht : Tracks h c v) : Tracks h (h.ray.next c) (camera.advance v) where
  mapPos := by
    funext a
    rw [advance_mapPos, ht.mask, ht.mapPos, sign_exact (h.moves a), Lib.GridWalk.Ray.next, ite_mul, one_mul,
      zero_mul]
    rfl
  sideDist a := by
    rw [advance_sideDist, ht.mask, ht.sideDist, deltaDist_exact _ h.length_pos, h.ray.exit_next]
    split
    · rw [Int.cast_one, one_mul, mul_add]
      rfl
    · rw [Int.cast_zero, zero_mul, add_zero, add_zero]

theorem tracks_walk (h : Aimed camera) (mask : Ivec3) (n : ℕ) :
    Tracks h (h.ray.walk n) (camera.advance^[n] (camera.startRay mask)) := by
  induction n with
  | zero => exact tracks_start h mask
  | succ n ih =>
    rw [Function.iterate_succ_apply', h.ray.walk_succ]
    exact ih.advance

/-- **The cells examined are those the ray walks through.** -/
theorem cellAt_walk (h : Aimed camera) (n : ℕ) : (camera.cellAt n).get = h.ray.walk n :=
  (tracks_walk h 0 n).mapPos

/-- The face a hit is given: on each axis crossed into the cell, the way back. -/
theorem face_walk (h : Aimed camera) (mask : Ivec3) (n : ℕ) (a : Axis) :
    (camera.face (camera.advance^[n + 1] (camera.startRay mask)).mask).get a =
      if h.ray.Leaves (h.ray.walk n) a then -h.ray.heading a else 0 := by
  rw [face_get, Function.iterate_succ_apply', (tracks_walk h mask n).mask, sign_exact (h.moves a)]
  split
  · exact neg_one_mul _
  · rw [neg_zero, zero_mul]

/-! ### What is examined -/

/-- The times up to the last at which the ray is in the closed cell. -/
def Aimed.upTo (h : Aimed camera) (c : Ivec3) : Set K :=
  {t | 0 ≤ t ∧ ∃ t', t ≤ t' ∧ Touches (h.ray.point t') c.get}

/-- The first `n + 1` cells examined have among them, in order, every cell whose interior the ray meets
up to the last of them: each time has a turn, later times no earlier one, and the cell whose
interior the ray is in is the one examined in that turn. -/
def Visits (h : Aimed camera) (n : ℕ) : Prop :=
  ∃ turn : K → ℕ, MonotoneOn turn (h.upTo (camera.cellAt n)) ∧
    ∀ t ∈ h.upTo (camera.cellAt n), turn t ≤ n ∧
      ∀ c : Ivec3, Inside (h.ray.point t) c.get → c = camera.cellAt (turn t)

theorem exists_turn (h : Aimed camera) {n : ℕ} {t : K} (ht : t ∈ h.upTo (camera.cellAt n)) :
    ∃ i ≤ n, h.ray.During i t := by
  obtain ⟨hnonneg, t', hle, htouches⟩ := ht
  rw [cellAt_walk h] at htouches
  exact h.ray.exists_during hnonneg (hle.trans (h.ray.le_time_of_touches htouches))

theorem cell_of_inside (h : Aimed camera) {i : ℕ} {t : K} (ht : h.ray.During i t) {c : Ivec3}
    (hc : Inside (h.ray.point t) c.get) : c = camera.cellAt i := by
  apply Ivec3.get_injective
  rw [cellAt_walk h]
  exact Lib.GridWalk.eq_of_inside hc ht.touches

theorem visits (h : Aimed camera) (n : ℕ) : Visits h n := by
  classical
  choose! turn hturn hduring using fun t (ht : t ∈ h.upTo (camera.cellAt n)) => exists_turn h ht
  refine ⟨turn, fun s hs t ht hst => (hduring s hs).le (hduring t ht) hst, fun t ht => ⟨hturn t ht, fun c hc => ?_⟩⟩
  exact cell_of_inside h (hduring t ht) hc

/-- **The march finds the first block along the ray.** The cells examined are all those the ray
passes through, in order. A hit is a cell the ray meets, with a block in it and none in any cell
the ray has been inside before; without a hit, the 100 cells examined are air. -/
theorem dda_finds_first (h : Aimed camera) (w : World) (mask : Ivec3) (data : DdaData) :
    (∃ n data', dda w camera mask data = .ok data' ∧
        (⟨data'.xpos, data'.ypos, data'.zpos⟩ : Ivec3) = camera.cellAt n ∧ n < 100 ∧ Visits h n ∧
        (∃ t, 0 ≤ t ∧ Touches (h.ray.point t) (camera.cellAt n).get) ∧
        w.blockAt (camera.cellAt n) ≠ .ok 0 ∧
        ∀ t ∈ h.upTo (camera.cellAt n), ∀ c : Ivec3, Inside (h.ray.point t) c.get →
          c ≠ camera.cellAt n → w.blockAt c = .ok 0) ∨
      (dda w camera mask data = .ok data ∧ Visits h 99 ∧
        ∀ i < 100, w.blockAt (camera.cellAt i) = .ok 0) := by
  obtain ⟨n, data', hhit, hdda, hx, hy, hz, _⟩ | ⟨hair, hdda⟩ := dda_cases w camera mask data
  · refine .inl ⟨n, data', hdda, ?_, hhit.turn, visits h n, ⟨h.ray.time n, h.ray.time_nonneg n, ?_⟩, hhit.hit, ?_⟩
    · rw [hx, hy, hz]
    · rw [cellAt_walk h]
      exact (h.ray.during_time n).touches
    · intro t ht c hc hne
      obtain ⟨i, hi, hduring⟩ := exists_turn h ht
      obtain rfl := cell_of_inside h hduring hc
      exact hhit.before i (lt_of_le_of_ne hi fun heq => hne (congrArg camera.cellAt heq))
  · exact .inr ⟨hdda, visits h 99, hair⟩

/-- A camera in the middle of a cell, whose ray crosses two planes at a time. -/
def glancing : Camera ℚ := ⟨⟨1 / 2, 1 / 2, 1 / 2⟩, ⟨2 / 3, -1 / 3, 2 / 3⟩⟩

theorem aimed_glancing : Aimed glancing where
  moves a := by cases a <;> decide +kernel
  length_pos := by decide +kernel

/-- Stone below the cell, into which the ray goes. -/
def stoneBelow : World := World.empty.createOrReplaceChunk ⟨0, -16, 0⟩ (Vector.replicate 4096 3)

theorem dda_finds_first_glancing :
    dda stoneBelow glancing 0 ⟨0, 0, 0, 0, 0⟩ = .ok ⟨3, 1, -1, 1, ⟨0, 1, 0⟩⟩ ∧
      ∃ n, glancing.cellAt n = ⟨1, -1, 1⟩ ∧ Visits aimed_glancing n ∧
        (∃ t, 0 ≤ t ∧ Touches (aimed_glancing.ray.point t) (glancing.cellAt n).get) ∧
        ∀ t ∈ aimed_glancing.upTo (glancing.cellAt n), ∀ c : Ivec3, Inside (aimed_glancing.ray.point t) c.get →
          c ≠ glancing.cellAt n → stoneBelow.blockAt c = .ok 0 := by
  have hfound : dda stoneBelow glancing 0 ⟨0, 0, 0, 0, 0⟩ = .ok ⟨3, 1, -1, 1, ⟨0, 1, 0⟩⟩ := by decide +kernel
  obtain ⟨n, data', hdda, hcell, _, hvisits, hmet, _, hfirst⟩ | ⟨_, _, hair⟩ :=
    dda_finds_first aimed_glancing stoneBelow 0 ⟨0, 0, 0, 0, 0⟩
  · obtain rfl := Except.ok.inj (hdda.symm.trans hfound)
    exact ⟨hfound, n, hcell.symm, hvisits, hmet, hfirst⟩
  · have hstone : stoneBelow.blockAt (glancing.cellAt 2) ≠ .ok 0 := by decide +kernel
    exact absurd (hair 2 (by decide)) hstone

end MyMinecraft
