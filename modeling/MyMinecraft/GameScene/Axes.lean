import MyMinecraft.GameScene.March
import MyMinecraft.Lib.Extended

/-! The march of a camera that looks along a plane of the grid.

With a pitch of 0 `camera.front.y` is 0, and `dda` divides by it. On such an axis `deltaDist` and
`sideDist` are infinite, and the first turn makes `sideDist` a `nan`, by the product of a
mask of 0 and an infinite `deltaDist`. It does no harm: no comparison with an infinity or
a `nan` is lost by another axis, and where the axis itself wins, `rayStep` is 0. So the march is
the walk of the ray through the cells on the axes along which it moves (`cellAt_extended`). -/
namespace MyMinecraft
open Scalar
open Lib.Extended (Number)
open Lib.Extended.Number (fin inf nan)
open Lib.GridWalk (Inside Touches)

section
variable {K : Type} [Field K] [LinearOrder K] [FloorRing K] [SquareRoot K]

/-- Exact arithmetic with infinities. -/
instance extendedScalar : Scalar (Number K) where
  ofInt n := .fin n
  half := .fin Scalar.half
  abs := Number.abs
  sqrt := Number.sqrt SquareRoot.sqrt
  floor := Number.floor
  lt := Number.lt

def Vec3.extended (v : Vec3 K) : Vec3 (Number K) := ⟨.fin v.x, .fin v.y, .fin v.z⟩

def Camera.extended (camera : Camera K) : Camera (Number K) := ⟨camera.position.extended, camera.front.extended⟩

/-- The camera looks somewhere, and whatever stands for the length of its front is a length. -/
structure Looks (camera : Camera K) : Prop where
  somewhere : ∃ a, camera.front.get a ≠ 0
  length_pos : 0 < Glm.length camera.front

/-- The axes along which the view ray moves. -/
abbrev Moving (camera : Camera K) : Type := {a : Axis // camera.front.get a ≠ 0}

theorem Looks.nonempty {camera : Camera K} (h : Looks camera) : Nonempty (Moving camera) := by
  obtain ⟨a, ha⟩ := h.somewhere
  exact ⟨⟨a, ha⟩⟩

/-- The view ray, on the axes along which it moves. -/
def Camera.movingRay (camera : Camera K) : Lib.GridWalk.Ray (Moving camera) K where
  origin a := camera.position.get a
  direction a := camera.front.get a
  moves a := a.2

/-- A cell, from its coordinates on these axes; on the others it is the camera's. -/
def Camera.cell (camera : Camera K) (c : Moving camera → ℤ) (a : Axis) : ℤ :=
  if h : camera.front.get a ≠ 0 then c ⟨a, h⟩ else ⌊camera.position.get a⌋

/-! ### The operations -/

theorem sign_extended (x : K) : Glm.sign (fin x) = Glm.sign x := rfl

theorem sign_zero : Glm.sign (0 : K) = 0 := by
  simp [Glm.sign]

theorem step_fin (x y : K) : Glm.step (fin x) (fin y) = if x ≤ y then 1 else 0 := step_exact x y

theorem step_inf (x : K) : Glm.step (fin x) (inf false) = 1 := rfl

theorem step_nan (a : Number K) : Glm.step a nan = 1 := by
  show (if Number.lt nan a then 0 else 1) = (1 : ℤ)
  rw [Number.nan_lt]
  rfl

theorem step_zero_or_one {R : Type} [Scalar R] (s t : R) : Glm.step s t = 0 ∨ Glm.step s t = 1 := by
  unfold Glm.step
  split
  · exact .inl rfl
  · exact .inr rfl

theorem firstSide_fin (front position deltaDist : K) (mapPos : ℤ) :
    Camera.firstSide (fin front) (fin position) (fin deltaDist) mapPos =
      fin (Camera.firstSide front position deltaDist mapPos) := by
  unfold Camera.firstSide
  rw [sign_extended]
  show (fin ((Glm.sign front : ℤ) : K) * (fin (mapPos : K) - fin position) + fin ((Glm.sign front : ℤ) : K) *
    fin (1 / 2) + fin (1 / 2)) * fin deltaDist = _
  rw [Number.fin_sub]
  rfl

/-! ### The loop keeps the times -/

/-- The loop's variables are those of a march that stands in the cell `c`. -/
structure Marches (camera : Camera K) (c : Moving camera → ℤ) (v : Ray (Number K)) : Prop where
  mapPos : v.mapPos.get = camera.cell c
  moving : ∀ a : Moving camera, v.sideDist.get a =
    fin (Glm.length camera.front * camera.movingRay.exit c a)
  still : ∀ a, camera.front.get a = 0 → v.sideDist.get a = inf false ∨ v.sideDist.get a = nan

theorem extended_mapPos (camera : Camera K) (v : Ray (Number K)) (a : Axis) :
    (camera.extended.advance v).mapPos.get a =
      v.mapPos.get a + (camera.extended.advance v).mask.get a * Glm.sign (camera.front.get a) := by
  cases a <;> rfl

theorem extended_sideDist (camera : Camera K) (v : Ray (Number K)) (a : Axis) :
    (camera.extended.advance v).sideDist.get a = v.sideDist.get a +
      fin ((camera.extended.advance v).mask.get a : K) *
        Number.abs (fin (Glm.length camera.front) / fin (camera.front.get a)) := by
  cases a <;> rfl

/-- The mask on an axis: it wins against the two others. -/
theorem extended_mask (camera : Camera K) (v : Ray (Number K)) (a : Axis) :
    ∃ b c, (∀ d : Axis, d = a ∨ d = b ∨ d = c) ∧ (camera.extended.advance v).mask.get a =
      Glm.step (v.sideDist.get a) (v.sideDist.get b) * Glm.step (v.sideDist.get a) (v.sideDist.get c) := by
  cases a with
  | x => exact ⟨.y, .z, by decide, rfl⟩
  | y => exact ⟨.z, .x, by decide, rfl⟩
  | z => exact ⟨.x, .y, by decide, rfl⟩

theorem startRay_sideDist (camera : Camera K) (mask : Ivec3) (a : Axis) :
    (camera.extended.startRay mask).sideDist.get a =
      Camera.firstSide (fin (camera.front.get a)) (fin (camera.position.get a))
        (Number.abs (fin (Glm.length camera.front) / fin (camera.front.get a))) ⌊camera.position.get a⌋ := by
  cases a <;> rfl

theorem startRay_mapPos (camera : Camera K) (mask : Ivec3) (a : Axis) :
    (camera.extended.startRay mask).mapPos.get a = ⌊camera.position.get a⌋ := by
  cases a <;> rfl

variable [IsStrictOrderedRing K] {camera : Camera K}

theorem marches_start (h : Looks camera) (mask : Ivec3) :
    Marches camera camera.movingRay.first (camera.extended.startRay mask) where
  mapPos := by
    funext a
    rw [startRay_mapPos, Camera.cell]
    split <;> rfl
  moving a := by
    rw [startRay_sideDist, Number.fin_div _ a.2, Number.abs_fin, firstSide_fin,
      firstSide_exact a.2 _ h.length_pos]
    rfl
  still a ha := by
    left
    have hhalf : (0 : K) < 1 / 2 := one_half_pos
    rw [startRay_sideDist, ha, Number.div_zero_of_pos h.length_pos, Number.abs_inf]
    unfold Camera.firstSide
    rw [sign_extended, sign_zero]
    show (fin ((0 : ℤ) : K) * (fin _ - fin _) + fin ((0 : ℤ) : K) * fin (1 / 2) + fin (1 / 2)) * inf false = _
    rw [Number.fin_sub, Number.fin_mul, Number.fin_mul, Number.fin_add, Number.fin_add, Int.cast_zero,
      zero_mul, zero_mul, zero_add, zero_add]
    exact Number.mul_inf_of_pos hhalf

variable {c : Moving camera → ℤ} {v : Ray (Number K)}

/-- An axis along which the ray moves loses only to another such axis. -/
theorem Marches.step_eq (hm : Marches camera c v) (h : Looks camera) (a : Moving camera) (b : Axis) :
    Glm.step (v.sideDist.get a) (v.sideDist.get b) =
      if ∀ hb : camera.front.get b ≠ 0, camera.movingRay.exit c a ≤ camera.movingRay.exit c ⟨b, hb⟩
        then 1 else 0 := by
  rw [hm.moving a]
  by_cases hb : camera.front.get b = 0
  · rw [if_pos fun hne => absurd hb hne]
    obtain hside | hside := hm.still b hb
    · rw [hside]
      exact step_inf _
    · rw [hside]
      exact step_nan _
  · rw [hm.moving ⟨b, hb⟩, step_fin]
    refine if_congr ?_ rfl rfl
    rw [mul_le_mul_iff_right₀ h.length_pos]
    exact ⟨fun hle _ => hle, fun hall => hall hb⟩

/-- The mask marks the axes the ray crosses. -/
theorem Marches.mask (hm : Marches camera c v) (h : Looks camera) (a : Moving camera) :
    (camera.extended.advance v).mask.get a = if camera.movingRay.Leaves c a then 1 else 0 := by
  obtain ⟨b, d, hall, hmask⟩ := extended_mask camera v a
  have hleaves : camera.movingRay.Leaves c a ↔
      (∀ hb : camera.front.get b ≠ 0, camera.movingRay.exit c a ≤ camera.movingRay.exit c ⟨b, hb⟩) ∧
      ∀ hd : camera.front.get d ≠ 0, camera.movingRay.exit c a ≤ camera.movingRay.exit c ⟨d, hd⟩ := by
    constructor
    · exact fun hle => ⟨fun hb => hle ⟨b, hb⟩, fun hd => hle ⟨d, hd⟩⟩
    · intro hboth e
      obtain heq | heq | heq := hall e
      · exact (congrArg (camera.movingRay.exit c) (Subtype.ext heq.symm)).le
      · obtain rfl := heq
        exact hboth.1 e.2
      · obtain rfl := heq
        exact hboth.2 e.2
  rw [hmask, hm.step_eq h, hm.step_eq h, if_congr hleaves rfl rfl]
  split_ifs <;> simp_all

omit [SquareRoot K] [IsStrictOrderedRing K] in
/-- Zero or one of an infinite width, added to an infinity or a `nan`. -/
theorem still_advance {s : Number K} (hs : s = inf false ∨ s = nan) {m : ℤ} (hm : m = 0 ∨ m = 1) :
    s + fin (m : K) * inf false = inf false ∨ s + fin (m : K) * inf false = nan := by
  obtain rfl | rfl := hm
  · right
    rw [Int.cast_zero, Number.zero_mul_inf, Number.add_nan]
  · rw [Int.cast_one, Number.mul_inf_of_pos one_pos]
    obtain rfl | rfl := hs
    · exact .inl rfl
    · exact .inr rfl

/-- **A turn takes the march to the next cell of the ray**; an axis on which it stands stays as it is. -/
theorem Marches.advance (hm : Marches camera c v) (h : Looks camera) :
    Marches camera (camera.movingRay.next c) (camera.extended.advance v) where
  mapPos := by
    funext a
    rw [extended_mapPos, hm.mapPos]
    by_cases ha : camera.front.get a = 0
    · rw [ha, sign_zero, mul_zero, add_zero, Camera.cell, Camera.cell, dif_neg (not_not.mpr ha),
        dif_neg (not_not.mpr ha)]
    · rw [hm.mask h ⟨a, ha⟩, sign_exact ha, Camera.cell, Camera.cell, dif_pos ha, dif_pos ha,
        Lib.GridWalk.Ray.next, ite_mul, one_mul, zero_mul]
      rfl
  moving a := by
    rw [extended_sideDist, hm.mask h, hm.moving, Number.fin_div _ a.2, Number.abs_fin, Number.fin_mul,
      Number.fin_add, deltaDist_exact _ h.length_pos, camera.movingRay.exit_next]
    congr 1
    split
    · rw [Int.cast_one, one_mul, mul_add]
      rfl
    · rw [Int.cast_zero, zero_mul, add_zero, add_zero]
  still a ha := by
    rw [extended_sideDist, ha, Number.div_zero_of_pos h.length_pos, Number.abs_inf]
    apply still_advance (hm.still a ha)
    obtain ⟨b, d, _, hmask⟩ := extended_mask camera v a
    rw [hmask]
    obtain hb | hb := step_zero_or_one (v.sideDist.get a) (v.sideDist.get b)
    · exact .inl (by rw [hb, zero_mul])
    · rw [hb, one_mul]
      exact step_zero_or_one _ _

theorem marches_walk (h : Looks camera) (mask : Ivec3) (n : ℕ) :
    Marches camera (camera.movingRay.walk n) (camera.extended.advance^[n] (camera.extended.startRay mask)) := by
  induction n with
  | zero => exact marches_start h mask
  | succ n ih =>
    rw [Function.iterate_succ_apply', camera.movingRay.walk_succ]
    exact ih.advance h

/-- The cells examined are those the ray walks through. -/
theorem cellAt_extended (h : Looks camera) (n : ℕ) :
    (camera.extended.cellAt n).get = camera.cell (camera.movingRay.walk n) := (marches_walk h 0 n).mapPos

/-! ### What is examined -/

/-- The view ray is inside the cell: between its planes on the axes along which it moves, and on the
others in the interval the camera is in. -/
def Camera.Passes (camera : Camera K) (t : K) (c : Ivec3) : Prop :=
  ∀ a, if camera.front.get a = 0 then c.get a = ⌊camera.position.get a⌋
    else c.get a < camera.position.get a + t * camera.front.get a ∧
      camera.position.get a + t * camera.front.get a < c.get a + 1

/-- The same with the planes. -/
def Camera.Meets (camera : Camera K) (t : K) (c : Ivec3) : Prop :=
  ∀ a, if camera.front.get a = 0 then c.get a = ⌊camera.position.get a⌋
    else c.get a ≤ camera.position.get a + t * camera.front.get a ∧
      camera.position.get a + t * camera.front.get a ≤ c.get a + 1

/-- The times up to the last at which the ray meets the cell. -/
def Camera.upTo (camera : Camera K) (c : Ivec3) : Set K := {t | 0 ≤ t ∧ ∃ t', t ≤ t' ∧ camera.Meets t' c}

/-- The first `n + 1` cells examined have among them, in order, every cell the ray is inside up to the last
of them. -/
def Camera.Examines (camera : Camera K) (n : ℕ) : Prop :=
  ∃ turn : K → ℕ, MonotoneOn turn (camera.upTo (camera.extended.cellAt n)) ∧
    ∀ t ∈ camera.upTo (camera.extended.cellAt n), turn t ≤ n ∧
      ∀ c, camera.Passes t c → c = camera.extended.cellAt (turn t)

omit [IsStrictOrderedRing K] in
theorem meets_iff {t : K} {c' : Ivec3} (hc : c'.get = camera.cell c) :
    camera.Meets t c' ↔ Touches (camera.movingRay.point t) c := by
  constructor
  · intro hmeets a
    have ha := hmeets a
    rw [if_neg a.2, hc, Camera.cell, dif_pos a.2] at ha
    exact ha
  · intro htouches a
    rw [hc, Camera.cell]
    split
    · next ha => rw [dif_neg (not_not.mpr ha)]
    · next ha => exact htouches ⟨a, ha⟩

theorem exists_turn_extended [Nonempty (Moving camera)] (h : Looks camera) {n : ℕ} {t : K}
    (ht : t ∈ camera.upTo (camera.extended.cellAt n)) :
    ∃ i ≤ n, camera.movingRay.During i t := by
  obtain ⟨hnonneg, t', hle, hmeets⟩ := ht
  have htouches := (meets_iff (cellAt_extended h n)).mp hmeets
  exact camera.movingRay.exists_during hnonneg (hle.trans (camera.movingRay.le_time_of_touches htouches))

theorem cell_of_passes [Nonempty (Moving camera)] (h : Looks camera) {i : ℕ} {t : K}
    (ht : camera.movingRay.During i t) {c' : Ivec3} (hc : camera.Passes t c') :
    c' = camera.extended.cellAt i := by
  have hinside : Inside (camera.movingRay.point t) fun a : Moving camera => c'.get a := by
    intro a
    have ha := hc a
    rwa [if_neg a.2] at ha
  have hwalk := Lib.GridWalk.eq_of_inside hinside ht.touches
  apply Ivec3.get_injective
  rw [cellAt_extended h]
  funext a
  by_cases ha : camera.front.get a = 0
  · have hstill := hc a
    rw [if_pos ha] at hstill
    rw [hstill, Camera.cell, dif_neg (not_not.mpr ha)]
  · rw [Camera.cell, dif_pos ha]
    exact congrFun hwalk ⟨a, ha⟩

theorem examines (h : Looks camera) (n : ℕ) : camera.Examines n := by
  classical
  have := h.nonempty
  choose! turn hturn hduring using
    fun t (ht : t ∈ camera.upTo (camera.extended.cellAt n)) => exists_turn_extended h ht
  refine ⟨turn, fun s hs t ht hst => (hduring s hs).le (hduring t ht) hst, fun t ht => ⟨hturn t ht, fun c hc => ?_⟩⟩
  exact cell_of_passes h (hduring t ht) hc

/-- **The march finds the first block also along planes and lines of the grid**, whatever the divisions by
zero leave behind. The cells examined are all those the ray is inside, in order; a hit is a cell the ray meets,
with a block in it and none in any cell the ray is inside before, and from it the face leads to the cell
examined before; without a hit the 100 cells examined are air. -/
theorem dda_finds_first_extended (h : Looks camera) (w : World) (mask : Ivec3) (data : DdaData) :
    (∃ n data', dda w camera.extended mask data = .ok data' ∧
        (⟨data'.xpos, data'.ypos, data'.zpos⟩ : Ivec3) = camera.extended.cellAt n ∧ n < 100 ∧
        camera.Examines n ∧ (∃ t, 0 ≤ t ∧ camera.Meets t (camera.extended.cellAt n)) ∧
        w.blockAt (camera.extended.cellAt n) ≠ .ok 0 ∧
        (∀ k, n = k + 1 → camera.extended.cellAt n + data'.face = camera.extended.cellAt k) ∧
        ∀ t ∈ camera.upTo (camera.extended.cellAt n), ∀ c, camera.Passes t c →
          c ≠ camera.extended.cellAt n → w.blockAt c = .ok 0) ∨
      (dda w camera.extended mask data = .ok data ∧ camera.Examines 99 ∧
        ∀ i < 100, w.blockAt (camera.extended.cellAt i) = .ok 0) := by
  have := h.nonempty
  obtain ⟨n, data', hhit, hdda, hx, hy, hz, hface⟩ | ⟨hair, hdda⟩ := dda_cases w camera.extended mask data
  · refine .inl ⟨n, data', hdda, ?_, hhit.turn, examines h n, ?_, hhit.hit, ?_, ?_⟩
    · rw [hx, hy, hz]
    · refine ⟨camera.movingRay.time n, camera.movingRay.time_nonneg n, ?_⟩
      exact (meets_iff (cellAt_extended h n)).mpr (camera.movingRay.during_time n).touches
    · intro k hk
      subst hk
      rw [hface]
      exact cellAt_face camera.extended mask k
    · intro t ht c hc hne
      obtain ⟨i, hi, hduring⟩ := exists_turn_extended h ht
      obtain rfl := cell_of_passes h hduring hc
      exact hhit.before i (lt_of_le_of_ne hi fun heq => hne (congrArg camera.extended.cellAt heq))
  · exact .inr ⟨hdda, examines h 99, hair⟩

/-- A camera that looks along `x`, from a corner of the grid. -/
def levelled : Camera ℚ := ⟨⟨0, 0, 0⟩, ⟨1, 0, 0⟩⟩

theorem looks_levelled : Looks levelled where
  somewhere := ⟨.x, by decide +kernel⟩
  length_pos := by decide +kernel

/-- Stone where the ray comes to its 16th cell. -/
def stoneAhead : World := World.empty.createOrReplaceChunk ⟨16, 0, 0⟩ (Vector.replicate 4096 3)

theorem dda_finds_first_levelled :
    dda stoneAhead levelled.extended 0 ⟨0, 0, 0, 0, 0⟩ = .ok ⟨3, 16, 0, 0, ⟨-1, 0, 0⟩⟩ ∧
      ∃ n, levelled.extended.cellAt n = ⟨16, 0, 0⟩ ∧ levelled.Examines n ∧
        (∃ t, 0 ≤ t ∧ levelled.Meets t (levelled.extended.cellAt n)) ∧
        ∀ t ∈ levelled.upTo (levelled.extended.cellAt n), ∀ c, levelled.Passes t c →
          c ≠ levelled.extended.cellAt n → stoneAhead.blockAt c = .ok 0 := by
  have hfound : dda stoneAhead levelled.extended 0 ⟨0, 0, 0, 0, 0⟩ = .ok ⟨3, 16, 0, 0, ⟨-1, 0, 0⟩⟩ := by
    decide +kernel
  obtain ⟨n, data', hdda, hcell, _, hexamines, hmet, _, _, hfirst⟩ | ⟨_, _, hair⟩ :=
    dda_finds_first_extended looks_levelled stoneAhead 0 ⟨0, 0, 0, 0, 0⟩
  · obtain rfl := Except.ok.inj (hdda.symm.trans hfound)
    exact ⟨hfound, n, hcell.symm, hexamines, hmet, hfirst⟩
  · have hstone : stoneAhead.blockAt (levelled.extended.cellAt 16) ≠ .ok 0 := by decide +kernel
    exact absurd (hair 16 (by decide)) hstone

end
end MyMinecraft
