import MyMinecraft.Client
import MyMinecraft.GameScene

/-! What a click edits.

`dda` returns the same whether it hits or not, and the callback sends `dda_data`
either way. So a press is right about what it edits exactly when its own march hits
something, and for a right press hits it after the camera's own cell, where there
is a cell before the hit and a mask to find it by: `click_iff`. Nothing else in the
history matters, so a run is right exactly when each of its presses is. -/
namespace MyMinecraft
variable {R : Type} [Scalar R]

/-! ### A march -/

/-- The march hits in turn `i`. -/
structure FirstHit (w : World) (camera : Camera R) (i : Nat) : Prop where
  turn : i < 100
  hit : w.blockAt (camera.cellAt i) ≠ .ok 0
  before : ∀ j < i, w.blockAt (camera.cellAt j) = .ok 0

theorem hitAt_none {w : World} {camera : Camera R} {mask : Ivec3} (i : Nat) :
    hitAt w camera (camera.advance^[i] (camera.startRay mask)) = none ↔
      w.blockAt (camera.cellAt i) = .ok 0 := by
  obtain ⟨bt, hbt⟩ := lookupBlock_ok w.chunks (camera.cellAt i)
  have hread : w.blockAt (camera.cellAt i) = .ok bt := hbt
  rw [hitAt, cellAt_mask, hread]
  simp

theorem hitAt_some {w : World} {camera : Camera R} {mask : Ivec3} {i : Nat} {data : DdaData}
    (h : hitAt w camera (camera.advance^[i] (camera.startRay mask)) = some data) :
    data.xpos = (camera.cellAt i).x ∧ data.ypos = (camera.cellAt i).y ∧ data.zpos = (camera.cellAt i).z ∧
      data.face = camera.face (camera.advance^[i] (camera.startRay mask)).mask := by
  rw [hitAt] at h
  split at h
  · split at h
    · obtain rfl := Option.some.inj h
      rw [cellAt_mask]
      exact ⟨rfl, rfl, rfl, rfl⟩
    · cases h
  · cases h

theorem firstHit_unique {w : World} {camera : Camera R} {i j : Nat} (hi : FirstHit w camera i)
    (hj : FirstHit w camera j) : i = j := by
  rcases Nat.lt_trichotomy i j with hlt | heq | hgt
  · exact absurd (hj.before i hlt) hi.hit
  · exact heq
  · exact absurd (hi.before j hgt) hj.hit

/-- A march writes its first hit, or leaves `dda_data` as it was. -/
theorem dda_cases (w : World) (camera : Camera R) (mask : Ivec3) (data : DdaData) :
    (∃ i data', FirstHit w camera i ∧ dda w camera mask data = .ok data' ∧
      data'.xpos = (camera.cellAt i).x ∧ data'.ypos = (camera.cellAt i).y ∧
      data'.zpos = (camera.cellAt i).z ∧
      data'.face = camera.face (camera.advance^[i] (camera.startRay mask)).mask) ∨
    ((∀ i < 100, w.blockAt (camera.cellAt i) = .ok 0) ∧ dda w camera mask data = .ok data) := by
  rw [dda, ddaLoop_eq]
  cases hsearch : Lib.Loops.search (hitAt w camera) camera.advance 100 (camera.startRay mask) with
  | none =>
    right
    refine ⟨fun i hi => ?_, rfl⟩
    exact (hitAt_none i).mp ((Lib.Loops.search_eq_none_iff _ _ _ _).mp hsearch i hi)
  | some data' =>
    left
    obtain ⟨i, hi, hstop, hbefore⟩ := (Lib.Loops.search_eq_some_iff _ _ _ _ _).mp hsearch
    refine ⟨i, data', ⟨hi, ?_, fun j hj => (hitAt_none j).mp (hbefore j hj)⟩, rfl, hitAt_some hstop⟩
    intro hair
    cases hstop.symm.trans ((hitAt_none i).mpr hair)

theorem dda_hit {w : World} {camera : Camera R} {i : Nat} (h : FirstHit w camera i) (mask : Ivec3)
    (data : DdaData) : ∃ data', dda w camera mask data = .ok data' ∧
      (⟨data'.xpos, data'.ypos, data'.zpos⟩ : Ivec3) = camera.cellAt i ∧
      data'.face = camera.face (camera.advance^[i] (camera.startRay mask)).mask := by
  obtain ⟨j, data', hj, hdda, hx, hy, hz, hface⟩ | ⟨hair, _⟩ := dda_cases w camera mask data
  · obtain rfl := firstHit_unique h hj
    refine ⟨data', hdda, ?_, hface⟩
    rw [hx, hy, hz]
  · exact absurd (hair i h.turn) h.hit

/-- The cell before the hit is the hit and the face. -/
theorem cellAt_face (camera : Camera R) (mask : Ivec3) (i : Nat) :
    camera.cellAt (i + 1) + camera.face (camera.advance^[i + 1] (camera.startRay mask)).mask =
      camera.cellAt i := by
  rw [← cellAt_mask camera mask (i + 1), ← cellAt_mask camera mask i, Function.iterate_succ_apply']
  generalize camera.advance^[i] (camera.startRay mask) = ray
  ext <;> simp [Camera.advance, Camera.face]

/-! ### A press -/

/-- The march of this press hits, and the packet edits what it hit: a left press removes the first
cell that is not air, a right press fills the cell examined before it, which is air. -/
def Edits (s : GameScene R) (button : Button) (p : UpdateBlock) : Prop :=
  ∃ i, FirstHit s.world s.camera i ∧
    match button with
    | .left => p = ⟨BlockType.air.value, (s.camera.cellAt i).x, (s.camera.cellAt i).y, (s.camera.cellAt i).z⟩
    | .right => ∃ k, i = k + 1 ∧ s.world.blockAt (s.camera.cellAt k) = .ok 0 ∧
      p = ⟨s.selectedCube.value, (s.camera.cellAt k).x, (s.camera.cellAt k).y, (s.camera.cellAt k).z⟩

/-- One of the cells in reach is not air; for a right press the camera's own cell is. -/
def OnTarget (s : GameScene R) : Button → Prop
  | .left => ∃ i < 100, s.world.blockAt (s.camera.cellAt i) ≠ .ok 0
  | .right => (∃ i < 100, s.world.blockAt (s.camera.cellAt i) ≠ .ok 0) ∧
    s.world.blockAt (s.camera.cellAt 0) = .ok 0

/-- What the callback makes of `dda_data`. -/
def sent (selectedCube : BlockType) (data : DdaData) : Button → UpdateBlock
  | .left => ⟨BlockType.air.value, data.xpos, data.ypos, data.zpos⟩
  | .right => ⟨selectedCube.value, data.xpos + data.face.x, data.ypos + data.face.y, data.zpos + data.face.z⟩

/-- It is sent whatever the march found. -/
theorem click_sends {s : GameScene R} (hs : s.captured = true) (button : Button) {mask : Ivec3}
    {data : DdaData} (h : dda s.world s.camera mask s.ddaData = .ok data) :
    leftClickCallback s button mask = .ok ({s with ddaData := data}, some (sent s.selectedCube data button)) := by
  rw [leftClickCallback, if_pos hs, h]
  cases button <;> rfl

theorem click_missed {s : GameScene R} (h : ∀ i < 100, s.world.blockAt (s.camera.cellAt i) = .ok 0)
    (button : Button) : ¬ OnTarget s button ∧ ∀ p, ¬ Edits s button p := by
  have hno : ¬ ∃ i < 100, s.world.blockAt (s.camera.cellAt i) ≠ .ok 0 := by
    intro h'
    obtain ⟨i, hi, hne⟩ := h'
    exact hne (h i hi)
  constructor
  · cases button with
    | left => exact hno
    | right => exact fun hon => hno hon.1
  · intro p hedits
    obtain ⟨i, hfirst, _⟩ := hedits
    exact hno ⟨i, hfirst.turn, hfirst.hit⟩

/-- **A press edits what its own march hit exactly when it is on target.** -/
theorem click_iff (s : GameScene R) (hs : s.captured = true) (button : Button) (mask : Ivec3) :
    (∀ s' p, leftClickCallback s button mask = .ok (s', some p) → Edits s button p) ↔
      OnTarget s button := by
  obtain ⟨i, data, hfirst, hdda, hx, hy, hz, hface⟩ | ⟨hmiss, hdda⟩ :=
    dda_cases s.world s.camera mask s.ddaData
  · have hsent : (∀ s' p, leftClickCallback s button mask = .ok (s', some p) → Edits s button p) ↔
        Edits s button (sent s.selectedCube data button) := by
      rw [click_sends hs button hdda]
      simp
    rw [hsent]
    have hreach : ∃ i < 100, s.world.blockAt (s.camera.cellAt i) ≠ .ok 0 := ⟨i, hfirst.turn, hfirst.hit⟩
    cases button with
    | left =>
      refine iff_of_true ⟨i, hfirst, ?_⟩ hreach
      rw [sent, hx, hy, hz]
    | right =>
      cases i with
      | zero =>
        -- the march stands in a block: no cell was examined before the hit
        refine iff_of_false ?_ (fun hon => hfirst.hit hon.2)
        intro hedits
        obtain ⟨i, hfirst', k, rfl, _⟩ := hedits
        exact absurd (firstHit_unique hfirst hfirst') (Nat.succ_ne_zero k).symm
      | succ k =>
        have hcell := cellAt_face s.camera mask k
        rw [← hface] at hcell
        refine iff_of_true ⟨k + 1, hfirst, k, rfl, hfirst.before k (Nat.lt_succ_self k), ?_⟩
          ⟨hreach, hfirst.before 0 (Nat.succ_pos k)⟩
        rw [sent, hx, hy, hz, ← hcell]
        rfl
  · obtain ⟨hoff, hno⟩ := click_missed hmiss button
    refine iff_of_false (fun h => ?_) hoff
    exact hno _ (h _ _ (click_sends hs button hdda))

/-! ### Runs -/

/-- What happens to a scene between presses, and the presses. -/
inductive SceneEvent (R : Type) where
  | updateChunks (received : List ChunkData)
  | move (camera : Camera R)
  | select (selectedCube : BlockType)
  | capture (captured : Bool)
  | press (button : Button) (mask : Ivec3)

def GameScene.start (camera : Camera R) : GameScene R :=
  ⟨World.empty, camera, ⟨0, 0, 0, 0, 0⟩, .grass, true⟩

def GameScene.after (s : GameScene R) : SceneEvent R → Except Fault (GameScene R)
  | .updateChunks received =>
    .ok {s with world := received.foldl (fun w c => w.createOrReplaceChunk c.pos c.blocktypes) s.world}
  | .move camera => .ok {s with camera}
  | .select selectedCube => .ok {s with selectedCube}
  | .capture captured => .ok {s with captured}
  | .press button mask => (leftClickCallback s button mask).map Prod.fst

/-- The scene after a run. -/
def sceneAfter (s : GameScene R) (es : List (SceneEvent R)) : Except Fault (GameScene R) :=
  es.foldlM GameScene.after s

/-- Every packet a press of the run sends edits what the press hit. -/
def ClicksEditHits (camera : Camera R) (es : List (SceneEvent R)) : Prop :=
  ∀ before button mask, before ++ [.press button mask] <+: es →
    ∀ s, sceneAfter (.start camera) before = .ok s → s.captured = true →
      ∀ s' p, leftClickCallback s button mask = .ok (s', some p) → Edits s button p

/-- Every press of the run is on target. -/
def ClicksOnTarget (camera : Camera R) (es : List (SceneEvent R)) : Prop :=
  ∀ before button mask, before ++ [.press button mask] <+: es →
    ∀ s, sceneAfter (.start camera) before = .ok s → s.captured = true → OnTarget s button

/-- **The clicks of a run edit what they hit exactly when each of them is on target.** -/
theorem clicks_iff (camera : Camera R) (es : List (SceneEvent R)) :
    ClicksEditHits camera es ↔ ClicksOnTarget camera es := by
  constructor
  · intro h before button mask hb s hs hcaptured
    exact (click_iff s hcaptured button mask).mp (h before button mask hb s hs hcaptured)
  · intro h before button mask hb s hs hcaptured
    exact (click_iff s hcaptured button mask).mpr (h before button mask hb s hs hcaptured)

/-- A camera that looks along `-z`. -/
def lookingAhead : Camera Float32 := ⟨⟨0, 0, 0⟩, ⟨0, 0, -1⟩⟩

/-- A first click before any chunk is there: it removes the block at the origin. -/
theorem click_in_empty_world : ¬ ClicksEditHits lookingAhead [.press .left 0] := by
  intro h
  have hempty : ∀ i < 100, World.empty.blockAt (lookingAhead.cellAt i) = .ok 0 := fun _ _ => rfl
  have hmissed := click_missed (s := .start lookingAhead) hempty .left
  obtain ⟨i, data, hfirst, _⟩ | ⟨_, hdda⟩ := dda_cases World.empty lookingAhead 0 ⟨0, 0, 0, 0, 0⟩
  · exact hfirst.hit (hempty i hfirst.turn)
  · exact hmissed.2 _ (h [] .left 0 List.prefix_rfl _ rfl rfl _ _ (click_sends rfl .left hdda))

end MyMinecraft
