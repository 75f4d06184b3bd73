import MyMinecraft.GameScene.Player

/-! What the server hears of a player.

Whatever is pressed, in whatever order, nothing throws but a write that fails, and what has been chosen,
shown and sent can be counted off the inputs: `player_run`. -/
namespace MyMinecraft

/-! ### One input -/

namespace Player
section
variable {R T : Type} {inputs : List (Input R T)} {p p' : Player R T}

/-- What the keys have done. -/
structure Chosen (inputs : List (Input R T)) (p : Player R T) : Prop where
  selected : (p.scene.selectedCube.value.toNat : Int) = picked inputs
  shown : selectCubeUpdate p.scene.selectedCube = .ok p.blockTextures
  captured : p.scene.captured = true ↔ Even (presses .leftAlt inputs)
  locked : presses .leftAlt inputs ≠ 0 → p.locked = !p.scene.captured
  closing : p.windowShouldClose = true ↔ presses .escape inputs ≠ 0

theorem picked_bounds (inputs : List (Input R T)) : 1 ≤ picked inputs ∧ picked inputs ≤ 17 := by
  rw [picked]
  omega

theorem Chosen.placeable (h : Chosen inputs p) :
    1 ≤ p.scene.selectedCube.value.toNat ∧ p.scene.selectedCube.value.toNat ≤ 17 := by
  have hselected := h.selected
  have hbounds := picked_bounds inputs
  omega

theorem presses_press (key key' : Key) :
    presses key' [(Input.key key .press : Input R T)] = if key' = key then 1 else 0 := by
  simp [presses, List.countP_singleton, eq_comm]

/-- The members the keys change are as they were. -/
structure Kept (p p' : Player R T) : Prop where
  selectedCube : p'.scene.selectedCube = p.scene.selectedCube
  blockTextures : p'.blockTextures = p.blockTextures
  captured : p'.scene.captured = p.scene.captured
  locked : p'.locked = p.locked
  windowShouldClose : p'.windowShouldClose = p.windowShouldClose

theorem Kept.refl (p : Player R T) : Kept p p := ⟨rfl, rfl, rfl, rfl, rfl⟩

theorem Kept.trans {p₁ p₂ p₃ : Player R T} (h : Kept p₁ p₂) (h' : Kept p₂ p₃) : Kept p₁ p₃ :=
  ⟨h'.selectedCube.trans h.selectedCube, h'.blockTextures.trans h.blockTextures, h'.captured.trans h.captured,
    h'.locked.trans h.locked, h'.windowShouldClose.trans h.windowShouldClose⟩

/-- An input that presses none of the four keys. -/
theorem Chosen.quiet {input : Input R T} (h : Chosen inputs p)
    (hquiet : ∀ key ∈ [Key.escape, .leftAlt, .c, .x], presses key [input] = 0) (hkept : Kept p p') :
    Chosen (inputs ++ [input]) p' := by
  simp only [List.forall_mem_cons, List.not_mem_nil, false_implies, implies_true, and_true] at hquiet
  obtain ⟨hesc, halt, hc, hx⟩ := hquiet
  constructor
  · rw [hkept.selectedCube, h.selected, picked, picked, presses_snoc, presses_snoc, hc, hx, add_zero, add_zero]
  · rw [hkept.selectedCube, hkept.blockTextures, h.shown]
  · rw [hkept.captured, h.captured, presses_snoc, halt, add_zero]
  · rw [hkept.locked, hkept.captured, presses_snoc, halt, add_zero]
    exact h.locked
  · rw [hkept.windowShouldClose, h.closing, presses_snoc, hesc, add_zero]

/-- Another cube is selected, and shown. -/
theorem Chosen.select (h : Chosen inputs p) {key : Key} {t : BlockType}
    (ht : (t.value.toNat : Int) = picked (inputs ++ [.key key .press])) (halt : .leftAlt ≠ key) (hesc : .escape ≠ key) :
    ∃ p', p.select t = .ok p' ∧ Chosen (inputs ++ [.key key .press]) p' ∧ p'.requestInterval = p.requestInterval := by
  have hair : t ≠ .air := by
    intro hair
    have hbounds := picked_bounds (inputs ++ [.key key .press])
    rw [← ht, hair] at hbounds
    exact absurd hbounds.1 (by decide)
  obtain ⟨blockTextures, hshown⟩ := selectCubeUpdate_ok hair
  refine ⟨{p with blockTextures, scene := {p.scene with selectedCube := t}}, ?_, ⟨ht, hshown, ?_, ?_, ?_⟩, rfl⟩
  · rw [Player.select, hshown]
    rfl
  · rw [presses_snoc, presses_press, if_neg halt]
    exact h.captured
  · rw [presses_snoc, presses_press, if_neg halt]
    exact h.locked
  · rw [presses_snoc, presses_press, if_neg hesc]
    exact h.closing

/-- The mouse is given away, or taken back. -/
theorem Chosen.switch (h : Chosen inputs p) {locked captured : Bool} (hlocked : locked = !captured)
    (hcaptured : captured = !p.scene.captured) :
    Chosen (inputs ++ [.key .leftAlt .press]) {p with locked, scene := {p.scene with captured}} := by
  refine ⟨?_, h.shown, ?_, fun _ => hlocked, ?_⟩
  · rw [picked, presses_snoc, presses_snoc, presses_press, presses_press, if_neg (by decide), if_neg (by decide)]
    exact h.selected
  · rw [presses_snoc, presses_press, if_pos rfl, Nat.even_add_one, ← h.captured, hcaptured]
    simp
  · rw [presses_snoc, presses_press, if_neg (by decide)]
    exact h.closing

/-- A key goes through. -/
theorem chosen_key (h : Chosen inputs p) (key : Key) (action : Action) :
    ∃ p', p.keyCallback key action = .ok p' ∧ Chosen (inputs ++ [.key key action]) p' ∧
      p'.requestInterval = p.requestInterval := by
  have hplaceable := h.placeable
  cases action with
  | release => exact ⟨p, by cases key <;> rfl, h.quiet (fun _ _ => rfl) (.refl p), rfl⟩
  | repeated => exact ⟨p, by cases key <;> rfl, h.quiet (fun _ _ => rfl) (.refl p), rfl⟩
  | press =>
    cases key with
    | escape =>
      refine ⟨{p with windowShouldClose := true}, rfl, ⟨?_, h.shown, ?_, ?_, ?_⟩, rfl⟩
      · rw [picked, presses_snoc, presses_snoc, presses_press, presses_press, if_neg (by decide), if_neg (by decide)]
        exact h.selected
      · rw [presses_snoc, presses_press, if_neg (by decide)]
        exact h.captured
      · rw [presses_snoc, presses_press, if_neg (by decide)]
        exact h.locked
      · rw [presses_snoc, presses_press, if_pos rfl]
        exact iff_of_true rfl (Nat.succ_ne_zero _)
    | leftAlt =>
      rw [keyCallback]
      by_cases hcaptured : p.scene.captured = true
      · exact ⟨_, if_pos hcaptured, h.switch rfl (by rw [hcaptured]; rfl), rfl⟩
      · exact ⟨_, if_neg hcaptured, h.switch rfl (by rw [Bool.eq_false_iff.mpr hcaptured]; rfl), rfl⟩
    | c =>
      refine h.select ?_ (by decide) (by decide)
      rw [nextCube_value hplaceable, h.selected, picked, picked, presses_snoc, presses_snoc, presses_press, presses_press,
        if_pos rfl, if_neg (by decide)]
      omega
    | x =>
      refine h.select ?_ (by decide) (by decide)
      rw [previousCube_value hplaceable, h.selected, picked, picked, presses_snoc, presses_snoc, presses_press,
        presses_press, if_pos rfl, if_neg (by decide)]
      omega
    | other code => exact ⟨p, rfl, h.quiet (by simp [presses_press]) (.refl p), rfl⟩

/-! ### What is sent -/

theorem chat_kept (p : Player R T) (frame : Update T) : Kept p (p.chat frame).1 := by
  rw [chat]
  split <;> exact ⟨rfl, rfl, rfl, rfl, rfl⟩

theorem chat_requestInterval (p : Player R T) (frame : Update T) :
    (p.chat frame).1.requestInterval = p.requestInterval := by
  rw [chat]
  split <;> rfl

theorem chat_calls (p : Player R T) (frame : Update T) :
    (p.chat frame).2.filterMap Send.edit? = [] ∧ (p.chat frame).2.countP Send.isPose = 0 := by
  rw [chat]
  split <;> exact ⟨rfl, rfl⟩

theorem updateChunks_kept (p : Player R T) (received : List ChunkData) : Kept p (p.updateChunks received) := by
  rw [updateChunks]
  split <;> exact ⟨rfl, rfl, rfl, rfl, rfl⟩

theorem updateChunks_requestInterval (p : Player R T) (received : List ChunkData) :
    (p.updateChunks received).requestInterval = p.requestInterval := by
  rw [updateChunks]
  split <;> rfl

section
variable [AddCommMonoid T]

def elapsed (inputs : List (Input R T)) : T := (inputs.map Input.delta).sum

theorem elapsed_snoc (inputs : List (Input R T)) (input : Input R T) :
    elapsed (inputs ++ [input]) = elapsed inputs + input.delta := by
  rw [elapsed, List.map_append, List.sum_append, List.map_singleton, List.sum_singleton, elapsed]

variable [LinearOrder T]

/-- The player after some inputs, and the calls they made. -/
structure Played (period longest : T) (inputs : List (Input R T)) (p : Player R T) (calls : List Send) : Prop where
  chosen : Chosen inputs p
  edits : calls.filterMap Send.edit? = MyMinecraft.edits inputs
  paced : Lib.Throttle.Paced period longest (calls.countP Send.isPose) p.requestInterval (elapsed inputs)

variable {period longest : T} {calls : List Send}

/-- An input in which no time passes, with the edits it asks for and no pose. -/
theorem Played.still {input : Input R T} (h : Played period longest inputs p calls) (hdelta : input.delta = 0)
    (hchosen : Chosen (inputs ++ [input]) p') (hinterval : p'.requestInterval = p.requestInterval) {more : List Send}
    (hedits : more.filterMap Send.edit? = (editOf inputs input).toList) (hpose : more.countP Send.isPose = 0) :
    Played period longest (inputs ++ [input]) p' (calls ++ more) where
  chosen := hchosen
  edits := by rw [List.filterMap_append, h.edits, hedits, edits_snoc]
  paced := by
    rw [List.countP_append, hpose, add_zero, hinterval, elapsed_snoc, hdelta, add_zero]
    exact h.paced

theorem played_start (camera : Camera R) (locked : Bool) (hperiod : 0 ≤ period) (longest : T) :
    ∃ p : Player R T, opened camera locked = .ok (p, [.renderDistance 16]) ∧
      Played period longest [] p [.renderDistance 16] := by
  refine ⟨⟨.start camera, locked, false, ⟨1, 2, 3⟩, 0, true, Vector.replicate 4096 0⟩, rfl, ?_⟩
  refine ⟨⟨rfl, rfl, ?_, fun h => absurd rfl h, ?_⟩, rfl, Lib.Throttle.paced_start hperiod⟩
  · exact iff_of_true rfl Even.zero
  · exact iff_of_false Bool.false_ne_true fun h => h rfl

/-- A frame sends the pose when it is time. -/
theorem played_update [IsOrderedAddMonoid T] (h : Played period longest inputs p calls) (frame : Update T) (h₀ : 0 ≤ frame.delta)
    (hlong : frame.delta ≤ longest) : Played period longest (inputs ++ [.update frame]) (p.update period frame).1
      (calls ++ (p.update period frame).2) := by
  have hpaced := Lib.Throttle.paced_tick h.paced h₀ hlong
  generalize hp₁ : ({p with updateChunk := p.updateChunk != frame.toggled} : Player R T).chat frame = r
  have htoggle : Kept p {p with updateChunk := p.updateChunk != frame.toggled} := ⟨rfl, rfl, rfl, rfl, rfl⟩
  have hkept : Kept p r.1 := hp₁ ▸ htoggle.trans (chat_kept _ frame)
  have hinterval : r.1.requestInterval = p.requestInterval := hp₁ ▸ chat_requestInterval _ frame
  obtain ⟨hedits, hpose⟩ : r.2.filterMap Send.edit? = [] ∧ r.2.countP Send.isPose = 0 := hp₁ ▸ chat_calls _ frame
  have hupdate : p.update period frame =
      ((r.1.request period frame).1.updateChunks frame.received, r.2 ++ (r.1.request period frame).2) := by
    rw [← hp₁]
    rfl
  have hrequest : Kept r.1 (r.1.request period frame).1 := ⟨rfl, rfl, rfl, rfl, rfl⟩
  rw [hupdate]
  refine ⟨?_, ?_, ?_⟩
  · exact h.chosen.quiet (fun _ _ => rfl) (hkept.trans (hrequest.trans (updateChunks_kept _ _)))
  · have hnone : (r.1.request period frame).2.filterMap Send.edit? = [] := by
      rw [request]
      dsimp only
      split <;> rfl
    rw [List.filterMap_append, List.filterMap_append, hedits, hnone, h.edits, edits_snoc]
    rfl
  · have hcount : (r.1.request period frame).2.countP Send.isPose =
        (Lib.Throttle.tick period p.requestInterval frame.delta).2.toNat := by
      rw [request, hinterval]
      dsimp only
      cases (Lib.Throttle.tick period p.requestInterval frame.delta).2 <;> rfl
    rw [List.countP_append, List.countP_append, hpose, hcount, zero_add, updateChunks_requestInterval, elapsed_snoc]
    rw [← hinterval] at hpaced ⊢
    exact hpaced

variable [Scalar R]

/-- A press asks for the type chosen, while the mouse is the game's. -/
theorem played_press (h : Played period longest inputs p calls) (button : Button) (mask : Ivec3) :
    ∃ p' more, p.after period (.press button mask) = .ok (p', more) ∧
      Played period longest (inputs ++ [.press button mask]) p' (calls ++ more) := by
  by_cases hcaptured : p.scene.captured = true
  · have heven := h.chosen.captured.mp hcaptured
    obtain ⟨data, hdda⟩ : ∃ data, dda p.scene.world p.scene.camera mask p.scene.ddaData = .ok data := ⟨_, ddaLoop_eq ..⟩
    have hkept : Kept p {p with scene := {p.scene with ddaData := data}} := ⟨rfl, rfl, rfl, rfl, rfl⟩
    refine ⟨{p with scene := {p.scene with ddaData := data}}, [(sent p.scene.selectedCube data button).call], ?_,
      h.still rfl (h.chosen.quiet (fun _ _ => rfl) hkept) rfl ?_ ?_⟩
    · rw [Player.after, click_sends hcaptured button hdda]
      rfl
    · cases button with
      | left =>
        rw [editOf, if_pos heven]
        rfl
      | right =>
        have hvalue : UInt8.ofNat (picked inputs).toNat = p.scene.selectedCube.value := by
          rw [← h.chosen.selected, Int.toNat_natCast, UInt8.ofNat_toNat]
        rw [editOf, if_pos heven, hvalue]
        rfl
    · cases button <;> rfl
  · have hodd := mt h.chosen.captured.mpr hcaptured
    refine ⟨p, [], ?_, h.still rfl (h.chosen.quiet (fun _ _ => rfl) (.refl p)) rfl ?_ rfl⟩
    · rw [Player.after, leftClickCallback, if_neg hcaptured]
      rfl
    · cases button <;> rw [editOf, if_neg hodd] <;> rfl

variable [IsOrderedAddMonoid T]

/-- Every input goes through. -/
theorem played_after (h : Played period longest inputs p calls) (input : Input R T) (h₀ : 0 ≤ input.delta)
    (hlong : input.delta ≤ longest) : ∃ p' more, p.after period input = .ok (p', more) ∧
      Played period longest (inputs ++ [input]) p' (calls ++ more) := by
  cases input with
  | key key action =>
    obtain ⟨p', hkey, hchosen, hinterval⟩ := chosen_key h.chosen key action
    refine ⟨p', [], ?_, h.still rfl hchosen hinterval rfl rfl⟩
    rw [Player.after, hkey]
    rfl
  | press button mask => exact played_press h button mask
  | move camera =>
    have hkept : Kept p {p with scene := {p.scene with camera}} := ⟨rfl, rfl, rfl, rfl, rfl⟩
    exact ⟨_, [], rfl, h.still rfl (h.chosen.quiet (fun _ _ => rfl) hkept) rfl rfl rfl⟩
  | update frame => exact ⟨_, _, rfl, played_update h frame h₀ hlong⟩

theorem played_run (h : Played period longest inputs p calls) (rest : List (Input R T))
    (hrest : ∀ input ∈ rest, 0 ≤ input.delta ∧ input.delta ≤ longest) :
    ∃ p' more, p.run period rest = .ok (p', more) ∧ Played period longest (inputs ++ rest) p' (calls ++ more) := by
  induction rest generalizing inputs p calls with
  | nil => exact ⟨p, [], rfl, by rwa [List.append_nil, List.append_nil]⟩
  | cons input rest ih =>
    obtain ⟨h₀, hlong⟩ := hrest input (List.mem_cons_self ..)
    obtain ⟨p₁, first, hafter, hplayed⟩ := played_after h input h₀ hlong
    obtain ⟨p', more, hrun, hplayed'⟩ := ih hplayed fun i hi => hrest i (List.mem_cons_of_mem _ hi)
    refine ⟨p', first ++ more, ?_, ?_⟩
    · rw [run, hafter]
      show (p₁.run period rest >>= _) = _
      rw [hrun]
      rfl
    · rwa [List.append_assoc, List.append_assoc, List.singleton_append] at hplayed'

end
end
end Player

/-! ### What is shown -/

section
variable {K : Type} [Field K] [LinearOrder K] [FloorRing K] [SquareRoot K]

/-- A normal of the cube, turned about the vertical by the angle of cosine `a` and sine `b`. -/
def turned (a b : K) (v : Ivec3) : Vec3 K := ⟨a * v.x + b * v.z, v.y, -b * v.x + a * v.z⟩

theorem getBlockType_value (t : BlockType) : getBlockType t.value = t := by
  cases t <;> rfl

variable [IsStrictOrderedRing K]

/-- One of the two stays on its side, however far the cube has turned. -/
theorem half_lt_turned {a b : K} (hab : a * a + b * b = 1) : 1 / 2 < |a| ∨ 1 / 2 < |b| := by
  by_contra hno
  push Not at hno
  have ha := abs_mul_abs_self a
  have hb := abs_mul_abs_self b
  nlinarith [abs_nonneg a, abs_nonneg b, hno.1, hno.2]

theorem cubeLayer_side {blockTextures : Ivec3} {normal : Vec3 K} (hy : normal.y = 0)
    (hside : 1 / 2 < |normal.z| ∨ 1 / 2 < |normal.x|) : cubeLayer blockTextures normal = some blockTextures.y := by
  have hhalf : ¬ (1 / 2 : K) < 0 := one_half_pos.le.not_gt
  simp [cubeLayer, hy, hside, hhalf, -one_div]

theorem cubeLayer_up {blockTextures : Ivec3} {normal : Vec3 K} (h : normal.x = 0 ∧ normal.y = 1 ∧ normal.z = 0) :
    cubeLayer blockTextures normal = some blockTextures.x := by
  have hhalf : ¬ (1 / 2 : K) < 0 := one_half_pos.le.not_gt
  have hone : ¬ (1 : K) < -(1 / 2) := by linarith [one_half_pos (α := K)]
  simp [cubeLayer, h, hhalf, hone, -one_div]

theorem cubeLayer_down {blockTextures : Ivec3} {normal : Vec3 K} (h : normal.y = -1) :
    cubeLayer blockTextures normal = some blockTextures.z := by
  have hone : (-1 : K) < -(1 / 2) := neg_lt_neg one_half_lt_one
  simp [cubeLayer, h, hone, -one_div]

/-- The cube in the corner has the textures its faces have in the world. -/
theorem cubeLayer_turned {t : BlockType} {blockTextures : Ivec3} (h : selectCubeUpdate t = .ok blockTextures)
    (d : FaceOrientation) {a b : K} (hab : a * a + b * b = 1) :
    cubeLayer blockTextures (turned a b (getFaceOrientationVector d)) =
      some ((ChunkVertices.blockTexture t.value d).toNat : Int) := by
  have hside := half_lt_turned hab
  cases ht : texturesUmap.lookup t with
  | none =>
    rw [selectCubeUpdate, ht] at h
    cases h
  | some textures =>
    rw [selectCubeUpdate, ht] at h
    obtain rfl := Except.ok.inj h
    rw [ChunkVertices.blockTexture, getBlockType_value, ht]
    cases d with
    | top => exact cubeLayer_up (by simp [turned, getFaceOrientationVector])
    | bottom => exact cubeLayer_down (by simp [turned, getFaceOrientationVector])
    | front | back =>
      refine cubeLayer_side (by simp [turned, getFaceOrientationVector]) ?_
      simpa [turned, getFaceOrientationVector] using hside
    | left | right =>
      refine cubeLayer_side (by simp [turned, getFaceOrientationVector]) ?_
      simpa [turned, getFaceOrientationVector] using hside.symm

end

/-! ### The session -/

/-- Calls are heard in order, up to the one that throws. -/
theorem heard_prefix (host : Lib.Wire.Endian) (c : Sender) (hc : c.sent = []) (calls : List Send)
    (outcomes : List Outcome) :
    (Lib.Framing.frames serverbound (c.sends host (calls.zip outcomes)).1.sent).1.map Message.read <+:
      calls.map fun call => some (call.message c.name) := by
  obtain ⟨part, hframes, _⟩ := sent_frames host c hc (calls.zip outcomes)
  have hread : ((delivered c.name (calls.zip outcomes)).map Message.frame).map Message.read =
      (delivered c.name (calls.zip outcomes)).map some := by
    rw [List.map_map]
    exact List.map_congr_left fun m _ => read_frame m
  have hzip : (calls.zip outcomes).map Prod.fst <+: calls := by
    rw [List.zip_eq_zip_take_min, List.map_fst_zip (by simp)]
    exact List.take_prefix _ _
  rw [hframes, hread, delivered, List.map_map]
  refine ((List.takeWhile_prefix _).map _).trans ?_
  have hcalls := hzip.map fun call => some (call.message c.name)
  rwa [List.map_map] at hcalls

section
variable {R T : Type} [Scalar R] [AddCommMonoid T] [LinearOrder T] [IsOrderedAddMonoid T]
variable (K : Type) [Field K] [LinearOrder K] [FloorRing K] [SquareRoot K] [IsStrictOrderedRing K]

/-- What the inputs have come to. -/
structure Heard (period longest : T) (inputs : List (Input R T)) (p : Player R T) (calls : List Send) : Prop where
  selected : (p.scene.selectedCube.value.toNat : Int) = picked inputs
  /-- The cube in the corner, however far it has turned, looks like the block that would be placed. -/
  shown : ∀ d, ∀ a b : K, a * a + b * b = 1 → cubeLayer p.blockTextures (turned a b (getFaceOrientationVector d)) =
    some ((ChunkVertices.blockTexture p.scene.selectedCube.value d).toNat : Int)
  captured : p.scene.captured = true ↔ Even (presses .leftAlt inputs)
  locked : presses .leftAlt inputs ≠ 0 → p.locked = !p.scene.captured
  closing : p.windowShouldClose = true ↔ presses .escape inputs ≠ 0
  /-- There is an edit for each press while the mouse is the game's, of the type then chosen. -/
  edits : calls.filterMap Send.edit? = MyMinecraft.edits inputs
  atMost : calls.countP Send.isPose • period ≤ Player.elapsed inputs
  atLeast : Player.elapsed inputs ≤ calls.countP Send.isPose • (period + longest) + period
  /-- However the connection does, the server reads these calls and no others, in order, up to some point. -/
  read : ∀ (host : Lib.Wire.Endian) (c : Sender) (outcomes : List Outcome), c.sent = [] →
    (Lib.Framing.frames serverbound (c.sends host (calls.zip outcomes)).1.sent).1.map Message.read <+:
      calls.map fun call => some (call.message c.name)

/-- **No input throws, and what comes of them can be counted off them.** -/
theorem player_run (camera : Camera R) (locked : Bool) {period longest : T} (hperiod : 0 ≤ period)
    (inputs : List (Input R T)) (hinputs : ∀ input ∈ inputs, 0 ≤ input.delta ∧ input.delta ≤ longest) :
    ∃ p calls, Player.session camera locked period inputs = .ok (p, calls) ∧ Heard K period longest inputs p calls := by
  obtain ⟨p₀, hopened, hstart⟩ := Player.played_start camera locked hperiod longest
  obtain ⟨p, more, hrun, hplayed⟩ := Player.played_run hstart inputs hinputs
  refine ⟨p, [.renderDistance 16] ++ more, ?_, ?_⟩
  · rw [Player.session, hopened]
    show (p₀.run period inputs >>= _) = _
    rw [hrun]
    rfl
  · rw [List.nil_append] at hplayed
    obtain ⟨hchosen, hedits, hpaced⟩ := hplayed
    exact ⟨hchosen.selected, fun d a b hab => cubeLayer_turned hchosen.shown d hab, hchosen.captured, hchosen.locked,
      hchosen.closing, hedits, hpaced.atMost, hpaced.atLeast,
      fun host c outcomes hc => heard_prefix host c hc _ outcomes⟩

end

/-- One back from grass, a block placed, the mouse given away, a press into the settings, and two frames. -/
def goneAround : List (Input Float32 ℚ) :=
  [.key .x .press, .key .x .repeated, .press .right 0, .key .leftAlt .press, .press .left 0,
    .update ⟨1 / 25, ⟨0, 0, 0, 0, 0⟩, false, id, true, []⟩, .update ⟨1 / 25, ⟨0, 0, 0, 0, 0⟩, true, id, false, []⟩]

theorem player_run_around : edits goneAround = [17] ∧
    ∃ p calls, Player.session lookingAhead false (1 / 20) goneAround = .ok (p, calls) ∧
      Heard ℚ (1 / 20) (1 / 25) goneAround p calls := by
  refine ⟨by decide, player_run ℚ lookingAhead false (by norm_num) goneAround fun input hinput => ?_⟩
  simp only [goneAround, List.mem_cons, List.not_mem_nil, or_false] at hinput
  obtain rfl | rfl | rfl | rfl | rfl | rfl | rfl := hinput <;> simp only [Input.delta] <;> norm_num

end MyMinecraft
