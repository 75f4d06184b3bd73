import MyMinecraft.Entities.Order

/-! Where entities are drawn.

An entity has its position twice, its own and its cube's. `setValues` writes both
and the constructor writes one, so an entity that was created in a frame and not
moved in it is drawn where a new cube is. `drawn_one` is this for one entity and
one frame, `drawn_iff` follows it over any number of frames. -/
namespace MyMinecraft

/-- The position of the cube; `cubeDefault` is that of a new one. -/
def Entity.drawnAt (cubeDefault : Vec3Bits) (e : Entity) : Vec3Bits := e.cubePosition.getD cubeDefault

/-- The position in the last 0x01 or 0x03 packet for `id`. -/
def lastSent (arrivals : List Arrival) (id : Int) : Option Vec3Bits :=
  ((arrivals.filter fun a => a.id = id).filterMap Arrival.entityData?).getLast?.map EntityData.pos

/-- Every entity is drawn at its position, which is the last one sent. -/
def Drawn (cubeDefault : Vec3Bits) (entities : Entities) (arrivals : List Arrival) : Prop :=
  ∀ id e, entities.lookup id = some e →
    e.drawnAt cubeDefault = e.pos ∧ lastSent arrivals id = some e.pos

/-- An id that is new in this frame, and not removed in it, has more than one packet with a
position in it or is where a new cube is. -/
def FramePlaced (cubeDefault : Vec3Bits) (entities : Entities) (f : List Arrival) : Prop :=
  ∀ id, id ∉ entities → (∀ a ∈ f.filter fun a => a.id = id, ¬ a.IsRemove) →
    ∀ data, (f.filter fun a => a.id = id).filterMap Arrival.entityData? = [data] → data.pos = cubeDefault

variable (overrun : Vector UInt8 64 → List UInt8) (cubeDefault : Vec3Bits)

/-! ### One entity, one frame -/

theorem insertOrSets_none (ds : List EntityData) (o : Option Entity)
    (h : ds.foldl (insertOrSetOne overrun) o = none) : o = none ∧ ds = [] := by
  cases ds with
  | nil => exact ⟨h, rfl⟩
  | cons d ds =>
    obtain ⟨e, he⟩ : ∃ e, insertOrSetOne overrun o d = some e := by cases o <;> exact ⟨_, rfl⟩
    obtain ⟨e', he', _⟩ := insertOrSets_some overrun ds e
    rw [List.foldl_cons, he, he'] at h
    cases h

/-- The last record gives the position, and the cube's as well unless it is the one that
created the entity. -/
theorem insertOrSets_last (ds : List EntityData) (data : EntityData) (o : Option Entity) :
    ∃ e, (ds ++ [data]).foldl (insertOrSetOne overrun) o = some e ∧ e.pos = data.pos ∧
      e.cubePosition = if o = none ∧ ds = [] then none else some data.pos := by
  rw [List.foldl_append]
  cases hbefore : ds.foldl (insertOrSetOne overrun) o with
  | none =>
    refine ⟨_, rfl, rfl, ?_⟩
    rw [if_pos (insertOrSets_none overrun ds o hbefore)]
    rfl
  | some e =>
    refine ⟨e.setValues data.pos data.pitch data.yaw, rfl, rfl, ?_⟩
    rw [if_neg]
    · rfl
    · intro h
      obtain ⟨rfl, rfl⟩ := h
      cases hbefore

/-- It is drawn there unless it is new and this is its only record. -/
theorem drawnAt_last (ds : List EntityData) (data : EntityData) (o : Option Entity) :
    ∃ e, (ds ++ [data]).foldl (insertOrSetOne overrun) o = some e ∧ e.pos = data.pos ∧
      (e.drawnAt cubeDefault = e.pos ↔ (o = none → ds = [] → data.pos = cubeDefault)) := by
  obtain ⟨e, he, hpos, hcube⟩ := insertOrSets_last overrun ds data o
  refine ⟨e, he, hpos, ?_⟩
  rw [Entity.drawnAt, hcube, hpos]
  by_cases hnew : o = none ∧ ds = []
  · rw [if_pos hnew]
    exact ⟨fun h _ _ => h.symm, fun h => (h hnew.1 hnew.2).symm⟩
  · rw [if_neg hnew]
    exact iff_of_true rfl fun ho hds => absurd ⟨ho, hds⟩ hnew

/-- Names move nothing. -/
theorem setNames_pos (ms : List EntityMetaData) (o : Option Entity) :
    ∃ name : List UInt8, ms.foldl (setNameOne overrun) o = o.map fun e => {e with name} := by
  cases o with
  | none => exact ⟨[], setNames_none overrun ms⟩
  | some e => exact ⟨_, setNames_foldl overrun ms e⟩

theorem drawn_one {o : Option Entity} {sent : List EntityData} (b : List Arrival)
    (h : ∀ e, o = some e → e.drawnAt cubeDefault = e.pos ∧ sent.getLast?.map EntityData.pos = some e.pos) :
    (∀ e, batchOne overrun o b = some e → e.drawnAt cubeDefault = e.pos ∧
      (sent ++ b.filterMap Arrival.entityData?).getLast?.map EntityData.pos = some e.pos) ↔
    (o = none → (∀ a ∈ b, ¬ a.IsRemove) →
      ∀ data, b.filterMap Arrival.entityData? = [data] → data.pos = cubeDefault) := by
  by_cases hr : ∃ a ∈ b, a.IsRemove
  · rw [batchOne_removed overrun o hr]
    refine iff_of_true (fun e he => by cases he) (fun _ hno => ?_)
    obtain ⟨a, ha, hremove⟩ := hr
    exact absurd hremove (hno a ha)
  · have hno : ∀ a ∈ b, ¬ a.IsRemove := fun a ha hremove => hr ⟨a, ha, hremove⟩
    rw [batchOne, removed_nil hno, List.foldl_nil]
    obtain ⟨name, hname⟩ := setNames_pos overrun (b.filterMap Arrival.metaData?)
      ((b.filterMap Arrival.entityData?).foldl (insertOrSetOne overrun) o)
    rw [hname]
    rcases List.eq_nil_or_concat (b.filterMap Arrival.entityData?) with hnil | ⟨ds, data, hds⟩
    · rw [hnil, List.foldl_nil, List.append_nil]
      refine iff_of_true (fun e he => ?_) (fun _ _ data hdata => by cases hdata)
      obtain ⟨e₀, he₀, rfl⟩ := Option.map_eq_some_iff.mp he
      exact h e₀ he₀
    · rw [List.concat_eq_append] at hds
      obtain ⟨e, he, hpos, hiff⟩ := drawnAt_last overrun cubeDefault ds data o
      rw [hds, he, Option.map_some, ← List.append_assoc, List.getLast?_concat, Option.map_some]
      constructor
      · intro hdrawn ho _ data' hdata
        obtain ⟨rfl, hlast⟩ := List.append_inj' (show ds ++ [data] = [] ++ [data'] from hdata) rfl
        obtain rfl := List.singleton_inj.mp hlast
        exact hiff.mp (hdrawn _ rfl).1 ho rfl
      · intro hplaced e' he'
        obtain rfl := Option.some.inj he'
        refine ⟨hiff.mpr fun ho hds => ?_, congrArg some hpos.symm⟩
        subst hds
        exact hplaced ho hno data rfl

/-! ### Frames -/

theorem drawn_snoc {frames : List (List Arrival)} (f : List Arrival)
    (h : Drawn cubeDefault (runFrames overrun ∅ frames).1 frames.flatten) :
    Drawn cubeDefault (runFrames overrun ∅ (frames ++ [f])).1 (frames ++ [f]).flatten ↔
      FramePlaced cubeDefault (runFrames overrun ∅ frames).1 f := by
  refine forall_congr' fun id => ?_
  have hcode : (runFrames overrun ∅ (frames ++ [f])).1.lookup id =
      batchOne overrun ((runFrames overrun ∅ frames).1.lookup id) (f.filter fun a => a.id = id) := by
    rw [runFrames_snoc]
    exact updateEntities_lookup overrun _ _ f id (runFrames_queues overrun ∅ frames)
  rw [hcode, lastSent, List.flatten_append, List.flatten_singleton, List.filter_append,
    List.filterMap_append, drawn_one overrun cubeDefault _ (h id), AList.lookup_eq_none]

/-- **Every entity is drawn where it is, after every frame, exactly when every entity is
placed** in the frame that creates it. -/
theorem drawn_iff (frames : List (List Arrival)) :
    (∀ before, before <+: frames →
      Drawn cubeDefault (runFrames overrun ∅ before).1 before.flatten) ↔
    ∀ before f, before ++ [f] <+: frames → FramePlaced cubeDefault (runFrames overrun ∅ before).1 f :=
  Lib.Runs.prefixes_iff
    (fun before => Drawn cubeDefault (runFrames overrun ∅ before).1 before.flatten)
    (fun before f => FramePlaced cubeDefault (runFrames overrun ∅ before).1 f)
    (fun _ e he => by cases he) (fun _ f h => drawn_snoc overrun cubeDefault f h) frames

/-- One frame with one player, who stands at `x = 1` and is drawn at 0. -/
theorem new_entity_misplaced : ¬ ∀ frames : List (List Arrival), ∀ before, before <+: frames →
    Drawn ⟨0, 0, 0⟩ (runFrames (fun _ => []) ∅ before).1 before.flatten := by
  intro h
  have hdrawn := (h _ [[.entity ⟨5, ⟨0x3f800000, 0, 0⟩, 0, 0, Vector.replicate 64 0⟩]] List.prefix_rfl 5 _ rfl).1
  revert hdrawn
  decide

end MyMinecraft
