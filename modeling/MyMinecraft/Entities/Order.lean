import MyMinecraft.Entities
import MyMinecraft.Lib.Runs

/-! Entity packets and the order they came in.

A frame's packets lose their order when they are sorted into three queues. For each
id the frame is a batch, and the batch comes out as if taken in order exactly when
nothing in it depends on the lost order (`InOrder`): a removal in the batch is the
last word on the id, and a name that came before the entity it names is either
overtaken by a later one or the name the entity gets anyway. `batch_iff` is this
for one entity; `frames_iff` follows it over any number of frames. -/
namespace MyMinecraft
variable (overrun : Vector UInt8 64 → List UInt8)

/-! ### The queues of a frame -/

namespace Arrival

def entityData? : Arrival → Option EntityData
  | entity data => some data
  | _ => none

def removed? : Arrival → Option Int
  | remove id => some id
  | _ => none

def metaData? : Arrival → Option EntityMetaData
  | metaData emd => some emd
  | _ => none

def isMetaData : Arrival → Bool
  | metaData _ => true
  | _ => false

end Arrival

def noData : Data := ⟨[], [], [], [], []⟩

theorem push_queues (f : List Arrival) (data : Data) :
    (f.foldl Arrival.push data).entities = data.entities ++ f.filterMap Arrival.entityData? ∧
      (f.foldl Arrival.push data).rmEntity = data.rmEntity ++ f.filterMap Arrival.removed? ∧
      (f.foldl Arrival.push data).entitiesMetadata =
        data.entitiesMetadata ++ f.filterMap Arrival.metaData? := by
  induction f generalizing data with
  | nil => simp
  | cons a f ih =>
    obtain ⟨he, hr, hm⟩ := ih (Arrival.push data a)
    rw [List.foldl_cons, he, hr, hm]
    cases a <;> simp [Arrival.push, Arrival.entityData?, Arrival.removed?, Arrival.metaData?,
      List.filterMap_cons]

/-- Looking at one id commutes with sorting into a queue. -/
theorem filterMap_of_id {β : Type} (queue : Arrival → Option β) (key : β → Int)
    (h : ∀ a b, queue a = some b → key b = a.id) (f : List Arrival) (id : Int) :
    (f.filterMap queue).filter (fun b => key b = id) =
      (f.filter (fun a => a.id = id)).filterMap queue := by
  rw [List.filter_filterMap, List.filterMap_filter]
  refine List.filterMap_congr fun a _ => ?_
  cases hq : queue a with
  | none => simp
  | some b => simp [h a b hq, Option.filter]

/-- What `updateEntities` does to one entity. -/
def batchOne (e : Option Entity) (b : List Arrival) : Option Entity :=
  (b.filterMap Arrival.metaData?).foldl (setNameOne overrun)
    ((b.filterMap Arrival.removed?).foldl (fun _ _ => none)
      ((b.filterMap Arrival.entityData?).foldl (insertOrSetOne overrun) e))

theorem updateEntities_lookup (entities : Entities) (data : Data) (f : List Arrival) (id : Int)
    (hdata : data.entities = [] ∧ data.rmEntity = [] ∧ data.entitiesMetadata = []) :
    (updateEntities overrun entities (f.foldl Arrival.push data)).1.lookup id =
      batchOne overrun (entities.lookup id) (f.filter fun a => a.id = id) := by
  obtain ⟨he, hr, hm⟩ := push_queues f data
  rw [hdata.1, List.nil_append] at he
  rw [hdata.2.1, List.nil_append] at hr
  rw [hdata.2.2, List.nil_append] at hm
  simp only [updateEntities, he, hr, hm]
  rw [Lib.Map.lookup_foldl (setName overrun) EntityMetaData.id (setNameOne overrun)
      (fun m o a => setName_lookup overrun m o a),
    Lib.Map.lookup_foldl (fun entities id => entities.erase id) (fun id : Int => id) (fun _ _ => none)
      (fun m o a => Lib.Map.lookup_erase a o m),
    Lib.Map.lookup_foldl (insertOrSet overrun) EntityData.id (insertOrSetOne overrun)
      (fun m o a => insertOrSet_lookup overrun m o a),
    filterMap_of_id Arrival.metaData? EntityMetaData.id, filterMap_of_id Arrival.removed? (fun id => id),
    filterMap_of_id Arrival.entityData? EntityData.id, batchOne]
  · intro a b h
    cases a <;> cases h
    rfl
  · intro a b h
    cases a <;> cases h
    rfl
  · intro a b h
    cases a <;> cases h
    rfl

/-! ### One entity, one frame -/

/-- The batch taken as it arrived. -/
def inOrderOne (e : Option Entity) (b : List Arrival) : Option Entity :=
  b.foldl (Arrival.applyOne overrun) e

/-- What of an entity is compared. -/
def Entity.seen (e : Entity) : Vec3Bits × UInt32 × UInt32 × List UInt8 := (e.pos, e.yaw, e.pitch, e.name)

/-- Nothing in the batch depends on the order its queues lose. `present` says whether the
entity exists before it. -/
structure InOrder (present : Prop) (b : List Arrival) : Prop where
  /-- If the entity is removed, every packet that would bring it back is itself followed by a
  removal. -/
  removed : (∃ a ∈ b, a.IsRemove) → ∀ before data after, b = before ++ .entity data :: after →
    ∃ a ∈ after, a.IsRemove
  /-- If the entity is new, a name that came before it is followed by another, or is the name it
  comes with. -/
  named : (∀ a ∈ b, ¬ a.IsRemove) → ¬ present → ∀ data after emd,
    b.dropWhile Arrival.isMetaData = .entity data :: after →
    (b.takeWhile Arrival.isMetaData).getLast? = some (.metaData emd) →
    (∃ a ∈ after, a.IsMetaData) ∨ cString overrun emd.name = cString overrun data.name

theorem setNames_foldl (ms : List EntityMetaData) (e : Entity) :
    ms.foldl (setNameOne overrun) (some e) =
      some {e with name := (ms.getLast?.map fun emd => cString overrun emd.name).getD e.name} := by
  induction ms using List.reverseRecOn with
  | nil => rfl
  | append_singleton ms emd ih =>
    rw [List.foldl_append, ih, List.getLast?_concat]
    rfl

theorem setNames_none (ms : List EntityMetaData) : ms.foldl (setNameOne overrun) none = none := by
  induction ms with
  | nil => rfl
  | cons emd ms ih => exact ih

/-- A name and the positions of an entity that exists are set independently. -/
theorem insertOrSets_setName (ds : List EntityData) (e : Entity) (emd : EntityMetaData) :
    ds.foldl (insertOrSetOne overrun) (setNameOne overrun (some e) emd) =
      setNameOne overrun (ds.foldl (insertOrSetOne overrun) (some e)) emd := by
  induction ds generalizing e with
  | nil => rfl
  | cons d ds ih => exact ih (e.setValues d.pos d.pitch d.yaw)

theorem insertOrSets_some (ds : List EntityData) (e : Entity) :
    ∃ e', ds.foldl (insertOrSetOne overrun) (some e) = some e' ∧ e'.name = e.name := by
  induction ds generalizing e with
  | nil => exact ⟨e, rfl, rfl⟩
  | cons d ds ih => exact ih (e.setValues d.pos d.pitch d.yaw)

theorem removed_nil {b : List Arrival} (h : ∀ a ∈ b, ¬ a.IsRemove) :
    b.filterMap Arrival.removed? = [] := by
  refine List.filterMap_eq_nil_iff.mpr fun a ha => ?_
  cases a with
  | remove id => exact absurd trivial (h _ ha)
  | entity data => rfl
  | metaData emd => rfl

/-- An entity that exists and is not removed comes out the same in any order. -/
theorem batchOne_present (e : Entity) (b : List Arrival) (h : ∀ a ∈ b, ¬ a.IsRemove) :
    batchOne overrun (some e) b = inOrderOne overrun (some e) b := by
  induction b generalizing e with
  | nil => rfl
  | cons a b ih =>
    have hb : ∀ a ∈ b, ¬ a.IsRemove := fun a ha => h a (List.mem_cons_of_mem _ ha)
    cases a with
    | entity data => exact ih (e.setValues data.pos data.pitch data.yaw) hb
    | remove id => exact absurd trivial (h _ (List.mem_cons_self ..))
    | metaData emd =>
      have hnext := ih {e with name := cString overrun emd.name} hb
      rw [batchOne, removed_nil hb] at hnext
      rw [batchOne, removed_nil h]
      show (b.filterMap Arrival.metaData?).foldl (setNameOne overrun)
        (setNameOne overrun ((b.filterMap Arrival.entityData?).foldl (insertOrSetOne overrun) (some e)) emd) = _
      rw [← insertOrSets_setName]
      exact hnext

/-- A removal anywhere in the batch wins over everything else in it. -/
theorem batchOne_removed (e : Option Entity) {b : List Arrival} (h : ∃ a ∈ b, a.IsRemove) :
    batchOne overrun e b = none := by
  have hforget (ids : List Int) (hne : ids ≠ []) (x : Option Entity) :
      ids.foldl (fun _ _ => none) x = none := by
    induction ids using List.reverseRecOn with
    | nil => exact absurd rfl hne
    | append_singleton ids id _ => rw [List.foldl_append]; rfl
  have hne : b.filterMap Arrival.removed? ≠ [] := by
    obtain ⟨a, ha, hremove⟩ := h
    cases a with
    | remove id => exact List.ne_nil_of_mem (List.mem_filterMap.mpr ⟨_, ha, rfl⟩)
    | entity data => exact hremove.elim
    | metaData emd => exact hremove.elim
  rw [batchOne, hforget _ hne, setNames_none]

/-- In order, the entity is gone at the end when it never was or was removed, and each packet that
would bring it back is followed by a removal. -/
theorem inOrderOne_none (e : Option Entity) (b : List Arrival) :
    inOrderOne overrun e b = none ↔ (e = none ∨ ∃ a ∈ b, a.IsRemove) ∧
      ∀ before data after, b = before ++ .entity data :: after → ∃ a ∈ after, a.IsRemove := by
  induction b generalizing e with
  | nil => simp [inOrderOne]
  | cons a b ih =>
    have hsplit : (∀ before data after, a :: b = before ++ .entity data :: after →
          ∃ a ∈ after, a.IsRemove) ↔
        (a.IsEntity → ∃ a ∈ b, a.IsRemove) ∧
          ∀ before data after, b = before ++ .entity data :: after → ∃ a ∈ after, a.IsRemove := by
      constructor
      · intro h
        refine ⟨fun ha => ?_, fun before data after hb => ?_⟩
        · cases a with
          | entity data => exact h [] data b rfl
          | remove id => exact ha.elim
          | metaData emd => exact ha.elim
        · exact h (a :: before) data after (by rw [hb, List.cons_append])
      · intro h before data after hb
        obtain ⟨hhead, htail⟩ := h
        rcases List.cons_eq_append_iff.mp hb with ⟨-, hcons⟩ | ⟨before', -, hb'⟩
        · obtain ⟨rfl, rfl⟩ := List.cons.inj hcons
          exact hhead trivial
        · exact htail before' data after hb'
    show inOrderOne overrun (a.applyOne overrun e) b = none ↔ _
    rw [ih, hsplit, List.exists_mem_cons_iff]
    cases a with
    | entity data =>
      have hsome : (Arrival.entity data).applyOne overrun e ≠ none := by
        cases e <;> simp [Arrival.applyOne, insertOrSetOne]
      simp only [hsome, Arrival.IsEntity, Arrival.IsRemove]
      tauto
    | remove id => simp [Arrival.applyOne, Arrival.IsEntity, Arrival.IsRemove]
    | metaData emd =>
      have hnone : (Arrival.metaData emd).applyOne overrun e = none ↔ e = none := Option.map_eq_none_iff
      simp only [hnone, Arrival.IsEntity, Arrival.IsRemove]
      tauto

/-- The packets before the first that is no name. -/
theorem leading_names (b : List Arrival) :
    ∃ ms : List EntityMetaData, b.takeWhile Arrival.isMetaData = ms.map Arrival.metaData := by
  induction b with
  | nil => exact ⟨[], rfl⟩
  | cons a b ih =>
    obtain ⟨ms, hms⟩ := ih
    cases a with
    | metaData emd => exact ⟨emd :: ms, congrArg (Arrival.metaData emd :: ·) hms⟩
    | entity data => exact ⟨[], rfl⟩
    | remove id => exact ⟨[], rfl⟩

/-- Names alone bring up nothing, in either order. -/
theorem names_only (ms : List EntityMetaData) :
    inOrderOne overrun none (ms.map Arrival.metaData) = none ∧
      batchOne overrun none (ms.map Arrival.metaData) = none := by
  constructor
  · refine (inOrderOne_none overrun none _).mpr ⟨.inl rfl, fun before data after hsplit => ?_⟩
    have hmem : Arrival.entity data ∈ ms.map Arrival.metaData := by rw [hsplit]; simp
    simp at hmem
  · have hno : ∀ a ∈ ms.map Arrival.metaData, ¬ a.IsRemove := by
      intro a ha
      obtain ⟨emd, _, rfl⟩ := List.mem_map.mp ha
      exact id
    rw [batchOne, removed_nil hno]
    simp [List.filterMap_map, Function.comp_def, Arrival.entityData?, setNames_none]

/-- A batch that brings up a new entity: in the queues, the names before it are applied to it too. -/
theorem batchOne_new (ms : List EntityMetaData) (data : EntityData) (after : List Arrival)
    (h : ∀ a ∈ after, ¬ a.IsRemove) :
    ∃ e, e.name = cString overrun data.name ∧
      inOrderOne overrun none (ms.map Arrival.metaData ++ .entity data :: after) =
        (after.filterMap Arrival.metaData?).foldl (setNameOne overrun) (some e) ∧
      batchOne overrun none (ms.map Arrival.metaData ++ .entity data :: after) =
        (ms ++ after.filterMap Arrival.metaData?).foldl (setNameOne overrun) (some e) := by
  have hskip := (names_only overrun ms).1
  obtain ⟨e, he, hname⟩ := insertOrSets_some overrun (after.filterMap Arrival.entityData?)
    (Entity.new data.id data.pos data.pitch data.yaw (cString overrun data.name))
  refine ⟨e, hname, ?_, ?_⟩
  · have hsplit : inOrderOne overrun none (ms.map Arrival.metaData ++ .entity data :: after) =
        inOrderOne overrun (some (Entity.new data.id data.pos data.pitch data.yaw
          (cString overrun data.name))) after := by
      unfold inOrderOne at hskip ⊢
      rw [List.foldl_append, hskip]
      rfl
    rw [hsplit, ← batchOne_present overrun _ after h, batchOne, removed_nil h, he]
    rfl
  · have hremoved : (ms.map Arrival.metaData ++ .entity data :: after).filterMap Arrival.removed? = [] := by
      refine removed_nil fun a ha => ?_
      simp only [List.mem_append, List.mem_map, List.mem_cons] at ha
      rcases ha with ⟨emd, -, rfl⟩ | rfl | hafter
      · exact id
      · exact id
      · exact h a hafter
    have hentities : (ms.map Arrival.metaData ++ .entity data :: after).filterMap Arrival.entityData? =
        data :: after.filterMap Arrival.entityData? := by
      simp [List.filterMap_append, List.filterMap_map, Function.comp_def, Arrival.entityData?]
    have hnames : (ms.map Arrival.metaData ++ .entity data :: after).filterMap Arrival.metaData? =
        ms ++ after.filterMap Arrival.metaData? := by
      simp [List.filterMap_append, List.filterMap_map, Function.comp_def, Arrival.metaData?,
        List.filterMap_cons]
    rw [batchOne, hremoved, hentities, hnames]
    show (ms ++ _).foldl (setNameOne overrun) ((after.filterMap Arrival.entityData?).foldl
      (insertOrSetOne overrun) (some (Entity.new data.id data.pos data.pitch data.yaw _))) = _
    rw [he]

theorem names_nil_iff (b : List Arrival) :
    b.filterMap Arrival.metaData? = [] ↔ ¬ ∃ a ∈ b, a.IsMetaData := by
  rw [List.filterMap_eq_nil_iff]
  constructor
  · intro h hmem
    obtain ⟨a, ha, hmeta⟩ := hmem
    have hnone := h a ha
    cases a with
    | metaData emd => cases hnone
    | entity data => exact hmeta
    | remove id => exact hmeta
  · intro h a ha
    cases a with
    | metaData emd => exact absurd ⟨_, ha, trivial⟩ h
    | entity data => rfl
    | remove id => rfl

/-- The condition on a new entity's name is exact. -/
theorem named_iff (ms : List EntityMetaData) (data : EntityData) (after : List Arrival) (e : Entity)
    (hname : e.name = cString overrun data.name) :
    (((ms ++ after.filterMap Arrival.metaData?).foldl (setNameOne overrun) (some e)).map Entity.seen =
      ((after.filterMap Arrival.metaData?).foldl (setNameOne overrun) (some e)).map Entity.seen) ↔
    ∀ emd, ms.getLast? = some emd → (∃ a ∈ after, a.IsMetaData) ∨
      cString overrun emd.name = cString overrun data.name := by
  rw [setNames_foldl, setNames_foldl, Option.map_some, Option.map_some, Option.some_inj,
    List.getLast?_append]
  simp only [Entity.seen, Prod.mk.injEq, true_and]
  by_cases hafter : ∃ a ∈ after, a.IsMetaData
  · -- a later name overrides both
    have hne : after.filterMap Arrival.metaData? ≠ [] :=
      fun hnil => (names_nil_iff after).mp hnil hafter
    obtain ⟨last, hlast⟩ : ∃ last, (after.filterMap Arrival.metaData?).getLast? = some last :=
      ⟨_, List.getLast?_eq_some_getLast hne⟩
    rw [hlast]
    exact iff_of_true rfl (fun _ _ => .inl hafter)
  · rw [(names_nil_iff after).mpr hafter, hname]
    cases ms.getLast? with
    | none => simp
    | some emd => simp [hafter]

/-- The case of an entity that is new: the batch is names, then nothing or the packet that brings it up. -/
theorem batch_new_iff (b : List Arrival) (hno : ∀ a ∈ b, ¬ a.IsRemove) :
    (batchOne overrun none b).map Entity.seen = (inOrderOne overrun none b).map Entity.seen ↔
      ∀ data after emd, b.dropWhile Arrival.isMetaData = .entity data :: after →
        (b.takeWhile Arrival.isMetaData).getLast? = some (.metaData emd) →
        (∃ a ∈ after, a.IsMetaData) ∨ cString overrun emd.name = cString overrun data.name := by
  obtain ⟨ms, hms⟩ := leading_names b
  have hb : b = ms.map Arrival.metaData ++ b.dropWhile Arrival.isMetaData := by
    rw [← hms, List.takeWhile_append_dropWhile]
  have hlast (emd : EntityMetaData) :
      (b.takeWhile Arrival.isMetaData).getLast? = some (.metaData emd) ↔ ms.getLast? = some emd := by
    rw [hms, List.getLast?_map]
    simp
  cases hdrop : b.dropWhile Arrival.isMetaData with
  | nil =>
    rw [hdrop, List.append_nil] at hb
    obtain ⟨hinorder, hbatch⟩ := names_only overrun ms
    rw [hb, hinorder, hbatch]
    exact iff_of_true rfl fun data after emd h => by cases h
  | cons a after =>
    have hhead : a.isMetaData = false := by
      have hnot := List.head?_dropWhile_not Arrival.isMetaData b
      rw [hdrop] at hnot
      simpa using hnot
    rw [hdrop] at hb
    have hafter : ∀ a ∈ after, ¬ a.IsRemove := by
      intro a' ha'
      exact hno a' (by rw [hb]; simp [ha'])
    cases a with
    | metaData emd => cases hhead
    | remove id => exact absurd trivial (hno (.remove id) (by rw [hb]; simp))
    | entity data =>
      obtain ⟨e, hname, hinorder, hbatch⟩ := batchOne_new overrun ms data after hafter
      have hiff := named_iff overrun ms data after e hname
      rw [← hinorder, ← hbatch, ← hb] at hiff
      rw [hiff]
      constructor
      · intro h data' after' emd hd hl
        obtain ⟨hdata, rfl⟩ := List.cons.inj hd
        obtain rfl := Arrival.entity.inj hdata
        exact h emd ((hlast emd).mp hl)
      · intro h emd hl
        exact h data after emd rfl ((hlast emd).mpr hl)

/-- **One frame, one entity**: the queues give what the order of arrival gives exactly when
nothing in the batch depends on that order. -/
theorem batch_iff (e : Option Entity) (b : List Arrival) :
    (batchOne overrun e b).map Entity.seen = (inOrderOne overrun e b).map Entity.seen ↔
      InOrder overrun (e.isSome = true) b := by
  by_cases hr : ∃ a ∈ b, a.IsRemove
  · rw [batchOne_removed overrun e hr, Option.map_none, eq_comm, Option.map_eq_none_iff,
      inOrderOne_none]
    constructor
    · intro h
      obtain ⟨-, h⟩ := h
      exact ⟨fun _ => h, fun hno => absurd hr (by push Not; exact hno)⟩
    · intro h
      exact ⟨.inr hr, h.removed hr⟩
  · have hno : ∀ a ∈ b, ¬ a.IsRemove := by
      intro a ha hremove
      exact hr ⟨a, ha, hremove⟩
    cases e with
    | some entity =>
      rw [batchOne_present overrun entity b hno]
      exact iff_of_true rfl ⟨fun h => absurd h hr, fun _ hnew => absurd rfl hnew⟩
    | none =>
      rw [batch_new_iff overrun b hno]
      constructor
      · exact fun h => ⟨fun h => absurd h hr, fun _ _ => h⟩
      · exact fun h => h.named hno (by simp)

/-! ### Frames -/

/-- Packets arrive, then the main thread empties the queues. -/
def frame (s : Entities × Data) (f : List Arrival) : Entities × Data :=
  updateEntities overrun s.1 (f.foldl Arrival.push s.2)

def runFrames (entities : Entities) (frames : List (List Arrival)) : Entities × Data :=
  frames.foldl (frame overrun) (entities, noData)

/-- Every packet taken as it arrives. -/
def reference (entities : Entities) (arrivals : List Arrival) : Entities :=
  arrivals.foldl (Arrival.apply overrun) entities

/-- The same ids, each with the same position, yaw, pitch and name. -/
def Same (a b : Entities) : Prop := ∀ id, (a.lookup id).map Entity.seen = (b.lookup id).map Entity.seen

/-- Each id's packets of the frame are in order, on the entities before it. -/
def FrameInOrder (entities : Entities) (f : List Arrival) : Prop :=
  ∀ id, InOrder overrun (id ∈ entities) (f.filter fun a => a.id = id)

theorem reference_lookup (entities : Entities) (f : List Arrival) (id : Int) :
    (reference overrun entities f).lookup id =
      inOrderOne overrun (entities.lookup id) (f.filter fun a => a.id = id) :=
  Lib.Map.lookup_foldl (Arrival.apply overrun) Arrival.id (Arrival.applyOne overrun)
    (fun m o a => Arrival.apply_lookup overrun m o a) f entities id

/-- What is not compared does not flow into what is. -/
theorem inOrderOne_congr {e e' : Option Entity} (h : e.map Entity.seen = e'.map Entity.seen)
    (b : List Arrival) :
    (inOrderOne overrun e b).map Entity.seen = (inOrderOne overrun e' b).map Entity.seen := by
  induction b generalizing e e' with
  | nil => exact h
  | cons a b ih =>
    apply ih
    cases e with
    | none =>
      cases e' with
      | none => rfl
      | some e' => cases h
    | some e =>
      cases e' with
      | none => cases h
      | some e' =>
        obtain ⟨hpos, hyaw, hpitch, hname⟩ : e.pos = e'.pos ∧ e.yaw = e'.yaw ∧ e.pitch = e'.pitch ∧
            e.name = e'.name := by simpa [Entity.seen] using h
        cases a with
        | entity data => simp [Arrival.applyOne, insertOrSetOne, Entity.seen, Entity.setValues, hname]
        | remove id => rfl
        | metaData emd => simp [Arrival.applyOne, setNameOne, Entity.seen, hpos, hyaw, hpitch]

theorem runFrames_snoc (entities : Entities) (frames : List (List Arrival)) (f : List Arrival) :
    runFrames overrun entities (frames ++ [f]) = frame overrun (runFrames overrun entities frames) f := by
  rw [runFrames, List.foldl_append]
  rfl

/-- After a frame nothing is queued. -/
theorem runFrames_queues (entities : Entities) (frames : List (List Arrival)) :
    (runFrames overrun entities frames).2.entities = [] ∧
      (runFrames overrun entities frames).2.rmEntity = [] ∧
      (runFrames overrun entities frames).2.entitiesMetadata = [] := by
  induction frames using List.reverseRecOn with
  | nil => exact ⟨rfl, rfl, rfl⟩
  | append_singleton frames f _ =>
    rw [runFrames_snoc]
    exact ⟨rfl, rfl, rfl⟩

/-- One more frame keeps step with the reference exactly when it is in order. -/
theorem same_snoc {entities : Entities} {frames : List (List Arrival)} (f : List Arrival)
    (h : Same (runFrames overrun entities frames).1 (reference overrun entities frames.flatten)) :
    Same (runFrames overrun entities (frames ++ [f])).1
        (reference overrun entities (frames ++ [f]).flatten) ↔
      FrameInOrder overrun (runFrames overrun entities frames).1 f := by
  refine forall_congr' fun id => ?_
  have hcode : (runFrames overrun entities (frames ++ [f])).1.lookup id =
      batchOne overrun ((runFrames overrun entities frames).1.lookup id) (f.filter fun a => a.id = id) := by
    rw [runFrames_snoc]
    exact updateEntities_lookup overrun _ _ f id (runFrames_queues overrun entities frames)
  have hreference : (reference overrun entities (frames ++ [f]).flatten).lookup id =
      inOrderOne overrun ((reference overrun entities frames.flatten).lookup id)
        (f.filter fun a => a.id = id) := by
    rw [List.flatten_append, List.flatten_singleton, ← reference_lookup, reference, List.foldl_append]
    rfl
  rw [hcode, hreference, ← inOrderOne_congr overrun (h id), batch_iff, AList.lookup_isSome]

/-- **Entity packets take effect in arrival order after every frame exactly when every frame
is in order** on the entities before it. -/
theorem frames_iff (entities : Entities) (frames : List (List Arrival)) :
    (∀ before, before <+: frames →
      Same (runFrames overrun entities before).1 (reference overrun entities before.flatten)) ↔
    ∀ before f, before ++ [f] <+: frames →
      FrameInOrder overrun (runFrames overrun entities before).1 f :=
  Lib.Runs.prefixes_iff
    (fun before => Same (runFrames overrun entities before).1 (reference overrun entities before.flatten))
    (fun before f => FrameInOrder overrun (runFrames overrun entities before).1 f)
    (fun _ => rfl) (fun _ f h => same_snoc overrun f h) frames

/-- Entity 5 removed and added again within one frame: the removal is taken last. -/
theorem readded_entity_lost : ¬ ∀ (entities : Entities) (frames : List (List Arrival)),
    Same (runFrames (fun _ => []) entities frames).1
      (reference (fun _ => []) entities frames.flatten) := by
  intro h
  have h5 := h ∅ [[.remove 5, .entity ⟨5, ⟨0, 0, 0⟩, 0, 0, Vector.replicate 64 0⟩]] 5
  revert h5
  decide

end MyMinecraft
