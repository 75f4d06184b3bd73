import MyMinecraft.Client.Stream
import MyMinecraft.Lib.Map

/-! The entities on the main thread (`Entity.cpp`, `GameScene::updateEntities`).

The client thread sorts entity packets into three queues. Once a frame the main
thread empties them one after the other: first all additions and moves, then all
removals, then all names. -/
namespace MyMinecraft

structure Entity where
  id : Int
  pos : Vec3Bits
  pitch : UInt32
  yaw : UInt32
  name : List UInt8
  /-- `cube.transform.position`, `none` while it is what a new `Cube` has. -/
  cubePosition : Option Vec3Bits

/-- The constructor; it leaves the cube where it is. -/
def Entity.new (id : Int) (pos : Vec3Bits) (pitch yaw : UInt32) (name : List UInt8) : Entity :=
  ⟨id, pos, pitch, yaw, name, none⟩

def Entity.setValues (e : Entity) (npos : Vec3Bits) (npitch nyaw : UInt32) : Entity :=
  {e with pos := npos, pitch := npitch, yaw := nyaw, cubePosition := some npos}

abbrev Entities := AList fun _ : Int => Entity

/-- The string a `char[64]` is read as. Without a zero the scan goes on past the array, and
`overrun` is what it picks up there. -/
def cString (overrun : Vector UInt8 64 → List UInt8) (name : Vector UInt8 64) : List UInt8 :=
  if 0 ∈ name.toList then name.toList.takeWhile (· ≠ 0) else name.toList ++ overrun name

section
variable (overrun : Vector UInt8 64 → List UInt8)

/-- The first loop, for one record. -/
def insertOrSet (entities : Entities) (data : EntityData) : Entities :=
  match entities.lookup data.id with
  | some entity => entities.insert data.id (entity.setValues data.pos data.pitch data.yaw)
  | none =>
    entities.insert data.id
      (Entity.new data.id data.pos data.pitch data.yaw (cString overrun data.name))

/-- The third loop, for one record. -/
def setName (entities : Entities) (emd : EntityMetaData) : Entities :=
  match entities.lookup emd.id with
  | some entity => entities.insert emd.id {entity with name := cString overrun emd.name}
  | none => entities

def updateEntities (entities : Entities) (data : Data) : Entities × Data :=
  let entities := data.entities.foldl (insertOrSet overrun) entities
  let entities := data.rmEntity.foldl (fun entities id => entities.erase id) entities
  let entities := data.entitiesMetadata.foldl (setName overrun) entities
  (entities, {data with entities := [], rmEntity := [], entitiesMetadata := []})

/-- What an entity packet becomes on its way to a queue: 0x01 and 0x03, 0x02, or 0x07. -/
inductive Arrival where
  | entity (data : EntityData)
  | remove (id : Int)
  | metaData (emd : EntityMetaData)

namespace Arrival

def id : Arrival → Int
  | entity data => data.id
  | remove id => id
  | metaData emd => emd.id

def IsEntity : Arrival → Prop
  | entity _ => True
  | _ => False

def IsRemove : Arrival → Prop
  | remove _ => True
  | _ => False

def IsMetaData : Arrival → Prop
  | metaData _ => True
  | _ => False

/-- The handler's `push_back`. -/
def push (data : Data) : Arrival → Data
  | entity e => {data with entities := data.entities ++ [e]}
  | remove id => {data with rmEntity := data.rmEntity ++ [id]}
  | metaData emd => {data with entitiesMetadata := data.entitiesMetadata ++ [emd]}

/-- Its effect, were it taken as it arrives. -/
def apply (entities : Entities) : Arrival → Entities
  | entity data => insertOrSet overrun entities data
  | remove id => entities.erase id
  | metaData emd => setName overrun entities emd

end Arrival

/-- What becomes of a packet from the server. -/
def Packet.arrival (p : Packet) : Option Arrival :=
  match p.entityData, p.removed, p.metaData with
  | some data, _, _ => some (.entity data)
  | none, some id, _ => some (.remove id)
  | none, none, some emd => some (.metaData emd)
  | none, none, none => none

/-- Receiving a packet pushes its arrival and nothing else. -/
theorem Client.receive_arrival (c : Client) (host : Lib.Wire.Endian) (p : Packet) (rest : List UInt8)
    (hb : c.buffer.Clean) (hs : c.socket = p.bytes ++ rest) :
    ∃ c', c.receive host = .ok (true, c') ∧ c'.socket = rest ∧ c'.buffer.Clean ∧
      c'.data.entities = (p.arrival.toList.foldl Arrival.push c.data).entities ∧
      c'.data.rmEntity = (p.arrival.toList.foldl Arrival.push c.data).rmEntity ∧
      c'.data.entitiesMetadata = (p.arrival.toList.foldl Arrival.push c.data).entitiesMetadata := by
  obtain ⟨c', hcall, hsocket, hclean, hhandled⟩ := receive_packet c host p rest hb hs
  refine ⟨c', hcall, hsocket, hclean, ?_, ?_, ?_⟩
  · rw [hhandled.decoded.entities]
    cases p <;> simp [Packet.arrival, Packet.entityData, Packet.removed, Packet.metaData, Arrival.push]
  · rw [hhandled.decoded.rmEntity]
    cases p <;> simp [Packet.arrival, Packet.entityData, Packet.removed, Packet.metaData, Arrival.push]
  · rw [hhandled.entitiesMetadata]
    cases p <;> simp [Packet.arrival, Packet.entityData, Packet.removed, Packet.metaData, Arrival.push]

/-- No entity packet is pending. -/
structure Data.Idle (data : Data) : Prop where
  entities : data.entities = []
  rmEntity : data.rmEntity = []
  entitiesMetadata : data.entitiesMetadata = []

/-- Alone in the queues, an arrival has its own effect. -/
theorem updateEntities_push (entities : Entities) {data : Data} (h : data.Idle) (a : Arrival) :
    (updateEntities overrun entities (a.push data)).1 = a.apply overrun entities := by
  cases a <;> simp [updateEntities, Arrival.push, Arrival.apply, h.entities, h.rmEntity, h.entitiesMetadata]

/-- The three loops read three queues. -/
theorem updateEntities_congr (entities : Entities) {data data' : Data}
    (he : data.entities = data'.entities) (hr : data.rmEntity = data'.rmEntity)
    (hm : data.entitiesMetadata = data'.entitiesMetadata) :
    (updateEntities overrun entities data).1 = (updateEntities overrun entities data').1 := by
  simp only [updateEntities, he, hr, hm]

/-- A packet received with nothing else pending, and the frame after it. -/
theorem Client.receive_applied (c : Client) (host : Lib.Wire.Endian) (p : Packet) (rest : List UInt8)
    {a : Arrival} (ha : p.arrival = some a) (hb : c.buffer.Clean) (hidle : c.data.Idle)
    (hs : c.socket = p.bytes ++ rest) (entities : Entities) :
    ∃ c', c.receive host = .ok (true, c') ∧
      (updateEntities overrun entities c'.data).1 = a.apply overrun entities := by
  obtain ⟨c', hcall, _, _, he, hr, hm⟩ := receive_arrival c host p rest hb hs
  refine ⟨c', hcall, ?_⟩
  rw [ha] at he hr hm
  rw [updateEntities_congr overrun entities he hr hm]
  exact updateEntities_push overrun entities hidle a

/-! ### One entity at a time -/

def insertOrSetOne (e : Option Entity) (data : EntityData) : Option Entity :=
  match e with
  | some entity => some (entity.setValues data.pos data.pitch data.yaw)
  | none => some (Entity.new data.id data.pos data.pitch data.yaw (cString overrun data.name))

def setNameOne (e : Option Entity) (emd : EntityMetaData) : Option Entity :=
  e.map fun entity => {entity with name := cString overrun emd.name}

def Arrival.applyOne (e : Option Entity) : Arrival → Option Entity
  | entity data => insertOrSetOne overrun e data
  | remove _ => none
  | metaData emd => setNameOne overrun e emd

theorem insertOrSet_lookup (entities : Entities) (data : EntityData) (id : Int) :
    (insertOrSet overrun entities data).lookup id =
      if id = data.id then insertOrSetOne overrun (entities.lookup id) data
      else entities.lookup id := by
  unfold insertOrSet
  by_cases h : id = data.id
  · subst h
    cases hl : entities.lookup data.id <;> simp [insertOrSetOne]
  · cases hl : entities.lookup data.id <;> simp [h, AList.lookup_insert_ne]

theorem setName_lookup (entities : Entities) (emd : EntityMetaData) (id : Int) :
    (setName overrun entities emd).lookup id =
      if id = emd.id then setNameOne overrun (entities.lookup id) emd else entities.lookup id := by
  unfold setName
  by_cases h : id = emd.id
  · subst h
    cases hl : entities.lookup emd.id <;> simp [setNameOne, hl]
  · cases hl : entities.lookup emd.id <;> simp [h, AList.lookup_insert_ne]

theorem Arrival.apply_lookup (entities : Entities) (a : Arrival) (id : Int) :
    (a.apply overrun entities).lookup id =
      if id = a.id then a.applyOne overrun (entities.lookup id) else entities.lookup id := by
  cases a with
  | entity data => exact insertOrSet_lookup overrun entities data id
  | remove id' => exact Lib.Map.lookup_erase id id' entities
  | metaData emd => exact setName_lookup overrun entities emd id

/-- An arrival touches the entity it names and no other. -/
theorem Arrival.apply_other (entities : Entities) {a : Arrival} {id : Int} (h : id ≠ a.id) :
    (a.apply overrun entities).lookup id = entities.lookup id := by
  rw [apply_lookup, if_neg h]

end
end MyMinecraft
