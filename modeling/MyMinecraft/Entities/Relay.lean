import MyMinecraft.Client.Outgoing
import MyMinecraft.Entities

/-! A pose on its way from one client to another.

The server is not in the repository. What is assumed of it is `relay`: it puts the
sender's entity id in front of the pose and passes both on as a 0x03 packet. -/
namespace MyMinecraft
open Lib.Wire (Endian store)

/-- The bytes the server passes on for the bytes a client sent. -/
def relay (id : Int32) (sent : List UInt8) : List UInt8 := 0x03 :: (store .big id.toUInt32 ++ (sent.drop 1).take 20)

/-- The struct after some sends. -/
def afterSends (host : Endian) (earlier : List Pose) : UpdateMyEntityData :=
  earlier.foldl (fun ued pose => (sendUpdateEntity host ued pose).1) .zero

/-- The pose as the packet the server makes of it. -/
def Pose.packet (id : Int32) (pose : Pose) : Packet :=
  .updateEntity id ⟨pose.xpos, pose.ypos, pose.zpos⟩ pose.yaw pose.pitch

theorem relay_bytes (host : Endian) (ued : UpdateMyEntityData) (id : Int32) (pose : Pose) :
    relay id (sendUpdateEntity host ued pose).2 = (pose.packet id).bytes := by
  rw [relay, sendUpdateEntity_bytes, List.drop_one, List.tail_cons,
    List.take_of_length_le (by simp [Lib.Wire.words_length])]
  simp [Pose.packet, Packet.bytes, Packet.id, Packet.payload, Packet.fields, Packet.raw, Lib.Wire.words]

/-- The entity has the pose, each number in its own field. -/
structure Entity.HasPose (e : Entity) (pose : Pose) : Prop where
  pos : e.pos = ⟨pose.xpos, pose.ypos, pose.zpos⟩
  yaw : e.yaw = pose.yaw
  pitch : e.pitch = pose.pitch

variable (overrun : Vector UInt8 64 → List UInt8)

/-- Created or moved, the entity has the pose. -/
theorem insertOrSet_hasPose (entities : Entities) (id : Int) (pose : Pose) (name : Vector UInt8 64) :
    ∃ e, (insertOrSet overrun entities
        ⟨id, ⟨pose.xpos, pose.ypos, pose.zpos⟩, pose.yaw, pose.pitch, name⟩).lookup id = some e ∧
      e.HasPose pose := by
  rw [insertOrSet_lookup, if_pos rfl]
  cases entities.lookup id with
  | some entity => exact ⟨_, rfl, rfl, rfl, rfl⟩
  | none => exact ⟨_, rfl, rfl, rfl, rfl⟩

/-- **A pose survives the trip**, from a host of either byte order to one of either. -/
theorem pose_relayed (sender receiver : Endian) (earlier : List Pose) (pose : Pose) (id : Int32)
    (c : Client) (hc : Client.Reachable receiver c) (hidle : c.data.Idle) (rest : List UInt8)
    (hs : c.socket = relay id (sendUpdateEntity sender (afterSends sender earlier) pose).2 ++ rest)
    (entities : Entities) :
    ∃ c', c.receive receiver = .ok (true, c') ∧
      (∃ e, (updateEntities overrun entities c'.data).1.lookup id.toInt = some e ∧ e.HasPose pose) ∧
      ∀ other, other ≠ id.toInt →
        (updateEntities overrun entities c'.data).1.lookup other = entities.lookup other := by
  rw [relay_bytes] at hs
  obtain ⟨c', hcall, happlied⟩ :=
    Client.receive_applied overrun c receiver (pose.packet id) rest rfl (hc.clean receiver) hidle hs entities
  refine ⟨c', hcall, ?_, fun other hne => ?_⟩
  · rw [happlied]
    exact insertOrSet_hasPose overrun entities id.toInt pose _
  · rw [happlied]
    exact Arrival.apply_other overrun entities hne

/-- A NaN for its height, and a pitch that is not its yaw. -/
def oddPose : Pose := ⟨0x3f800000, 0x7fc00001, 0x80000000, 0x40490fdb, 0xbf800000⟩

/-- A client that knows nobody and has that pose before it, sent by a little-endian host as its
second one. -/
def relayedTo : Client :=
  ⟨Buffer.zero, ⟨[], [], [], [], []⟩, 0,
    relay (-7) (sendUpdateEntity .little (afterSends .little [oddPose]) oddPose).2 ++ []⟩

theorem pose_relayed_new : ∃ c', relayedTo.receive .big = .ok (true, c') ∧
    ∃ e, (updateEntities (fun _ => []) ∅ c'.data).1.lookup (-7) = some e ∧ e.HasPose oddPose := by
  obtain ⟨c', hcall, hpose, _⟩ := pose_relayed (fun _ => []) .little .big [oddPose] oddPose (-7)
    relayedTo (.start 0 _) ⟨rfl, rfl, rfl⟩ [] rfl ∅
  exact ⟨c', hcall, hpose⟩

end MyMinecraft
