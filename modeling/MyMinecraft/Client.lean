import MyMinecraft.Lib.Wire
import MyMinecraft.World

/-! The client's side of the connection (`Client.cpp`): receiving.

`receive` reads one id byte, asks `packetid` how much follows, reads that into the
same buffer and calls the handler of the id. What the socket has still to deliver
is a list of bytes, after which every read fails; `async_receive` takes one byte of
it, and `asio::read` as many as it was asked for, or all there are and then fails.
The host's byte order is a parameter: the handlers copy words as they are and
convert them. Nothing on the way to the queues computes with a `float`, so a
`float` is its 32 bits here and a `char` array is its bytes. -/
namespace MyMinecraft
open Lib.Wire (Endian load fromBig)

/-! ### What the client thread queues for the main thread -/

structure ChunkData where
  pos : Ivec3
  blocktypes : Vector UInt8 4096

/-- `glm::vec3`, by the bits of its components. -/
structure Vec3Bits where
  x : UInt32
  y : UInt32
  z : UInt32
  deriving DecidableEq

structure EntityData where
  id : Int
  pos : Vec3Bits
  yaw : UInt32
  pitch : UInt32
  name : Vector UInt8 64

structure EntityMetaData where
  id : Int
  name : Vector UInt8 64

/-- The bytes of the text, without a terminator. -/
structure ChatData where
  text : List UInt8

structure Data where
  chunks : List ChunkData
  entities : List EntityData
  entitiesMetadata : List EntityMetaData
  chatHistory : List ChatData
  rmEntity : List Int

/-- The two packets that carry a chunk, 0x04 and 0x05. -/
inductive ChunkPacket where
  | chunk (pos : Ivec3) (blocktypes : Vector UInt8 4096)
  | monoTypeChunk (pos : Ivec3) (blocktype : UInt8)

def ChunkPacket.pos : ChunkPacket → Ivec3
  | .chunk pos _ => pos
  | .monoTypeChunk pos _ => pos

/-- The byte for a block of the chunk. 0x05 carries one for all of them. -/
def ChunkPacket.byte (i : Nat) : ChunkPacket → Option UInt8
  | .chunk _ blocktypes => blocktypes[i]?
  | .monoTypeChunk _ blocktype => if i < 4096 then some blocktype else none

/-- What `receiveChunk` and `receiveMonoTypeChunk` push to `data.chunks`. -/
def ChunkPacket.data : ChunkPacket → ChunkData
  | .chunk pos blocktypes => ⟨pos, blocktypes⟩
  | .monoTypeChunk pos blocktype => ⟨pos, Vector.replicate 4096 blocktype⟩

/-! ### Reading -/

/-- `uint8_t buffer[5000]`. -/
structure Buffer where
  bytes : List UInt8
  size : bytes.length = 5000

namespace Buffer

def zero : Buffer := ⟨List.replicate 5000 0, List.length_replicate⟩

/-- Bytes written from index 0 up. Nothing longer than the buffer is ever written
(`packetid_le`), so what the last `take` would cut off does not exist. -/
def write (b : Buffer) (bs : List UInt8) : Buffer where
  bytes := (bs ++ b.bytes.drop bs.length).take 5000
  size := by
    rw [List.length_take, List.length_append, List.length_drop, b.size]
    omega

/-- `memcpy` of a word, as this host reads it. -/
def word (b : Buffer) (host : Endian) (offset : Nat) : UInt32 :=
  load host ((b.bytes.drop offset).take 4)

/-- `memcpy` of `n` bytes into an array. -/
def copy (b : Buffer) (offset n : Nat) : Vector UInt8 n :=
  Vector.ofFn fun i => b.bytes.getD (offset + i) 0

end Buffer

/-- The data members `receive` uses. -/
structure Client where
  buffer : Buffer
  data : Data
  entityId : Int
  /-- What the socket has still to deliver. -/
  socket : List UInt8

/-- `sizeof(EntityData)`: an id, three coordinates, yaw and pitch, and 64 characters, with no
padding between. -/
def sizeofEntityData : Nat := 4 + 3 * 4 + 4 + 4 + 64

/-- How many bytes follow the id. -/
def packetid : List (UInt8 × Nat) :=
  [(0x00, 4), (0x01, sizeofEntityData), (0x02, 4), (0x03, 24), (0x04, 12 + 4096), (0x05, 13),
    (0x06, 4096), (0x07, 68)]

theorem packetid_mem {id : UInt8} {len : Nat} (h : packetid.lookup id = some len) :
    (id, len) ∈ packetid := by
  obtain ⟨before, after, hlist, _⟩ := List.lookup_eq_some_iff.mp h
  rw [hlist]
  exact List.mem_append_right _ (List.mem_cons_self ..)

/-- No packet reaches the last 892 bytes of the buffer. -/
theorem packetid_le {id : UInt8} {len : Nat} (h : packetid.lookup id = some len) : len ≤ 4108 := by
  have hall : ∀ p ∈ packetid, p.2 ≤ 4108 := by decide
  exact hall (id, len) (packetid_mem h)

namespace Client

def receiveAll (c : Client) (len : Nat) : Bool × Client :=
  if len ≤ c.socket.length then
    (true, {c with buffer := c.buffer.write (c.socket.take len), socket := c.socket.drop len})
  else (false, {c with buffer := c.buffer.write c.socket, socket := []})

/-! ### The handlers -/

/-- A word of the buffer, converted by `be32toh` and kept in an `int`. -/
def int (c : Client) (host : Endian) (offset : Nat) : Int :=
  (fromBig host (c.buffer.word host offset)).toInt32.toInt

/-- A word of the buffer as the `float` the caller copies: the byte order is changed and no bit. -/
def convertToFloat (c : Client) (host : Endian) (offset : Nat) : UInt32 :=
  fromBig host (c.buffer.word host offset)

def myEntityID (c : Client) (host : Endian) : Client := {c with entityId := c.int host 0}

def addEntity (c : Client) (host : Endian) : Client :=
  let entity : EntityData :=
    { id := c.int host 0
      pos := ⟨c.convertToFloat host 4, c.convertToFloat host 8, c.convertToFloat host 12⟩
      yaw := c.convertToFloat host 16
      pitch := c.convertToFloat host 20
      name := c.buffer.copy 24 64 }
  {c with data.entities := c.data.entities ++ [entity]}

def removeEntity (c : Client) (host : Endian) : Client :=
  {c with data.rmEntity := c.data.rmEntity ++ [c.int host 0]}

/-- The name is not sent and stays all zeros. -/
def receiveUpdateEntity (c : Client) (host : Endian) : Client :=
  let entity : EntityData :=
    { id := c.int host 0
      pos := ⟨c.convertToFloat host 4, c.convertToFloat host 8, c.convertToFloat host 12⟩
      yaw := c.convertToFloat host 16
      pitch := c.convertToFloat host 20
      name := Vector.replicate 64 0 }
  {c with data.entities := c.data.entities ++ [entity]}

def receiveChunk (c : Client) (host : Endian) : Client :=
  let chunk : ChunkData :=
    { pos := ⟨c.int host 0, c.int host 4, c.int host 8⟩
      blocktypes := c.buffer.copy 12 4096 }
  {c with data.chunks := c.data.chunks ++ [chunk]}

def receiveMonoTypeChunk (c : Client) (host : Endian) : Client :=
  let blocktype := c.buffer.bytes.getD 12 0
  let chunk : ChunkData :=
    { pos := ⟨c.int host 0, c.int host 4, c.int host 8⟩
      blocktypes := Vector.replicate 4096 blocktype }
  {c with data.chunks := c.data.chunks ++ [chunk]}

/-- `assign` takes the buffer as a C string: it scans from index 0 for a zero, past the
packet and, without one, past the buffer. -/
def receiveChat (c : Client) : Except Fault Client :=
  if 0 ∈ c.buffer.bytes then
    let cd : ChatData := ⟨c.buffer.bytes.takeWhile (· ≠ 0)⟩
    .ok {c with data.chatHistory := c.data.chatHistory ++ [cd]}
  else .error .outOfBounds

/-- The `memcpy` of the name copies `sizeof(64)` bytes, the size of an `int`. -/
def receiveEntityMetaData (c : Client) (host : Endian) : Client :=
  let emd : EntityMetaData :=
    { id := c.int host 0
      name := Vector.ofFn fun i => if i.val < 4 then c.buffer.bytes.getD (4 + i) 0 else 0 }
  {c with data.entitiesMetadata := c.data.entitiesMetadata ++ [emd]}

/-- The `switch`. -/
def handle (c : Client) (host : Endian) (id : UInt8) : Except Fault Client :=
  match id.toNat with
  | 0x00 => .ok (c.myEntityID host)
  | 0x01 => .ok (c.addEntity host)
  | 0x02 => .ok (c.removeEntity host)
  | 0x03 => .ok (c.receiveUpdateEntity host)
  | 0x04 => .ok (c.receiveChunk host)
  | 0x05 => .ok (c.receiveMonoTypeChunk host)
  | 0x06 => c.receiveChat
  | 0x07 => .ok (c.receiveEntityMetaData host)
  | _ => .ok c

/-- The result and the client after the call; a fault is the exception `packetid.at` throws
or a chat scan that leaves the buffer. -/
def receive (c : Client) (host : Endian) : Except Fault (Bool × Client) :=
  match c.socket with
  | [] => .ok (false, c)
  | byte :: rest =>
    let c : Client := {c with buffer := c.buffer.write [byte], socket := rest}
    let id := c.buffer.bytes.getD 0 0
    match packetid.lookup id with
    | none => .error .outOfRange
    | some len =>
      match c.receiveAll len with
      | (true, c) => (c.handle host id).map fun c => (true, c)
      | (false, c) => .ok (false, c)

/-- A number of calls in a row. -/
def receives (host : Endian) : Nat → Client → Except Fault (List Bool × Client)
  | 0, c => .ok ([], c)
  | m + 1, c => do
    let (result, c) ← c.receive host
    let (results, c) ← receives host m c
    return (result :: results, c)

/-- The states a client can be in: constructed, its `entity_id` still anything, and with a
whole stream before it; after a call; or with its queues as the main thread leaves them. -/
inductive Reachable (host : Endian) : Client → Prop where
  | start (entityId : Int) (socket : List UInt8) :
    Reachable host ⟨Buffer.zero, ⟨[], [], [], [], []⟩, entityId, socket⟩
  | receive {c c' : Client} {result : Bool} (h : Reachable host c)
      (hcall : c.receive host = .ok (result, c')) : Reachable host c'
  | taken {c : Client} (data : Data) (h : Reachable host c) : Reachable host {c with data}

end Client
end MyMinecraft
