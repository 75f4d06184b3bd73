import MyMinecraft.Client.Access

/-! The stream of packets, read back.

A packet on the wire is an id byte, some words and some raw bytes. The lengths in
`packetid` are the lengths of the packets (`packetid_payload`) and the handlers'
offsets are the places of their fields (`loaded_int`, `loaded_convertToFloat`, `loaded_copy`), so a
call of `receive` takes exactly one packet and keeps its record, whatever the buffer
held before: `receive_packet`. Over a stream that may end inside a packet that is
`receive_stream`. -/
namespace MyMinecraft
open Lib.Wire (Endian fromBig words)

/-- What a server may send. Floats are bit patterns. -/
inductive Packet where
  | myEntityID (id : Int32)
  | addEntity (id : Int32) (pos : Vec3Bits) (yaw pitch : UInt32) (name : Vector UInt8 64)
  | removeEntity (id : Int32)
  | updateEntity (id : Int32) (pos : Vec3Bits) (yaw pitch : UInt32)
  | chunk (x y z : Int32) (blocktypes : Vector UInt8 4096)
  | monoTypeChunk (x y z : Int32) (blocktype : UInt8)
  | chat (text : Vector UInt8 4096)
  | entityMetaData (id : Int32) (name : Vector UInt8 64)

namespace Packet

def id : Packet → UInt8
  | myEntityID .. => 0x00
  | addEntity .. => 0x01
  | removeEntity .. => 0x02
  | updateEntity .. => 0x03
  | chunk .. => 0x04
  | monoTypeChunk .. => 0x05
  | chat .. => 0x06
  | entityMetaData .. => 0x07

/-- The ints and floats, in the order of the handlers' comments. -/
def fields : Packet → List UInt32
  | myEntityID id | removeEntity id | entityMetaData id _ => [id.toUInt32]
  | addEntity id pos yaw pitch _ | updateEntity id pos yaw pitch =>
    [id.toUInt32, pos.x, pos.y, pos.z, yaw, pitch]
  | chunk x y z _ | monoTypeChunk x y z _ => [x.toUInt32, y.toUInt32, z.toUInt32]
  | chat _ => []

/-- The bytes after them. -/
def raw : Packet → List UInt8
  | addEntity _ _ _ _ name | entityMetaData _ name => name.toList
  | chunk _ _ _ blocktypes => blocktypes.toList
  | monoTypeChunk _ _ _ blocktype => [blocktype]
  | chat text => text.toList
  | myEntityID _ | removeEntity _ | updateEntity .. => []

def payload (p : Packet) : List UInt8 := words p.fields ++ p.raw

def bytes (p : Packet) : List UInt8 := p.id :: p.payload

/-! ### What a packet should leave -/

/-- A packet of one block type is the packet with that byte 4096 times. -/
def chunkData : Packet → Option ChunkData
  | chunk x y z blocktypes => some (ChunkPacket.chunk ⟨x.toInt, y.toInt, z.toInt⟩ blocktypes).data
  | monoTypeChunk x y z blocktype =>
    some (ChunkPacket.chunk ⟨x.toInt, y.toInt, z.toInt⟩ (Vector.replicate 4096 blocktype)).data
  | _ => none

def entityData : Packet → Option EntityData
  | addEntity id pos yaw pitch name => some ⟨id.toInt, pos, yaw, pitch, name⟩
  | updateEntity id pos yaw pitch => some ⟨id.toInt, pos, yaw, pitch, Vector.replicate 64 0⟩
  | _ => none

def removed : Packet → Option Int
  | removeEntity id => some id.toInt
  | _ => none

def ownId : Packet → Option Int
  | myEntityID id => some id.toInt
  | _ => none

/-- The record of a 0x07 packet, as its handler keeps it: the first four bytes of the name. -/
def metaData : Packet → Option EntityMetaData
  | entityMetaData id name => some ⟨id.toInt, Vector.ofFn fun i => if i.val < 4 then name.get i else 0⟩
  | _ => none

/-- The text of a 0x06 packet, as its handler reads it: on past the packet into the bytes `behind`. -/
def chatData (behind : List UInt8) : Packet → Option ChatData
  | chat text => some ⟨(text.toList ++ behind).takeWhile (· ≠ 0)⟩
  | _ => none

end Packet

/-- The queues and the entity id of `c'` are those of `c` after the packets, in order. -/
structure Decoded (packets : List Packet) (c c' : Client) : Prop where
  chunks : c'.data.chunks = c.data.chunks ++ packets.filterMap Packet.chunkData
  entities : c'.data.entities = c.data.entities ++ packets.filterMap Packet.entityData
  rmEntity : c'.data.rmEntity = c.data.rmEntity ++ packets.filterMap Packet.removed
  entityId : c'.entityId = (packets.filterMap Packet.ownId).getLast?.getD c.entityId

/-- `c'` is `c` after the packet, but for the socket and the buffer. -/
structure Handled (p : Packet) (c c' : Client) : Prop where
  decoded : Decoded [p] c c'
  entitiesMetadata : c'.data.entitiesMetadata = c.data.entitiesMetadata ++ p.metaData.toList
  chatHistory : c'.data.chatHistory =
    c.data.chatHistory ++ (p.chatData (c.buffer.bytes.drop 4096)).toList

/-- No packet, no change. -/
theorem Decoded.unchanged {c c' : Client} (hdata : c'.data = c.data) (hid : c'.entityId = c.entityId) :
    Decoded [] c c' where
  chunks := by rw [hdata]; exact (List.append_nil _).symm
  entities := by rw [hdata]; exact (List.append_nil _).symm
  rmEntity := by rw [hdata]; exact (List.append_nil _).symm
  entityId := hid

theorem Decoded.append {a b : List Packet} {c c' c'' : Client} (h : Decoded a c c')
    (h' : Decoded b c' c'') : Decoded (a ++ b) c c'' where
  chunks := by rw [h'.chunks, h.chunks, List.filterMap_append, List.append_assoc]
  entities := by rw [h'.entities, h.entities, List.filterMap_append, List.append_assoc]
  rmEntity := by rw [h'.rmEntity, h.rmEntity, List.filterMap_append, List.append_assoc]
  entityId := by
    rw [h'.entityId, h.entityId, List.filterMap_append, List.getLast?_append]
    cases (b.filterMap Packet.ownId).getLast? <;> rfl

/-! ### The buffer -/

namespace Buffer

/-- The part of the buffer past the longest packet is as it was constructed. -/
def Clean (b : Buffer) : Prop := b.bytes.drop 4108 = List.replicate 892 0

theorem clean_zero : zero.Clean := List.drop_replicate ..

/-- Nothing at or behind the end of what was written has changed. -/
theorem drop_write (b : Buffer) {bs : List UInt8} {n : Nat} (h : bs.length ≤ n) (hn : n ≤ 5000) :
    (b.write bs).bytes.drop n = b.bytes.drop n := by
  rw [write_bytes b (h.trans hn), List.drop_append, List.drop_eq_nil_of_le h, List.nil_append, List.drop_drop,
    Nat.add_sub_of_le h]

theorem Clean.write {b : Buffer} (hb : b.Clean) {bs : List UInt8} (h : bs.length ≤ 4108) :
    (b.write bs).Clean := (drop_write b h (by decide)).trans hb

/-- Accesses that stay within the longest packet keep the rest of the buffer. -/
theorem Clean.after {b : Buffer} (hb : b.Clean) {trace : List Access}
    (h : ∀ bytes, .write bytes ∈ trace → bytes.length ≤ 4108) : (trace.foldl Buffer.after b).Clean := by
  induction trace generalizing b with
  | nil => exact hb
  | cons access trace ih =>
    have hnext : (b.after access).Clean := by
      cases access with
      | write bytes => exact hb.write (h bytes (List.mem_cons_self ..))
      | scan bytes => exact hb
    exact ih hnext fun bytes hmem => h bytes (List.mem_cons_of_mem _ hmem)

theorem Clean.write_id {b : Buffer} (hb : b.Clean) (byte : UInt8) : (b.write [byte]).Clean :=
  hb.write (show 1 ≤ 4108 by decide)

theorem Clean.terminated {b : Buffer} (hb : b.Clean) : 0 ∈ b.bytes := by
  apply List.mem_of_mem_drop (i := 4108)
  rw [hb]
  exact List.mem_replicate.mpr ⟨by decide, rfl⟩

/-- The `k`-th word of a message just read, as the host converts it. -/
theorem word_write (b : Buffer) (host : Endian) {ws : List UInt32} {raw : List UInt8}
    (h : (words ws ++ raw).length ≤ 5000) (k : Nat) (hk : k < ws.length) :
    fromBig host ((b.write (words ws ++ raw)).word host (4 * k)) = ws[k] := by
  rw [word, write_bytes b h, List.append_assoc, Lib.Wire.take_word ws _ k hk, Lib.Wire.word_fromBig]

theorem getD_write (b : Buffer) {ws : List UInt32} {raw : List UInt8}
    (h : (words ws ++ raw).length ≤ 5000) (i : Nat) (hi : i < raw.length) :
    (b.write (words ws ++ raw)).bytes.getD (4 * ws.length + i) 0 = raw[i] := by
  rw [write_bytes b h, List.append_assoc, List.getD_eq_getElem?_getD, Lib.Wire.getElem?_raw,
    List.getElem?_append_left hi, List.getElem?_eq_getElem hi, Option.getD_some]

/-- The raw bytes of a message just read. -/
theorem copy_write (b : Buffer) {n : Nat} {ws : List UInt32} (v : Vector UInt8 n)
    (h : (words ws ++ v.toList).length ≤ 5000) :
    (b.write (words ws ++ v.toList)).copy (4 * ws.length) n = v := by
  ext i hi
  rw [copy, Vector.getElem_ofFn, getD_write b h i (by simpa using hi)]
  simp

end Buffer

/-! ### One packet -/

/-- The length table agrees with the layout of every packet. -/
theorem packetid_payload (p : Packet) : packetid.lookup p.id = some p.payload.length := by
  cases p <;> simp [packetid, Packet.id, Packet.payload, Packet.fields, Packet.raw,
    Lib.Wire.words_length, sizeofEntityData, List.lookup]

theorem payload_le (p : Packet) : p.payload.length ≤ 4108 := packetid_le (packetid_payload p)

namespace Client

/-- The client when it has read a packet and is about to handle it. -/
def loaded (c : Client) (p : Packet) (rest : List UInt8) : Client :=
  {c with buffer := (c.buffer.write [p.id]).write p.payload, socket := rest}

theorem receive_loaded (c : Client) (host : Endian) (p : Packet) (rest : List UInt8)
    (hs : c.socket = p.bytes ++ rest) :
    c.receive host = ((c.loaded p rest).handle host p.id).map fun c => (true, c) := by
  have hcons : c.socket = p.id :: (p.payload ++ rest) := hs
  have hwhole : p.payload.length ≤ (c.idRead p.id (p.payload ++ rest)).socket.length := by
    show p.payload.length ≤ (p.payload ++ rest).length
    rw [List.length_append]
    exact Nat.le_add_right ..
  have hloaded : (c.idRead p.id (p.payload ++ rest)).receiveAll p.payload.length = (true, c.loaded p rest) := by
    rw [receiveAll_whole hwhole]
    simp only [idRead, loaded, List.take_left, List.drop_left]
  rw [receive_known host hcons (packetid_payload p), hloaded]
  rfl

variable (c : Client) (host : Endian) (p : Packet) (rest : List UInt8)

theorem loaded_clean (hb : c.buffer.Clean) : (c.loaded p rest).buffer.Clean :=
  (hb.write_id p.id).write (payload_le p)

theorem payload_fits : p.payload.length ≤ 5000 := (payload_le p).trans (by decide)

theorem loaded_convertToFloat (k : Nat) {v : UInt32} (h : p.fields[k]? = some v) :
    (c.loaded p rest).convertToFloat host (4 * k) = v := by
  obtain ⟨hk, rfl⟩ := List.getElem?_eq_some_iff.mp h
  exact Buffer.word_write _ host (payload_fits p) k hk

theorem loaded_int (k : Nat) {i : Int32} (h : p.fields[k]? = some i.toUInt32) :
    (c.loaded p rest).int host (4 * k) = i.toInt := by
  show ((c.loaded p rest).convertToFloat host (4 * k)).toInt32.toInt = i.toInt
  rw [loaded_convertToFloat c host p rest k h, Int32.toInt32_toUInt32]

theorem loaded_raw (i : Nat) (hi : i < p.raw.length) :
    (c.loaded p rest).buffer.bytes.getD (4 * p.fields.length + i) 0 = p.raw[i] :=
  Buffer.getD_write _ (payload_fits p) i hi

theorem loaded_copy {n : Nat} (v : Vector UInt8 n) (h : p.raw = v.toList) :
    (c.loaded p rest).buffer.copy (4 * p.fields.length) n = v := by
  have hfits := payload_fits p
  rw [Packet.payload, h] at hfits
  rw [loaded, Packet.payload, h]
  exact Buffer.copy_write _ v hfits

/-- The record both entity handlers build from the words. -/
theorem loaded_entity {id : Int32} {pos : Vec3Bits} {yaw pitch : UInt32} (name : Vector UInt8 64)
    (h : p.fields = [id.toUInt32, pos.x, pos.y, pos.z, yaw, pitch]) :
    EntityData.mk ((c.loaded p rest).int host 0)
      ⟨(c.loaded p rest).convertToFloat host 4, (c.loaded p rest).convertToFloat host 8,
        (c.loaded p rest).convertToFloat host 12⟩
      ((c.loaded p rest).convertToFloat host 16) ((c.loaded p rest).convertToFloat host 20) name =
    ⟨id.toInt, pos, yaw, pitch, name⟩ := by
  have hid : (c.loaded p rest).int host 0 = id.toInt := loaded_int c host p rest 0 (by rw [h]; rfl)
  have hx : (c.loaded p rest).convertToFloat host 4 = pos.x :=
    loaded_convertToFloat c host p rest 1 (by rw [h]; rfl)
  have hy : (c.loaded p rest).convertToFloat host 8 = pos.y :=
    loaded_convertToFloat c host p rest 2 (by rw [h]; rfl)
  have hz : (c.loaded p rest).convertToFloat host 12 = pos.z :=
    loaded_convertToFloat c host p rest 3 (by rw [h]; rfl)
  have hyaw : (c.loaded p rest).convertToFloat host 16 = yaw :=
    loaded_convertToFloat c host p rest 4 (by rw [h]; rfl)
  have hpitch : (c.loaded p rest).convertToFloat host 20 = pitch :=
    loaded_convertToFloat c host p rest 5 (by rw [h]; rfl)
  rw [hid, hx, hy, hz, hyaw, hpitch]

/-- The position both chunk handlers read. -/
theorem loaded_pos {x y z : Int32} (h : p.fields = [x.toUInt32, y.toUInt32, z.toUInt32]) :
    Ivec3.mk ((c.loaded p rest).int host 0) ((c.loaded p rest).int host 4)
      ((c.loaded p rest).int host 8) = ⟨x.toInt, y.toInt, z.toInt⟩ := by
  have hx : (c.loaded p rest).int host 0 = x.toInt := loaded_int c host p rest 0 (by rw [h]; rfl)
  have hy : (c.loaded p rest).int host 4 = y.toInt := loaded_int c host p rest 1 (by rw [h]; rfl)
  have hz : (c.loaded p rest).int host 8 = z.toInt := loaded_int c host p rest 2 (by rw [h]; rfl)
  rw [hx, hy, hz]

/-- The buffer of a client that has read a chat packet. -/
theorem loaded_chat (text : Vector UInt8 4096) :
    (c.loaded (.chat text) rest).buffer.bytes = text.toList ++ c.buffer.bytes.drop 4096 := by
  have hid : (c.buffer.write [(Packet.chat text).id]).bytes.drop 4096 = c.buffer.bytes.drop 4096 :=
    Buffer.drop_write c.buffer (show 1 ≤ 4096 by decide) (by decide)
  rw [loaded, Buffer.write_bytes _ (payload_fits (.chat text)), ← hid]
  simp [Packet.payload, Packet.fields, Packet.raw, words]

/-- Each handler reads the fields of its packet. -/
theorem handle_loaded (hb : c.buffer.Clean) :
    ∃ c', (c.loaded p rest).handle host p.id = .ok c' ∧ c'.socket = rest ∧
      c'.buffer = (c.loaded p rest).buffer ∧ Handled p c c' := by
  have hnil {α : Type} (l : List α) : l = l ++ [] := (List.append_nil l).symm
  cases p with
  | myEntityID id =>
    have hid : (c.loaded (.myEntityID id) rest).int host 0 = id.toInt := loaded_int _ _ _ _ 0 rfl
    exact ⟨_, rfl, rfl, rfl, ⟨hnil _, hnil _, hnil _, hid⟩, hnil _, hnil _⟩
  | addEntity id pos yaw pitch name =>
    have hname : (c.loaded (.addEntity id pos yaw pitch name) rest).buffer.copy 24 64 = name :=
      loaded_copy _ _ _ name rfl
    have hentity := loaded_entity c host (.addEntity id pos yaw pitch name) rest name rfl
    refine ⟨_, rfl, rfl, rfl, ⟨hnil _, ?_, hnil _, rfl⟩, hnil _, hnil _⟩
    refine congrArg (fun entity => c.data.entities ++ [entity]) ?_
    rwa [hname]
  | removeEntity id =>
    have hid : (c.loaded (.removeEntity id) rest).int host 0 = id.toInt := loaded_int _ _ _ _ 0 rfl
    refine ⟨_, rfl, rfl, rfl, ⟨hnil _, hnil _, ?_, rfl⟩, hnil _, hnil _⟩
    exact congrArg (fun id => c.data.rmEntity ++ [id]) hid
  | updateEntity id pos yaw pitch =>
    have hentity := loaded_entity c host (.updateEntity id pos yaw pitch) rest (Vector.replicate 64 0) rfl
    refine ⟨_, rfl, rfl, rfl, ⟨hnil _, ?_, hnil _, rfl⟩, hnil _, hnil _⟩
    exact congrArg (fun entity => c.data.entities ++ [entity]) hentity
  | chunk x y z blocktypes =>
    have hblocks : (c.loaded (.chunk x y z blocktypes) rest).buffer.copy 12 4096 = blocktypes :=
      loaded_copy _ _ _ blocktypes rfl
    have hpos := loaded_pos c host (.chunk x y z blocktypes) rest rfl
    refine ⟨_, rfl, rfl, rfl, ⟨?_, hnil _, hnil _, rfl⟩, hnil _, hnil _⟩
    exact congrArg₂ (fun pos b => c.data.chunks ++ [ChunkData.mk pos b]) hpos hblocks
  | monoTypeChunk x y z blocktype =>
    have hblock : (c.loaded (.monoTypeChunk x y z blocktype) rest).buffer.bytes.getD 12 0 = blocktype :=
      loaded_raw c (.monoTypeChunk x y z blocktype) rest 0 Nat.zero_lt_one
    have hpos := loaded_pos c host (.monoTypeChunk x y z blocktype) rest rfl
    refine ⟨_, rfl, rfl, rfl, ⟨?_, hnil _, hnil _, rfl⟩, hnil _, hnil _⟩
    exact congrArg₂ (fun pos b => c.data.chunks ++ [ChunkData.mk pos (Vector.replicate 4096 b)]) hpos hblock
  | chat text =>
    have hscan := (loaded_clean c (.chat text) rest hb).terminated
    refine ⟨_, if_pos hscan, rfl, rfl, ⟨hnil _, hnil _, hnil _, rfl⟩, hnil _, ?_⟩
    refine congrArg (fun bs => c.data.chatHistory ++ [ChatData.mk (List.takeWhile (· ≠ 0) bs)]) ?_
    exact loaded_chat c rest text
  | entityMetaData id name =>
    have hid : (c.loaded (.entityMetaData id name) rest).int host 0 = id.toInt := loaded_int _ _ _ _ 0 rfl
    have hname (i : Fin 64) :
        (c.loaded (.entityMetaData id name) rest).buffer.bytes.getD (4 + i) 0 = name.get i :=
      loaded_raw c (.entityMetaData id name) rest i (by simp [Packet.raw])
    refine ⟨_, rfl, rfl, rfl, ⟨hnil _, hnil _, hnil _, rfl⟩, ?_, hnil _⟩
    refine congrArg (fun emd => c.data.entitiesMetadata ++ [emd]) ?_
    rw [hid]
    simp only [hname]

/-- **A call takes exactly the packet in front of it.** -/
theorem receive_packet (hb : c.buffer.Clean) (hs : c.socket = p.bytes ++ rest) :
    ∃ c', c.receive host = .ok (true, c') ∧ c'.socket = rest ∧ c'.buffer.Clean ∧ Handled p c c' := by
  obtain ⟨c', hhandle, hsocket, hbuffer, hhandled⟩ := handle_loaded c host p rest hb
  refine ⟨c', ?_, hsocket, ?_, hhandled⟩
  · rw [receive_loaded c host p rest hs, hhandle]
    rfl
  · rw [hbuffer]
    exact loaded_clean c p rest hb

/-- A packet cut short changes no queue. -/
theorem receive_cut {id : UInt8} {len : Nat} (hid : packetid.lookup id = some len) {body : List UInt8}
    (hshort : body.length < len) (hb : c.buffer.Clean) (hs : c.socket = id :: body) :
    ∃ c', c.receive host = .ok (false, c') ∧ c'.socket = [] ∧ c'.buffer.Clean ∧ c'.data = c.data ∧
      c'.entityId = c.entityId := by
  refine ⟨{c with buffer := (c.buffer.write [id]).write body, socket := []}, ?_, rfl, ?_, rfl, rfl⟩
  · have hcut : (c.idRead id body).socket.length < len := hshort
    rw [receive_known host hs hid, receiveAll_cut hcut]
    rfl
  · exact (hb.write_id id).write (hshort.le.trans (packetid_le hid))

theorem receive_part (hb : c.buffer.Clean) (part : List UInt8) (hpart : part <+: p.bytes)
    (hne : part ≠ p.bytes) (hs : c.socket = part) :
    ∃ c', c.receive host = .ok (false, c') ∧ c'.socket = [] ∧ c'.buffer.Clean ∧ Decoded [] c c' := by
  cases part with
  | nil => exact ⟨c, receive_end host hs, hs, hb, .unchanged rfl rfl⟩
  | cons byte body =>
    obtain ⟨rfl, hbody⟩ := List.cons_prefix_cons.mp hpart
    have hshort : body.length < p.payload.length := by
      refine lt_of_le_of_ne hbody.length_le fun hlen => hne ?_
      rw [hbody.eq_of_length hlen, Packet.bytes]
    obtain ⟨c', hcall, hsocket, hclean, hdata, hid⟩ :=
      receive_cut c host (packetid_payload p) hshort hb hs
    exact ⟨c', hcall, hsocket, hclean, .unchanged hdata hid⟩

/-! ### Every state that occurs -/

/-- No call writes past the longest packet, whatever is on the socket. -/
theorem receive_clean {c c' : Client} {result : Bool} (hb : c.buffer.Clean)
    (h : c.receive host = .ok (result, c')) : c'.buffer.Clean := by
  rw [receive_accesses host h]
  exact hb.after fun _ => accesses_le

theorem Reachable.clean {c : Client} (h : Reachable host c) : c.buffer.Clean := by
  induction h with
  | start entityId socket => exact Buffer.clean_zero
  | receive _ hcall ih => exact receive_clean host ih hcall
  | taken data _ ih => exact ih

/-! ### The stream -/

theorem receives_succ {c c₁ c₂ : Client} {m : Nat} {result : Bool} {results : List Bool}
    (h : c.receive host = .ok (result, c₁)) (hs : receives host m c₁ = .ok (results, c₂)) :
    receives host (m + 1) c = .ok (result :: results, c₂) := by
  rw [receives, h]
  show (receives host m c₁).bind _ = _
  rw [hs]
  rfl

theorem receives_stream (packets : List Packet) (next : Packet) (part : List UInt8)
    (hpart : part <+: next.bytes) (hne : part ≠ next.bytes) (m : Nat) (c : Client)
    (hb : c.buffer.Clean) (hs : c.socket = packets.flatMap Packet.bytes ++ part) :
    ∃ c', receives host m c = .ok (List.replicate (min m packets.length) true ++
        List.replicate (m - packets.length) false, c') ∧
      (m ≤ packets.length → c'.socket = (packets.drop m).flatMap Packet.bytes ++ part) ∧
      Decoded (packets.take m) c c' := by
  induction m generalizing packets part c with
  | zero =>
    exact ⟨c, by simp [receives], fun _ => hs, .unchanged rfl rfl⟩
  | succ m ih =>
    cases packets with
    | cons p ps =>
      have hs' : c.socket = p.bytes ++ (ps.flatMap Packet.bytes ++ part) := by
        rw [hs, List.flatMap_cons, List.append_assoc]
      obtain ⟨c₁, hcall, hsocket, hclean, hhandled⟩ := receive_packet c host p _ hb hs'
      obtain ⟨c₂, hcalls, hsocket₂, hdecoded₂⟩ := ih ps part hpart hne c₁ hclean hsocket
      refine ⟨c₂, ?_, ?_, hhandled.decoded.append hdecoded₂⟩
      · rw [receives_succ host hcall hcalls, List.length_cons, Nat.succ_min_succ, Nat.succ_sub_succ]
        rfl
      · exact fun hm => hsocket₂ (Nat.le_of_succ_le_succ hm)
    | nil =>
      obtain ⟨c₁, hcall, hsocket, hclean, hdecoded⟩ := receive_part c host next hb part hpart hne hs
      obtain ⟨c₂, hcalls, -, hdecoded₂⟩ :=
        ih [] [] (List.nil_prefix) (by simp [Packet.bytes]) c₁ hclean hsocket
      rw [List.take_nil] at hdecoded₂
      refine ⟨c₂, ?_, fun hm => absurd hm (by simp), hdecoded.append hdecoded₂⟩
      rw [receives_succ host hcall hcalls]
      simp [List.replicate_succ]

/-- **Framing and decoding.** From any state that occurs, with packets on the socket and then
the beginning of another: each call takes one packet, in order, and leaves its record,
and once they are taken every call fails and leaves everything as it is. -/
theorem receive_stream (packets : List Packet) (next : Packet) (part : List UInt8)
    (hpart : part <+: next.bytes) (hne : part ≠ next.bytes) (c : Client) (hc : Reachable host c)
    (hs : c.socket = packets.flatMap Packet.bytes ++ part) (m : Nat) :
    ∃ c', receives host m c = .ok (List.replicate (min m packets.length) true ++
        List.replicate (m - packets.length) false, c') ∧
      (m ≤ packets.length → c'.socket = (packets.drop m).flatMap Packet.bytes ++ part) ∧
      Decoded (packets.take m) c c' :=
  receives_stream host packets next part hpart hne m c hc.clean hs

/-- A chunk on the negative side and an entity with a NaN for its height. -/
def twoPackets : List Packet :=
  [.monoTypeChunk (-16) 0 (-32) 3, .updateEntity (-1) ⟨0, 0x7fc00001, 0⟩ 0 0]

/-- A client with those before it, and a packet cut inside its id. -/
def twoWaiting : Client :=
  ⟨Buffer.zero, ⟨[], [], [], [], []⟩, 0, twoPackets.flatMap Packet.bytes ++ [0x02, 0xff]⟩

theorem receive_stream_two : ∃ c', receives .little 3 twoWaiting = .ok ([true, true, false], c') ∧
    Decoded twoPackets twoWaiting c' := by
  obtain ⟨c', hcalls, _, hdecoded⟩ := receive_stream .little twoPackets (.removeEntity (-1)) [0x02, 0xff]
    (by decide) (by decide) twoWaiting (.start 0 _) rfl 3
  exact ⟨c', hcalls, hdecoded⟩

end Client
end MyMinecraft
