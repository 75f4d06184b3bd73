import MyMinecraft.Entities
import MyMinecraft.Lib.CString

/-! Text that need not be terminated.

A chat packet is as long as its text can be, and so is the name in a 0x01 packet;
neither has to hold a zero. The chat is then read on into the buffer, where only a
chunk packet can have left something (`After.byte`), and the name is read on into
whatever lies behind the record. -/
namespace MyMinecraft
open Lib.CString (text)

namespace Client

/-- The client has received these packets since it was constructed; the main thread has taken what
it liked from the queues. -/
inductive After (host : Lib.Wire.Endian) : List Packet → Client → Prop where
  | start (entityId : Int) (socket : List UInt8) :
    After host [] ⟨Buffer.zero, ⟨[], [], [], [], []⟩, entityId, socket⟩
  | receive {before : List Packet} {c c' : Client} (p : Packet) (rest : List UInt8)
      (h : After host before c) (hs : c.socket = p.bytes ++ rest)
      (hcall : c.receive host = .ok (true, c')) : After host (before ++ [p]) c'
  | taken {before : List Packet} {c : Client} (data : Data) (h : After host before c) :
    After host before {c with data}

theorem After.reachable {host : Lib.Wire.Endian} {before : List Packet} {c : Client}
    (h : After host before c) : Reachable host c := by
  induction h with
  | start entityId socket => exact .start entityId socket
  | receive p rest _ _ hcall ih => exact .receive ih hcall
  | taken data _ ih => exact .taken data ih

/-! ### What earlier packets leave behind a chat -/

/-- The byte that the packet puts at index 4096 of the buffer. -/
def byteAfterChat : Packet → Option UInt8
  | .chunk _ _ _ blocktypes => some (blocktypes.toList.getD 4084 0)
  | _ => none

/-- The byte at index 4096 after these packets. -/
def leftAfterChat (before : List Packet) : UInt8 := (before.filterMap byteAfterChat).getLast?.getD 0

theorem leftAfterChat_chunk (x y z : Int32) (blocktypes : Vector UInt8 4096) :
    leftAfterChat [.chunk x y z blocktypes] = blocktypes.toList.getD 4084 0 := rfl

theorem getD_write_ge (b : Buffer) {bs : List UInt8} (h : bs.length ≤ 4096) :
    (b.write bs).bytes.getD 4096 0 = b.bytes.getD 4096 0 := by
  rw [Buffer.write_bytes b (by omega), List.getD_append_right _ _ _ _ h, List.getD_eq_getElem?_getD,
    List.getD_eq_getElem?_getD, List.getElem?_drop, Nat.add_sub_of_le h]

theorem receive_buffer {host : Lib.Wire.Endian} {c c' : Client} {p : Packet} {rest : List UInt8}
    (hs : c.socket = p.bytes ++ rest) (hcall : c.receive host = .ok (true, c')) :
    c'.buffer = (c.buffer.write [p.id]).write p.payload := by
  have hcons : c.socket = p.id :: (p.payload ++ rest) := hs
  rw [receive_accesses host hcall, accesses_known hcons (packetid_payload p), List.take_left]
  split <;> rfl

theorem byte_written (b : Buffer) (p : Packet) :
    ((b.write [p.id]).write p.payload).bytes.getD 4096 0 =
      (byteAfterChat p).getD (b.bytes.getD 4096 0) := by
  have hid : (b.write [p.id]).bytes.getD 4096 0 = b.bytes.getD 4096 0 := getD_write_ge b (by simp)
  cases p with
  | chunk x y z blocktypes =>
    have hraw : 4084 < (Packet.chunk x y z blocktypes).raw.length := by simp [Packet.raw]
    have hget := Buffer.getD_write (b.write [(Packet.chunk x y z blocktypes).id])
      (payload_fits (.chunk x y z blocktypes)) 4084 hraw
    exact hget.trans (List.getD_eq_getElem _ 0 hraw).symm
  | _ =>
    rw [getD_write_ge, hid]
    · rfl
    · simp [Packet.payload, Packet.fields, Packet.raw, Lib.Wire.words_length]

/-- Only chunk packets reach that byte. -/
theorem After.byte {host : Lib.Wire.Endian} {before : List Packet} {c : Client} (h : After host before c) :
    c.buffer.bytes.getD 4096 0 = leftAfterChat before := by
  induction h with
  | start entityId socket =>
    show (List.replicate 5000 (0 : UInt8)).getD 4096 0 = 0
    rw [List.getD_replicate]
    decide
  | @receive before c c' p rest _ hs hcall ih =>
    rw [receive_buffer hs hcall, byte_written, ih, leftAfterChat, leftAfterChat, List.filterMap_append,
      List.getLast?_append]
    cases h : byteAfterChat p <;> simp [h]
  | taken data _ ih => exact ih

/-! ### The two texts -/

variable (c : Client) (host : Lib.Wire.Endian) (rest : List UInt8)

theorem chat_decoded_iff (t : Vector UInt8 4096) (hb : c.buffer.Clean)
    (hs : c.socket = (Packet.chat t).bytes ++ rest) :
    (∃ c', c.receive host = .ok (true, c') ∧
      c'.data.chatHistory = c.data.chatHistory ++ [⟨text t.toList⟩]) ↔
    0 ∈ t.toList ∨ c.buffer.bytes.getD 4096 0 = 0 := by
  obtain ⟨c', hcall, _, _, hhandled⟩ := receive_packet c host (.chat t) rest hb hs
  have hchat : c'.data.chatHistory =
      c.data.chatHistory ++ [⟨text (t.toList ++ c.buffer.bytes.drop 4096)⟩] := hhandled.chatHistory
  have hnext : (c.buffer.bytes.drop 4096).headD 0 = c.buffer.bytes.getD 4096 0 := by
    rw [List.headD_eq_head?_getD, List.head?_drop, List.getD_eq_getElem?_getD]
  rw [← hnext, ← Lib.CString.text_append_iff]
  constructor
  · intro h
    obtain ⟨c'', hcall', hchat'⟩ := h
    obtain ⟨_, rfl⟩ := Prod.mk.inj (Except.ok.inj (hcall.symm.trans hcall'))
    have hsame := List.append_cancel_left (hchat.symm.trans hchat')
    exact congrArg ChatData.text (List.singleton_inj.mp hsame)
  · intro h
    rw [h] at hchat
    exact ⟨c', hcall, hchat⟩

/-- A new entity gets its own text whatever lies behind the record, exactly when the text ends in
it. -/
theorem name_decoded_iff {id : Int32} {pos : Vec3Bits} {yaw pitch : UInt32} (name : Vector UInt8 64)
    (hb : c.buffer.Clean) (hs : c.socket = (Packet.addEntity id pos yaw pitch name).bytes ++ rest) :
    (∃ c' data, c.receive host = .ok (true, c') ∧ c'.data.entities = c.data.entities ++ [data] ∧
      ∀ overrun (entities : Entities), id.toInt ∉ entities →
        ∃ e, (insertOrSet overrun entities data).lookup id.toInt = some e ∧ e.name = text name.toList) ↔
    0 ∈ name.toList := by
  obtain ⟨c', hcall, _, _, hhandled⟩ := receive_packet c host _ rest hb hs
  have hentities : c'.data.entities = c.data.entities ++ [⟨id.toInt, pos, yaw, pitch, name⟩] :=
    hhandled.decoded.entities
  have hnew (overrun : Vector UInt8 64 → List UInt8) (entities : Entities) (h : id.toInt ∉ entities) :
      (insertOrSet overrun entities ⟨id.toInt, pos, yaw, pitch, name⟩).lookup id.toInt =
        some (Entity.new id.toInt pos pitch yaw (cString overrun name)) := by
    rw [insertOrSet_lookup, if_pos rfl, AList.lookup_eq_none.mpr h]
    rfl
  constructor
  · intro h
    obtain ⟨c'', data, hcall', hentities', hall⟩ := h
    obtain ⟨_, rfl⟩ := Prod.mk.inj (Except.ok.inj (hcall.symm.trans hcall'))
    obtain rfl := List.singleton_inj.mp (List.append_cancel_left (hentities.symm.trans hentities'))
    by_contra hzero
    -- with a byte that is not zero behind the record
    obtain ⟨e, he, hname⟩ := hall (fun _ => [1]) ∅ (AList.notMem_empty _)
    rw [hnew _ _ (AList.notMem_empty _)] at he
    obtain rfl := Option.some.inj he
    rw [Lib.CString.text_of_notMem hzero, Entity.new, cString, if_neg hzero] at hname
    simp at hname
  · intro hzero
    refine ⟨c', _, hcall, hentities, fun overrun entities h => ⟨_, hnew overrun entities h, ?_⟩⟩
    rw [Entity.new, cString, if_pos hzero]
    rfl

/-! ### The theorem -/

/-- The text in the packet is decoded from its own bytes. -/
def TextDecoded : Packet → Prop
  | .chat t => ∃ c', c.receive host = .ok (true, c') ∧
      c'.data.chatHistory = c.data.chatHistory ++ [⟨text t.toList⟩]
  | .addEntity id _ _ _ name =>
    ∃ c' data, c.receive host = .ok (true, c') ∧ c'.data.entities = c.data.entities ++ [data] ∧
      ∀ overrun (entities : Entities), id.toInt ∉ entities →
        ∃ e, (insertOrSet overrun entities data).lookup id.toInt = some e ∧ e.name = text name.toList
  | _ => True

/-- The text ends in its field, or right behind it. -/
def Terminated (before : List Packet) : Packet → Prop
  | .chat t => 0 ∈ t.toList ∨ leftAfterChat before = 0
  | .addEntity _ _ _ _ name => 0 ∈ name.toList
  | _ => True

/-- **Text is decoded from its own bytes exactly when it is terminated**, after any packets. -/
theorem text_decoded_iff {before : List Packet} (h : After host before c) (p : Packet)
    (hs : c.socket = p.bytes ++ rest) : TextDecoded c host p ↔ Terminated before p := by
  have hb := h.reachable.clean
  cases p with
  | chat t =>
    have hiff := chat_decoded_iff c host rest t hb hs
    rwa [h.byte] at hiff
  | addEntity id pos yaw pitch name => exact name_decoded_iff c host rest name hb hs
  | _ => exact iff_of_true trivial trivial

/-- 4096 letters. -/
def fullChat : Packet := .chat (Vector.replicate 4096 0x61)

/-- They are decoded when nothing came before. -/
theorem text_decoded_first :
    TextDecoded ⟨Buffer.zero, ⟨[], [], [], [], []⟩, 0, fullChat.bytes ++ []⟩ .little fullChat :=
  (text_decoded_iff _ .little [] (.start 0 _) fullChat rfl).mpr (.inr rfl)

/-- After a chunk of leaves the text has twelve bytes of it. -/
theorem chat_after_chunk : ¬ ∀ (before : List Packet) (c : Client), After .little before c →
    ∀ p rest, c.socket = p.bytes ++ rest → TextDecoded c .little p := by
  intro h
  have hstart := @After.start .little 0
    ((Packet.chunk 0 0 0 (Vector.replicate 4096 5)).bytes ++ fullChat.bytes)
  obtain ⟨c', hcall, hsocket, hclean, _⟩ := receive_packet _ .little _ _ hstart.reachable.clean rfl
  have hafter := hstart.receive _ _ rfl hcall
  have hchat := (chat_decoded_iff c' .little [] (Vector.replicate 4096 0x61) hclean
    (hsocket.trans (List.append_nil _).symm)).mp (h _ c' hafter fullChat [] (hsocket.trans (List.append_nil _).symm))
  rw [hafter.byte] at hchat
  rcases hchat with hzero | hleft
  · rw [Vector.toList_replicate] at hzero
    exact absurd (List.mem_replicate.mp hzero).2 (by decide)
  · rw [List.nil_append, leftAfterChat_chunk, Vector.toList_replicate, List.getD_replicate 5 (by decide)] at hleft
    exact absurd hleft (by decide)

end Client
end MyMinecraft
