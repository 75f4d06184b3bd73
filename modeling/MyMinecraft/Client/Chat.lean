import MyMinecraft.Client.Outgoing
import MyMinecraft.Client.Stream
import MyMinecraft.Lib.CString

/-! A conversation.

One client sends poses, edits and texts over one connection; another reads what the server
makes of them. The server is not in the repository. What is assumed of it is `Relays`: of a
stream of messages it passes each text on, all 4096 bytes of it, as a 0x06 packet. A server that
cuts the stream by ids and sizes does that (`relays_relayChats`). -/
namespace MyMinecraft
open Lib.Wire (Endian)
open Lib.Framing (Frame frames)
open Lib.CString (text)

/-- The texts among the messages. -/
def Message.chat? : Message → Option (Vector UInt8 4096)
  | .textChat message => some message
  | _ => none

/-- The server makes a packet of each text, wherever the stream breaks off. -/
def Relays (server : List UInt8 → List UInt8) : Prop :=
  ∀ (messages : List Message) (next : Message) (part : List UInt8), next.Cut part →
    server ((messages.map Message.frame).flatMap Frame.bytes ++ part) =
      ((messages.filterMap Message.chat?).map Packet.chat).flatMap Packet.bytes

/-- What such a server passes on of a message. -/
def relayFrame (f : Frame) : List UInt8 := if f.1 = 0x03 then 0x06 :: f.2 else []

/-- The bytes the server passes on for the bytes a client sent. -/
def relayChats (sent : List UInt8) : List UInt8 := (frames serverbound sent).1.flatMap relayFrame

theorem relayFrame_frame (m : Message) :
    relayFrame m.frame = (m.chat?.toList.map Packet.chat).flatMap Packet.bytes := by
  cases m with
  | textChat message =>
    show 0x06 :: message.toList = [Packet.chat message].flatMap Packet.bytes
    rw [List.flatMap_singleton]
    rfl
  | _ => rfl

theorem relays_relayChats : Relays relayChats := by
  intro messages next part hcut
  rw [relayChats, Lib.Framing.frames_stream (fits_frames messages) (fits_frame next) hcut.1 hcut.2]
  induction messages with
  | nil => rfl
  | cons m messages ih =>
    rw [List.map_cons, List.flatMap_cons, ih, relayFrame_frame, ← List.flatMap_append, ← List.map_append]
    congr 2
    cases h : m.chat? with
    | none => rw [List.filterMap_cons_none h]; rfl
    | some message => rw [List.filterMap_cons_some h]; rfl

/-- The server passes on one packet for each text whose sending returned. -/
theorem relays_sends {server : List UInt8 → List UInt8} (hserver : Relays server) (host : Endian) (c : Sender)
    (hc : c.sent = []) (calls : List (Send × Outcome)) : server (c.sends host calls).1.sent =
      (((delivered c.name calls).filterMap Message.chat?).map Packet.chat).flatMap Packet.bytes := by
  obtain ⟨part, hsent, hnone, hsome⟩ := sends_sent host c calls
  obtain ⟨next, hcut⟩ := exists_cut hnone hsome
  rw [hsent, hc, List.nil_append]
  exact hserver _ next part hcut

/-- The queues with more said. -/
def Data.heard (data : Data) (chats : List ChatData) : Data :=
  {data with chatHistory := data.chatHistory ++ chats}

theorem Data.heard_nil (data : Data) : data.heard [] = data := by
  rw [heard, List.append_nil]

theorem Data.heard_heard (data : Data) (chats chats' : List ChatData) :
    (data.heard chats).heard chats' = data.heard (chats ++ chats') := by
  simp only [heard, List.append_assoc]

namespace Client
variable (host : Endian)

/-- A text that ends in its packet is the next in the history, and nothing else has come. -/
theorem receive_chat {c : Client} {message : Vector UInt8 4096} {rest : List UInt8} (hb : c.buffer.Clean)
    (hs : c.socket = (Packet.chat message).bytes ++ rest) (hzero : 0 ∈ message.toList) :
    ∃ c', c.receive host = .ok (true, c') ∧ c'.socket = rest ∧ c'.buffer.Clean ∧ c'.entityId = c.entityId ∧
      c'.data = c.data.heard [⟨text message.toList⟩] := by
  obtain ⟨c', hcall, hsocket, hclean, hhandled⟩ := receive_packet c host (.chat message) rest hb hs
  refine ⟨c', hcall, hsocket, hclean, hhandled.decoded.entityId, ?_⟩
  have hchat : c'.data.chatHistory =
      c.data.chatHistory ++ [⟨text (message.toList ++ c.buffer.bytes.drop 4096)⟩] := hhandled.chatHistory
  rw [Lib.CString.text_append, if_pos hzero] at hchat
  have hchunks : c'.data.chunks = c.data.chunks := hhandled.decoded.chunks.trans (List.append_nil _)
  have hentities : c'.data.entities = c.data.entities := hhandled.decoded.entities.trans (List.append_nil _)
  have hremoved : c'.data.rmEntity = c.data.rmEntity := hhandled.decoded.rmEntity.trans (List.append_nil _)
  have hnames : c'.data.entitiesMetadata = c.data.entitiesMetadata :=
    hhandled.entitiesMetadata.trans (List.append_nil _)
  rw [Data.heard, ← hchunks, ← hentities, ← hremoved, ← hnames, ← hchat]

theorem receives_chats (messages : List (Vector UInt8 4096)) (c : Client) (rest : List UInt8)
    (hb : c.buffer.Clean) (hs : c.socket = (messages.map Packet.chat).flatMap Packet.bytes ++ rest)
    (hzero : ∀ message ∈ messages, 0 ∈ message.toList) :
    ∃ c', receives host messages.length c = .ok (List.replicate messages.length true, c') ∧
      c'.socket = rest ∧ c'.entityId = c.entityId ∧
      c'.data = c.data.heard (messages.map fun message => ⟨text message.toList⟩) := by
  induction messages generalizing c with
  | nil => exact ⟨c, rfl, hs, rfl, by rw [List.map_nil, Data.heard_nil]⟩
  | cons message messages ih =>
    have hfront : c.socket =
        (Packet.chat message).bytes ++ ((messages.map Packet.chat).flatMap Packet.bytes ++ rest) := by
      rw [hs, List.map_cons, List.flatMap_cons, List.append_assoc]
    obtain ⟨c₁, hcall, hsocket, hclean, hown, hdata⟩ :=
      receive_chat host hb hfront (hzero message (List.mem_cons_self ..))
    obtain ⟨c₂, hcalls, hsocket₂, hown₂, hdata₂⟩ :=
      ih c₁ hclean hsocket fun m hm => hzero m (List.mem_cons_of_mem _ hm)
    refine ⟨c₂, ?_, hsocket₂, hown₂.trans hown, ?_⟩
    · rw [List.length_cons, receives_succ host hcall hcalls]
      rfl
    · rw [hdata₂, hdata, Data.heard_heard, List.map_cons]
      rfl

end Client

/-- **A conversation arrives as it was held.** Whatever else a client sends in between, and wherever its
connection breaks, the texts whose sending returned are the ones the other's history gains, each
once and in order, and nothing else of the other changes. -/
theorem chats_relayed (server : List UInt8 → List UInt8) (hserver : Relays server) (sender receiver : Endian)
    (s : Sender) (hsent : s.sent = []) (calls : List (Send × Outcome))
    (hzero : ∀ message ∈ (delivered s.name calls).filterMap Message.chat?, 0 ∈ message.toList)
    (c : Client) (hc : Client.Reachable receiver c) (rest : List UInt8)
    (hs : c.socket = server (s.sends sender calls).1.sent ++ rest) :
    ∃ c', Client.receives receiver ((delivered s.name calls).filterMap Message.chat?).length c =
        .ok (List.replicate ((delivered s.name calls).filterMap Message.chat?).length true, c') ∧
      c'.socket = rest ∧ c'.entityId = c.entityId ∧
      c'.data = c.data.heard
        (((delivered s.name calls).filterMap Message.chat?).map fun message => ⟨text message.toList⟩) := by
  rw [relays_sends hserver sender s hsent calls] at hs
  exact Client.receives_chats receiver _ c rest (hc.clean receiver) hs hzero

/-- A text of two letters. -/
def hiText : Vector UInt8 4096 := Vector.ofFn fun i => if i.val = 0 then 0x68 else if i.val = 1 then 0x69 else 0

/-- It is sent after a pose, and sent again when the connection breaks. -/
def greeting : List (Send × Outcome) :=
  [(.updateEntity ⟨0, 0, 0, 0, 0⟩, .done), (.textChat hiText, .done), (.textChat hiText, .failed 3 "Broken pipe")]

/-- A client that has all of that before it. -/
def greeted : Client :=
  ⟨Buffer.zero, ⟨[], [], [], [], []⟩, 0,
    relayChats ((Sender.fresh (Vector.replicate 64 0)).sends .little greeting).1.sent ++ []⟩

theorem chats_relayed_greeting : ∃ c', Client.receives .big 1 greeted = .ok ([true], c') ∧
    c'.data.chatHistory = [⟨text hiText.toList⟩] := by
  have hzero : ∀ message ∈ (delivered (Vector.replicate 64 0) greeting).filterMap Message.chat?,
      0 ∈ message.toList := by
    intro message hmessage
    obtain rfl := List.mem_singleton.mp hmessage
    rw [hiText, Vector.toList_ofFn]
    exact List.mem_ofFn.mpr ⟨⟨2, by decide⟩, rfl⟩
  obtain ⟨c', hcalls, _, _, hdata⟩ := chats_relayed relayChats relays_relayChats .little .big
    (.fresh (Vector.replicate 64 0)) rfl greeting hzero greeted (.start 0 _) [] rfl
  exact ⟨c', hcalls, by rw [hdata]; rfl⟩

end MyMinecraft
