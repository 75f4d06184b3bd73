import MyMinecraft.Lib.Framing
import MyMinecraft.Lib.Wire

/-! The client's side of the connection (`Client.cpp`): everything it sends.

Four senders write packed structs to one socket, three of them from structs that are members and
keep what they held. A packed struct is written as it lies in memory, so its members hold the
words already converted for this host. A write that fails may have passed on some of its bytes and
throws, and nothing catches that, so it is the last. Whatever was sent before,
what the server has is whole messages and at most the beginning of one more, and
cut by ids and sizes it reads back as the arguments of the calls: `sent_received`. -/
namespace MyMinecraft
open Lib.Wire (Endian store toBig words load)
open Lib.Framing (Frame frames)

/-- `UpdateMyEntityData`, packed: the members follow each other without padding. -/
structure UpdateMyEntityData where
  id : UInt8
  xpos : UInt32
  ypos : UInt32
  zpos : UInt32
  yaw : UInt32
  pitch : UInt32

namespace UpdateMyEntityData

/-- `ued` before the first send. -/
def zero : UpdateMyEntityData := ⟨0, 0, 0, 0, 0, 0⟩

/-- The struct as bytes. -/
def bytes (ued : UpdateMyEntityData) (host : Endian) : List UInt8 :=
  ued.id :: ([ued.xpos, ued.ypos, ued.zpos, ued.yaw, ued.pitch].flatMap (store host))

end UpdateMyEntityData

/-- The arguments of a send, by their bits. -/
structure Pose where
  xpos : UInt32
  ypos : UInt32
  zpos : UInt32
  yaw : UInt32
  pitch : UInt32

/-- The struct afterwards, and the bytes written. -/
def sendUpdateEntity (host : Endian) (ued : UpdateMyEntityData) (pose : Pose) :
    UpdateMyEntityData × List UInt8 :=
  let ued := {ued with id := 0x00}
  let ued := {ued with xpos := toBig host pose.xpos}
  let ued := {ued with ypos := toBig host pose.ypos}
  let ued := {ued with zpos := toBig host pose.zpos}
  let ued := {ued with yaw := toBig host pose.yaw}
  let ued := {ued with pitch := toBig host pose.pitch}
  (ued, ued.bytes host)

/-- What is written does not depend on the host, nor on what the struct held. -/
theorem sendUpdateEntity_bytes (host : Endian) (ued : UpdateMyEntityData) (pose : Pose) :
    (sendUpdateEntity host ued pose).2 =
      0x00 :: words [pose.xpos, pose.ypos, pose.zpos, pose.yaw, pose.pitch] := by
  simp only [sendUpdateEntity, UpdateMyEntityData.bytes, words, List.flatMap_cons, Lib.Wire.store_toBig,
    List.flatMap_nil]

/-- `UpdateBlockData`, packed. -/
structure UpdateBlockData where
  id : UInt8
  blocktype : UInt8
  xpos : UInt32
  ypos : UInt32
  zpos : UInt32

/-- `UpdateMetaData`, packed. -/
structure UpdateMetaData where
  id : UInt8
  renderDistance : UInt8
  name : Vector UInt8 64

/-- `SendChatData`, packed. -/
structure SendChatData where
  id : UInt8
  message : Vector UInt8 4096

def UpdateBlockData.bytes (ubd : UpdateBlockData) (host : Endian) : List UInt8 :=
  ubd.id :: ubd.blocktype :: ([ubd.xpos, ubd.ypos, ubd.zpos].flatMap (store host))

def UpdateMetaData.bytes (umd : UpdateMetaData) : List UInt8 := umd.id :: umd.renderDistance :: umd.name.toList

def SendChatData.bytes (scd : SendChatData) : List UInt8 := scd.id :: scd.message.toList

/-- How `asio::write` ends: with everything passed on, or with an error after so many bytes. -/
inductive Outcome where
  | done
  | failed (transferred : Nat) (message : String)

/-- The data members the senders use, and what has been written to the socket. -/
structure Sender where
  ued : UpdateMyEntityData
  ubd : UpdateBlockData
  umd : UpdateMetaData
  name : Vector UInt8 64
  sent : List UInt8

namespace Sender

/-- `asio::write` and the `throw` after it: the text of the exception, if there is one. A write that
fails has not passed on everything. -/
def write (c : Sender) (bytes : List UInt8) (what : String) : Outcome → Sender × Option String
  | .done => ({c with sent := c.sent ++ bytes}, none)
  | .failed transferred message =>
    ({c with sent := c.sent ++ bytes.dropLast.take transferred}, some (what ++ message))

def updateEntity (c : Sender) (host : Endian) (pose : Pose) (o : Outcome) : Sender × Option String :=
  let (ued, bytes) := sendUpdateEntity host c.ued pose
  {c with ued}.write bytes "Error send update entity: " o

def updateBlock (c : Sender) (host : Endian) (blockType : UInt8) (xpos ypos zpos : Int32) (o : Outcome) :
    Sender × Option String :=
  let ubd := {c.ubd with id := 0x01}
  let ubd := {ubd with blocktype := blockType}
  let ubd := {ubd with xpos := toBig host xpos.toUInt32}
  let ubd := {ubd with ypos := toBig host ypos.toUInt32}
  let ubd := {ubd with zpos := toBig host zpos.toUInt32}
  {c with ubd}.write (ubd.bytes host) "Error send update block: " o

/-- The name is copied and its last byte set to zero. -/
def terminated (name : Vector UInt8 64) : Vector UInt8 64 :=
  Vector.ofFn fun i => if i.val = 63 then 0 else name.get i

def renderDistance (c : Sender) (distance : UInt8) (o : Outcome) : Sender × Option String :=
  let umd := {c.umd with id := 0x04}
  let umd := {umd with renderDistance := distance}
  let umd := {umd with name := terminated c.name}
  {c with umd}.write umd.bytes "Error send render distance: " o

/-- The text is that of the sender above. -/
def textChat (c : Sender) (input : Vector UInt8 4096) (o : Outcome) : Sender × Option String :=
  let scd : SendChatData := ⟨0x03, input⟩
  c.write scd.bytes "Error send render distance: " o

end Sender

/-- A call of one of the senders. -/
inductive Send where
  | updateEntity (pose : Pose)
  | updateBlock (blockType : UInt8) (xpos ypos zpos : Int32)
  | renderDistance (distance : UInt8)
  | textChat (input : Vector UInt8 4096)

def Sender.send (c : Sender) (host : Endian) (o : Outcome) : Send → Sender × Option String
  | .updateEntity pose => c.updateEntity host pose o
  | .updateBlock blockType xpos ypos zpos => c.updateBlock host blockType xpos ypos zpos o
  | .renderDistance distance => c.renderDistance distance o
  | .textChat input => c.textChat input o

/-- Calls in a row, up to the first that throws. -/
def Sender.sends (host : Endian) : Sender → List (Send × Outcome) → Sender × Option String
  | c, [] => (c, none)
  | c, (call, o) :: rest =>
    match c.send host o call with
    | (c, none) => sends host c rest
    | (c, some error) => (c, some error)

/-! ### What is on the wire -/

/-- What a server can tell from the bytes of a call. -/
inductive Message where
  | updateEntity (pose : Pose)
  | updateBlock (blockType : UInt8) (xpos ypos zpos : Int32)
  | metaData (distance : UInt8) (name : Vector UInt8 64)
  | textChat (message : Vector UInt8 4096)

def Send.message (name : Vector UInt8 64) : Send → Message
  | .updateEntity pose => .updateEntity pose
  | .updateBlock blockType xpos ypos zpos => .updateBlock blockType xpos ypos zpos
  | .renderDistance distance => .metaData distance (Sender.terminated name)
  | .textChat input => .textChat input

namespace Message

def frame : Message → Frame
  | updateEntity pose => (0x00, words [pose.xpos, pose.ypos, pose.zpos, pose.yaw, pose.pitch])
  | updateBlock blockType xpos ypos zpos =>
    (0x01, blockType :: words [xpos.toUInt32, ypos.toUInt32, zpos.toUInt32])
  | metaData distance name => (0x04, distance :: name.toList)
  | textChat message => (0x03, message.toList)

/-- A big-endian word of a body. -/
def word (body : List UInt8) (offset : Nat) : UInt32 := load .big ((body.drop offset).take 4)

/-- The members of the packed structs, by id. -/
def read (f : Frame) : Option Message :=
  match f.1.toNat with
  | 0x00 => some (.updateEntity ⟨word f.2 0, word f.2 4, word f.2 8, word f.2 12, word f.2 16⟩)
  | 0x01 => some (.updateBlock (f.2.getD 0 0) (word f.2 1).toInt32 (word f.2 5).toInt32 (word f.2 9).toInt32)
  | 0x03 => some (.textChat (Vector.ofFn fun i => f.2.getD i 0))
  | 0x04 => some (.metaData (f.2.getD 0 0) (Vector.ofFn fun i => f.2.getD (1 + i) 0))
  | _ => none

end Message

/-- How many bytes of a struct follow its id. -/
def serverbound (id : UInt8) : Option Nat :=
  [((0x00 : UInt8), 20), (0x01, 13), (0x03, 4096), (0x04, 65)].lookup id

theorem fits_frame (m : Message) : Lib.Framing.Fits serverbound m.frame := by
  cases m <;> simp [Lib.Framing.Fits, serverbound, Message.frame, Lib.Wire.words_length, List.lookup]

theorem fits_frames (messages : List Message) : ∀ f ∈ messages.map Message.frame, Lib.Framing.Fits serverbound f := by
  intro f hf
  obtain ⟨m, _, rfl⟩ := List.mem_map.mp hf
  exact fits_frame m

theorem word_words (ws : List UInt32) (k : Nat) (hk : k < ws.length) : Message.word (words ws) (4 * k) = ws[k] := by
  have htake := Lib.Wire.take_word ws [] k hk
  rw [List.append_nil] at htake
  rw [Message.word, htake, Lib.Wire.load_store]

theorem ofFn_toList {n : Nat} (v : Vector UInt8 n) : (Vector.ofFn fun i : Fin n => v.toList.getD i 0) = v := by
  ext i hi
  simp

/-- A message reads back as itself. -/
theorem read_frame (m : Message) : Message.read m.frame = some m := by
  cases m with
  | updateEntity pose =>
    have hx : Message.word (Message.updateEntity pose).frame.2 0 = pose.xpos := word_words _ 0 (by simp)
    have hy : Message.word (Message.updateEntity pose).frame.2 4 = pose.ypos := word_words _ 1 (by simp)
    have hz : Message.word (Message.updateEntity pose).frame.2 8 = pose.zpos := word_words _ 2 (by simp)
    have hyaw : Message.word (Message.updateEntity pose).frame.2 12 = pose.yaw := word_words _ 3 (by simp)
    have hpitch : Message.word (Message.updateEntity pose).frame.2 16 = pose.pitch := word_words _ 4 (by simp)
    show some (Message.updateEntity ⟨_, _, _, _, _⟩) = _
    rw [hx, hy, hz, hyaw, hpitch]
  | updateBlock blockType xpos ypos zpos =>
    have hx : Message.word (Message.updateBlock blockType xpos ypos zpos).frame.2 1 = xpos.toUInt32 :=
      word_words [xpos.toUInt32, ypos.toUInt32, zpos.toUInt32] 0 (by simp)
    have hy : Message.word (Message.updateBlock blockType xpos ypos zpos).frame.2 5 = ypos.toUInt32 :=
      word_words [xpos.toUInt32, ypos.toUInt32, zpos.toUInt32] 1 (by simp)
    have hz : Message.word (Message.updateBlock blockType xpos ypos zpos).frame.2 9 = zpos.toUInt32 :=
      word_words [xpos.toUInt32, ypos.toUInt32, zpos.toUInt32] 2 (by simp)
    show some (Message.updateBlock blockType _ _ _) = _
    rw [hx, hy, hz, Int32.toInt32_toUInt32, Int32.toInt32_toUInt32, Int32.toInt32_toUInt32]
  | metaData distance name =>
    show some (Message.metaData distance (Vector.ofFn fun i : Fin 64 => (distance :: name.toList).getD (1 + i) 0)) = _
    simp only [Nat.add_comm 1, List.getD_cons_succ, ofFn_toList]
  | textChat message =>
    show some (Message.textChat (Vector.ofFn fun i : Fin 4096 => message.toList.getD i 0)) = _
    rw [ofFn_toList]

/-! ### One call -/

theorem toBig_words (host : Endian) (ws : List UInt32) : (ws.map (toBig host)).flatMap (store host) = words ws := by
  rw [List.flatMap_map, words]
  exact List.flatMap_congr fun w _ => Lib.Wire.store_toBig host w

/-- A call writes its message, whatever the host is and whatever the structs held, and if that fails it
throws. -/
theorem send_eq (c : Sender) (host : Endian) (call : Send) (o : Outcome) :
    ∃ ued ubd umd what, c.send host o call =
      {c with ued, ubd, umd}.write (call.message c.name).frame.bytes what o := by
  cases call with
  | updateEntity pose =>
    refine ⟨(sendUpdateEntity host c.ued pose).1, c.ubd, c.umd, "Error send update entity: ", ?_⟩
    show Sender.write _ (sendUpdateEntity host c.ued pose).2 _ o = _
    rw [sendUpdateEntity_bytes]
    rfl
  | updateBlock blockType xpos ypos zpos =>
    refine ⟨c.ued, ⟨0x01, blockType, toBig host xpos.toUInt32, toBig host ypos.toUInt32, toBig host zpos.toUInt32⟩,
      c.umd, "Error send update block: ", ?_⟩
    have hwords := toBig_words host [xpos.toUInt32, ypos.toUInt32, zpos.toUInt32]
    show Sender.write _ (0x01 :: blockType :: _) _ o = _
    rw [show [toBig host xpos.toUInt32, toBig host ypos.toUInt32, toBig host zpos.toUInt32].flatMap (store host) = _ from
      hwords]
    rfl
  | renderDistance distance =>
    exact ⟨c.ued, c.ubd, ⟨0x04, distance, Sender.terminated c.name⟩, "Error send render distance: ", rfl⟩
  | textChat input => exact ⟨c.ued, c.ubd, c.umd, "Error send render distance: ", rfl⟩

/-! ### A run of calls -/

def Outcome.isDone : Outcome → Bool
  | .done => true
  | .failed .. => false

/-- The messages of the calls before the first that throws. -/
def delivered (name : Vector UInt8 64) (calls : List (Send × Outcome)) : List Message :=
  (calls.takeWhile fun call => call.2.isDone).map fun call => call.1.message name

/-- The first call that throws. -/
def thrown : List (Send × Outcome) → Option Send
  | [] => none
  | (_, .done) :: rest => thrown rest
  | (call, .failed ..) :: _ => some call

/-- The beginning of a call's message, as the call leaves it when it throws. -/
def Message.Cut (m : Message) (part : List UInt8) : Prop := part <+: m.frame.bytes ∧ part ≠ m.frame.bytes

theorem cut_take (m : Message) (transferred : Nat) : m.Cut (m.frame.bytes.dropLast.take transferred) := by
  refine ⟨(List.take_prefix _ _).trans (List.dropLast_prefix _), fun h => ?_⟩
  have hlength := congrArg List.length h
  rw [List.length_take, List.length_dropLast, Frame.bytes, List.length_cons] at hlength
  omega

/-- What a run writes: whole messages, and the beginning of the one that failed, if one did. -/
theorem sends_sent (host : Endian) (c : Sender) (calls : List (Send × Outcome)) :
    ∃ part, (c.sends host calls).1.sent =
        c.sent ++ ((delivered c.name calls).map Message.frame).flatMap Frame.bytes ++ part ∧
      ((c.sends host calls).2 = none → part = []) ∧
      ∀ error, (c.sends host calls).2 = some error →
        ∃ call, thrown calls = some call ∧ (call.message c.name).Cut part := by
  induction calls generalizing c with
  | nil =>
    refine ⟨[], ?_, fun _ => rfl, fun error h => by cases h⟩
    show c.sent = c.sent ++ [] ++ []
    rw [List.append_nil, List.append_nil]
  | cons call rest ih =>
    obtain ⟨call, o⟩ := call
    obtain ⟨ued, ubd, umd, what, hsend⟩ := send_eq c host call o
    cases o with
    | done =>
      have hgo : c.sends host ((call, .done) :: rest) =
          {c with ued, ubd, umd, sent := c.sent ++ (call.message c.name).frame.bytes}.sends host rest := by
        rw [Sender.sends, hsend]
        rfl
      obtain ⟨part, hsent, hpart⟩ :=
        ih {c with ued, ubd, umd, sent := c.sent ++ (call.message c.name).frame.bytes}
      refine ⟨part, ?_, hgo ▸ hpart⟩
      rw [hgo, hsent]
      show c.sent ++ _ ++ ((delivered c.name rest).map Message.frame).flatMap Frame.bytes ++ part =
        c.sent ++ (_ ++ ((delivered c.name rest).map Message.frame).flatMap Frame.bytes) ++ part
      rw [List.append_assoc c.sent]
    | failed transferred message =>
      have hstop : c.sends host ((call, .failed transferred message) :: rest) =
          ({c with ued, ubd, umd, sent := c.sent ++ (call.message c.name).frame.bytes.dropLast.take transferred},
            some (what ++ message)) := by
        rw [Sender.sends, hsend]
        rfl
      refine ⟨(call.message c.name).frame.bytes.dropLast.take transferred, ?_, fun h => ?_, fun _ _ =>
        ⟨call, rfl, cut_take _ transferred⟩⟩
      · rw [hstop]
        show _ = c.sent ++ [] ++ _
        rw [List.append_nil]
      · rw [hstop] at h
        cases h

/-- Whatever is left over is the beginning of some message. -/
theorem exists_cut {host : Endian} {c : Sender} {calls : List (Send × Outcome)} {part : List UInt8}
    (hnone : (c.sends host calls).2 = none → part = [])
    (hsome : ∀ error, (c.sends host calls).2 = some error →
      ∃ call, thrown calls = some call ∧ (call.message c.name).Cut part) : ∃ next : Message, next.Cut part := by
  cases hresult : (c.sends host calls).2 with
  | none =>
    rw [hnone hresult]
    exact ⟨.textChat (Vector.replicate 4096 0), List.nil_prefix, by simp [Frame.bytes]⟩
  | some error =>
    obtain ⟨call, _, hcall⟩ := hsome error hresult
    exact ⟨call.message c.name, hcall⟩

/-- The stream of a run, cut by ids and sizes. -/
theorem sent_frames (host : Endian) (c : Sender) (hc : c.sent = []) (calls : List (Send × Outcome)) :
    ∃ part, frames serverbound (c.sends host calls).1.sent = ((delivered c.name calls).map Message.frame, part) ∧
      ((c.sends host calls).2 = none → part = []) ∧
      ∀ error, (c.sends host calls).2 = some error →
        ∃ call, thrown calls = some call ∧ (call.message c.name).Cut part := by
  obtain ⟨part, hsent, hnone, hsome⟩ := sends_sent host c calls
  rw [hc, List.nil_append] at hsent
  obtain ⟨next, hpart, hne⟩ := exists_cut hnone hsome
  refine ⟨part, ?_, hnone, hsome⟩
  rw [hsent, Lib.Framing.frames_stream (fits_frames _) (fits_frame next) hpart hne]

/-- **What was sent is what is read.** Cut by ids and sizes, what the server has of the stream reads back
as the calls that returned, in order, with their arguments. When none has thrown there is nothing
else, and the one that has left some beginning of its own message. -/
theorem sent_received (host : Endian) (c : Sender) (hc : c.sent = []) (calls : List (Send × Outcome)) :
    (frames serverbound (c.sends host calls).1.sent).1.map Message.read = (delivered c.name calls).map some ∧
      ((c.sends host calls).2 = none → (frames serverbound (c.sends host calls).1.sent).2 = []) ∧
      ∀ error, (c.sends host calls).2 = some error → ∃ call, thrown calls = some call ∧
        (call.message c.name).Cut (frames serverbound (c.sends host calls).1.sent).2 := by
  obtain ⟨part, hframes, hnone, hsome⟩ := sent_frames host c hc calls
  rw [hframes]
  refine ⟨?_, hnone, hsome⟩
  rw [List.map_map]
  exact List.map_congr_left fun m _ => read_frame m

/-- The members as they are constructed. -/
def Sender.fresh (name : Vector UInt8 64) : Sender :=
  ⟨.zero, ⟨0, 0, 0, 0, 0⟩, ⟨0, 0, Vector.replicate 64 0⟩, name, []⟩

/-- A block on the negative side, and a pose that gets no further than its ninth byte. -/
def cutShort : List (Send × Outcome) :=
  [(.updateBlock 3 (-1) 70 (-16), .done), (.updateEntity ⟨0, 0, 0, 0, 0⟩, .failed 9 "Broken pipe")]

theorem sent_received_cut :
    (frames serverbound ((Sender.fresh (Vector.replicate 64 0)).sends .little cutShort).1.sent).1.map Message.read =
        [some (.updateBlock 3 (-1) 70 (-16))] ∧
      ∃ call, thrown cutShort = some call ∧ (call.message (Vector.replicate 64 0)).Cut
        (frames serverbound ((Sender.fresh (Vector.replicate 64 0)).sends .little cutShort).1.sent).2 := by
  obtain ⟨hread, _, hcut⟩ := sent_received .little (.fresh (Vector.replicate 64 0)) rfl cutShort
  exact ⟨hread, hcut _ rfl⟩

end MyMinecraft
