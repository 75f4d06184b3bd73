import MyMinecraft.Client.Stream

/-! Streams that no server would send.

`packetid` and the `switch` both decide what an id means, and they differ on the ids
of no packet: the `switch` passes over them, but `packetid.at` has thrown before.
Whatever else is on the socket a call copes with: a body is cut short or it is
there, and then any bytes of the right number are a packet (`exists_packet`). So the
thread survives a stream exactly when the lengths of the table, followed from the
front, lead to no such id: `survives_iff`. -/
namespace MyMinecraft
open Lib.Wire (Endian words)

/-! ### Any bytes of the right number are a packet -/

theorem exists_vector {n : Nat} {raw : List UInt8} (h : raw.length = n) :
    ∃ v : Vector UInt8 n, v.toList = raw := by
  subst h
  exact ⟨⟨raw.toArray, List.size_toArray⟩, rfl⟩

/-- A body of `n` words and `k` raw bytes. -/
theorem exists_layout (n k : Nat) {payload : List UInt8} (h : payload.length = 4 * n + k) :
    ∃ ws raw, ws.length = n ∧ raw.length = k ∧ words ws ++ raw = payload := by
  have hroom : 4 * n ≤ payload.length := by omega
  obtain ⟨ws, raw, hws, rfl⟩ := Lib.Wire.exists_words n hroom
  rw [List.length_append, Lib.Wire.words_length] at h
  exact ⟨ws, raw, hws, by omega, rfl⟩

theorem bytes_of_layout {p : Packet} {id : UInt8} {ws : List UInt32} {raw : List UInt8}
    (hid : p.id = id) (hws : p.fields = ws) (hraw : p.raw = raw) : p.bytes = id :: (words ws ++ raw) := by
  rw [Packet.bytes, Packet.payload, hid, hws, hraw]

/-- The six words of an entity, in 0x01 and in 0x03. -/
theorem six_words {ws : List UInt32} (h : ws.length = 6) :
    ∃ id x y z yaw pitch, ws = [id, x, y, z, yaw, pitch] :=
  match ws, h with
  | [id, x, y, z, yaw, pitch], _ => ⟨id, x, y, z, yaw, pitch, rfl⟩

/-- **Bytes after an id are the packet of that id**, whatever they are, if there are as many
as the table says. -/
theorem exists_packet {id : UInt8} {payload : List UInt8}
    (h : packetid.lookup id = some payload.length) : ∃ p : Packet, p.bytes = id :: payload := by
  have hmem := packetid_mem h
  simp only [packetid, sizeofEntityData, List.mem_cons, Prod.mk.injEq, List.not_mem_nil, or_false] at hmem
  obtain ⟨rfl, hlen⟩ | ⟨rfl, hlen⟩ | ⟨rfl, hlen⟩ | ⟨rfl, hlen⟩ | ⟨rfl, hlen⟩ | ⟨rfl, hlen⟩ |
    ⟨rfl, hlen⟩ | ⟨rfl, hlen⟩ := hmem
  · obtain ⟨ws, raw, hws, hraw, rfl⟩ := exists_layout 1 0 hlen
    obtain ⟨own, rfl⟩ := List.length_eq_one_iff.mp hws
    obtain rfl := List.length_eq_zero_iff.mp hraw
    exact ⟨.myEntityID own.toInt32, bytes_of_layout rfl (by simp [Packet.fields]) rfl⟩
  · obtain ⟨ws, raw, hws, hraw, rfl⟩ := exists_layout 6 64 hlen
    obtain ⟨entity, x, y, z, yaw, pitch, rfl⟩ := six_words hws
    obtain ⟨name, rfl⟩ := exists_vector hraw
    exact ⟨.addEntity entity.toInt32 ⟨x, y, z⟩ yaw pitch name,
      bytes_of_layout rfl (by simp [Packet.fields]) rfl⟩
  · obtain ⟨ws, raw, hws, hraw, rfl⟩ := exists_layout 1 0 hlen
    obtain ⟨entity, rfl⟩ := List.length_eq_one_iff.mp hws
    obtain rfl := List.length_eq_zero_iff.mp hraw
    exact ⟨.removeEntity entity.toInt32, bytes_of_layout rfl (by simp [Packet.fields]) rfl⟩
  · obtain ⟨ws, raw, hws, hraw, rfl⟩ := exists_layout 6 0 hlen
    obtain ⟨entity, x, y, z, yaw, pitch, rfl⟩ := six_words hws
    obtain rfl := List.length_eq_zero_iff.mp hraw
    exact ⟨.updateEntity entity.toInt32 ⟨x, y, z⟩ yaw pitch,
      bytes_of_layout rfl (by simp [Packet.fields]) rfl⟩
  · obtain ⟨ws, raw, hws, hraw, rfl⟩ := exists_layout 3 4096 hlen
    obtain ⟨x, y, z, rfl⟩ := List.length_eq_three.mp hws
    obtain ⟨blocktypes, rfl⟩ := exists_vector hraw
    exact ⟨.chunk x.toInt32 y.toInt32 z.toInt32 blocktypes,
      bytes_of_layout rfl (by simp [Packet.fields]) rfl⟩
  · obtain ⟨ws, raw, hws, hraw, rfl⟩ := exists_layout 3 1 hlen
    obtain ⟨x, y, z, rfl⟩ := List.length_eq_three.mp hws
    obtain ⟨blocktype, rfl⟩ := List.length_eq_one_iff.mp hraw
    exact ⟨.monoTypeChunk x.toInt32 y.toInt32 z.toInt32 blocktype,
      bytes_of_layout rfl (by simp [Packet.fields]) rfl⟩
  · obtain ⟨ws, raw, hws, hraw, rfl⟩ := exists_layout 0 4096 hlen
    obtain rfl := List.length_eq_zero_iff.mp hws
    obtain ⟨text, rfl⟩ := exists_vector hraw
    exact ⟨.chat text, bytes_of_layout rfl rfl rfl⟩
  · obtain ⟨ws, raw, hws, hraw, rfl⟩ := exists_layout 1 64 hlen
    obtain ⟨entity, rfl⟩ := List.length_eq_one_iff.mp hws
    obtain ⟨name, rfl⟩ := exists_vector hraw
    exact ⟨.entityMetaData entity.toInt32 name, bytes_of_layout rfl (by simp [Packet.fields]) rfl⟩

/-! ### What the thread survives -/

/-- Following the lengths of the table from the front, every id read is an id of the table. The
last body may be cut short: there is nothing behind it. -/
def framed : List UInt8 → Bool
  | [] => true
  | id :: rest =>
    match packetid.lookup id with
    | none => false
    | some len => framed (rest.drop len)
termination_by bytes => bytes.length
decreasing_by
  simp only [List.length_drop, List.length_cons]
  omega

namespace Client

/-- What a call may do: decode one packet and take it from the socket, or leave the queues
and the entity id as they are. -/
inductive CallDone (c : Client) : Bool → Client → Prop where
  | packet {c' : Client} (p : Packet) (hfront : c.socket = p.bytes ++ c'.socket)
    (hhandled : Handled p c c') : CallDone c true c'
  | nothing {result : Bool} {c' : Client} (hdata : c'.data = c.data)
    (hid : c'.entityId = c.entityId) : CallDone c result c'

/-- `m` calls raise nothing and each does what it may, with the main thread at the queues
in between. -/
def Survives (host : Endian) : Nat → Client → Prop
  | 0, _ => True
  | m + 1, c => ∃ result c', c.receive host = .ok (result, c') ∧ CallDone c result c' ∧
      ∀ data, Survives host m {c' with data}

variable (c : Client) (host : Endian)

/-- After a known id a call does what it may, whatever follows. -/
theorem receive_done {id : UInt8} {len : Nat} {rest : List UInt8} (hb : c.buffer.Clean)
    (hs : c.socket = id :: rest) (hid : packetid.lookup id = some len) :
    ∃ result c', c.receive host = .ok (result, c') ∧ CallDone c result c' ∧ c'.buffer.Clean ∧
      c'.socket = rest.drop len := by
  by_cases hshort : rest.length < len
  · obtain ⟨c', hcall, hsocket, hclean, hdata, hown⟩ := receive_cut c host hid hshort hb hs
    refine ⟨false, c', hcall, .nothing hdata hown, hclean, ?_⟩
    rw [hsocket, List.drop_eq_nil_of_le hshort.le]
  · have hlen : (rest.take len).length = len := List.length_take_of_le (Nat.le_of_not_lt hshort)
    have hbody : packetid.lookup id = some (rest.take len).length := by rw [hlen, hid]
    obtain ⟨p, hp⟩ := exists_packet hbody
    have hfront : c.socket = p.bytes ++ rest.drop len := by
      rw [hp, List.cons_append, List.take_append_drop, hs]
    obtain ⟨c', hcall, hsocket, hclean, hhandled⟩ := receive_packet c host p _ hb hfront
    exact ⟨true, c', hcall, .packet p (by rw [hsocket, hfront]) hhandled, hclean, hsocket⟩

theorem survives_of_framed (m : Nat) (c : Client) (hb : c.buffer.Clean)
    (hframed : framed c.socket = true) : Survives host m c := by
  induction m generalizing c with
  | zero => trivial
  | succ m ih =>
    cases hs : c.socket with
    | nil =>
      refine ⟨false, c, receive_end host hs, .nothing rfl rfl, fun data => ?_⟩
      exact ih {c with data} hb hframed
    | cons id rest =>
      rw [hs, framed] at hframed
      cases hid : packetid.lookup id with
      | none =>
        rw [hid] at hframed
        cases hframed
      | some len =>
        rw [hid] at hframed
        obtain ⟨result, c', hcall, hdone, hclean, hsocket⟩ := receive_done c host hb hs hid
        refine ⟨result, c', hcall, hdone, fun data => ?_⟩
        exact ih {c' with data} hclean ((congrArg framed hsocket).trans hframed)

theorem framed_of_survives (bytes : List UInt8) (c : Client) (hb : c.buffer.Clean)
    (hs : c.socket = bytes) (h : ∀ m, Survives host m c) : framed bytes = true := by
  induction bytes using framed.induct generalizing c with
  | case1 => rw [framed]
  | case2 id rest hid =>
    obtain ⟨result, c', hcall, _⟩ := h 1
    rw [receive_unknown host hs hid] at hcall
    cases hcall
  | case3 id rest len hid ih =>
    obtain ⟨result, c', hcall, -, hclean, hsocket⟩ := receive_done c host hb hs hid
    rw [framed, hid]
    refine ih c' hclean hsocket fun m => ?_
    obtain ⟨result', c'', hcall', -, hrest⟩ := h (m + 1)
    rw [hcall] at hcall'
    obtain ⟨rfl, rfl⟩ := Prod.mk.inj (Except.ok.inj hcall')
    exact hrest c'.data

/-- **The thread survives exactly the framed streams**, from any state that occurs. -/
theorem survives_iff (hc : Reachable host c) : (∀ m, Survives host m c) ↔ framed c.socket = true := by
  constructor
  · exact framed_of_survives host c.socket c hc.clean rfl
  · exact fun hframed m => survives_of_framed host m c hc.clean hframed

/-- A fresh client with one packet before it and a body cut after its first byte. -/
def cutWaiting : Client := ⟨Buffer.zero, ⟨[], [], [], [], []⟩, 0, [0x02, 0, 0, 0, 7, 0x00, 1]⟩

theorem survives_cut : Survives .little 3 cutWaiting := by
  have hframed : framed cutWaiting.socket = true := by
    simp [cutWaiting, framed, packetid, sizeofEntityData, List.lookup]
  exact (survives_iff cutWaiting .little (.start 0 _)).mpr hframed 3

/-- A fresh client with one byte before it, the id of no packet. -/
def strayWaiting : Client := ⟨Buffer.zero, ⟨[], [], [], [], []⟩, 0, [0x08]⟩

/-- The `switch` would have passed over the id; the thread has no handler for what
`packetid.at` throws. -/
theorem stray_id_throws : Reachable .little strayWaiting ∧
    strayWaiting.receive .little = .error .outOfRange ∧ ¬ Survives .little 1 strayWaiting := by
  have hthrow : strayWaiting.receive .little = .error .outOfRange :=
    receive_unknown .little rfl (by decide)
  refine ⟨.start 0 _, hthrow, fun h => ?_⟩
  obtain ⟨result, c', hcall, _⟩ := h
  rw [hthrow] at hcall
  cases hcall

end Client
end MyMinecraft
