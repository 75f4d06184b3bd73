import MyMinecraft.Client.Stream
import MyMinecraft.Renderer.Reads

/-! From the wire to the world.

`Client` and `Renderer` model one thread each and meet in `data.chunks`. Here they run together: the
client thread calls `receive`, one call a step, and the main thread and the workers take the steps of the
pipeline. A call that pushes a chunk waits for `data_mtx`. The scene follows a run of the pipeline
that receives the chunks on the wire (`Fed.scene`), so what is read is what was sent last. -/
namespace MyMinecraft.Session
open Lib.Wire (Endian)

/-- The two threads' states; `data.chunks` is one queue. -/
structure State (n : Nat) where
  client : Client
  scene : Renderer.State n
  shared : client.data.chunks = scene.packets

inductive Event (n : Nat) where
  /-- A call of `client.receive`. -/
  | receive
  /-- The main thread or a worker takes a step. -/
  | scene (e : Renderer.Event n)
  /-- `updateEntities` takes what it wants of the other queues. -/
  | taken (data : Data)

variable {n : Nat}

/-- A client with a stream of bytes before it, and nothing loaded. -/
def start (entityId : Int) (socket : List UInt8) : State n where
  client := ⟨Buffer.zero, ⟨[], [], [], [], []⟩, entityId, socket⟩
  scene := Renderer.start
  shared := rfl

namespace State

/-- The pipeline with the queue as a call left it. -/
def afterCall (s : State n) (client : Client) : State n where
  client := client
  scene := {s.scene with packets := client.data.chunks}
  shared := rfl

@[simp] theorem afterCall_scene (s : State n) (client : Client) :
    (s.afterCall client).scene = {s.scene with packets := client.data.chunks} := rfl

/-- Nothing catches an exception in the client thread, so there is no state after one. -/
def receive (s : State n) (host : Endian) : Option (State n) :=
  match s.client.receive host, s.scene.mainThread with
  | .error _, _ => none
  | .ok (_, client), .draining =>
    -- `data_mtx` is taken, for a call that pushes a chunk
    if client.data.chunks.length = s.client.data.chunks.length then some (s.afterCall client) else none
  | .ok (_, client), _ => some (s.afterCall client)

def withScene (s : State n) (scene : Renderer.State n) : State n where
  client := {s.client with data.chunks := scene.packets}
  scene := scene
  shared := rfl

def withData (s : State n) (data : Data) : State n where
  client := {s.client with data := {data with chunks := s.client.data.chunks}}
  scene := s.scene
  shared := s.shared

end State

/-- The pipeline's own `receive` is the client's call here. -/
def step (host : Endian) (s : State n) : Event n → Option (State n)
  | .receive => s.receive host
  | .scene (.receive _) => none
  | .scene e => (Renderer.step s.scene e).map s.withScene
  | .taken data => some (s.withData data)

/-- How many times `receive` was called. -/
def calls (es : List (Event n)) : Nat :=
  es.countP fun
    | .receive => true
    | _ => false

/-- The blocks of the packets: the one at `pos` is that of the last chunk packet for its chunk. -/
def blockSent (packets : List Packet) (pos : Ivec3) : UInt8 :=
  match Renderer.lastReceived (packets.filterMap Packet.chunkData) (chunkOf pos) with
  | some blocktypes => blocktypes.get (cellIndex pos)
  | none => 0

/-! ### One call -/

/-- A stream of packets, and the beginning of another behind them. -/
structure Stream where
  packets : List Packet
  next : Packet
  part : List UInt8
  cut : part <+: next.bytes
  short : part ≠ next.bytes

/-- What is on the socket after `k` calls: once the packets are taken, a call takes the part. -/
def Stream.rest (w : Stream) (k : Nat) : List UInt8 :=
  if k ≤ w.packets.length then (w.packets.drop k).flatMap Packet.bytes ++ w.part else []

def Stream.bytes (w : Stream) : List UInt8 := w.packets.flatMap Packet.bytes ++ w.part

theorem filterMap_one (p : Packet) : [p].filterMap Packet.chunkData = p.chunkData.toList := by
  cases h : p.chunkData with
  | none => rw [List.filterMap_cons_none h]; rfl
  | some c => rw [List.filterMap_cons_some h]; rfl

/-- The packets up to the `k`-th, and what the next adds to the chunks. -/
theorem Stream.chunks_succ (w : Stream) (k : Nat) :
    (w.packets.take (k + 1)).filterMap Packet.chunkData =
      (w.packets.take k).filterMap Packet.chunkData ++ (w.packets[k]?.bind Packet.chunkData).toList := by
  rw [List.take_add_one, List.filterMap_append]
  cases w.packets[k]? with
  | none => rfl
  | some p => rw [Option.toList_some, Option.bind_some, filterMap_one]

/-- The call after `k` calls succeeds or finds too little, and pushes the chunk of packet `k`, if it is one. -/
theorem receive_rest (host : Endian) (w : Stream) (k : Nat) (c : Client) (hb : c.buffer.Clean)
    (hs : c.socket = w.rest k) :
    ∃ result c', c.receive host = .ok (result, c') ∧ c'.buffer.Clean ∧ c'.socket = w.rest (k + 1) ∧
      c'.data.chunks = c.data.chunks ++ (w.packets[k]?.bind Packet.chunkData).toList := by
  unfold Stream.rest at hs
  rcases Nat.lt_trichotomy k w.packets.length with hk | rfl | hk
  · rw [if_pos hk.le, List.drop_eq_getElem_cons hk, List.flatMap_cons, List.append_assoc] at hs
    obtain ⟨c', hcall, hsocket, hclean, hhandled⟩ := Client.receive_packet c host w.packets[k] _ hb hs
    refine ⟨true, c', hcall, hclean, ?_, ?_⟩
    · rw [hsocket, Stream.rest, if_pos (Nat.succ_le_of_lt hk)]
    · rw [hhandled.decoded.chunks, List.getElem?_eq_getElem hk, Option.bind_some, filterMap_one]
  · rw [if_pos le_rfl, List.drop_length, List.flatMap_nil, List.nil_append] at hs
    obtain ⟨c', hcall, hsocket, hclean, hdecoded⟩ := Client.receive_part c host w.next hb w.part w.cut w.short hs
    refine ⟨false, c', hcall, hclean, ?_, ?_⟩
    · rw [hsocket, Stream.rest, if_neg (Nat.not_succ_le_self _)]
    · rw [hdecoded.chunks, List.getElem?_eq_none le_rfl]
      rfl
  · rw [if_neg hk.not_ge] at hs
    refine ⟨false, c, Client.receive_end host hs, hb, ?_, ?_⟩
    · rw [hs, Stream.rest, if_neg (by omega)]
    · rw [List.getElem?_eq_none hk.le, Option.bind_none]
      exact (List.append_nil _).symm

/-! ### The run -/

/-- The session after the events `es`, on the stream `w`. -/
structure Fed (w : Stream) (es : List (Event n)) (s : State n) : Prop where
  buffer : s.client.buffer.Clean
  socket : s.client.socket = w.rest (calls es)
  /-- The scene is one of the pipeline's, after the chunks taken from the wire. -/
  scene : ∃ es', Lib.Runs.run Renderer.step Renderer.start es' = some s.scene ∧
    Renderer.received es' = (w.packets.take (calls es)).filterMap Packet.chunkData

theorem calls_snoc (es : List (Event n)) (e : Event n) : calls (es ++ [e]) = calls es + calls [e] :=
  List.countP_append

variable {w : Stream} {host : Endian} {es : List (Event n)} {s s' : State n}

/-- A call that pushes nothing leaves the scene, and one that pushes a chunk is a push of the pipeline. -/
theorem scene_afterCall {client : Client} (c : Option ChunkData)
    (hchunks : client.data.chunks = s.client.data.chunks ++ c.toList)
    (hfree : c = none ∨ s.scene.mainThread ≠ .draining) :
    ∃ es', es'.length ≤ 1 ∧ Lib.Runs.run Renderer.step s.scene es' = some (s.afterCall client).scene ∧
      Renderer.received es' = c.toList := by
  rw [s.shared] at hchunks
  cases c with
  | none =>
    refine ⟨[], Nat.zero_le 1, ?_, rfl⟩
    rw [State.afterCall_scene, hchunks, Option.toList_none, List.append_nil]
    rfl
  | some c =>
    have hmain : s.scene.mainThread ≠ .draining := hfree.resolve_left (by simp)
    have hpush : Renderer.step s.scene (.receive (.chunk c.pos c.blocktypes)) =
        some {s.scene with packets := s.scene.packets ++ [c]} := by
      cases hat : s.scene.mainThread with
      | draining => exact absurd hat hmain
      | _ => simp only [Renderer.step, Renderer.State.receive, hat]; rfl
    refine ⟨[.receive (.chunk c.pos c.blocktypes)], le_rfl, Lib.Runs.run_cons.mpr ⟨_, hpush, ?_⟩, rfl⟩
    rw [State.afterCall_scene, hchunks]
    rfl

/-- A call waits only for `data_mtx`. -/
theorem receive_isSome (h : Fed w es s) (hmain : s.scene.mainThread ≠ .draining) :
    (step host s .receive).isSome := by
  obtain ⟨result, client, hcall, _⟩ := receive_rest host w _ s.client h.buffer h.socket
  simp only [step, State.receive, hcall]
  rfl

theorem receive_cases (h : Fed w es s) (hs : s.receive host = some s') :
    ∃ client, s' = s.afterCall client ∧ client.buffer.Clean ∧ client.socket = w.rest (calls es + 1) ∧
      client.data.chunks = s.client.data.chunks ++ (w.packets[calls es]?.bind Packet.chunkData).toList ∧
      (w.packets[calls es]?.bind Packet.chunkData = none ∨ s.scene.mainThread ≠ .draining) := by
  obtain ⟨result, client, hcall, hclean, hsocket, hchunks⟩ := receive_rest host w _ s.client h.buffer h.socket
  simp only [State.receive, hcall] at hs
  split at hs
  · contradiction
  · next heq _ =>
    obtain ⟨-, rfl⟩ := Prod.mk.inj (Except.ok.inj heq)
    split at hs
    · next hlength =>
      refine ⟨client, (Option.some.inj hs).symm, hclean, hsocket, hchunks, .inl ?_⟩
      rw [hchunks, List.length_append] at hlength
      exact Option.toList_eq_nil_iff.mp (List.eq_nil_of_length_eq_zero (by omega))
    · contradiction
  · next heq hmain =>
    obtain ⟨-, rfl⟩ := Prod.mk.inj (Except.ok.inj heq)
    exact ⟨client, (Option.some.inj hs).symm, hclean, hsocket, hchunks, .inr hmain⟩

theorem scene_cases {e : Renderer.Event n} (hs : step host s (.scene e) = some s') :
    Renderer.received [e] = [] ∧ ∃ scene, Renderer.step s.scene e = some scene ∧ s' = s.withScene scene := by
  cases e with
  | receive packet => cases hs
  | _ =>
    obtain ⟨scene, hscene, rfl⟩ := Option.map_eq_some_iff.mp hs
    exact ⟨rfl, scene, hscene, rfl⟩

theorem client_step {e : Event n} (h : Fed w es s) (hs : step host s e = some s') :
    s'.client.buffer.Clean ∧ s'.client.socket = w.rest (calls (es ++ [e])) := by
  rw [calls_snoc]
  cases e with
  | receive =>
    obtain ⟨client, rfl, hclean, hsocket, _⟩ := receive_cases h hs
    exact ⟨hclean, hsocket⟩
  | scene e =>
    obtain ⟨_, scene, _, rfl⟩ := scene_cases hs
    exact ⟨h.buffer, h.socket⟩
  | taken data =>
    obtain rfl := Option.some.inj hs
    exact ⟨h.buffer, h.socket⟩

/-- A step is one of the pipeline or none, and what it receives is the chunk of the packet taken. -/
theorem scene_step {e : Event n} (h : Fed w es s) (hs : step host s e = some s') :
    ∃ es', es'.length ≤ 1 ∧ Lib.Runs.run Renderer.step s.scene es' = some s'.scene ∧
      (w.packets.take (calls (es ++ [e]))).filterMap Packet.chunkData =
        (w.packets.take (calls es)).filterMap Packet.chunkData ++ Renderer.received es' := by
  rw [calls_snoc]
  cases e with
  | receive =>
    obtain ⟨client, rfl, _, _, hchunks, hfree⟩ := receive_cases h hs
    obtain ⟨es', hlength, hrun, hreceived⟩ := scene_afterCall _ hchunks hfree
    exact ⟨es', hlength, hrun, hreceived ▸ Stream.chunks_succ w (calls es)⟩
  | scene e =>
    obtain ⟨hquiet, scene, hscene, rfl⟩ := scene_cases hs
    exact ⟨[e], le_rfl, Lib.Runs.run_cons.mpr ⟨scene, hscene, rfl⟩, hquiet ▸ (List.append_nil _).symm⟩
  | taken data =>
    obtain rfl := Option.some.inj hs
    exact ⟨[], Nat.zero_le 1, rfl, (List.append_nil _).symm⟩

theorem fed_step {e : Event n} (h : Fed w es s) (hs : step host s e = some s') : Fed w (es ++ [e]) s' := by
  obtain ⟨hclean, hsocket⟩ := client_step h hs
  obtain ⟨es', hrun, hreceived⟩ := h.scene
  obtain ⟨more, _, hmore, hpushed⟩ := scene_step h hs
  refine ⟨hclean, hsocket, es' ++ more, ?_, ?_⟩
  · rw [Lib.Runs.run_append, hrun, Option.bind_some, hmore]
  · rw [hpushed, ← hreceived]
    exact List.filterMap_append

theorem fed_run (entityId : Int) (es : List (Event n))
    (hrun : Lib.Runs.run (step host) (start entityId w.bytes) es = some s) : Fed w es s := by
  refine Lib.Runs.run_history (fun es s => Fed w es s) ?_ (fun _ _ _ _ h hs => fed_step h hs) es hrun
  refine ⟨Buffer.clean_zero, ?_, [], rfl, rfl⟩
  exact (if_pos (Nat.zero_le _)).symm

/-! ### What is read -/

/-- With nothing queued, the world is the one the packets taken describe. -/
theorem blockOf_sent (h : Fed w es s) (hempty : s.scene.packets = []) (pos : Ivec3) :
    blockOf s.scene.world.chunks pos = blockSent (w.packets.take (calls es)) pos := by
  obtain ⟨es', hrun, hreceived⟩ := h.scene
  obtain ⟨taken, hfifo, hchunks⟩ := Renderer.stored_run es' hrun
  rw [hempty, List.append_nil, hreceived] at hfifo
  rw [blockOf, hchunks, blockSent, hfifo]
  cases Renderer.lastReceived taken (chunkOf pos) <;> rfl

theorem getBlockAt_sent (h : Fed w es s) (hempty : s.scene.packets = []) {pos : Ivec3} (hpos : pos.Within (2 ^ 24)) :
    s.scene.world.getBlockAt pos.x pos.y pos.z = .ok (blockSent (w.packets.take (calls es)) pos) :=
  (lookupBlock_eq s.scene.world.chunks hpos).trans (congrArg Except.ok (blockOf_sent h hempty pos))

/-- What holds after the events `es` on the stream `w`. -/
structure Follows (host : Endian) (w : Stream) (es : List (Event n)) (s : State n) : Prop where
  /-- The pipeline has had the chunks on the wire, in order, and nothing else. -/
  scene : ∃ es', Lib.Runs.run Renderer.step Renderer.start es' = some s.scene ∧
    Renderer.received es' = (w.packets.take (calls es)).filterMap Packet.chunkData
  reads : s.scene.packets = [] → ∀ pos : Ivec3, pos.Within (2 ^ 24) →
    s.scene.world.getBlockAt pos.x pos.y pos.z = .ok (blockSent (w.packets.take (calls es)) pos)
  /-- No call throws, and none waits but for the drain. -/
  receives : s.scene.mainThread ≠ .draining → (step host s .receive).isSome

/-- **The world is what came over the wire**: the packets of the calls so far and no other, whatever the
threads do in between. -/
theorem world_of_wire (host : Endian) (w : Stream) (entityId : Int) (es : List (Event n)) {s : State n}
    (hrun : Lib.Runs.run (step host) (start entityId w.bytes) es = some s) : Follows host w es s := by
  have hfed := fed_run entityId es hrun
  exact ⟨hfed.scene, fun hempty _ hpos => getBlockAt_sent hfed hempty hpos, receive_isSome hfed⟩

/-- A chunk of stone on the negative side, and the id of a removal that never comes. -/
def stoneThenCut : Stream where
  packets := [.monoTypeChunk (-16) 0 (-32) 3]
  next := .removeEntity 7
  part := [0x02]
  cut := by decide
  short := by decide

/-- The second call comes while the main thread drains, and finds too little. -/
def overlappingCalls (w : Fin 4) : List (Event 4) :=
  [.receive, .taken ⟨[], [], [], [], []⟩, .scene .updateChunks, .scene .drain, .receive, .scene .drained,
    .scene (.enqueue ⟨-16, 0, -32⟩), .scene (.acquire w)]

theorem world_of_wire_cut : ∃ s, Lib.Runs.run (step .little) (start 0 stoneThenCut.bytes) (overlappingCalls 1) = some s ∧
    s.scene.packets = [] ∧ Follows .little stoneThenCut (overlappingCalls 1) s := by
  have hany : (Lib.Runs.run (step .little) (start 0 stoneThenCut.bytes) (overlappingCalls 1)).any
      (fun s => s.scene.packets.isEmpty) = true := by
    decide +kernel
  obtain ⟨s, hrun, hempty⟩ := (Option.any_eq_true _ _).mp hany
  exact ⟨s, hrun, List.isEmpty_iff.mp hempty, world_of_wire .little stoneThenCut 0 _ hrun⟩

end MyMinecraft.Session
