import MyMinecraft.Renderer

/-! What the world holds is what was received.

Packets leave `data.chunks` in the order they came, and each replaces what the
world had at its position. So the packets received are those already in the world
followed by those still queued (`Stored`), and once the queue is empty every read
is the byte of the last packet for its chunk: `getBlockAt_last_received`. -/
namespace MyMinecraft.Renderer
variable {n : Nat}

/-- The chunks pushed in a run, in order. -/
def received (es : List (Event n)) : List ChunkData :=
  es.filterMap fun
    | .receive packet => some packet.data
    | _ => none

/-- The blocks of the last of the packets for `pos`. -/
def lastReceived (packets : List ChunkData) (pos : Ivec3) : Option (Vector UInt8 4096) :=
  packets.foldl (fun last c => if c.pos = pos then some c.blocktypes else last) none

theorem lastReceived_snoc (packets : List ChunkData) (c : ChunkData) (pos : Ivec3) :
    lastReceived (packets ++ [c]) pos =
      if c.pos = pos then some c.blocktypes else lastReceived packets pos := by
  rw [lastReceived, List.foldl_append]
  rfl

/-- The world holds the packets `taken` from the queue, which are all but the queued ones. -/
structure Stored (es : List (Event n)) (s : State n) (taken : List ChunkData) : Prop where
  fifo : received es = taken ++ s.packets
  chunks : ∀ pos, s.world.chunks.lookup pos =
    (lastReceived taken pos).map fun blocktypes => ⟨blocktypes, pos⟩

theorem received_snoc (es : List (Event n)) (e : Event n) :
    received (es ++ [e]) = received es ++ received [e] := List.filterMap_append ..

/-- A step that pushes nothing and takes nothing. -/
theorem Stored.quiet {es : List (Event n)} {s s' : State n} {taken : List ChunkData} {e : Event n}
    (h : Stored es s taken) (he : received [e] = []) (hpackets : s'.packets = s.packets)
    (hchunks : s'.world.chunks = s.world.chunks) : Stored (es ++ [e]) s' taken where
  fifo := by rw [received_snoc, he, List.append_nil, hpackets, h.fifo]
  chunks := by rw [hchunks]; exact h.chunks

theorem Stored.drain {es : List (Event n)} {s : State n} {taken : List ChunkData} {c : ChunkData}
    {rest : List ChunkData} (h : Stored es s taken) (hpackets : s.packets = c :: rest) :
    Stored (es ++ [.drain]) { s with
      packets := rest
      world := s.world.createOrReplaceChunk c.pos c.blocktypes
      chunksToUpdate := addChunk s.chunksToUpdate c.pos } (taken ++ [c]) where
  fifo := by
    have hlast : received [(Event.drain : Event n)] = [] := rfl
    rw [received_snoc, h.fifo, hpackets, hlast, List.append_nil, List.append_assoc]
    rfl
  chunks := by
    intro pos
    show (s.world.createOrReplaceChunk c.pos c.blocktypes).chunks.lookup pos = _
    rw [World.createOrReplaceChunk_chunks, Lib.Map.lookup_insert, lastReceived_snoc]
    by_cases hpos : c.pos = pos
    · rw [if_pos hpos.symm, if_pos hpos, hpos, Option.map_some]
    · rw [if_neg (Ne.symm hpos), if_neg hpos, h.chunks pos]

theorem stored_step {es : List (Event n)} {s s' : State n} {e : Event n}
    (h : ∃ taken, Stored es s taken) (hs : step s e = some s') :
    ∃ taken, Stored (es ++ [e]) s' taken := by
  obtain ⟨taken, h⟩ := h
  cases next_of_step hs with
  | receive packet hmain =>
    refine ⟨taken, ?_, h.chunks⟩
    rw [received_snoc, h.fifo, List.append_assoc]
    rfl
  | drain c rest hmain hpackets => exact ⟨taken ++ [c], h.drain hpackets⟩
  | createChunksMesh hmain => exact ⟨taken, h.quiet rfl rfl (World.createChunksMesh_chunks _ _)⟩
  | _ => exact ⟨taken, h.quiet rfl rfl rfl⟩

theorem stored_run (es : List (Event n)) {s : State n}
    (hrun : Lib.Runs.run step start es = some s) : ∃ taken, Stored es s taken :=
  Lib.Runs.run_history (fun es s => ∃ taken, Stored es s taken)
    ⟨[], rfl, fun pos => AList.lookup_empty pos⟩ (fun _ _ _ _ h hs => stored_step h hs) es hrun

/-- The byte of a packet at `(X, Y, Z)` that is the block at `(x, y, z)`. -/
def blockIndex (x y z : Int) : Int :=
  (x - 16 * (x / 16)) + 16 * (y - 16 * (y / 16)) + 256 * (z - 16 * (z / 16))

/-- The chunk packets of a run, in order. -/
def chunkPackets (es : List (Event n)) : List ChunkPacket :=
  es.filterMap fun
    | .receive packet => some packet
    | _ => none

/-- The last of the packets for `pos`. -/
def lastPacket (packets : List ChunkPacket) (pos : Ivec3) : Option ChunkPacket :=
  packets.reverse.find? fun packet => packet.pos = pos

/-- What a read of the world is, by the packets received. -/
structure ReadsLast (es : List (Event n)) (s : State n) (x y z : Int) : Prop where
  inBounds : 0 ≤ blockIndex x y z ∧ blockIndex x y z ≤ 4095
  index : positionToIndex ⟨localCoord x, localCoord y, localCoord z⟩ = blockIndex x y z
  last : ∀ packet,
    lastPacket (chunkPackets es) ⟨16 * (x / 16), 16 * (y / 16), 16 * (z / 16)⟩ = some packet →
      ∃ bt, packet.byte (blockIndex x y z).toNat = some bt ∧ s.world.getBlockAt x y z = .ok bt
  nothing : lastPacket (chunkPackets es) ⟨16 * (x / 16), 16 * (y / 16), 16 * (z / 16)⟩ = none →
    s.world.getBlockAt x y z = .ok 0

theorem received_eq (es : List (Event n)) : received es = (chunkPackets es).map ChunkPacket.data := by
  rw [received, chunkPackets, List.map_filterMap]
  refine List.filterMap_congr fun e _ => ?_
  cases e <;> rfl

theorem byte_eq (packet : ChunkPacket) (i : Nat) : packet.byte i = packet.data.blocktypes[i]? := by
  cases packet with
  | chunk pos blocktypes => rfl
  | monoTypeChunk pos blocktype => exact Vector.getElem?_replicate.symm

/-- What is stored for a position is what its last packet has. -/
theorem lastReceived_data (packets : List ChunkPacket) (pos : Ivec3) :
    lastReceived (packets.map ChunkPacket.data) pos =
      (lastPacket packets pos).map fun packet => packet.data.blocktypes := by
  have hpos (packet : ChunkPacket) : packet.data.pos = packet.pos := by cases packet <;> rfl
  induction packets using List.reverseRecOn with
  | nil => rfl
  | append_singleton packets packet ih =>
    rw [List.map_append, List.map_singleton, lastReceived_snoc, ih, hpos, lastPacket, lastPacket,
      List.reverse_append, List.reverse_singleton, List.singleton_append, List.find?_cons]
    by_cases h : packet.pos = pos <;> simp [h]

theorem blockIndex_bounds (x y z : Int) : 0 ≤ blockIndex x y z ∧ blockIndex x y z ≤ 4095 := by
  unfold blockIndex
  omega

theorem cellIndex_eq (x y z : Int) : ((cellIndex ⟨x, y, z⟩ : Nat) : Int) = blockIndex x y z := by
  simp only [cellIndex, blockIndex]
  omega

/-- **Reads see the last received chunk and nothing else**, for every order of pushes,
drains and clicks on the box, whenever nothing is queued. -/
theorem getBlockAt_last_received (es : List (Event n)) {s : State n}
    (hrun : Lib.Runs.run step start es = some s) (hempty : s.packets = []) (x y z : Int)
    (h : Ivec3.Within (2 ^ 24) ⟨x, y, z⟩) : ReadsLast es s x y z := by
  obtain ⟨taken, hfifo, hchunks⟩ := stored_run es hrun
  rw [hempty, List.append_nil] at hfifo
  have hread : s.world.getBlockAt x y z = .ok (blockOf s.world.chunks ⟨x, y, z⟩) :=
    lookupBlock_eq s.world.chunks h
  have hchunk : s.world.chunks.lookup (chunkOf ⟨x, y, z⟩) =
      ((lastPacket (chunkPackets es) (chunkOf ⟨x, y, z⟩)).map fun packet => packet.data.blocktypes).map
        fun blocktypes => ⟨blocktypes, chunkOf ⟨x, y, z⟩⟩ := by
    rw [hchunks, ← hfifo, received_eq, lastReceived_data]
  refine ⟨blockIndex_bounds x y z, ?_, ?_, ?_⟩
  · simp only [positionToIndex, localCoord_eq, blockIndex]
    rw [if_neg (by omega)]
    omega
  · intro packet hlast
    change lastPacket (chunkPackets es) (chunkOf ⟨x, y, z⟩) = some packet at hlast
    rw [hlast, Option.map_some, Option.map_some] at hchunk
    refine ⟨packet.data.blocktypes.get (cellIndex ⟨x, y, z⟩), ?_, ?_⟩
    · rw [← cellIndex_eq, Int.toNat_natCast, byte_eq]
      exact Vector.getElem?_eq_getElem (cellIndex ⟨x, y, z⟩).isLt
    · rw [hread, blockOf, hchunk]
  · intro hlast
    change lastPacket (chunkPackets es) (chunkOf ⟨x, y, z⟩) = none at hlast
    rw [hlast, Option.map_none, Option.map_none] at hchunk
    rw [hread, blockOf, hchunk]

/-- A chunk on the negative side, received while the box is off and replaced later. -/
def replacing : List (Event 4) :=
  [.toggle, .receive (.monoTypeChunk ⟨-16, 0, -16⟩ 3), .toggle, .updateChunks, .drain, .drained,
    .receive (.monoTypeChunk ⟨-16, 0, -16⟩ 1), .enqueue ⟨-16, 0, -32⟩, .enqueue ⟨-16, 0, 0⟩,
    .enqueue ⟨-32, 0, -16⟩, .enqueue ⟨0, 0, -16⟩, .enqueue ⟨-16, 16, -16⟩,
    .enqueue ⟨-16, -16, -16⟩, .enqueue ⟨-16, 0, -16⟩, .enqueued, .createChunksMesh,
    .updateChunks, .drain]

theorem getBlockAt_last_received_replacing :
    ∃ s, Lib.Runs.run step start replacing = some s ∧ ReadsLast replacing s (-1) 0 (-16) := by
  have hany : (Lib.Runs.run step start replacing).any (fun s => s.packets.isEmpty) = true := by
    decide +kernel
  obtain ⟨s, hrun, hempty⟩ := (Option.any_eq_true _ _).mp hany
  exact ⟨s, hrun,
    getBlockAt_last_received _ hrun (List.isEmpty_iff.mp hempty) (-1) 0 (-16) (by decide)⟩

end MyMinecraft.Renderer
