import MyMinecraft.ChunkVertices
import MyMinecraft.Client
import MyMinecraft.Threadpool

/-! The chunk pipeline (`Renderer.cpp`, `GameScene::updateChunks`).

Chunks arrive from the client thread, go into the world on the main thread, are
meshed by the workers of the pool and go back to the main thread to be uploaded.
The threads meet in four critical sections: `data_mtx` around the queue of
packets, held over a whole drain; `chunk_mtx` around a write to the world and
around a worker's copy of it; the pool's own; and `chunks_vertices_to_mesh_mtx`
around the map of finished lists. A step here is one of these sections, or what
one thread does alone until the next. `Next` is the step function read backwards,
and the results over runs use it and the lemmas after it. -/
namespace MyMinecraft.Renderer

/-- The renderer's own table; the mesher's has another order. -/
def neighborChunkpos : List Ivec3 :=
  [⟨0, 0, -1⟩, ⟨0, 0, 1⟩, ⟨-1, 0, 0⟩, ⟨1, 0, 0⟩, ⟨0, 1, 0⟩, ⟨0, -1, 0⟩, ⟨0, 0, 0⟩]

def addChunk (chunksToUpdate : Finset Ivec3) (pos : Ivec3) : Finset Ivec3 :=
  neighborChunkpos.foldl (fun s off => insert (pos + off * (16 : Int)) s) chunksToUpdate

/-- Where the main thread is in `updateChunks`. -/
inductive MainThread where
  /-- Outside: input, the settings window, rendering. -/
  | idle
  /-- In the `while` loop, holding `data_mtx`. -/
  | draining
  /-- In the loop of `createChunksVertices`, these positions still to come. -/
  | enqueueing (rest : Finset Ivec3)
  /-- Before `createChunksMesh`. -/
  | meshing

/-- Everything the threads share, and what each has to itself. -/
structure State (n : Nat) where
  /-- `client.data.chunks`. -/
  packets : List ChunkData
  world : World
  /-- `update_chunk`, the box in the settings window. -/
  updateChunk : Bool
  mainThread : MainThread
  chunksToUpdate : Finset Ivec3
  tp : ThreadPool n Ivec3
  /-- Each worker's `neighbor_chunks`, from its copy to the end of its task. -/
  neighborChunks : Fin n → Option Chunks
  chunksVerticesToMesh : AList fun _ : Ivec3 => List UInt32

variable {n : Nat}

inductive Event (n : Nat) where
  /-- The client thread pushes a chunk. -/
  | receive (packet : ChunkPacket)
  /-- The box is clicked. -/
  | toggle
  | updateChunks
  /-- One turn of the `while` loop. -/
  | drain
  | drained
  /-- One turn of the loop of `createChunksVertices`. -/
  | enqueue (pos : Ivec3)
  | enqueued
  | createChunksMesh
  /-- Worker `w` takes a task. -/
  | acquire (w : Fin n)
  /-- It copies the chunks it needs. -/
  | snapshot (w : Fin n)
  /-- It stores the finished list, and the task returns. -/
  | publish (w : Fin n)

instance : Inhabited (Event n) := ⟨.toggle⟩

def start : State n where
  packets := []
  world := World.empty
  updateChunk := true
  mainThread := .idle
  chunksToUpdate := ∅
  tp := ThreadPool.start
  neighborChunks := fun _ => none
  chunksVerticesToMesh := ∅

namespace State

def receive (s : State n) (packet : ChunkPacket) : Option (State n) :=
  match s.mainThread with
  | .draining => none -- `data_mtx` is taken
  | _ => some {s with packets := s.packets ++ [packet.data]}

def toggle (s : State n) : Option (State n) :=
  match s.mainThread with
  | .idle => some {s with updateChunk := !s.updateChunk}
  | _ => none

def updateChunks (s : State n) : Option (State n) :=
  match s.mainThread, s.updateChunk with
  | .idle, true => some {s with mainThread := .draining}
  | _, _ => none

/-- The packet leaves the queue and enters the world in one step: `data_mtx` is held
around both. -/
def drain (s : State n) : Option (State n) :=
  match s.mainThread, s.packets with
  | .draining, chunkData :: rest =>
    some { s with
      packets := rest
      world := s.world.createOrReplaceChunk chunkData.pos chunkData.blocktypes
      chunksToUpdate := addChunk s.chunksToUpdate chunkData.pos }
  | _, _ => none

def drained (s : State n) : Option (State n) :=
  match s.mainThread, s.packets with
  | .draining, [] => some {s with mainThread := .enqueueing s.chunksToUpdate}
  | _, _ => none

/-- The order in which an `unordered_set` is walked is not known: any position that is
left may come next. -/
def enqueue (s : State n) (pos : Ivec3) : Option (State n) :=
  match s.mainThread with
  | .enqueueing rest =>
    if pos ∈ rest then
      some {s with tp := s.tp.enqueue pos, mainThread := .enqueueing (rest.erase pos)}
    else none
  | _ => none

def enqueued (s : State n) : Option (State n) :=
  match s.mainThread with
  | .enqueueing rest =>
    if rest = ∅ then some {s with chunksToUpdate := ∅, mainThread := .meshing} else none
  | _ => none

def createChunksMesh (s : State n) : Option (State n) :=
  match s.mainThread with
  | .meshing =>
    some { s with
      world := s.world.createChunksMesh s.chunksVerticesToMesh
      chunksVerticesToMesh := ∅
      mainThread := .idle }
  | _ => none

/-- The task's locals start empty. -/
def acquire (s : State n) (w : Fin n) : Option (State n) :=
  (s.tp.acquire w).map fun tp =>
    {s with tp, neighborChunks := Function.update s.neighborChunks w none}

def snapshot (s : State n) (w : Fin n) : Option (State n) :=
  match s.tp.threads w, s.neighborChunks w with
  | .running task, none =>
    some { s with
      neighborChunks := Function.update s.neighborChunks w
        (some (ChunkVertices.snapshot s.world.chunks task.body)) }
  | _, _ => none

/-- The loops over the cells read only the worker's copies, so they are part of this step. -/
def publish (s : State n) (w : Fin n) : Option (State n) :=
  match s.tp.threads w, s.neighborChunks w with
  | .running task, some nchunks =>
    match ChunkVertices.verticesOf nchunks task.body with
    | .ok vertices =>
      (s.tp.finish w).map fun tp =>
        {s with tp, chunksVerticesToMesh := s.chunksVerticesToMesh.insert task.body vertices}
    | .error _ => none
  | _, _ => none

end State

def step (s : State n) : Event n → Option (State n)
  | .receive packet => s.receive packet
  | .toggle => s.toggle
  | .updateChunks => s.updateChunks
  | .drain => s.drain
  | .drained => s.drained
  | .enqueue pos => s.enqueue pos
  | .enqueued => s.enqueued
  | .createChunksMesh => s.createChunksMesh
  | .acquire w => s.acquire w
  | .snapshot w => s.snapshot w
  | .publish w => s.publish w

/-! ### The steps, read backwards -/

/-- What a step changes, and what it found. A field that is not named is unchanged. -/
inductive Next (s : State n) : Event n → State n → Prop where
  | receive (packet : ChunkPacket) (hmain : s.mainThread ≠ .draining) :
    Next s (.receive packet) {s with packets := s.packets ++ [packet.data]}
  | toggle (hmain : s.mainThread = .idle) :
    Next s .toggle {s with updateChunk := !s.updateChunk}
  | updateChunks (hmain : s.mainThread = .idle) :
    Next s .updateChunks {s with mainThread := .draining}
  | drain (chunkData : ChunkData) (rest : List ChunkData) (hmain : s.mainThread = .draining)
      (hpackets : s.packets = chunkData :: rest) :
    Next s .drain { s with
      packets := rest
      world := s.world.createOrReplaceChunk chunkData.pos chunkData.blocktypes
      chunksToUpdate := addChunk s.chunksToUpdate chunkData.pos }
  | drained (hmain : s.mainThread = .draining) (hpackets : s.packets = []) :
    Next s .drained {s with mainThread := .enqueueing s.chunksToUpdate}
  | enqueue (pos : Ivec3) (rest : Finset Ivec3) (hmain : s.mainThread = .enqueueing rest)
      (hpos : pos ∈ rest) :
    Next s (.enqueue pos) {s with tp := s.tp.enqueue pos, mainThread := .enqueueing (rest.erase pos)}
  | enqueued (hmain : s.mainThread = .enqueueing ∅) :
    Next s .enqueued {s with chunksToUpdate := ∅, mainThread := .meshing}
  | createChunksMesh (hmain : s.mainThread = .meshing) :
    Next s .createChunksMesh { s with
      world := s.world.createChunksMesh s.chunksVerticesToMesh
      chunksVerticesToMesh := ∅
      mainThread := .idle }
  | take (w : Fin n) (task : Task Ivec3) (rest : List (Task Ivec3))
      (hw : s.tp.threads w = .waiting) (htasks : s.tp.tasks = task :: rest) :
    Next s (.acquire w) { s with
      tp := {s.tp.setThread w (.running task) with tasks := rest}
      neighborChunks := Function.update s.neighborChunks w none }
  | exit (w : Fin n) (hw : s.tp.threads w = .waiting) (htasks : s.tp.tasks = []) :
    Next s (.acquire w) { s with
      tp := s.tp.setThread w .exited
      neighborChunks := Function.update s.neighborChunks w none }
  | snapshot (w : Fin n) (task : Task Ivec3) (hw : s.tp.threads w = .running task)
      (hlocal : s.neighborChunks w = none) :
    Next s (.snapshot w) { s with
      neighborChunks := Function.update s.neighborChunks w
        (some (ChunkVertices.snapshot s.world.chunks task.body)) }
  | publish (w : Fin n) (task : Task Ivec3) (nchunks : Chunks) (vertices : List UInt32)
      (hw : s.tp.threads w = .running task) (hlocal : s.neighborChunks w = some nchunks)
      (hvertices : ChunkVertices.verticesOf nchunks task.body = .ok vertices) :
    Next s (.publish w) { s with
      tp := s.tp.setThread w .waiting
      chunksVerticesToMesh := s.chunksVerticesToMesh.insert task.body vertices }

variable {s s' : State n} {e : Event n}

theorem next_of_acquire {w : Fin n} (h : s.acquire w = some s') : Next s (.acquire w) s' := by
  obtain ⟨tp, htp, rfl⟩ := Option.map_eq_some_iff.mp h
  obtain ⟨hw, ⟨task, rest, htasks, rfl⟩ | ⟨htasks, _, rfl⟩⟩ := ThreadPool.acquire_cases htp
  · exact .take w task rest hw htasks
  · exact .exit w hw htasks

theorem next_of_publish {w : Fin n} (h : s.publish w = some s') : Next s (.publish w) s' := by
  unfold State.publish at h
  split at h
  · next task nchunks hw hlocal =>
    split at h
    · next vertices hvertices =>
      obtain ⟨tp, htp, rfl⟩ := Option.map_eq_some_iff.mp h
      obtain ⟨_, _, rfl⟩ := ThreadPool.finish_cases htp
      exact .publish w task nchunks vertices hw hlocal hvertices
    · cases h
  · cases h

/-- The step function does only what `Next` lists. -/
theorem next_of_step (h : step s e = some s') : Next s e s' := by
  cases e with
  | receive packet =>
    simp only [step, State.receive] at h
    split at h
    · cases h
    · next hmain => exact Lib.Runs.of_some h (.receive packet hmain)
  | toggle =>
    simp only [step, State.toggle] at h
    split at h
    · next hmain => exact Lib.Runs.of_some h (.toggle hmain)
    · cases h
  | updateChunks =>
    simp only [step, State.updateChunks] at h
    split at h
    · next hmain _ => exact Lib.Runs.of_some h (.updateChunks hmain)
    · cases h
  | drain =>
    simp only [step, State.drain] at h
    split at h
    · next chunkData rest hmain hpackets => exact Lib.Runs.of_some h (.drain chunkData rest hmain hpackets)
    · cases h
  | drained =>
    simp only [step, State.drained] at h
    split at h
    · next hmain hpackets => exact Lib.Runs.of_some h (.drained hmain hpackets)
    · cases h
  | enqueue pos =>
    simp only [step, State.enqueue] at h
    split at h
    · next rest hmain => exact Lib.Runs.of_guard h fun hpos => .enqueue pos rest hmain hpos
    · cases h
  | enqueued =>
    simp only [step, State.enqueued] at h
    split at h
    · next rest hmain =>
      refine Lib.Runs.of_guard h fun hrest => ?_
      subst hrest
      exact .enqueued hmain
    · cases h
  | createChunksMesh =>
    simp only [step, State.createChunksMesh] at h
    split at h
    · next hmain => exact Lib.Runs.of_some h (.createChunksMesh hmain)
    · cases h
  | acquire w => exact next_of_acquire h
  | snapshot w =>
    simp only [step, State.snapshot] at h
    split at h
    · next task hw hlocal => exact Lib.Runs.of_some h (.snapshot w task hw hlocal)
    · cases h
  | publish w => exact next_of_publish h

end MyMinecraft.Renderer
