import MyMinecraft.Renderer
import MyMinecraft.Lib.Locks
import MyMinecraft.Lib.Runs

/-! The chunk pipeline, lock call by lock call.

`Renderer.step` takes each critical section as one step. Here a section is what it is in
the source: a lock call that may have to wait, the reads and writes one after the other, and
an unlock, with the other threads running in between. A thread's position says which of
the three locks it has (`holds`), and in every reachable state the locks agree
(`Inv`). The pool's own mutex stays inside `ThreadPool`'s steps. -/
namespace MyMinecraft.Renderer.Threads
open Lib.Locks

inductive Lock where
  | dataMtx
  | chunkMtx
  | chunksVerticesToMeshMtx
  deriving DecidableEq

inductive Thread (n : Nat) where
  | client
  | main
  | worker (w : Fin n)
  deriving DecidableEq

/-- The client thread in `receiveChunk` or `receiveMonoTypeChunk`. -/
inductive ClientAt where
  | outside
  /-- It has `data_mtx`; before `push_back`. -/
  | locked (packet : ChunkPacket)
  /-- Before `unlock`. -/
  | pushed

inductive MainAt where
  /-- Outside: input, the settings window, rendering. -/
  | idle
  /-- In `updateEntities`, with `data_mtx` for one record. -/
  | entities
  /-- Before the test of the `while` loop of `updateChunks`, with `data_mtx`. -/
  | draining
  /-- Before `chunk_mtx.lock()`, this packet taken. -/
  | popped (chunkData : ChunkData)
  /-- Before the chunk is looked up and stored. -/
  | locked (chunkData : ChunkData)
  /-- The chunk was new; before its mesh is made. -/
  | inserted (pos : Ivec3)
  /-- Before `chunk_mtx.unlock()`. -/
  | stored (pos : Ivec3)
  /-- Before `addChunk`. -/
  | unlocked (pos : Ivec3)
  | enqueueing (rest : Finset Ivec3)
  /-- Before `createChunksMesh` locks. -/
  | meshing
  /-- In the loop over the lists, these still to come. -/
  | uploading (rest : List (Sigma fun _ : Ivec3 => List UInt32))
  /-- Before it unlocks, the map cleared. -/
  | cleared

inductive WorkerAt where
  /-- The task is taken; before `lock_shared`. -/
  | fresh
  /-- In the loop over the neighbours, these still to be found. -/
  | copying (rest : List Ivec3)
  /-- In the loops over the cells. -/
  | copied
  /-- Before the lock of the map of lists. -/
  | built (vertices : List UInt32)
  /-- Before the list is stored. -/
  | locked (vertices : List UInt32)
  /-- Before `unlock`. -/
  | stored
  /-- Before the task returns, and after. -/
  | unlocked

/-- Which locks are held at a position. -/
def ClientAt.holds : ClientAt → Lock → Mode
  | .locked _, .dataMtx | .pushed, .dataMtx => .exclusive
  | _, _ => .out

def MainAt.holds : MainAt → Lock → Mode
  | .entities, .dataMtx | .draining, .dataMtx | .popped _, .dataMtx | .locked _, .dataMtx
  | .inserted _, .dataMtx | .stored _, .dataMtx | .unlocked _, .dataMtx => .exclusive
  | .locked _, .chunkMtx | .inserted _, .chunkMtx | .stored _, .chunkMtx => .exclusive
  | .uploading _, .chunksVerticesToMeshMtx | .cleared, .chunksVerticesToMeshMtx => .exclusive
  | _, _ => .out

def WorkerAt.holds : WorkerAt → Lock → Mode
  | .copying _, .chunkMtx => .shared
  | .locked _, .chunksVerticesToMeshMtx | .stored, .chunksVerticesToMeshMtx => .exclusive
  | _, _ => .out

structure State (n : Nat) where
  packets : List ChunkData
  world : World
  updateChunk : Bool
  chunksToUpdate : Finset Ivec3
  tp : ThreadPool n Ivec3
  chunksVerticesToMesh : AList fun _ : Ivec3 => List UInt32
  client : ClientAt
  mainThread : MainAt
  worker : Fin n → WorkerAt
  neighborChunks : Fin n → Chunks
  locks : Lock → SharedMutex (Thread n)

variable {n : Nat}

def start : State n where
  packets := []
  world := World.empty
  updateChunk := true
  chunksToUpdate := ∅
  tp := ThreadPool.start
  chunksVerticesToMesh := ∅
  client := .outside
  mainThread := .idle
  worker := fun _ => .fresh
  neighborChunks := fun _ => ∅
  locks := fun _ => SharedMutex.free

inductive ClientEvent where
  | lock (packet : ChunkPacket)
  | pushBack
  | unlock

inductive MainEvent where
  | toggle
  /-- Rendering, the ray of a click and the settings window read the two maps of the world. -/
  | look
  | lockEntities
  | unlockEntities
  /-- `updateChunks` locks `data_mtx`. -/
  | updateChunks
  | popFront
  | lockChunk
  /-- The assignment, or the first of the two insertions. -/
  | storeChunk
  | storeMesh
  | unlockChunk
  | addChunk
  /-- The loop ends and `data_mtx` is unlocked. -/
  | drained
  | enqueue (pos : Ivec3)
  | enqueued
  /-- `createChunksMesh` locks the map. -/
  | lockMeshes
  /-- One turn of its loop. -/
  | upload
  | clear
  | unlockMeshes

inductive WorkerEvent where
  | acquire
  | lockShared
  /-- One turn of the loop over the neighbours. -/
  | find
  | unlockShared
  | build
  | lock
  | store
  | unlock
  | finish

inductive Event (n : Nat) where
  | client (e : ClientEvent)
  | main (e : MainEvent)
  | worker (w : Fin n) (e : WorkerEvent)

instance : Inhabited (Event n) := ⟨.main .look⟩

def Event.thread : Event n → Thread n
  | .client _ => .client
  | .main _ => .main
  | .worker w _ => .worker w

namespace State

def setLock (s : State n) (l : Lock) (m : SharedMutex (Thread n)) : State n :=
  {s with locks := Function.update s.locks l m}

def lock (s : State n) (t : Thread n) (l : Lock) : Option (State n) :=
  ((s.locks l).lock t).map (s.setLock l)

def unlock (s : State n) (l : Lock) : State n := s.setLock l (s.locks l).unlock

def lockShared (s : State n) (t : Thread n) (l : Lock) : Option (State n) :=
  ((s.locks l).lockShared t).map (s.setLock l)

def unlockShared (s : State n) (t : Thread n) (l : Lock) : State n :=
  s.setLock l ((s.locks l).unlockShared t)

def clientTo (s : State n) (p : ClientAt) : State n := {s with client := p}

def mainTo (s : State n) (p : MainAt) : State n := {s with mainThread := p}

def workerTo (s : State n) (w : Fin n) (p : WorkerAt) : State n :=
  {s with worker := Function.update s.worker w p}

def storeChunk (s : State n) (chunkData : ChunkData) : State n :=
  let chunk : Chunk := ⟨chunkData.blocktypes, chunkData.pos⟩
  let s' := {s with world.chunks := s.world.chunks.insert chunkData.pos chunk}
  match s.world.chunks.lookup chunkData.pos with
  | some _ => s'.mainTo (.stored chunkData.pos)
  | none => s'.mainTo (.inserted chunkData.pos)

def storeMesh (s : State n) (pos : Ivec3) : State n :=
  {s with world.chunkMeshes := s.world.chunkMeshes.insert pos ⟨pos, none⟩}

/-- One `find`, and the copy if there is such a chunk. -/
def find (s : State n) (w : Fin n) (pos : Ivec3) : State n :=
  { s with
    neighborChunks := Function.update s.neighborChunks w
      (Lib.Map.copyKeys s.world.chunks (s.neighborChunks w) [pos]) }

end State

def clientStep (s : State n) (e : ClientEvent) : Option (State n) :=
  match e, s.client with
  | .lock packet, .outside => (s.lock .client .dataMtx).map fun s => s.clientTo (.locked packet)
  | .pushBack, .locked packet => some ({s with packets := s.packets ++ [packet.data]}.clientTo .pushed)
  | .unlock, .pushed => some ((s.unlock .dataMtx).clientTo .outside)
  | _, _ => none

def mainStep (s : State n) (e : MainEvent) : Option (State n) :=
  match e, s.mainThread with
  | .toggle, .idle => some {s with updateChunk := !s.updateChunk}
  | .look, .idle => some s
  | .lockEntities, .idle => (s.lock .main .dataMtx).map fun s => s.mainTo .entities
  | .unlockEntities, .entities => some ((s.unlock .dataMtx).mainTo .idle)
  | .updateChunks, .idle =>
    if s.updateChunk then (s.lock .main .dataMtx).map fun s => s.mainTo .draining else none
  | .popFront, .draining =>
    match s.packets with
    | chunkData :: rest => some ({s with packets := rest}.mainTo (.popped chunkData))
    | [] => none
  | .lockChunk, .popped chunkData =>
    (s.lock .main .chunkMtx).map fun s => s.mainTo (.locked chunkData)
  | .storeChunk, .locked chunkData => some (s.storeChunk chunkData)
  | .storeMesh, .inserted pos => some ((s.storeMesh pos).mainTo (.stored pos))
  | .unlockChunk, .stored pos => some ((s.unlock .chunkMtx).mainTo (.unlocked pos))
  | .addChunk, .unlocked pos =>
    some ({s with chunksToUpdate := Renderer.addChunk s.chunksToUpdate pos}.mainTo .draining)
  | .drained, .draining =>
    match s.packets with
    | [] => some ((s.unlock .dataMtx).mainTo (.enqueueing s.chunksToUpdate))
    | _ :: _ => none
  | .enqueue pos, .enqueueing rest =>
    if pos ∈ rest then
      some ({s with tp := s.tp.enqueue pos}.mainTo (.enqueueing (rest.erase pos)))
    else none
  | .enqueued, .enqueueing rest =>
    if rest = ∅ then some ({s with chunksToUpdate := ∅}.mainTo .meshing) else none
  | .lockMeshes, .meshing =>
    (s.lock .main .chunksVerticesToMeshMtx).map fun s =>
      s.mainTo (.uploading s.chunksVerticesToMesh.entries)
  | .upload, .uploading (e :: rest) =>
    some ({s with world := s.world.uploadMesh e.1 e.2}.mainTo (.uploading rest))
  | .clear, .uploading [] => some ({s with chunksVerticesToMesh := ∅}.mainTo .cleared)
  | .unlockMeshes, .cleared => some ((s.unlock .chunksVerticesToMeshMtx).mainTo .idle)
  | _, _ => none

/-- Once it has a task, a worker goes through its positions. -/
def taskStep (s : State n) (w : Fin n) (task : Task Ivec3) (e : WorkerEvent) : Option (State n) :=
  match e, s.worker w with
  | .lockShared, .fresh =>
    (s.lockShared (.worker w) .chunkMtx).map fun s => s.workerTo w
      (.copying (ChunkVertices.neighborChunkpos.toList.map fun off => task.body + off * (16 : Int)))
  | .find, .copying (pos :: rest) => some ((s.find w pos).workerTo w (.copying rest))
  | .unlockShared, .copying [] => some ((s.unlockShared (.worker w) .chunkMtx).workerTo w .copied)
  | .build, .copied =>
    match ChunkVertices.verticesOf (s.neighborChunks w) task.body with
    | .ok vertices => some (s.workerTo w (.built vertices))
    | .error _ => none
  | .lock, .built vertices =>
    (s.lock (.worker w) .chunksVerticesToMeshMtx).map fun s => s.workerTo w (.locked vertices)
  | .store, .locked vertices =>
    some ({s with chunksVerticesToMesh := s.chunksVerticesToMesh.insert task.body vertices}.workerTo w
      .stored)
  | .unlock, .stored => some ((s.unlock .chunksVerticesToMeshMtx).workerTo w .unlocked)
  | .finish, .unlocked => (s.tp.finish w).map fun tp => {s with tp}
  | _, _ => none

def workerStep (s : State n) (w : Fin n) (e : WorkerEvent) : Option (State n) :=
  match e with
  | .acquire =>
    (s.tp.acquire w).map fun tp =>
      {s with tp, neighborChunks := Function.update s.neighborChunks w ∅}.workerTo w .fresh
  | e =>
    match s.tp.threads w with
    | .running task => taskStep s w task e
    | _ => none

def step (s : State n) : Event n → Option (State n)
  | .client e => clientStep s e
  | .main e => mainStep s e
  | .worker w e => workerStep s w e

/-! ### The steps, read backwards -/

/-- What a step changes, and what it found. -/
inductive Next (s : State n) : Event n → State n → Prop where
  | push (packet : ChunkPacket) (m : SharedMutex (Thread n)) (hclient : s.client = .outside)
      (hm : (s.locks .dataMtx).lock .client = some m) :
    Next s (.client (.lock packet)) ((s.setLock .dataMtx m).clientTo (.locked packet))
  | pushBack (packet : ChunkPacket) (hclient : s.client = .locked packet) :
    Next s (.client .pushBack) ({s with packets := s.packets ++ [packet.data]}.clientTo .pushed)
  | pushed (hclient : s.client = .pushed) :
    Next s (.client .unlock) ((s.unlock .dataMtx).clientTo .outside)
  | toggle (hmain : s.mainThread = .idle) :
    Next s (.main .toggle) {s with updateChunk := !s.updateChunk}
  | look (hmain : s.mainThread = .idle) : Next s (.main .look) s
  | lockEntities (m : SharedMutex (Thread n)) (hmain : s.mainThread = .idle)
      (hm : (s.locks .dataMtx).lock .main = some m) :
    Next s (.main .lockEntities) ((s.setLock .dataMtx m).mainTo .entities)
  | unlockEntities (hmain : s.mainThread = .entities) :
    Next s (.main .unlockEntities) ((s.unlock .dataMtx).mainTo .idle)
  | updateChunks (m : SharedMutex (Thread n)) (hmain : s.mainThread = .idle)
      (hon : s.updateChunk = true) (hm : (s.locks .dataMtx).lock .main = some m) :
    Next s (.main .updateChunks) ((s.setLock .dataMtx m).mainTo .draining)
  | popFront (chunkData : ChunkData) (rest : List ChunkData) (hmain : s.mainThread = .draining)
      (hpackets : s.packets = chunkData :: rest) :
    Next s (.main .popFront) ({s with packets := rest}.mainTo (.popped chunkData))
  | lockChunk (chunkData : ChunkData) (m : SharedMutex (Thread n))
      (hmain : s.mainThread = .popped chunkData) (hm : (s.locks .chunkMtx).lock .main = some m) :
    Next s (.main .lockChunk) ((s.setLock .chunkMtx m).mainTo (.locked chunkData))
  | storeChunk (chunkData : ChunkData) (hmain : s.mainThread = .locked chunkData) :
    Next s (.main .storeChunk) (s.storeChunk chunkData)
  | storeMesh (pos : Ivec3) (hmain : s.mainThread = .inserted pos) :
    Next s (.main .storeMesh) ((s.storeMesh pos).mainTo (.stored pos))
  | unlockChunk (pos : Ivec3) (hmain : s.mainThread = .stored pos) :
    Next s (.main .unlockChunk) ((s.unlock .chunkMtx).mainTo (.unlocked pos))
  | addChunk (pos : Ivec3) (hmain : s.mainThread = .unlocked pos) :
    Next s (.main .addChunk)
      ({s with chunksToUpdate := Renderer.addChunk s.chunksToUpdate pos}.mainTo .draining)
  | drained (hmain : s.mainThread = .draining) (hpackets : s.packets = []) :
    Next s (.main .drained) ((s.unlock .dataMtx).mainTo (.enqueueing s.chunksToUpdate))
  | enqueue (pos : Ivec3) (rest : Finset Ivec3) (hmain : s.mainThread = .enqueueing rest)
      (hpos : pos ∈ rest) :
    Next s (.main (.enqueue pos))
      ({s with tp := s.tp.enqueue pos}.mainTo (.enqueueing (rest.erase pos)))
  | enqueued (hmain : s.mainThread = .enqueueing ∅) :
    Next s (.main .enqueued) ({s with chunksToUpdate := ∅}.mainTo .meshing)
  | lockMeshes (m : SharedMutex (Thread n)) (hmain : s.mainThread = .meshing)
      (hm : (s.locks .chunksVerticesToMeshMtx).lock .main = some m) :
    Next s (.main .lockMeshes) ((s.setLock .chunksVerticesToMeshMtx m).mainTo
      (.uploading s.chunksVerticesToMesh.entries))
  | upload (e : Sigma fun _ : Ivec3 => List UInt32) (rest : List (Sigma fun _ : Ivec3 => List UInt32))
      (hmain : s.mainThread = .uploading (e :: rest)) :
    Next s (.main .upload) ({s with world := s.world.uploadMesh e.1 e.2}.mainTo (.uploading rest))
  | clear (hmain : s.mainThread = .uploading []) :
    Next s (.main .clear) ({s with chunksVerticesToMesh := ∅}.mainTo .cleared)
  | unlockMeshes (hmain : s.mainThread = .cleared) :
    Next s (.main .unlockMeshes) ((s.unlock .chunksVerticesToMeshMtx).mainTo .idle)
  | take (w : Fin n) (task : Task Ivec3) (rest : List (Task Ivec3))
      (hw : s.tp.threads w = .waiting) (htasks : s.tp.tasks = task :: rest) :
    Next s (.worker w .acquire) ({ s with
      tp := {s.tp.setThread w (.running task) with tasks := rest}
      neighborChunks := Function.update s.neighborChunks w ∅ }.workerTo w .fresh)
  | exit (w : Fin n) (hw : s.tp.threads w = .waiting) (htasks : s.tp.tasks = [])
      (hstop : s.tp.stop = true) :
    Next s (.worker w .acquire) ({ s with
      tp := s.tp.setThread w .exited
      neighborChunks := Function.update s.neighborChunks w ∅ }.workerTo w .fresh)
  | lockShared (w : Fin n) (task : Task Ivec3) (m : SharedMutex (Thread n))
      (hw : s.tp.threads w = .running task) (hworker : s.worker w = .fresh)
      (hm : (s.locks .chunkMtx).lockShared (.worker w) = some m) :
    Next s (.worker w .lockShared) ((s.setLock .chunkMtx m).workerTo w
      (.copying (ChunkVertices.neighborChunkpos.toList.map fun off => task.body + off * (16 : Int))))
  | find (w : Fin n) (task : Task Ivec3) (pos : Ivec3) (rest : List Ivec3)
      (hw : s.tp.threads w = .running task) (hworker : s.worker w = .copying (pos :: rest)) :
    Next s (.worker w .find) ((s.find w pos).workerTo w (.copying rest))
  | unlockShared (w : Fin n) (task : Task Ivec3) (hw : s.tp.threads w = .running task)
      (hworker : s.worker w = .copying []) :
    Next s (.worker w .unlockShared) ((s.unlockShared (.worker w) .chunkMtx).workerTo w .copied)
  | build (w : Fin n) (task : Task Ivec3) (vertices : List UInt32)
      (hw : s.tp.threads w = .running task) (hworker : s.worker w = .copied)
      (hvertices : ChunkVertices.verticesOf (s.neighborChunks w) task.body = .ok vertices) :
    Next s (.worker w .build) (s.workerTo w (.built vertices))
  | lock (w : Fin n) (task : Task Ivec3) (vertices : List UInt32) (m : SharedMutex (Thread n))
      (hw : s.tp.threads w = .running task) (hworker : s.worker w = .built vertices)
      (hm : (s.locks .chunksVerticesToMeshMtx).lock (.worker w) = some m) :
    Next s (.worker w .lock) ((s.setLock .chunksVerticesToMeshMtx m).workerTo w (.locked vertices))
  | store (w : Fin n) (task : Task Ivec3) (vertices : List UInt32)
      (hw : s.tp.threads w = .running task) (hworker : s.worker w = .locked vertices) :
    Next s (.worker w .store) ({ s with
      chunksVerticesToMesh := s.chunksVerticesToMesh.insert task.body vertices }.workerTo w .stored)
  | unlock (w : Fin n) (task : Task Ivec3) (hw : s.tp.threads w = .running task)
      (hworker : s.worker w = .stored) :
    Next s (.worker w .unlock) ((s.unlock .chunksVerticesToMeshMtx).workerTo w .unlocked)
  | finish (w : Fin n) (task : Task Ivec3) (hw : s.tp.threads w = .running task)
      (hworker : s.worker w = .unlocked) :
    Next s (.worker w .finish) {s with tp := s.tp.setThread w .waiting}

variable {s s₁ s' : State n} {e : Event n} {t : Thread n} {l : Lock}

/-- What follows a lock call, where it returned. -/
theorem of_lock {P : State n → Prop} {f : State n → State n} (h : (s.lock t l).map f = some s')
    (hf : ∀ m, (s.locks l).lock t = some m → P (f (s.setLock l m))) : P s' := by
  obtain ⟨s₁, hs₁, rfl⟩ := Option.map_eq_some_iff.mp h
  obtain ⟨m, hm, rfl⟩ := Option.map_eq_some_iff.mp hs₁
  exact hf m hm

theorem of_lockShared {P : State n → Prop} {f : State n → State n} (h : (s.lockShared t l).map f = some s')
    (hf : ∀ m, (s.locks l).lockShared t = some m → P (f (s.setLock l m))) : P s' := by
  obtain ⟨s₁, hs₁, rfl⟩ := Option.map_eq_some_iff.mp h
  obtain ⟨m, hm, rfl⟩ := Option.map_eq_some_iff.mp hs₁
  exact hf m hm

theorem next_of_clientStep {c : ClientEvent} (h : clientStep s c = some s') : Next s (.client c) s' := by
  unfold clientStep at h
  split at h
  · next packet hclient => exact of_lock h fun m hm => .push packet m hclient hm
  · next packet hclient => exact Lib.Runs.of_some h (.pushBack packet hclient)
  · next hclient => exact Lib.Runs.of_some h (.pushed hclient)
  · cases h

theorem next_of_mainStep {m : MainEvent} (h : mainStep s m = some s') : Next s (.main m) s' := by
  unfold mainStep at h
  split at h
  · next hmain => exact Lib.Runs.of_some h (.toggle hmain)
  · next hmain => exact Lib.Runs.of_some h (.look hmain)
  · next hmain => exact of_lock h fun m hm => .lockEntities m hmain hm
  · next hmain => exact Lib.Runs.of_some h (.unlockEntities hmain)
  · next hmain =>
    split at h
    · next hon => exact of_lock h fun m hm => .updateChunks m hmain hon hm
    · cases h
  · next hmain =>
    split at h
    · next chunkData rest hpackets => exact Lib.Runs.of_some h (.popFront chunkData rest hmain hpackets)
    · cases h
  · next chunkData hmain => exact of_lock h fun m hm => .lockChunk chunkData m hmain hm
  · next chunkData hmain => exact Lib.Runs.of_some h (.storeChunk chunkData hmain)
  · next pos hmain => exact Lib.Runs.of_some h (.storeMesh pos hmain)
  · next pos hmain => exact Lib.Runs.of_some h (.unlockChunk pos hmain)
  · next pos hmain => exact Lib.Runs.of_some h (.addChunk pos hmain)
  · next hmain =>
    split at h
    · next hpackets => exact Lib.Runs.of_some h (.drained hmain hpackets)
    · cases h
  · next pos rest hmain => exact Lib.Runs.of_guard h fun hpos => .enqueue pos rest hmain hpos
  · next rest hmain =>
    refine Lib.Runs.of_guard h fun hrest => ?_
    subst hrest
    exact .enqueued hmain
  · next hmain => exact of_lock h fun m hm => .lockMeshes m hmain hm
  · next e rest hmain => exact Lib.Runs.of_some h (.upload e rest hmain)
  · next hmain => exact Lib.Runs.of_some h (.clear hmain)
  · next hmain => exact Lib.Runs.of_some h (.unlockMeshes hmain)
  · cases h

theorem next_of_taskStep {w : Fin n} {task : Task Ivec3} {k : WorkerEvent}
    (hw : s.tp.threads w = .running task) (h : taskStep s w task k = some s') :
    Next s (.worker w k) s' := by
  unfold taskStep at h
  split at h
  · next hworker => exact of_lockShared h fun m hm => .lockShared w task m hw hworker hm
  · next pos rest hworker => exact Lib.Runs.of_some h (.find w task pos rest hw hworker)
  · next hworker => exact Lib.Runs.of_some h (.unlockShared w task hw hworker)
  · next hworker =>
    split at h
    · next vertices hvertices => exact Lib.Runs.of_some h (.build w task vertices hw hworker hvertices)
    · cases h
  · next vertices hworker => exact of_lock h fun m hm => .lock w task vertices m hw hworker hm
  · next vertices hworker => exact Lib.Runs.of_some h (.store w task vertices hw hworker)
  · next hworker => exact Lib.Runs.of_some h (.unlock w task hw hworker)
  · next hworker =>
    obtain ⟨tp, htp, rfl⟩ := Option.map_eq_some_iff.mp h
    obtain ⟨_, _, rfl⟩ := ThreadPool.finish_cases htp
    exact .finish w task hw hworker
  · cases h

theorem next_of_workerStep {w : Fin n} {k : WorkerEvent} (h : workerStep s w k = some s') :
    Next s (.worker w k) s' := by
  unfold workerStep at h
  split at h
  · obtain ⟨tp, htp, rfl⟩ := Option.map_eq_some_iff.mp h
    obtain ⟨hw, ⟨task, rest, htasks, rfl⟩ | ⟨htasks, hstop, rfl⟩⟩ := ThreadPool.acquire_cases htp
    · exact .take w task rest hw htasks
    · exact .exit w hw htasks hstop
  · split at h
    · next task hw => exact next_of_taskStep hw h
    · cases h

/-- The step function does only what `Next` lists. -/
theorem next_of_step (h : step s e = some s') : Next s e s' := by
  cases e with
  | client c => exact next_of_clientStep h
  | main m => exact next_of_mainStep h
  | worker w k => exact next_of_workerStep h

/-- `Next` lists only what the step function does. -/
theorem step_of_next (h : Next s e s') : step s e = some s' := by
  cases h with
  | push packet m hclient hm => simp only [step, clientStep, hclient, State.lock, hm, Option.map_some]
  | pushBack packet hclient => simp only [step, clientStep, hclient]
  | pushed hclient => simp only [step, clientStep, hclient]
  | lockEntities m hmain hm | lockChunk chunkData m hmain hm =>
    simp only [step, mainStep, hmain, State.lock, hm, Option.map_some]
  | lockMeshes m hmain hm =>
    simp only [step, mainStep, hmain, State.lock, hm, Option.map_some]
    rfl
  | updateChunks m hmain hon hm =>
    simp only [step, mainStep, hmain, hon, if_true, State.lock, hm, Option.map_some]
  | popFront chunkData rest hmain hpackets => simp only [step, mainStep, hmain, hpackets]
  | drained hmain hpackets => simp only [step, mainStep, hmain, hpackets]
  | enqueue pos rest hmain hpos => simp only [step, mainStep, hmain, hpos, if_true]
  | toggle hmain | look hmain | unlockEntities hmain | storeChunk chunkData hmain | storeMesh pos hmain
  | unlockChunk pos hmain | addChunk pos hmain | enqueued hmain | upload e rest hmain | clear hmain
  | unlockMeshes hmain => simp only [step, mainStep, hmain, if_true]
  | take w task rest hw htasks =>
    simp only [step, workerStep, ThreadPool.acquire, hw, htasks, Option.map_some]
  | exit w hw htasks hstop =>
    simp only [step, workerStep, ThreadPool.acquire, hw, htasks, hstop, Option.map_some]
  | lockShared w task m hw hworker hm =>
    simp only [step, workerStep, taskStep, hw, hworker, State.lockShared, hm, Option.map_some]
  | lock w task vertices m hw hworker hm =>
    simp only [step, workerStep, taskStep, hw, hworker, State.lock, hm, Option.map_some]
  | build w task vertices hw hworker hvertices =>
    simp only [step, workerStep, taskStep, hw, hworker, hvertices]
  | find w task pos rest hw hworker => simp only [step, workerStep, taskStep, hw, hworker]
  | unlockShared w task hw hworker | store w task vertices hw hworker | unlock w task hw hworker =>
    simp only [step, workerStep, taskStep, hw, hworker]
  | finish w task hw hworker =>
    simp only [step, workerStep, taskStep, hw, hworker, ThreadPool.finish, Option.map_some]

/-! ### The locks are held as the positions say -/

def State.holds (s : State n) : Thread n → Lock → Mode
  | .client => s.client.holds
  | .main => s.mainThread.holds
  | .worker w => (s.worker w).holds

/-- A worker outside its task is before its first lock call or after its last, its copies start
empty, and the list it goes on with is the one of its copies. -/
structure WorkerInv (thread : Worker Ivec3) (p : WorkerAt) (nchunks : Chunks) : Prop where
  stays : thread ≠ .exited
  outside : (∀ task, thread ≠ .running task) → p = .fresh ∨ p = .unlocked
  fresh : p = .fresh → nchunks = ∅
  built : ∀ vertices, p = .built vertices ∨ p = .locked vertices →
    ∃ task, thread = .running task ∧ ChunkVertices.verticesOf nchunks task.body = .ok vertices

/-- What every run keeps. -/
structure Inv (s : State n) : Prop where
  locks : Agree s.locks s.holds
  worker : ∀ w, WorkerInv (s.tp.threads w) (s.worker w) (s.neighborChunks w)
  /-- Nobody stops the pool while frames are drawn. -/
  running : s.tp.stop = false

theorem workerInv_fresh {thread : Worker Ivec3} (h : thread ≠ .exited) : WorkerInv thread .fresh ∅ where
  stays := h
  outside := fun _ => .inl rfl
  fresh := fun _ => rfl
  built := by
    intro vertices h
    rcases h with h | h <;> cases h

theorem inv_start : Inv (start : State n) where
  locks := by
    intro l t
    cases t <;> cases l <;> rfl
  worker := fun _ => workerInv_fresh nofun
  running := rfl

theorem holds_clientTo (s : State n) (p : ClientAt) :
    (s.clientTo p).holds = Function.update s.holds .client p.holds := by
  funext t
  cases t <;> rfl

theorem holds_mainTo (s : State n) (p : MainAt) :
    (s.mainTo p).holds = Function.update s.holds .main p.holds := by
  funext t
  cases t <;> rfl

theorem holds_workerTo (s : State n) (w : Fin n) (p : WorkerAt) :
    (s.workerTo w p).holds = Function.update s.holds (.worker w) p.holds := by
  funext t
  cases t with
  | client => rfl
  | main => rfl
  | worker v =>
    by_cases hv : v = w
    · subst hv
      simp only [State.holds, State.workerTo, Function.update_self]
    · rw [Function.update_of_ne (by simpa using hv)]
      simp only [State.holds, State.workerTo, Function.update_of_ne hv]

section Moves
variable {m : SharedMutex (Thread n)} {w : Fin n} (h : Agree s.locks s.holds)
include h

theorem agree_client {p : ClientAt} (mode : Mode)
    (hm : m.mode = Function.update (s.locks l).mode .client mode)
    (hp : p.holds = Function.update s.client.holds l mode) :
    Agree ((s.setLock l m).clientTo p).locks ((s.setLock l m).clientTo p).holds :=
  h.move mode hm (by rw [holds_clientTo, hp]; rfl)

theorem agree_main {p : MainAt} (mode : Mode)
    (hm : m.mode = Function.update (s.locks l).mode .main mode)
    (hp : p.holds = Function.update s.mainThread.holds l mode) :
    Agree ((s.setLock l m).mainTo p).locks ((s.setLock l m).mainTo p).holds :=
  h.move mode hm (by rw [holds_mainTo, hp]; rfl)

theorem agree_worker {p : WorkerAt} (mode : Mode)
    (hm : m.mode = Function.update (s.locks l).mode (.worker w) mode)
    (hp : p.holds = Function.update (s.worker w).holds l mode) :
    Agree ((s.setLock l m).workerTo w p).locks ((s.setLock l m).workerTo w p).holds :=
  h.move mode hm (by rw [holds_workerTo, hp]; rfl)

/-- A step that takes no lock and gives none back. -/
theorem agree_main_quiet {p : MainAt} (hp : p.holds = s.mainThread.holds) :
    Agree (s.mainTo p).locks (s.mainTo p).holds := by
  rw [holds_mainTo, hp]
  exact (Function.update_eq_self Thread.main s.holds).symm ▸ h

theorem agree_worker_quiet {p : WorkerAt} (hp : p.holds = (s.worker w).holds) :
    Agree (s.workerTo w p).locks (s.workerTo w p).holds := by
  rw [holds_workerTo, hp]
  exact (Function.update_eq_self (Thread.worker w) s.holds).symm ▸ h

end Moves

theorem agree_step (hi : Inv s) (h : Next s e s') : Agree s'.locks s'.holds := by
  have hl := hi.locks
  cases h with
  | push packet m hclient hm =>
    exact agree_client hl .exclusive (SharedMutex.lock_mode hm).2 (by rw [hclient]; funext k; cases k <;> rfl)
  | pushBack packet hclient =>
    have hholds : ({s with packets := s.packets ++ [packet.data]}.clientTo .pushed).holds = s.holds := by
      funext t k
      cases t <;> first | rfl | (simp only [State.holds, hclient]; cases k <;> rfl)
    rw [hholds]
    exact hl
  | pushed hclient =>
    refine agree_client hl .out (SharedMutex.unlock_mode ?_) (by rw [hclient]; funext k; cases k <;> rfl)
    rw [hl, State.holds, hclient]
    rfl
  | toggle hmain => exact hl
  | look hmain => exact hl
  | lockEntities m hmain hm | updateChunks m hmain hon hm | lockChunk chunkData m hmain hm
  | lockMeshes m hmain hm =>
    exact agree_main hl .exclusive (SharedMutex.lock_mode hm).2 (by rw [hmain]; funext k; cases k <;> rfl)
  | unlockEntities hmain | drained hmain hpackets | unlockChunk pos hmain | unlockMeshes hmain =>
    refine agree_main hl .out (SharedMutex.unlock_mode ?_) (by rw [hmain]; funext k; cases k <;> rfl)
    rw [hl, State.holds, hmain]
    rfl
  | popFront chunkData rest hmain hpackets | addChunk pos hmain | enqueue pos rest hmain hpos
  | enqueued hmain | upload e rest hmain | clear hmain | storeMesh pos hmain =>
    exact agree_main_quiet hl (by show _ = s.mainThread.holds; rw [hmain]; funext k; cases k <;> rfl)
  | storeChunk chunkData hmain =>
    unfold State.storeChunk
    split
    · exact agree_main_quiet hl (by show _ = s.mainThread.holds; rw [hmain]; funext k; cases k <;> rfl)
    · exact agree_main_quiet hl (by show _ = s.mainThread.holds; rw [hmain]; funext k; cases k <;> rfl)
  | take w task rest hw htasks | exit w hw htasks hstop =>
    refine agree_worker_quiet hl ?_
    show _ = (s.worker w).holds
    rcases (hi.worker w).outside (by simp [hw]) with hp | hp
    · rw [hp]
    · rw [hp]
      funext k
      cases k <;> rfl
  | lockShared w task m hw hworker hm =>
    exact agree_worker hl .shared (SharedMutex.lockShared_mode hm).2
      (by rw [hworker]; funext k; cases k <;> rfl)
  | unlockShared w task hw hworker =>
    refine agree_worker hl .out (SharedMutex.unlockShared_mode ?_)
      (by rw [hworker]; funext k; cases k <;> rfl)
    rw [hl, State.holds, hworker]
    rfl
  | lock w task vertices m hw hworker hm =>
    exact agree_worker hl .exclusive (SharedMutex.lock_mode hm).2
      (by rw [hworker]; funext k; cases k <;> rfl)
  | unlock w task hw hworker =>
    refine agree_worker hl .out (SharedMutex.unlock_mode ?_)
      (by rw [hworker]; funext k; cases k <;> rfl)
    rw [hl, State.holds, hworker]
    rfl
  | find w task pos rest hw hworker | build w task vertices hw hworker hvertices
  | store w task vertices hw hworker =>
    exact agree_worker_quiet hl (by show _ = (s.worker w).holds; rw [hworker]; funext k; cases k <;> rfl)
  | finish w task hw hworker => exact hl

/-- The invariant of the workers, when one of them moves. -/
theorem workers_move (hi : Inv s) (w : Fin n) {thread : Worker Ivec3} {p : WorkerAt} {nchunks : Chunks}
    (h : WorkerInv thread p nchunks) (v : Fin n) :
    WorkerInv (Function.update s.tp.threads w thread v) (Function.update s.worker w p v)
      (Function.update s.neighborChunks w nchunks v) := by
  by_cases hv : v = w
  · subst hv
    simp only [Function.update_self]
    exact h
  · simp only [Function.update_of_ne hv]
    exact hi.worker v

/-- A step inside the task. -/
theorem workers_inside (hi : Inv s) {w : Fin n} {task : Task Ivec3} (hw : s.tp.threads w = .running task)
    {p : WorkerAt} (hfresh : p ≠ .fresh) (hp : ∀ vertices, p = .built vertices ∨ p = .locked vertices →
      ChunkVertices.verticesOf (s.neighborChunks w) task.body = .ok vertices) (v : Fin n) :
    WorkerInv (s.tp.threads v) (Function.update s.worker w p v) (s.neighborChunks v) := by
  have hworker : WorkerInv (s.tp.threads w) p (s.neighborChunks w) :=
    ⟨by rw [hw]; nofun, fun hout => absurd hw (hout task), fun hp => absurd hp hfresh, fun vertices hv => ⟨task, hw, hp vertices hv⟩⟩
  have hmove := workers_move hi w hworker v
  rwa [Function.update_eq_self, Function.update_eq_self] at hmove

theorem workers_step (hi : Inv s) (h : Next s e s') (v : Fin n) :
    WorkerInv (s'.tp.threads v) (s'.worker v) (s'.neighborChunks v) := by
  cases h with
  | push | pushBack | pushed | toggle | look | lockEntities | unlockEntities | updateChunks | popFront
  | lockChunk | storeMesh | unlockChunk | addChunk | drained | enqueue | enqueued | lockMeshes | upload
  | clear | unlockMeshes => exact hi.worker v
  | storeChunk chunkData hmain =>
    unfold State.storeChunk
    split <;> exact hi.worker v
  | take w task rest hw htasks => exact workers_move hi w (workerInv_fresh (by simp)) v
  | exit w hw htasks hstop => cases hstop.symm.trans hi.running
  | lockShared w task m hw hworker hm =>
    exact workers_inside hi hw (by simp) (fun vertices h => by rcases h with h | h <;> cases h) v
  | find w task pos rest hw hworker =>
    have hcopying : WorkerInv (s.tp.threads w) (.copying rest)
        (Lib.Map.copyKeys s.world.chunks (s.neighborChunks w) [pos]) :=
      ⟨by rw [hw]; nofun, fun hout => absurd hw (hout task), nofun, fun vertices h => by rcases h with h | h <;> cases h⟩
    have hmove := workers_move hi w hcopying v
    rwa [Function.update_eq_self] at hmove
  | unlockShared w task hw hworker =>
    exact workers_inside hi hw (by simp) (fun vertices h => by rcases h with h | h <;> cases h) v
  | build w task vertices hw hworker hvertices =>
    refine workers_inside hi hw (by simp) (fun vertices' h => ?_) v
    rcases h with h | h
    · rw [← WorkerAt.built.inj h]
      exact hvertices
    · cases h
  | lock w task vertices m hw hworker hm =>
    obtain ⟨task', htask', hvertices⟩ := (hi.worker w).built vertices (.inl hworker)
    obtain rfl := Worker.running.inj (hw.symm.trans htask')
    refine workers_inside hi hw (by simp) (fun vertices' h => ?_) v
    rcases h with h | h
    · cases h
    · rw [← WorkerAt.locked.inj h]
      exact hvertices
  | store w task vertices hw hworker =>
    exact workers_inside hi hw (by simp) (fun vertices h => by rcases h with h | h <;> cases h) v
  | unlock w task hw hworker =>
    exact workers_inside hi hw (by simp) (fun vertices h => by rcases h with h | h <;> cases h) v
  | finish w task hw hworker =>
    have hover : WorkerInv .waiting (s.worker w) (s.neighborChunks w) := by
      rw [hworker]
      exact ⟨nofun, fun _ => .inr rfl, nofun, fun vertices h => by rcases h with h | h <;> cases h⟩
    have hmove := workers_move hi w hover v
    rwa [Function.update_eq_self, Function.update_eq_self] at hmove

theorem inv_step (hi : Inv s) (h : Next s e s') : Inv s' where
  locks := agree_step hi h
  worker := workers_step hi h
  running := by
    cases h with
    | storeChunk chunkData hmain =>
      unfold State.storeChunk
      split <;> exact hi.running
    | _ => exact hi.running

theorem inv_run {es : List (Event n)} (hrun : Lib.Runs.run step start es = some s) : Inv s :=
  Lib.Runs.run_invariant Inv (fun _ _ _ hi hs => inv_step hi (next_of_step hs)) inv_start hrun

end MyMinecraft.Renderer.Threads
