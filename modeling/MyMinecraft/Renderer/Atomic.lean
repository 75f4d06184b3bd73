import MyMinecraft.Renderer.Threads

/-! The critical sections are atomic.

`complete` is the state with every section that a thread is in run to its end, and so a
state of `Renderer`. A section counts as run from the step that takes its lock,
except that a worker's list is there once it is stored and `addChunk` comes with the write of its chunk;
every other step changes nothing in `complete`. What makes this true is that nobody
else sees what a section leaves half done, which is what the locks are for
(`Inv`). So each run of the threads, its lock calls left out, is a run of
`Renderer` (`sections_refine`), and what is proved there of every run holds of the threads. -/
namespace MyMinecraft.Renderer.Threads
open Lib.Locks

/-- The step of `Renderer` that a step stands for. -/
def Event.atomic {n : Nat} : Event n → Option (Renderer.Event n)
  | .client (.lock packet) => some (.receive packet)
  | .main .toggle => some .toggle
  | .main .updateChunks => some .updateChunks
  | .main .lockChunk => some .drain
  | .main .drained => some .drained
  | .main (.enqueue pos) => some (.enqueue pos)
  | .main .enqueued => some .enqueued
  | .main .lockMeshes => some .createChunksMesh
  | .worker w .acquire => some (.acquire w)
  | .worker w .lockShared => some (.snapshot w)
  | .worker w .store => some (.publish w)
  | _ => none

/-! ### Sections run to their end -/

/-- What the client pushes before it unlocks. -/
def ClientAt.pushes : ClientAt → List ChunkData
  | .locked packet => [packet.data]
  | .outside | .pushed => []

namespace MainAt

/-- The packet taken and not yet stored. -/
def taken : MainAt → List ChunkData
  | .popped chunkData => [chunkData]
  | _ => []

def finishWorld : MainAt → World → World
  | .locked chunkData, w => w.createOrReplaceChunk chunkData.pos chunkData.blocktypes
  | .inserted pos, w => {w with chunkMeshes := w.chunkMeshes.insert pos ⟨pos, none⟩}
  | .uploading rest, w => rest.foldl (fun w e => w.uploadMesh e.1 e.2) w
  | _, w => w

def finishMarks : MainAt → Finset Ivec3 → Finset Ivec3
  | .locked chunkData, s => Renderer.addChunk s chunkData.pos
  | .inserted pos, s | .stored pos, s | .unlocked pos, s => Renderer.addChunk s pos
  | _, s => s

def finishLists : MainAt → (AList fun _ : Ivec3 => List UInt32) → AList fun _ : Ivec3 => List UInt32
  | .uploading _, _ => ∅
  | _, lists => lists

def complete : MainAt → MainThread
  | .idle | .entities | .uploading _ | .cleared => .idle
  | .draining | .popped _ | .locked _ | .inserted _ | .stored _ | .unlocked _ => .draining
  | .enqueueing rest => .enqueueing rest
  | .meshing => .meshing

end MainAt

/-- Once the list is stored the task is over. -/
def WorkerAt.complete : WorkerAt → Worker Ivec3 → Worker Ivec3
  | .stored, _ | .unlocked, _ => .waiting
  | _, thread => thread

/-- The copies with those still to come. -/
def WorkerAt.copies (chunks nchunks : Chunks) : WorkerAt → Option Chunks
  | .fresh => none
  | .copying rest => some (Lib.Map.copyKeys chunks nchunks rest)
  | _ => some nchunks

variable {n : Nat}

def State.complete (s : State n) : Renderer.State n where
  packets := s.mainThread.taken ++ s.packets ++ s.client.pushes
  world := s.mainThread.finishWorld s.world
  updateChunk := s.updateChunk
  mainThread := s.mainThread.complete
  chunksToUpdate := s.mainThread.finishMarks s.chunksToUpdate
  tp := {s.tp with threads := fun w => (s.worker w).complete (s.tp.threads w)}
  neighborChunks := fun w => (s.worker w).copies s.world.chunks (s.neighborChunks w)
  chunksVerticesToMesh := s.mainThread.finishLists s.chunksVerticesToMesh

variable {s s' : State n} {e : Event n}

/-- While the main thread writes to the chunks nobody copies them. -/
theorem not_copying (hi : Inv s) (hmain : s.mainThread.holds .chunkMtx = .exclusive) (w : Fin n)
    (rest : List Ivec3) : s.worker w ≠ .copying rest := by
  intro hw
  have hown : s.holds .main .chunkMtx = .exclusive := hmain
  have hshared : s.holds (.worker w) .chunkMtx = .shared := by
    rw [State.holds, hw]
    rfl
  cases hi.locks.exclusive hown (by rw [hshared]; decide)

theorem copies_of_not_copying {p : WorkerAt} (h : ∀ rest, p ≠ .copying rest) (chunks chunks' nchunks : Chunks) :
    p.copies chunks nchunks = p.copies chunks' nchunks := by
  cases p with
  | copying rest => exact absurd rfl (h rest)
  | _ => rfl

/-- The first write of a chunk is inside its section. -/
theorem complete_storeChunk (hi : Inv s) {chunkData : ChunkData} (hmain : s.mainThread = .locked chunkData) :
    (s.storeChunk chunkData).complete = s.complete := by
  have hcopies (chunks : Chunks) : (fun w => (s.worker w).copies chunks (s.neighborChunks w)) =
      fun w => (s.worker w).copies s.world.chunks (s.neighborChunks w) := by
    funext w
    exact copies_of_not_copying (not_copying hi (by rw [hmain]; rfl) w) ..
  unfold State.storeChunk
  split
  · next chunk hlookup =>
    simp only [State.complete, State.mainTo, hmain, hcopies, MainAt.taken, MainAt.finishWorld,
      MainAt.finishMarks, MainAt.finishLists, MainAt.complete, World.createOrReplaceChunk, hlookup]
  · next hlookup =>
    simp only [State.complete, State.mainTo, hmain, hcopies, MainAt.taken, MainAt.finishWorld,
      MainAt.finishMarks, MainAt.finishLists, MainAt.complete, World.createOrReplaceChunk, hlookup]

/-- A worker goes on inside its section, or alone. -/
theorem complete_worker {w : Fin n} {p : WorkerAt} {nchunks : Chunks}
    (hthread : p.complete (s.tp.threads w) = (s.worker w).complete (s.tp.threads w))
    (hcopies : p.copies s.world.chunks nchunks = (s.worker w).copies s.world.chunks (s.neighborChunks w)) :
    ({s with neighborChunks := Function.update s.neighborChunks w nchunks}.workerTo w p).complete =
      s.complete := by
  have hthreads : (fun v => (Function.update s.worker w p v).complete (s.tp.threads v)) =
      fun v => (s.worker v).complete (s.tp.threads v) := by
    funext v
    by_cases hv : v = w
    · subst hv
      rw [Function.update_self, hthread]
    · rw [Function.update_of_ne hv]
  have hall : (fun v => (Function.update s.worker w p v).copies s.world.chunks
      (Function.update s.neighborChunks w nchunks v)) =
      fun v => (s.worker v).copies s.world.chunks (s.neighborChunks v) := by
    funext v
    by_cases hv : v = w
    · subst hv
      rw [Function.update_self, Function.update_self, hcopies]
    · rw [Function.update_of_ne hv, Function.update_of_ne hv]
  simp only [State.complete, State.workerTo, hthreads, hall]

theorem complete_workerTo {w : Fin n} {p : WorkerAt}
    (hthread : p.complete (s.tp.threads w) = (s.worker w).complete (s.tp.threads w))
    (hcopies : p.copies s.world.chunks (s.neighborChunks w) =
      (s.worker w).copies s.world.chunks (s.neighborChunks w)) :
    (s.workerTo w p).complete = s.complete := by
  have h := complete_worker hthread hcopies
  rwa [Function.update_eq_self] at h

/-- The steps that stand for nothing. -/
theorem complete_quiet (hi : Inv s) (h : Next s e s') (he : e.atomic = none) : s'.complete = s.complete := by
  cases h <;> simp only [Event.atomic, reduceCtorEq] at he
  case pushBack packet hclient =>
    unfold State.complete
    rw [hclient]
    simp [State.clientTo, ClientAt.pushes]
  case pushed hclient =>
    unfold State.complete
    rw [hclient]
    rfl
  case look hmain => rfl
  case lockEntities m hmain hm =>
    unfold State.complete
    rw [hmain]
    rfl
  case popFront chunkData rest hmain hpackets =>
    unfold State.complete
    rw [hmain, hpackets]
    rfl
  case storeChunk chunkData hmain => exact complete_storeChunk hi hmain
  case upload e rest hmain =>
    have hchunks : (s.world.uploadMesh e.1 e.2).chunks = s.world.chunks := World.uploadMesh_chunks ..
    unfold State.complete
    rw [hmain]
    simp only [State.mainTo, hchunks]
    rfl
  case unlockEntities hmain | storeMesh pos hmain | unlockChunk pos hmain | addChunk pos hmain |
      clear hmain | unlockMeshes hmain =>
    unfold State.complete
    rw [hmain]
    rfl
  case find w task pos rest hw hworker =>
    exact complete_worker (by rw [hworker]; rfl) (by rw [hworker]; rfl)
  case unlockShared w task hw hworker =>
    exact complete_workerTo (s := s) (by rw [hworker]; rfl) (by rw [hworker]; rfl)
  case build w task vertices hw hworker hvertices =>
    exact complete_workerTo (by rw [hworker]; rfl) (by rw [hworker]; rfl)
  case lock w task vertices m hw hworker hm =>
    exact complete_workerTo (s := s) (by rw [hworker]; rfl) (by rw [hworker]; rfl)
  case unlock w task hw hworker =>
    exact complete_workerTo (s := s) (by rw [hworker]; rfl) (by rw [hworker]; rfl)
  case finish w task hw hworker =>
    have hthreads : (fun v => (s.worker v).complete ((s.tp.setThread w .waiting).threads v)) =
        fun v => (s.worker v).complete (s.tp.threads v) := by
      funext v
      by_cases hv : v = w
      · subst hv
        rw [hworker]
        rfl
      · rw [ThreadPool.setThread_ne s.tp _ hv]
    unfold State.complete
    rw [hthreads]
    rfl

/-- `data_mtx` is held while the queue is drained. -/
theorem holds_of_draining {p : MainAt} (h : p.complete = .draining) : p.holds .dataMtx = .exclusive := by
  cases p <;> first | rfl | cases h

/-- A worker's thread, task and copies in `complete`, all others as they are. -/
theorem complete_threads (s : State n) (w : Fin n) (p : WorkerAt) (thread : Worker Ivec3) :
    (fun v => (Function.update s.worker w p v).complete (Function.update s.tp.threads w thread v)) =
      Function.update (fun v => (s.worker v).complete (s.tp.threads v)) w (p.complete thread) := by
  funext v
  by_cases hv : v = w
  · subst hv
    simp only [Function.update_self]
  · simp only [Function.update_of_ne hv]

theorem complete_copies (s : State n) (w : Fin n) (p : WorkerAt) (nchunks : Chunks) :
    (fun v => (Function.update s.worker w p v).copies s.world.chunks
      (Function.update s.neighborChunks w nchunks v)) =
      Function.update (fun v => (s.worker v).copies s.world.chunks (s.neighborChunks v)) w
        (p.copies s.world.chunks nchunks) := by
  funext v
  by_cases hv : v = w
  · subst hv
    simp only [Function.update_self]
  · simp only [Function.update_of_ne hv]

theorem atomic_push (hi : Inv s) {packet : ChunkPacket} {m : SharedMutex (Thread n)}
    (hclient : s.client = .outside) (hm : (s.locks .dataMtx).lock .client = some m) :
    Renderer.step s.complete (.receive packet) =
      some ((s.setLock .dataMtx m).clientTo (.locked packet)).complete := by
  have hmain : s.mainThread.complete ≠ .draining := by
    intro hdraining
    have hout := (SharedMutex.lock_mode hm).1 .main
    rw [hi.locks, State.holds, holds_of_draining hdraining] at hout
    cases hout
  simp only [Renderer.step, Renderer.State.receive, State.complete, hclient, State.setLock, State.clientTo,
    ClientAt.pushes, List.append_nil]

theorem atomic_drained (hi : Inv s) (hmain : s.mainThread = .draining) (hpackets : s.packets = []) :
    Renderer.step s.complete .drained =
      some ((s.unlock .dataMtx).mainTo (.enqueueing s.chunksToUpdate)).complete := by
  have hpushes : s.client.pushes = [] := by
    cases hclient : s.client with
    | locked packet =>
      have hown : s.holds .main .dataMtx = .exclusive := by
        rw [State.holds, hmain]
        rfl
      have hclose : s.holds .client .dataMtx = .exclusive := by
        rw [State.holds, hclient]
        rfl
      cases hi.locks.exclusive hown (by rw [hclose]; decide)
    | outside | pushed => rfl
  simp only [Renderer.step, Renderer.State.drained, State.complete, State.unlock, State.setLock, State.mainTo,
    hmain, hpackets, hpushes, MainAt.taken, MainAt.complete, List.append_nil]
  rfl

theorem atomic_take (hi : Inv s) {w : Fin n} {task : Task Ivec3} {rest : List (Task Ivec3)}
    (hw : s.tp.threads w = .waiting) (htasks : s.tp.tasks = task :: rest) :
    Renderer.step s.complete (.acquire w) = some ({ s with
      tp := {s.tp.setThread w (.running task) with tasks := rest}
      neighborChunks := Function.update s.neighborChunks w ∅ }.workerTo w .fresh).complete := by
  have hwaiting : (s.worker w).complete (s.tp.threads w) = .waiting := by
    rcases (hi.worker w).outside (by simp [hw]) with hp | hp
    · rw [hp, hw]
      rfl
    · rw [hp]
      rfl
  have hthreads := complete_threads s w .fresh (.running task)
  have hcopies := complete_copies s w .fresh ∅
  simp only [Renderer.step, Renderer.State.acquire, ThreadPool.acquire, State.complete, hwaiting, htasks,
    Option.map_some, State.workerTo, ThreadPool.setThread, hthreads, hcopies]
  rfl

/-- Outside a write to them the chunks are as `complete` has them. -/
theorem finishWorld_chunks {p : MainAt} (h : p.holds .chunkMtx ≠ .exclusive) (w : World) :
    (p.finishWorld w).chunks = w.chunks := by
  cases p with
  | uploading rest => exact World.uploadAll_chunks rest w
  | locked chunkData => exact absurd rfl h
  | _ => rfl

theorem atomic_snapshot {w : Fin n} {task : Task Ivec3} {m : SharedMutex (Thread n)}
    (hi : Inv s) (hw : s.tp.threads w = .running task) (hworker : s.worker w = .fresh)
    (hm : (s.locks .chunkMtx).lockShared (.worker w) = some m) :
    Renderer.step s.complete (.snapshot w) = some ((s.setLock .chunkMtx m).workerTo w
      (.copying (ChunkVertices.neighborChunkpos.toList.map fun off => task.body + off * (16 : Int)))).complete := by
  have hchunks : (s.mainThread.finishWorld s.world).chunks = s.world.chunks := by
    refine finishWorld_chunks (fun hown => ?_) s.world
    exact (SharedMutex.lockShared_mode hm).1 .main ((hi.locks .chunkMtx .main).trans hown)
  have hthread : (s.worker w).complete (s.tp.threads w) = .running task := by
    rw [hworker, hw]
    rfl
  have hcopied : (s.worker w).copies s.world.chunks (s.neighborChunks w) = none := by
    rw [hworker]
    rfl
  have hcopies := complete_copies s w
    (.copying (ChunkVertices.neighborChunkpos.toList.map fun off => task.body + off * (16 : Int))) (s.neighborChunks w)
  have hthreads := complete_threads s w
    (.copying (ChunkVertices.neighborChunkpos.toList.map fun off => task.body + off * (16 : Int))) (s.tp.threads w)
  have hsame : Function.update (fun v => (s.worker v).complete (s.tp.threads v)) w (.running task) =
      fun v => (s.worker v).complete (s.tp.threads v) := by
    rw [← hthread, Function.update_eq_self]
  rw [Function.update_eq_self, hw] at hthreads
  rw [Function.update_eq_self, (hi.worker w).fresh hworker] at hcopies
  simp only [Renderer.step, Renderer.State.snapshot, State.complete, hthread, hcopied, hchunks, State.setLock,
    State.workerTo, hcopies, hthreads.trans hsame]
  rfl

/-- A worker stores the list of its copies, and with it its task is over. -/
theorem atomic_store (hi : Inv s) {w : Fin n} {task : Task Ivec3} {vertices : List UInt32}
    (hw : s.tp.threads w = .running task) (hworker : s.worker w = .locked vertices) :
    Renderer.step s.complete (.publish w) = some ({ s with
      chunksVerticesToMesh := s.chunksVerticesToMesh.insert task.body vertices }.workerTo w .stored).complete := by
  have hthread : (s.worker w).complete (s.tp.threads w) = .running task := by
    rw [hworker, hw]
    rfl
  have hcopied : (s.worker w).copies s.world.chunks (s.neighborChunks w) = some (s.neighborChunks w) := by
    rw [hworker]
    rfl
  obtain ⟨task', htask', hvertices⟩ := (hi.worker w).built vertices (.inr hworker)
  obtain rfl := Worker.running.inj (hw.symm.trans htask')
  have hlists (lists : AList fun _ : Ivec3 => List UInt32) : s.mainThread.finishLists lists = lists := by
    have hown : s.holds (.worker w) .chunksVerticesToMeshMtx = .exclusive := by
      rw [State.holds, hworker]
      rfl
    cases hmain : s.mainThread with
    | uploading rest =>
      have hheld : s.holds .main .chunksVerticesToMeshMtx = .exclusive := by
        rw [State.holds, hmain]
        rfl
      cases hi.locks.exclusive hown (by rw [hheld]; decide)
    | _ => rfl
  have hcopies := complete_copies s w .stored (s.neighborChunks w)
  have hthreads := complete_threads s w .stored (s.tp.threads w)
  have hsame : Function.update (fun v => (s.worker v).copies s.world.chunks (s.neighborChunks v)) w
      (some (s.neighborChunks w)) = fun v => (s.worker v).copies s.world.chunks (s.neighborChunks v) := by
    rw [← hcopied, Function.update_eq_self]
  have hcopies' := hcopies.trans hsame
  rw [Function.update_eq_self] at hcopies' hthreads
  simp only [Renderer.step, Renderer.State.publish, ThreadPool.finish, ThreadPool.setThread, State.complete,
    hthread, hcopied, hvertices, hlists, Option.map_some, State.workerTo, hcopies', hthreads]
  rfl

/-- Every other step is the step it stands for. -/
theorem complete_atomic (hi : Inv s) (h : Next s e s') {c : Renderer.Event n} (he : e.atomic = some c) :
    Renderer.step s.complete c = some s'.complete := by
  cases h <;> simp only [Event.atomic, reduceCtorEq, Option.some.injEq] at he <;> subst he
  case push packet m hclient hm => exact atomic_push hi hclient hm
  case toggle hmain =>
    simp only [Renderer.step, Renderer.State.toggle, State.complete, hmain, MainAt.complete]
  case updateChunks m hmain hon hm =>
    simp only [Renderer.step, Renderer.State.updateChunks, State.complete, State.setLock, State.mainTo, hmain,
      hon, MainAt.complete]
    rfl
  case lockChunk chunkData m hmain hm =>
    simp only [Renderer.step, Renderer.State.drain, State.complete, hmain, MainAt.complete, MainAt.taken,
      List.cons_append, List.nil_append]
    rfl
  case drained hmain hpackets => exact atomic_drained hi hmain hpackets
  case enqueue pos rest hmain hpos =>
    simp only [Renderer.step, Renderer.State.enqueue, State.complete, hmain, MainAt.complete, hpos, if_true]
    rfl
  case enqueued hmain =>
    simp only [Renderer.step, Renderer.State.enqueued, State.complete, hmain, MainAt.complete, if_true]
    rfl
  case lockMeshes m hmain hm =>
    simp only [Renderer.step, Renderer.State.createChunksMesh, State.complete, hmain, MainAt.complete]
    rfl
  case take w task rest hw htasks => exact atomic_take hi hw htasks
  case exit w hw htasks hstop => cases hstop.symm.trans hi.running
  case lockShared w task m hw hworker hm => exact atomic_snapshot hi hw hworker hm
  case store w task vertices hw hworker => exact atomic_store hi hw hworker

/-- **Lock by lock, the threads do what the sections do**: every run of the threads, its lock
calls and half-done sections left out, is a run of `Renderer`, which ends where the sections
that are still open would end. -/
theorem sections_refine (es : List (Event n)) (hrun : Lib.Runs.run step start es = some s) :
    Lib.Runs.run Renderer.step Renderer.start (es.filterMap Event.atomic) = some s.complete := by
  have hrefined := Lib.Runs.run_erase Inv State.complete Event.atomic
    (fun _ _ _ hi he => inv_step hi (next_of_step he))
    (fun _ _ _ hi he hquiet => complete_quiet hi (next_of_step he) hquiet)
    (fun _ _ _ _ hi he hseen => complete_atomic hi (next_of_step he) hseen) inv_start hrun
  exact hrefined

/-- A chunk comes in, and its position is handed to a worker, who copies the world while the client is
in its section and the main thread goes on with the positions around. -/
def overlappingRun (w : Fin 4) : List (Event 4) :=
  [.client (.lock (.monoTypeChunk ⟨0, 0, 0⟩ 1)), .client .pushBack, .client .unlock, .main .updateChunks,
    .main .popFront, .main .lockChunk, .main .storeChunk, .main .storeMesh, .main .unlockChunk,
    .main .addChunk, .main .drained, .client (.lock (.monoTypeChunk ⟨0, 0, 0⟩ 2)),
    .main (.enqueue ⟨0, 0, 0⟩), .worker w .acquire, .worker w .lockShared, .worker w .find,
    .main (.enqueue ⟨16, 0, 0⟩), .worker w .find, .client .pushBack]

theorem sections_refine_overlapping : ∃ s : State 4, Lib.Runs.run step start (overlappingRun 2) = some s ∧
    Lib.Runs.run Renderer.step Renderer.start
      [.receive (.monoTypeChunk ⟨0, 0, 0⟩ 1), .updateChunks, .drain, .drained,
        .receive (.monoTypeChunk ⟨0, 0, 0⟩ 2), .enqueue ⟨0, 0, 0⟩, .acquire 2, .snapshot 2,
        .enqueue ⟨16, 0, 0⟩] = some s.complete := by
  obtain ⟨s, hrun⟩ := Option.isSome_iff_exists.mp
    (show (Lib.Runs.run step (start : State 4) (overlappingRun 2)).isSome = true by decide)
  exact ⟨s, hrun, sections_refine (overlappingRun 2) hrun⟩

end MyMinecraft.Renderer.Threads
