import MyMinecraft.Renderer.Atomic
import MyMinecraft.Renderer.Rebuild

/-! The threads come to rest.

Between two inputs (a packet, a click, the next frame) every thread does what it has
to do and then waits. `left` counts the steps that can still be taken: each takes one
off at least, whichever thread takes it, and where no thread can go on none is inside a
section (`comes_to_rest`), so no order of lock calls ends in a deadlock. A frame drawn after that
takes in every packet, and one more shows every list (`two_frames`). -/
namespace MyMinecraft.Renderer.Threads
open Lib.Locks

/-- What starts from outside: a packet, the box, or the main thread's next look at the queues. -/
def Event.isInput {n : Nat} : Event n → Bool
  | .client (.lock _) => true
  | .main .toggle | .main .look | .main .lockEntities | .main .updateChunks => true
  | _ => false

/-! ### What is left to do -/

def ClientAt.left : ClientAt → Nat
  | .outside => 0
  | .locked _ => 2
  | .pushed => 1

/-- One step for the end of the task, one for each lock call and each neighbour, and one more
until the list is stored, for the upload it will take. -/
def WorkerAt.left : WorkerAt → Nat
  | .fresh => 15
  | .copying rest => rest.length + 7
  | .copied => 6
  | .built _ => 5
  | .locked _ => 4
  | .stored => 2
  | .unlocked => 1

/-- A task in the queue counts 16, a marked position 17 and a packet, which marks seven, 125. -/
def MainAt.left (packets marks lists : Nat) : MainAt → Nat
  | .idle => 0
  | .entities | .cleared => 1
  | .uploading rest => rest.length + 2
  | .meshing => lists + 3
  | .enqueueing rest => 17 * rest.card + lists + 4
  | .draining => 125 * packets + 17 * marks + lists + 5
  | .popped _ => 125 * packets + 17 * marks + lists + 129
  | .locked _ => 125 * packets + 17 * marks + lists + 128
  | .inserted _ => 125 * packets + 17 * marks + lists + 127
  | .stored _ => 125 * packets + 17 * marks + lists + 126
  | .unlocked _ => 125 * packets + 17 * marks + lists + 125

variable {n : Nat}

/-- What worker `w` has left of its task. -/
def State.taskLeft (s : State n) (w : Fin n) : Nat :=
  match s.tp.threads w with
  | .running _ => (s.worker w).left
  | .waiting | .exited => 0

def State.mainLeft (s : State n) : Nat :=
  s.mainThread.left s.packets.length s.chunksToUpdate.card s.chunksVerticesToMesh.entries.length

def left (s : State n) : Nat := s.mainLeft + s.client.left + ∑ w, s.taskLeft w + 16 * s.tp.tasks.length

variable {s s' : State n} {e : Event n}

theorem addChunk_card (marks : Finset Ivec3) (pos : Ivec3) :
    (Renderer.addChunk marks pos).card ≤ marks.card + 7 := by
  have hfoldl (offs : List Ivec3) (acc : Finset Ivec3) :
      (offs.foldl (fun s off => insert (pos + off * (16 : Int)) s) acc).card ≤ acc.card + offs.length := by
    induction offs generalizing acc with
    | nil => exact Nat.le_refl _
    | cons off offs ih =>
      have hinsert := Finset.card_insert_le (pos + off * (16 : Int)) acc
      have hrest := ih (insert (pos + off * (16 : Int)) acc)
      rw [List.foldl_cons, List.length_cons]
      omega
  exact hfoldl neighborChunkpos marks

theorem insert_length (lists : AList fun _ : Ivec3 => List UInt32) (pos : Ivec3) (vertices : List UInt32) :
    (lists.insert pos vertices).entries.length ≤ lists.entries.length + 1 := by
  rw [AList.entries_insert, List.length_cons]
  exact Nat.succ_le_succ (List.kerase_sublist pos lists.entries).length_le

/-- A step of the main thread that leaves the pool as it is. -/
theorem left_main {s' : State n} (htp : s'.tp = s.tp) (hworker : s'.worker = s.worker)
    (hclient : s'.client = s.client) (h : s'.mainLeft < s.mainLeft) : left s' < left s := by
  have hsum : ∑ w, s'.taskLeft w = ∑ w, s.taskLeft w := by
    simp only [State.taskLeft, htp, hworker]
  simp only [left, hsum, htp, hclient]
  omega

/-- From a given place in `updateChunks`. -/
theorem left_from {s' : State n} {p : MainAt} (hmain : s.mainThread = p) (htp : s'.tp = s.tp)
    (hworker : s'.worker = s.worker) (hclient : s'.client = s.client)
    (h : s'.mainLeft < p.left s.packets.length s.chunksToUpdate.card s.chunksVerticesToMesh.entries.length) :
    left s' < left s := by
  refine left_main htp hworker hclient ?_
  rwa [State.mainLeft.eq_1 s, hmain]

/-- A step of the client. -/
theorem left_client {s' : State n} (htp : s'.tp = s.tp) (hworker : s'.worker = s.worker)
    (hmain : s'.mainLeft = s.mainLeft) (h : s'.client.left < s.client.left) : left s' < left s := by
  have hsum : ∑ w, s'.taskLeft w = ∑ w, s.taskLeft w := by
    simp only [State.taskLeft, htp, hworker]
  simp only [left, hsum, htp, hmain]
  omega

/-- A step of one worker. -/
theorem left_worker {s' : State n} (w : Fin n) (hclient : s'.client = s.client)
    (hothers : ∀ v, v ≠ w → s'.taskLeft v = s.taskLeft v)
    (h : s'.mainLeft + s'.taskLeft w + 16 * s'.tp.tasks.length <
      s.mainLeft + s.taskLeft w + 16 * s.tp.tasks.length) : left s' < left s := by
  have hmove := Lib.Runs.sum_move w hothers
  simp only [left, hclient]
  omega

theorem taskLeft_running {w : Fin n} {task : Task Ivec3} (hw : s.tp.threads w = .running task) :
    s.taskLeft w = (s.worker w).left := by
  simp only [State.taskLeft, hw]

/-- A step of a worker inside its task. -/
theorem left_inside {w : Fin n} {p q : WorkerAt} {task : Task Ivec3} (hw : s.tp.threads w = .running task)
    (hworker : s.worker w = q) (hless : p.left < q.left) : left (s.workerTo w p) < left s := by
  refine left_worker w rfl (fun v hv => ?_) ?_
  · simp only [State.taskLeft, State.workerTo, Function.update_of_ne hv]
  · have hnew : (s.workerTo w p).taskLeft w = p.left := by
      rw [taskLeft_running (s := s.workerTo w p) hw]
      simp only [State.workerTo, Function.update_self]
    have hmain : (s.workerTo w p).mainLeft = s.mainLeft := rfl
    have htasks : (s.workerTo w p).tp = s.tp := rfl
    rw [hnew, taskLeft_running hw, hworker, hmain, htasks]
    omega

/-- While the client is in its section no packet counts. -/
theorem left_packets (hi : Inv s) {packet : ChunkPacket} (hclient : s.client = .locked packet)
    (packets marks lists : Nat) : s.mainThread.left packets marks lists = s.mainThread.left 0 marks lists := by
  have hown : s.holds .client .dataMtx = .exclusive := by
    rw [State.holds, hclient]
    rfl
  have hout : s.holds .main .dataMtx = .out := by
    by_contra hheld
    cases hi.locks.exclusive hown hheld
  rw [State.holds] at hout
  cases hmain : s.mainThread with
  | draining | popped | locked | inserted | stored | unlocked =>
    rw [hmain] at hout
    cases hout
  | _ => rfl

theorem left_store {w : Fin n} {task : Task Ivec3} {vertices : List UInt32}
    (hw : s.tp.threads w = .running task) (hworker : s.worker w = .locked vertices) :
    left ({ s with
      chunksVerticesToMesh := s.chunksVerticesToMesh.insert task.body vertices }.workerTo w .stored) < left s := by
  have hmain (a b c d : Nat) (h : d ≤ c + 1) : s.mainThread.left a b d ≤ s.mainThread.left a b c + 1 := by
    cases s.mainThread <;> simp only [MainAt.left] <;> omega
  have hlists := hmain s.packets.length s.chunksToUpdate.card _ _
    (insert_length s.chunksVerticesToMesh task.body vertices)
  refine left_worker w rfl (fun v hv => ?_) ?_
  · simp only [State.taskLeft, State.workerTo, Function.update_of_ne hv]
  · have hold : s.taskLeft w = 4 := by
      rw [taskLeft_running hw, hworker]
      rfl
    have hnew : State.taskLeft ({ s with
        chunksVerticesToMesh := s.chunksVerticesToMesh.insert task.body vertices }.workerTo w .stored) w = 2 := by
      simp only [State.taskLeft, State.workerTo, hw, Function.update_self, WorkerAt.left]
    rw [hold, hnew]
    unfold State.mainLeft
    simp only [State.workerTo]
    omega

theorem left_take {w : Fin n} {task : Task Ivec3} {rest : List (Task Ivec3)}
    (hw : s.tp.threads w = .waiting) (htasks : s.tp.tasks = task :: rest) :
    left ({ s with
      tp := {s.tp.setThread w (.running task) with tasks := rest}
      neighborChunks := Function.update s.neighborChunks w ∅ }.workerTo w .fresh) < left s := by
  refine left_worker w rfl (fun v hv => ?_) ?_
  · simp only [State.taskLeft, State.workerTo, Function.update_of_ne hv, ThreadPool.setThread]
  · have hold : s.taskLeft w = 0 := by
      simp only [State.taskLeft, hw]
    rw [hold, htasks]
    simp only [State.taskLeft, State.mainLeft, State.workerTo, ThreadPool.setThread, Function.update_self,
      WorkerAt.left, List.length_cons]
    omega

theorem left_finish {w : Fin n} {task : Task Ivec3} (hw : s.tp.threads w = .running task)
    (hworker : s.worker w = .unlocked) : left {s with tp := s.tp.setThread w .waiting} < left s := by
  refine left_worker w rfl (fun v hv => ?_) ?_
  · simp only [State.taskLeft, ThreadPool.setThread, Function.update_of_ne hv]
  · have hold : s.taskLeft w = 1 := by
      rw [taskLeft_running hw, hworker]
      rfl
    rw [hold]
    simp only [State.taskLeft, State.mainLeft, ThreadPool.setThread, Function.update_self]
    omega

/-- Every step that is not an input uses up some of what is left. -/
theorem step_left (hi : Inv s) (h : Next s e s') (he : e.isInput = false) : left s' < left s := by
  cases h <;> simp only [Event.isInput, Bool.true_eq_false] at he
  case pushBack packet hclient =>
    refine left_client rfl rfl ?_ (by rw [hclient]; exact Nat.lt_succ_self 1)
    show s.mainThread.left (s.packets ++ [packet.data]).length _ _ = s.mainThread.left _ _ _
    rw [left_packets hi hclient, left_packets hi hclient s.packets.length]
    rfl
  case pushed hclient =>
    exact left_client rfl rfl rfl (by rw [hclient]; exact Nat.zero_lt_one)
  case popFront chunkData rest hmain hpackets =>
    refine left_from hmain rfl rfl rfl ?_
    simp only [State.mainLeft, State.mainTo, MainAt.left, hpackets, List.length_cons]
    omega
  case storeChunk chunkData hmain =>
    unfold State.storeChunk
    split
    all_goals
      refine left_from hmain rfl rfl rfl ?_
      simp only [State.mainLeft, State.mainTo, MainAt.left]
      omega
  case addChunk pos hmain =>
    have hcard := addChunk_card s.chunksToUpdate pos
    refine left_from hmain rfl rfl rfl ?_
    simp only [State.mainLeft, State.mainTo, MainAt.left]
    omega
  case enqueue pos rest hmain hpos =>
    have hcard := Finset.card_erase_add_one hpos
    have hsum : ∑ w, ({s with tp := s.tp.enqueue pos}.mainTo (.enqueueing (rest.erase pos))).taskLeft w =
        ∑ w, s.taskLeft w := rfl
    rw [left, hsum]
    simp only [left, State.mainLeft, hmain, State.mainTo, MainAt.left, ThreadPool.enqueue, List.length_append,
      List.length_singleton]
    omega
  case unlockEntities hmain | lockChunk _ _ hmain _ | storeMesh _ hmain | unlockChunk _ hmain | drained hmain _ |
      enqueued hmain | lockMeshes _ hmain _ | upload _ _ hmain | clear hmain | unlockMeshes hmain =>
    refine left_from hmain rfl rfl rfl ?_
    simp only [State.mainLeft, State.mainTo, State.setLock, State.unlock, State.storeMesh, MainAt.left,
      Finset.card_empty, List.length_cons]
    omega
  case take w task rest hw htasks => exact left_take hw htasks
  case exit w hw htasks hstop => cases hstop.symm.trans hi.running
  case lockShared w task m hw hworker hm =>
    refine left_inside (s := s.setLock .chunkMtx m) hw hworker ?_
    simp only [WorkerAt.left, List.length_map, Vector.length_toList]
    exact Nat.lt_succ_self 14
  case find w task pos rest hw hworker =>
    refine left_inside (s := s.find w pos) hw hworker ?_
    simp only [WorkerAt.left, List.length_cons]
    omega
  case unlockShared w task hw hworker =>
    exact left_inside (s := s.unlockShared (.worker w) .chunkMtx) hw hworker (Nat.lt_succ_self 6)
  case build w task vertices hw hworker hvertices =>
    exact left_inside hw hworker (Nat.lt_succ_self 5)
  case lock w task vertices m hw hworker hm =>
    exact left_inside (s := s.setLock .chunksVerticesToMeshMtx m) hw hworker (Nat.lt_succ_self 4)
  case store w task vertices hw hworker => exact left_store hw hworker
  case unlock w task hw hworker =>
    exact left_inside (s := s.unlock .chunksVerticesToMeshMtx) hw hworker (Nat.lt_succ_self 1)
  case finish w task hw hworker => exact left_finish hw hworker

/-! ### Who cannot go on -/

/-- Every thread waits for an input, and nobody is in a section. -/
structure AtRest (s : State n) : Prop where
  client : s.client = .outside
  main : s.mainThread = .idle
  workers : ∀ w, s.tp.threads w = .waiting
  tasks : 0 < n → s.tp.tasks = []
  locks : ∀ l t, (s.locks l).mode t = .out

/-- No thread can go on without an input. -/
def Stuck (s : State n) : Prop := ∀ e : Event n, e.isInput = false → step s e = none

theorem Stuck.not_next (h : Stuck s) (he : e.isInput = false) : ¬ Next s e s' := by
  intro hnext
  cases (h e he).symm.trans (step_of_next hnext)

theorem Stuck.client (h : Stuck s) : s.client = .outside := by
  cases hclient : s.client with
  | outside => rfl
  | locked packet => exact absurd (.pushBack packet hclient) (h.not_next rfl)
  | pushed => exact absurd (.pushed hclient) (h.not_next rfl)

/-- A worker in its task can only be waiting for a lock, and has none. -/
theorem Stuck.worker (h : Stuck s) {w : Fin n} {task : Task Ivec3} (hw : s.tp.threads w = .running task) :
    s.worker w = .fresh ∨ ∃ vertices, s.worker w = .built vertices := by
  cases hworker : s.worker w with
  | fresh => exact .inl rfl
  | copying rest =>
    cases rest with
    | nil => exact absurd (.unlockShared w task hw hworker) (h.not_next rfl)
    | cons pos rest => exact absurd (.find w task pos rest hw hworker) (h.not_next rfl)
  | copied =>
    exact absurd (.build w task _ hw hworker (ChunkVertices.verticesOf_eq ..)) (h.not_next rfl)
  | built vertices => exact .inr ⟨vertices, rfl⟩
  | locked vertices => exact absurd (.store w task vertices hw hworker) (h.not_next rfl)
  | stored => exact absurd (.unlock w task hw hworker) (h.not_next rfl)
  | unlocked => exact absurd (.finish w task hw hworker) (h.not_next rfl)

/-- So no worker has a lock. -/
theorem Stuck.worker_holds (h : Stuck s) (hi : Inv s) (w : Fin n) (l : Lock) :
    s.holds (.worker w) l = .out := by
  have hout : s.worker w = .fresh ∨ (∃ vertices, s.worker w = .built vertices) ∨ s.worker w = .unlocked := by
    cases hw : s.tp.threads w with
    | running task =>
      rcases h.worker hw with hp | hp
      · exact .inl hp
      · exact .inr (.inl hp)
    | waiting | exited =>
      rcases (hi.worker w).outside (by simp [hw]) with hp | hp
      · exact .inl hp
      · exact .inr (.inr hp)
  rw [State.holds]
  obtain hp | ⟨vertices, hp⟩ | hp := hout
  all_goals
    rw [hp]
    cases l <;> rfl

theorem Stuck.free (h : Stuck s) (hi : Inv s) {l : Lock} (hmain : s.mainThread.holds l = .out) (t : Thread n) :
    (s.locks l).mode t = .out := by
  rw [hi.locks]
  cases t with
  | client =>
    rw [State.holds, h.client]
    cases l <;> rfl
  | main => exact hmain
  | worker w => exact h.worker_holds hi w l

/-- A lock nobody has can be taken. -/
theorem exists_lock {l : Lock} (h : ∀ t, (s.locks l).mode t = .out) (t : Thread n) :
    ∃ m, (s.locks l).lock t = some m := by
  refine Option.ne_none_iff_exists'.mp fun hnone => ?_
  obtain ⟨u, hu⟩ := SharedMutex.lock_none hnone
  exact hu (h u)

theorem Stuck.main (h : Stuck s) (hi : Inv s) : s.mainThread = .idle := by
  cases hmain : s.mainThread with
  | idle => rfl
  | entities => exact absurd (.unlockEntities hmain) (h.not_next rfl)
  | draining =>
    cases hpackets : s.packets with
    | nil => exact absurd (.drained hmain hpackets) (h.not_next rfl)
    | cons chunkData rest => exact absurd (.popFront chunkData rest hmain hpackets) (h.not_next rfl)
  | popped chunkData =>
    obtain ⟨m, hm⟩ := exists_lock (h.free hi (l := .chunkMtx) (by rw [hmain]; rfl)) .main
    exact absurd (.lockChunk chunkData m hmain hm) (h.not_next rfl)
  | locked chunkData => exact absurd (.storeChunk chunkData hmain) (h.not_next rfl)
  | inserted pos => exact absurd (.storeMesh pos hmain) (h.not_next rfl)
  | stored pos => exact absurd (.unlockChunk pos hmain) (h.not_next rfl)
  | unlocked pos => exact absurd (.addChunk pos hmain) (h.not_next rfl)
  | enqueueing rest =>
    rcases rest.eq_empty_or_nonempty with rfl | ⟨pos, hpos⟩
    · exact absurd (.enqueued hmain) (h.not_next rfl)
    · exact absurd (.enqueue pos rest hmain hpos) (h.not_next rfl)
  | meshing =>
    obtain ⟨m, hm⟩ := exists_lock (h.free hi (l := .chunksVerticesToMeshMtx) (by rw [hmain]; rfl)) .main
    exact absurd (.lockMeshes m hmain hm) (h.not_next rfl)
  | uploading rest =>
    cases rest with
    | nil => exact absurd (.clear hmain) (h.not_next rfl)
    | cons e rest => exact absurd (.upload e rest hmain) (h.not_next rfl)
  | cleared => exact absurd (.unlockMeshes hmain) (h.not_next rfl)

/-- Where no thread can go on, none is waiting for a lock. -/
theorem Stuck.atRest (h : Stuck s) (hi : Inv s) : AtRest s := by
  have hmain := h.main hi
  have hlocks (l : Lock) (t : Thread n) : (s.locks l).mode t = .out :=
    h.free hi (by rw [hmain]; cases l <;> rfl) t
  have hworkers (w : Fin n) : s.tp.threads w = .waiting := by
    cases hw : s.tp.threads w with
    | waiting => rfl
    | exited => exact absurd hw (hi.worker w).stays
    | running task =>
      rcases h.worker hw with hworker | ⟨vertices, hworker⟩
      · cases hm : (s.locks .chunkMtx).lockShared (.worker w) with
        | none =>
          obtain ⟨u, hu⟩ := SharedMutex.lockShared_none hm
          cases (hlocks .chunkMtx u).symm.trans hu
        | some m => exact absurd (.lockShared w task m hw hworker hm) (h.not_next rfl)
      · obtain ⟨m, hm⟩ := exists_lock (hlocks .chunksVerticesToMeshMtx) (.worker w)
        exact absurd (.lock w task vertices m hw hworker hm) (h.not_next rfl)
  refine ⟨h.client, hmain, hworkers, fun hn => ?_, hlocks⟩
  cases htasks : s.tp.tasks with
  | nil => rfl
  | cons task rest => exact absurd (.take ⟨0, hn⟩ task rest (hworkers ⟨0, hn⟩) htasks) (h.not_next rfl)

/-! ### The threads come to rest -/

theorem left_step (e : Event n) (hi : Inv s) (he : e.isInput = false) (h : step s e = some s') :
    Inv s' ∧ left s' < left s :=
  ⟨inv_step hi (next_of_step h), step_left hi (next_of_step h) he⟩

/-- **Between two inputs the threads come to rest**: from every reachable state they can take at most
`left` more steps, in whatever order, and where none of them can go on nobody waits for a lock
and nobody has one. So there is no deadlock, and no thread is kept busy for ever. -/
theorem comes_to_rest (es₀ : List (Event n)) (hrun₀ : Lib.Runs.run step start es₀ = some s) :
    (∀ es s', (∀ e ∈ es, e.isInput = false) → Lib.Runs.run step s es = some s' →
      es.length ≤ left s ∧ (Stuck s' → AtRest s')) ∧
    ∃ es s', (∀ e ∈ es, e.isInput = false) ∧ Lib.Runs.run step s es = some s' ∧ AtRest s' := by
  have hi := inv_run hrun₀
  have hstep : ∀ s (e : Event n) s', Inv s → e.isInput = false → step s e = some s' →
      Inv s' ∧ left s' < left s := fun s e s' hi he h => left_step e hi he h
  constructor
  · intro es s' hes hrun
    obtain ⟨hi', hbound⟩ := Lib.Runs.run_bound Inv (fun e : Event n => e.isInput = false) left hstep hi hes hrun
    exact ⟨by omega, fun hstuck => hstuck.atRest hi'⟩
  · obtain ⟨es, s', hes, hrun, hi', hstuck⟩ :=
      Lib.Runs.exists_stuck Inv (fun e : Event n => e.isInput = false) left hstep hi
    exact ⟨es, s', hes, hrun, Stuck.atRest hstuck hi'⟩

/-- The run of `sections_refine_overlapping`, with two threads in a section at its end. -/
theorem comes_to_rest_overlapping : ∃ s es s', Lib.Runs.run step (start : State 4) (overlappingRun 2) = some s ∧
    (∀ e ∈ es, e.isInput = false) ∧ Lib.Runs.run step s es = some s' ∧ AtRest s' := by
  obtain ⟨s, hrun⟩ := Option.isSome_iff_exists.mp
    (show (Lib.Runs.run step (start : State 4) (overlappingRun 2)).isSome = true by decide)
  obtain ⟨es, s', hes, hrest⟩ := (comes_to_rest (overlappingRun 2) hrun).2
  exact ⟨s, es, s', hrun, hes, hrest⟩

/-! ### Two frames -/

/-- The main thread enters `updateChunks`, and the threads go on until none of them can. -/
structure Frame (s : State n) (es : List (Event n)) (s' : State n) : Prop where
  quiet : ∀ e ∈ es, e.isInput = false
  run : Lib.Runs.run step s (.main .updateChunks :: es) = some s'
  stuck : Stuck s'

/-- The queue is emptied before the loop ends, and the marks before `createChunksMesh`. -/
structure Drains (s : State n) : Prop where
  client : s.client = .outside
  queue : s.mainThread.complete = .draining ∨ s.packets = [] ∧
    ((∃ rest, s.mainThread = .enqueueing rest) ∨ s.chunksToUpdate = ∅)

theorem Drains.step (h : Drains s) (he : e.isInput = false) (hnext : Next s e s') : Drains s' := by
  have hclient := h.client
  cases hnext <;> simp only [Event.isInput, Bool.true_eq_false] at he
  case pushBack packet hlocked => cases hclient.symm.trans hlocked
  case pushed hpushed => cases hclient.symm.trans hpushed
  case popFront | addChunk => exact ⟨hclient, .inl rfl⟩
  case storeChunk chunkData hmain =>
    unfold State.storeChunk
    split <;> exact ⟨hclient, .inl rfl⟩
  case lockChunk | storeMesh | unlockChunk => exact ⟨hclient, .inl rfl⟩
  case drained hmain hpackets => exact ⟨hclient, .inr ⟨hpackets, .inl ⟨_, rfl⟩⟩⟩
  case enqueue pos rest hmain hpos =>
    have hqueue := h.queue
    rw [hmain] at hqueue
    exact ⟨hclient, .inr ⟨(hqueue.resolve_left nofun).1, .inl ⟨_, rfl⟩⟩⟩
  case enqueued hmain =>
    have hqueue := h.queue
    rw [hmain] at hqueue
    exact ⟨hclient, .inr ⟨(hqueue.resolve_left nofun).1, .inr rfl⟩⟩
  case unlockEntities hmain | lockMeshes m hmain hm | upload e rest hmain | clear hmain | unlockMeshes hmain =>
    have hqueue := h.queue
    rw [hmain] at hqueue
    obtain ⟨hpackets, hmarks⟩ := hqueue.resolve_left nofun
    exact ⟨hclient, .inr ⟨hpackets, .inr (hmarks.resolve_left nofun)⟩⟩
  all_goals exact ⟨hclient, h.queue⟩

/-- A frame over an empty queue with no task left: the only thing to be done is the upload. -/
structure Uploads (s : State n) : Prop where
  client : s.client = .outside
  packets : s.packets = []
  marks : s.chunksToUpdate = ∅
  tasks : s.tp.tasks = []
  workers : ∀ w, s.tp.threads w = .waiting
  main : s.mainThread = .draining ∨ s.mainThread = .enqueueing ∅ ∨ s.mainThread = .meshing ∨
    (∃ rest, s.mainThread = .uploading rest) ∨
    (s.mainThread = .cleared ∨ s.mainThread = .idle) ∧ s.chunksVerticesToMesh = ∅

theorem Uploads.step (h : Uploads s) (hi : Inv s) (he : e.isInput = false) (hnext : Next s e s') : Uploads s' := by
  obtain ⟨hclient, hpackets, hmarks, htasks, hworkers, hmain⟩ := h
  cases hnext <;> simp only [Event.isInput, Bool.true_eq_false] at he
  case pushBack packet hlocked => cases hclient.symm.trans hlocked
  case pushed hpushed => cases hclient.symm.trans hpushed
  case drained =>
    refine ⟨hclient, hpackets, hmarks, htasks, hworkers, .inr (.inl ?_)⟩
    rw [← hmarks]
    rfl
  case enqueued => exact ⟨hclient, hpackets, rfl, htasks, hworkers, .inr (.inr (.inl rfl))⟩
  case lockMeshes => exact ⟨hclient, hpackets, hmarks, htasks, hworkers, .inr (.inr (.inr (.inl ⟨_, rfl⟩)))⟩
  case upload => exact ⟨hclient, hpackets, hmarks, htasks, hworkers, .inr (.inr (.inr (.inl ⟨_, rfl⟩)))⟩
  case clear => exact ⟨hclient, hpackets, hmarks, htasks, hworkers, .inr (.inr (.inr (.inr ⟨.inl rfl, rfl⟩)))⟩
  case unlockMeshes hcleared =>
    rw [hcleared] at hmain
    simp only [reduceCtorEq, exists_false, false_or, true_or, true_and] at hmain
    exact ⟨hclient, hpackets, hmarks, htasks, hworkers, .inr (.inr (.inr (.inr ⟨.inr rfl, hmain⟩)))⟩
  case popFront chunkData rest _ hcons => cases hpackets.symm.trans hcons
  case enqueue pos rest henqueueing hpos =>
    rw [henqueueing] at hmain
    simp only [reduceCtorEq, exists_false, false_or, false_and, or_false, MainAt.enqueueing.injEq] at hmain
    rw [hmain] at hpos
    exact absurd hpos (Finset.notMem_empty pos)
  case unlockEntities hat | lockChunk _ _ hat _ | storeChunk _ hat | storeMesh _ hat | unlockChunk _ hat |
      addChunk _ hat =>
    rw [hat] at hmain
    simp at hmain
  case take w task rest hw hcons => cases htasks.symm.trans hcons
  case exit w hw hnil hstop => cases hstop.symm.trans hi.running
  case lockShared w task _ hw _ _ | find w task _ _ hw _ | unlockShared w task hw _ | build w task _ hw _ _ |
      lock w task _ _ hw _ _ | store w task _ hw _ | unlock w task hw _ | finish w task hw _ =>
    cases (hworkers w).symm.trans hw

theorem frame_drains (hi : Inv s) (hclient : s.client = .outside) {es : List (Event n)} (h : Frame s es s') :
    Inv s' ∧ s'.packets = [] ∧ s'.chunksToUpdate = ∅ := by
  obtain ⟨s₁, h₁, hrest⟩ := Lib.Runs.run_cons.mp h.run
  have hi₁ := inv_step hi (next_of_step h₁)
  have hdrains : Drains s₁ := by
    cases next_of_step h₁
    exact ⟨hclient, .inl rfl⟩
  have hstep : ∀ s (e : Event n) s', Inv s ∧ Drains s → e.isInput = false → step s e = some s' →
      (Inv s' ∧ Drains s') ∧ left s' < left s := fun s e s' hs he hse =>
    ⟨⟨inv_step hs.1 (next_of_step hse), hs.2.step he (next_of_step hse)⟩, step_left hs.1 (next_of_step hse) he⟩
  obtain ⟨⟨hi', hdrains'⟩, _⟩ := Lib.Runs.run_bound (fun s => Inv s ∧ Drains s)
    (fun e : Event n => e.isInput = false) left hstep ⟨hi₁, hdrains⟩ h.quiet hrest
  have hidle := (h.stuck.atRest hi').main
  have hqueue := hdrains'.queue
  rw [hidle] at hqueue
  obtain ⟨hpackets, hmarks⟩ := hqueue.resolve_left nofun
  exact ⟨hi', hpackets, hmarks.resolve_left nofun⟩

theorem frame_uploads (hn : 0 < n) (hi : Inv s) (hrest : AtRest s) (hpackets : s.packets = [])
    (hmarks : s.chunksToUpdate = ∅) {es : List (Event n)} (h : Frame s es s') :
    Inv s' ∧ s'.chunksVerticesToMesh = ∅ := by
  obtain ⟨s₁, h₁, hrun⟩ := Lib.Runs.run_cons.mp h.run
  have hi₁ := inv_step hi (next_of_step h₁)
  have huploads : Uploads s₁ := by
    cases next_of_step h₁
    exact ⟨hrest.client, hpackets, hmarks, hrest.tasks hn, hrest.workers, .inl rfl⟩
  have hstep : ∀ s (e : Event n) s', Inv s ∧ Uploads s → e.isInput = false → step s e = some s' →
      (Inv s' ∧ Uploads s') ∧ left s' < left s := fun s e s' hs he hse =>
    ⟨⟨inv_step hs.1 (next_of_step hse), hs.2.step hs.1 he (next_of_step hse)⟩,
      step_left hs.1 (next_of_step hse) he⟩
  obtain ⟨⟨hi', huploads'⟩, _⟩ := Lib.Runs.run_bound (fun s => Inv s ∧ Uploads s)
    (fun e : Event n => e.isInput = false) left hstep ⟨hi₁, huploads⟩ h.quiet hrun
  have hmain := huploads'.main
  rw [(h.stuck.atRest hi').main] at hmain
  simp only [reduceCtorEq, exists_false, false_or, or_true, true_and] at hmain
  exact ⟨hi', hmain⟩

/-- At rest, with the queue, the marks and the lists used up, nothing is left to do in `Renderer`. -/
theorem quiescent_of_atRest (hn : 0 < n) (hrest : AtRest s) (hpackets : s.packets = [])
    (hmarks : s.chunksToUpdate = ∅) (hlists : s.chunksVerticesToMesh = ∅) : Quiescent s.complete where
  packets := by
    simp only [State.complete, hrest.main, hrest.client, hpackets]
    rfl
  chunksToUpdate := by
    simp only [State.complete, hrest.main, hmarks]
    rfl
  tasks := hrest.tasks hn
  published := by
    intro p
    simp only [State.complete, hrest.main, hlists]
    rfl
  workers := by
    intro w task hw
    simp only [State.complete, hrest.workers w] at hw
    cases hworker : s.worker w <;> rw [hworker] at hw <;> cases hw

/-- **Two frames without input use up all there is**: from any rest, whatever packets had been pushed and
whatever lists were lying there, and whatever order the threads run in, the second frame
ends with no packet, mark, task or list left. -/
theorem two_frames (hn : 0 < n) (es₀ : List (Event n)) (hrun₀ : Lib.Runs.run step start es₀ = some s)
    (hrest : AtRest s) {s₁ s₂ : State n} (es₁ es₂ : List (Event n)) (h₁ : Frame s es₁ s₁) (h₂ : Frame s₁ es₂ s₂) :
    AtRest s₂ ∧ Quiescent s₂.complete := by
  obtain ⟨hi₁, hpackets, hmarks⟩ := frame_drains (inv_run hrun₀) hrest.client h₁
  have hrest₁ := h₁.stuck.atRest hi₁
  obtain ⟨hi₂, hlists⟩ := frame_uploads hn hi₁ hrest₁ hpackets hmarks h₂
  obtain ⟨_, hpackets₂, hmarks₂⟩ := frame_drains hi₁ hrest₁.client h₂
  have hrest₂ := h₂.stuck.atRest hi₂
  exact ⟨hrest₂, quiescent_of_atRest hn hrest₂ hpackets₂ hmarks₂ hlists⟩

theorem updateChunk_quiet (he : e.isInput = false) (h : Next s e s') : s'.updateChunk = s.updateChunk := by
  cases h <;> simp only [Event.isInput, Bool.true_eq_false] at he
  case storeChunk chunkData hmain =>
    unfold State.storeChunk
    split <;> rfl
  all_goals rfl

/-- While the box is ticked a frame can be drawn from any rest. -/
theorem exists_frame (hi : Inv s) (hrest : AtRest s) (hon : s.updateChunk = true) :
    ∃ es s', Frame s es s' ∧ Inv s' ∧ s'.updateChunk = true := by
  obtain ⟨m, hm⟩ := exists_lock (hrest.locks .dataMtx) .main
  have h₁ := Next.updateChunks m hrest.main hon hm
  have hstep : ∀ s (e : Event n) s', Inv s ∧ s.updateChunk = true → e.isInput = false → step s e = some s' →
      (Inv s' ∧ s'.updateChunk = true) ∧ left s' < left s := fun s e s' hs he hse =>
    ⟨⟨inv_step hs.1 (next_of_step hse), (updateChunk_quiet he (next_of_step hse)).trans hs.2⟩,
      step_left hs.1 (next_of_step hse) he⟩
  obtain ⟨es, s', hes, hrun, ⟨hi', hon'⟩, hstuck⟩ := Lib.Runs.exists_stuck (fun s => Inv s ∧ s.updateChunk = true)
    (fun e : Event n => e.isInput = false) left hstep ⟨inv_step hi h₁, hon⟩
  exact ⟨es, s', ⟨hes, Lib.Runs.run_cons.mpr ⟨_, step_of_next h₁, hrun⟩, hstuck⟩, hi', hon'⟩

/-- A chunk has just been pushed. -/
theorem two_frames_packet : ∃ s s₂ : State 4, ∃ es₁ s₁ es₂,
    Lib.Runs.run step start [.client (.lock (.monoTypeChunk ⟨0, 0, 0⟩ 1)), .client .pushBack, .client .unlock] =
      some s ∧ Frame s es₁ s₁ ∧ Frame s₁ es₂ s₂ ∧ AtRest s₂ ∧ Quiescent s₂.complete := by
  obtain ⟨s, hrun⟩ : ∃ s, Lib.Runs.run step (start : State 4)
      [.client (.lock (.monoTypeChunk ⟨0, 0, 0⟩ 1)), .client .pushBack, .client .unlock] = some s := ⟨_, rfl⟩
  have hrest : AtRest s := by
    obtain rfl := Option.some.inj hrun
    refine ⟨rfl, rfl, fun _ => rfl, fun _ => rfl, fun l t => ?_⟩
    cases l <;> rfl
  have hon : s.updateChunk = true := by
    obtain rfl := Option.some.inj hrun
    rfl
  obtain ⟨es₁, s₁, h₁, hi₁, hon₁⟩ := exists_frame (inv_run hrun) hrest hon
  obtain ⟨es₂, s₂, h₂, _⟩ := exists_frame hi₁ (h₁.stuck.atRest hi₁) hon₁
  exact ⟨s, s₂, es₁, s₁, es₂, hrun, h₁, h₂, two_frames (by decide) _ hrun hrest es₁ es₂ h₁ h₂⟩

end MyMinecraft.Renderer.Threads
