import MyMinecraft.Renderer
import MyMinecraft.World.Drawable

/-! No rebuild is lost and no snapshot is torn.

A write to the world makes up to seven meshes out of date. From the write to the
upload, something always stands for each of them: a mark in `chunks_to_update`, a
task in the queue, a worker that has not copied its chunks yet, one that copied
them after the write, a finished list, or the upload itself. `Covered` is that
list, `covered_step` says a step moves along it, and in a quiescent state only the
last is left. In the other direction, a list published can be followed back to the
one instant at which its worker copied all its chunks. -/
namespace MyMinecraft.Renderer
variable {n N : Nat}

/-- The positions whose mesh a chunk at `q` is part of. -/
def Touches (q p : Ivec3) : Prop :=
  p = q ∨ ∃ d : FaceOrientation, p = q + getFaceOrientationVector d * (16 : Int)

/-! ### What happens in a run -/

abbrev Run (n N : Nat) := Lib.Runs.Execution (@step n) start N

/-- `createOrReplaceChunk(q, ..)`. -/
def WriteAt (x : Run n N) (k : Nat) (q : Ivec3) : Prop :=
  x.event k = .drain ∧ ∃ c rest, (x.state k).packets = c :: rest ∧ c.pos = q

/-- The task is handed to the pool. -/
def EnqueueAt (x : Run n N) (k : Nat) (task : Task Ivec3) : Prop :=
  x.event k = .enqueue task.body ∧ task.id = (x.state k).tp.enqueued

/-- A worker copies the chunks of its task. -/
def SnapshotAt (x : Run n N) (k : Nat) (task : Task Ivec3) : Prop :=
  ∃ w, x.event k = .snapshot w ∧ (x.state k).tp.threads w = .running task

/-- A worker stores the list of its task. -/
def PublishAt (x : Run n N) (k : Nat) (task : Task Ivec3) (vertices : List UInt32) : Prop :=
  ∃ w, x.event k = .publish w ∧ (x.state k).tp.threads w = .running task ∧
    (x.state (k + 1)).chunksVerticesToMesh.lookup task.body = some vertices

/-- The list is uploaded to the mesh at `p`. -/
def UploadAt (x : Run n N) (k : Nat) (p : Ivec3) (vertices : List UInt32) : Prop :=
  x.event k = .createChunksMesh ∧ (x.state k).chunksVerticesToMesh.lookup p = some vertices ∧
    ∃ mesh, (x.state (k + 1)).world.chunkMeshes.lookup p = some mesh ∧ mesh.vbo = some vertices

/-- Nothing is left to do. -/
structure Quiescent (s : State n) : Prop where
  packets : s.packets = []
  chunksToUpdate : s.chunksToUpdate = ∅
  tasks : s.tp.tasks = []
  published : ∀ p, s.chunksVerticesToMesh.lookup p = none
  workers : ∀ w task, s.tp.threads w ≠ .running task

theorem quiescent_iff (s : State n) : Quiescent s ↔ s.packets.isEmpty ∧ s.chunksToUpdate = ∅ ∧
    s.tp.tasks.isEmpty ∧ s.chunksVerticesToMesh.keys.isEmpty ∧
    ∀ w, (s.tp.threads w).isRunning = false := by
  have hkeys : s.chunksVerticesToMesh.keys = [] ↔ ∀ p, s.chunksVerticesToMesh.lookup p = none := by
    simp only [List.eq_nil_iff_forall_not_mem, AList.lookup_eq_none, AList.mem_keys]
  have hworkers : (∀ w, (s.tp.threads w).isRunning = false) ↔
      ∀ w task, s.tp.threads w ≠ .running task := by
    refine forall_congr' fun w => ?_
    cases s.tp.threads w <;> simp [Worker.isRunning]
  simp only [List.isEmpty_iff, hkeys, hworkers]
  constructor
  · intro h
    exact ⟨h.packets, h.chunksToUpdate, h.tasks, h.published, h.workers⟩
  · intro h
    obtain ⟨hp, hc, ht, hv, hw⟩ := h
    exact ⟨hp, hc, ht, hv, hw⟩

instance (s : State n) : Decidable (Quiescent s) := decidable_of_iff _ (quiescent_iff s).symm

/-! ### What a step does to each stage -/

variable {s s' : State n} {e : Event n} {p : Ivec3} {task : Task Ivec3} {w : Fin n}

/-- The positions marked and not yet enqueued. -/
def State.pending (s : State n) : Finset Ivec3 :=
  match s.mainThread with
  | .enqueueing rest => rest
  | _ => s.chunksToUpdate

/-- The renderer's table lists the chunk itself and its six neighbours. -/
theorem touches_iff {q : Ivec3} :
    Touches q p ↔ ∃ off ∈ neighborChunkpos, p = q + off * (16 : Int) := by
  constructor
  · intro h
    obtain rfl | ⟨d, rfl⟩ := h
    · exact ⟨⟨0, 0, 0⟩, by decide, by ext <;> simp⟩
    · exact ⟨getFaceOrientationVector d, by cases d <;> decide, rfl⟩
  · intro h
    obtain ⟨off, hoff, rfl⟩ := h
    simp only [neighborChunkpos, List.mem_cons, List.not_mem_nil, or_false] at hoff
    rcases hoff with rfl | rfl | rfl | rfl | rfl | rfl | rfl
    · exact .inr ⟨.front, rfl⟩
    · exact .inr ⟨.back, rfl⟩
    · exact .inr ⟨.left, rfl⟩
    · exact .inr ⟨.right, rfl⟩
    · exact .inr ⟨.top, rfl⟩
    · exact .inr ⟨.bottom, rfl⟩
    · left
      ext <;> simp

theorem mem_addChunk {chunksToUpdate : Finset Ivec3} {q : Ivec3} :
    p ∈ addChunk chunksToUpdate q ↔ p ∈ chunksToUpdate ∨ Touches q p := by
  have hfoldl (offs : List Ivec3) (acc : Finset Ivec3) :
      p ∈ offs.foldl (fun s off => insert (q + off * (16 : Int)) s) acc ↔
        p ∈ acc ∨ ∃ off ∈ offs, p = q + off * (16 : Int) := by
    induction offs generalizing acc with
    | nil => simp
    | cons off offs ih =>
      rw [List.foldl_cons, ih, Finset.mem_insert, List.exists_mem_cons_iff]
      tauto
  rw [addChunk, hfoldl, touches_iff]

theorem pending_step (h : Next s e s') (hp : p ∈ s.pending) :
    p ∈ s'.pending ∨ ∃ task ∈ s'.tp.tasks, task.body = p := by
  cases h with
  | updateChunks hmain =>
    rw [State.pending, hmain] at hp
    exact .inl hp
  | drain c rest hmain hpackets =>
    rw [State.pending, hmain] at hp
    left
    rw [State.pending]
    simp only [hmain]
    exact mem_addChunk.mpr (.inl hp)
  | drained hmain hpackets =>
    rw [State.pending, hmain] at hp
    exact .inl hp
  | enqueue pos rest hmain hpos =>
    rw [State.pending, hmain] at hp
    by_cases heq : p = pos
    · right
      refine ⟨⟨s.tp.enqueued, pos⟩, ?_, heq.symm⟩
      exact List.mem_append_right _ (List.mem_singleton_self _)
    · exact .inl (Finset.mem_erase.mpr ⟨heq, hp⟩)
  | enqueued hmain =>
    rw [State.pending, hmain] at hp
    exact absurd hp (Finset.notMem_empty p)
  | createChunksMesh hmain =>
    rw [State.pending, hmain] at hp
    exact .inl hp
  | _ => exact .inl hp

theorem pending_marked_step (h : Next s e s') (hs : s.pending ⊆ s.chunksToUpdate) :
    s'.pending ⊆ s'.chunksToUpdate := by
  cases h with
  | updateChunks hmain => exact Finset.Subset.refl _
  | drain c rest hmain hpackets =>
    rw [State.pending]
    simp only [hmain]
    exact Finset.Subset.refl _
  | drained hmain hpackets => exact Finset.Subset.refl _
  | enqueue pos rest hmain hpos =>
    rw [State.pending, hmain] at hs
    exact (Finset.erase_subset _ _).trans hs
  | enqueued hmain => exact Finset.Subset.refl _
  | createChunksMesh hmain => exact Finset.Subset.refl _
  | _ => exact hs

/-- A chunk is loaded only by a write, which marks it. -/
theorem loaded_step (h : Next s e s') (hp : p ∈ s'.world.chunks) :
    p ∈ s.world.chunks ∨ p ∈ s'.pending := by
  cases h with
  | drain c rest hmain hpackets =>
    rcases (World.create_mem_chunks _ _ _ _).mp hp with rfl | hold
    · right
      rw [State.pending]
      simp only [hmain]
      exact mem_addChunk.mpr (.inr (.inl rfl))
    · exact .inl hold
  | createChunksMesh hmain =>
    left
    rwa [World.createChunksMesh_chunks] at hp
  | _ => exact .inl hp

theorem loaded_mono (h : Next s e s') (hp : p ∈ s.world.chunks) : p ∈ s'.world.chunks := by
  cases h with
  | drain c rest hmain hpackets => exact (World.create_mem_chunks _ _ _ _).mpr (.inr hp)
  | createChunksMesh hmain => rwa [World.createChunksMesh_chunks]
  | _ => exact hp

theorem drawable_step (h : Next s e s') (hs : World.Drawable s.world) : World.Drawable s'.world := by
  cases h with
  | drain c rest hmain hpackets => exact hs.create c.pos c.blocktypes
  | createChunksMesh hmain => exact hs.upload s.chunksVerticesToMesh
  | _ => exact hs

theorem queued_step (h : Next s e s') (ht : task ∈ s.tp.tasks) :
    task ∈ s'.tp.tasks ∨ ∃ w, s'.tp.threads w = .running task ∧ s'.neighborChunks w = none := by
  cases h with
  | enqueue pos rest hmain hpos => exact .inl (List.mem_append_left _ ht)
  | take w head rest hw htasks =>
    rw [htasks] at ht
    rcases List.mem_cons.mp ht with rfl | hrest
    · exact .inr ⟨w, ThreadPool.setThread_self _ _ _, Function.update_self ..⟩
    · exact .inl hrest
  | _ => exact .inl ht

/-- The step of a worker leaves the others where they are. -/
theorem other_worker {v : Fin n} (h : Next s e s') (hv : e ≠ .acquire v) (hv' : e ≠ .snapshot v)
    (hv'' : e ≠ .publish v) :
    s'.tp.threads v = s.tp.threads v ∧ s'.neighborChunks v = s.neighborChunks v := by
  cases h with
  | take w head rest hw htasks =>
    have hne : v ≠ w := fun h => hv (h ▸ rfl)
    exact ⟨ThreadPool.setThread_ne _ _ hne, Function.update_of_ne hne ..⟩
  | exit w hw htasks =>
    have hne : v ≠ w := fun h => hv (h ▸ rfl)
    exact ⟨ThreadPool.setThread_ne _ _ hne, Function.update_of_ne hne ..⟩
  | snapshot w head hw hlocal =>
    have hne : v ≠ w := fun h => hv' (h ▸ rfl)
    exact ⟨rfl, Function.update_of_ne hne ..⟩
  | publish w head nchunks vertices hw hlocal hvertices =>
    have hne : v ≠ w := fun h => hv'' (h ▸ rfl)
    exact ⟨ThreadPool.setThread_ne _ _ hne, rfl⟩
  | _ => exact ⟨rfl, rfl⟩

theorem not_acquire (h : Next s e s') (hw : s.tp.threads w = .running task) : e ≠ .acquire w := by
  rintro rfl
  cases h with
  | take _ _ _ hwait _ => cases hw.symm.trans hwait
  | exit _ hwait _ => cases hw.symm.trans hwait

/-- A worker that runs a task and has copied nothing goes on to copy its chunks. -/
theorem fresh_step (h : Next s e s') (hw : s.tp.threads w = .running task)
    (hlocal : s.neighborChunks w = none) :
    s'.tp.threads w = .running task ∧ (s'.neighborChunks w = none ∨ (e = .snapshot w ∧
      s'.neighborChunks w = some (ChunkVertices.snapshot s.world.chunks task.body))) := by
  by_cases he : e = .snapshot w
  · subst he
    cases h with
    | snapshot _ head hhead _ =>
      obtain rfl := Worker.running.inj (hw.symm.trans hhead)
      exact ⟨hw, .inr ⟨rfl, Function.update_self ..⟩⟩
  · have hpublish : e ≠ .publish w := by
      rintro rfl
      cases h with
      | publish _ _ _ _ _ hsome _ => cases hlocal.symm.trans hsome
    obtain ⟨hthread, hchunks⟩ := other_worker h (not_acquire h hw) he hpublish
    exact ⟨hthread.trans hw, .inl (hchunks.trans hlocal)⟩

/-- A worker that has its copies goes on to publish. -/
theorem held_step {nchunks : Chunks} (h : Next s e s') (hw : s.tp.threads w = .running task)
    (hlocal : s.neighborChunks w = some nchunks) :
    (s'.tp.threads w = .running task ∧ s'.neighborChunks w = some nchunks) ∨
      (e = .publish w ∧ ∃ vertices, ChunkVertices.verticesOf nchunks task.body = .ok vertices ∧
        s'.chunksVerticesToMesh.lookup task.body = some vertices) := by
  by_cases he : e = .publish w
  · subst he
    right
    cases h with
    | publish _ head nchunks' vertices hhead hsome hvertices =>
      obtain rfl := Worker.running.inj (hw.symm.trans hhead)
      obtain rfl := Option.some.inj (hlocal.symm.trans hsome)
      exact ⟨rfl, vertices, hvertices, AList.lookup_insert _⟩
  · left
    have hsnapshot : e ≠ .snapshot w := by
      rintro rfl
      cases h with
      | snapshot _ _ _ hnone => cases hlocal.symm.trans hnone
    obtain ⟨hthread, hchunks⟩ := other_worker h (not_acquire h hw) hsnapshot he
    exact ⟨hthread.trans hw, hchunks.trans hlocal⟩

/-- A finished list stays until another list for its position is published or the
map is taken to the upload. -/
theorem published_step {vertices : List UInt32} (h : Next s e s')
    (hp : s.chunksVerticesToMesh.lookup p = some vertices) :
    s'.chunksVerticesToMesh.lookup p = some vertices ∨
      (∃ w task vertices', e = .publish w ∧ s.tp.threads w = .running task ∧ task.body = p ∧
        s'.chunksVerticesToMesh.lookup p = some vertices') ∨
      e = .createChunksMesh := by
  cases h with
  | createChunksMesh hmain => exact .inr (.inr rfl)
  | publish w task nchunks vertices' hw hlocal hvertices =>
    by_cases heq : task.body = p
    · subst heq
      exact .inr (.inl ⟨w, task, vertices', rfl, hw, rfl, AList.lookup_insert _⟩)
    · left
      show (s.chunksVerticesToMesh.insert task.body vertices').lookup p = _
      rw [Lib.Map.lookup_insert, if_neg (Ne.symm heq), hp]
  | _ => exact .inl hp

/-- The upload takes a waiting list to its mesh. -/
theorem upload_step {vertices : List UInt32} (h : Next s .createChunksMesh s')
    (hs : World.Drawable s.world) (hloaded : p ∈ s.world.chunks)
    (hp : s.chunksVerticesToMesh.lookup p = some vertices) :
    s'.chunksVerticesToMesh.lookup p = none ∧
      ∃ mesh, s'.world.chunkMeshes.lookup p = some mesh ∧ mesh.vbo = some vertices := by
  cases h with
  | createChunksMesh hmain => exact ⟨AList.lookup_empty p, hs.uploads _ p vertices hloaded hp⟩

/-- A write loads its chunk and marks every mesh it touches. -/
theorem write_step {x : Run n N} {i : Nat} {q : Ivec3} (hw : WriteAt x i q)
    (hnext : Next (x.state i) (x.event i) (x.state (i + 1))) :
    q ∈ (x.state (i + 1)).world.chunks ∧ ∀ p, Touches q p → p ∈ (x.state (i + 1)).pending := by
  obtain ⟨he, c, rest, hpackets, rfl⟩ := hw
  rw [he] at hnext
  generalize x.state (i + 1) = s' at hnext ⊢
  cases hnext with
  | drain c' rest' hmain hpackets' =>
    obtain ⟨rfl, -⟩ := List.cons.inj (hpackets.symm.trans hpackets')
    refine ⟨(World.create_mem_chunks _ _ _ _).mpr (.inl rfl), fun p ht => ?_⟩
    rw [State.pending]
    simp only [hmain]
    exact mem_addChunk.mpr (.inr ht)

/-! ### From a write to the upload -/

/-- Task `task` for `p` copied its chunks at `j`, after instant `i`, and published the list
of that snapshot at `k`. -/
structure MadeSince (x : Run n N) (i j k : Nat) (p : Ivec3) (task : Task Ivec3)
    (vertices : List UInt32) : Prop where
  after : i < j
  before : j < k
  body : task.body = p
  snapshot : SnapshotAt x j task
  list : ChunkVertices.createChunkVertices (x.state j).world.chunks p = .ok vertices
  publish : PublishAt x k task vertices

/-- Some list for `p` was made since instant `i`, and `vertices` is that list or one
published for `p` later. -/
def PublishedSince (x : Run n N) (i K : Nat) (p : Ivec3) (vertices : List UInt32) : Prop :=
  ∃ j k k' task first task', MadeSince x i j k p task first ∧ k ≤ k' ∧ k' < K ∧
    PublishAt x k' task' vertices ∧ task'.body = p

/-- Such a list was uploaded to the mesh at `p`. -/
def Rebuilt (x : Run n N) (i K : Nat) (p : Ivec3) : Prop :=
  ∃ m vertices, m < K ∧ PublishedSince x i m p vertices ∧ UploadAt x m p vertices

/-- What stands at instant `K` for the mesh at `p` that a write at `i` made out of date. -/
inductive Covered (x : Run n N) (i K : Nat) (p : Ivec3) : Prop where
  | unloaded (hp : p ∉ (x.state K).world.chunks)
  | pending (hp : p ∈ (x.state K).pending)
  | queued (task : Task Ivec3) (ht : task ∈ (x.state K).tp.tasks) (hp : task.body = p)
  | fresh (w : Fin n) (task : Task Ivec3) (hw : (x.state K).tp.threads w = .running task)
      (hlocal : (x.state K).neighborChunks w = none) (hp : task.body = p)
  | held (w : Fin n) (task : Task Ivec3) (j : Nat) (hij : i < j) (hjK : j < K)
      (hsnapshot : SnapshotAt x j task) (hw : (x.state K).tp.threads w = .running task)
      (hlocal : (x.state K).neighborChunks w =
        some (ChunkVertices.snapshot (x.state j).world.chunks task.body)) (hp : task.body = p)
  | published (vertices : List UInt32) (hsince : PublishedSince x i K p vertices)
      (hp : (x.state K).chunksVerticesToMesh.lookup p = some vertices)
  | rebuilt (h : Rebuilt x i K p)

theorem PublishedSince.mono {x : Run n N} {i K K' : Nat} {vertices : List UInt32}
    (h : PublishedSince x i K p vertices) (hK : K ≤ K') : PublishedSince x i K' p vertices := by
  obtain ⟨j, k, k', task, first, task', hmade, hkk', hk'K, hrest⟩ := h
  exact ⟨j, k, k', task, first, task', hmade, hkk', by omega, hrest⟩

/-- Nothing stands for a chunk that is not loaded, until the write that loads it marks it. -/
theorem covered_unloaded {x : Run n N} {i K : Nat}
    (hnext : Next (x.state K) (x.event K) (x.state (K + 1))) (hp : p ∉ (x.state K).world.chunks) :
    Covered x i (K + 1) p := by
  by_cases hp' : p ∈ (x.state (K + 1)).world.chunks
  · exact .pending ((loaded_step hnext hp').resolve_left hp)
  · exact .unloaded hp'

/-- Every stage moves on to itself or to a later one. -/
theorem covered_step {x : Run n N} {i K : Nat} (hiK : i < K)
    (hdrawable : World.Drawable (x.state K).world) (hnext : Next (x.state K) (x.event K) (x.state (K + 1)))
    (h : Covered x i K p) : Covered x i (K + 1) p := by
  cases h with
  | unloaded hp => exact covered_unloaded hnext hp
  | pending hp =>
    obtain hp' | ⟨task, ht, hbody⟩ := pending_step hnext hp
    · exact .pending hp'
    · exact .queued task ht hbody
  | queued task ht hp =>
    obtain ht' | ⟨w, hw, hlocal⟩ := queued_step hnext ht
    · exact .queued task ht' hp
    · exact .fresh w task hw hlocal hp
  | fresh w task hw hlocal hp =>
    obtain ⟨hw', hlocal' | ⟨he, hlocal'⟩⟩ := fresh_step hnext hw hlocal
    · exact .fresh w task hw' hlocal' hp
    · exact .held w task K hiK (Nat.lt_succ_self K) ⟨w, he, hw⟩ hw' hlocal' hp
  | held w task j hij hjK hsnapshot hw hlocal hp =>
    obtain ⟨hw', hlocal'⟩ | ⟨he, vertices, hvertices, hv⟩ := held_step hnext hw hlocal
    · exact .held w task j hij (Nat.lt_succ_of_lt hjK) hsnapshot hw' hlocal' hp
    · subst hp
      have hmade : MadeSince x i j K task.body task vertices :=
        ⟨hij, hjK, rfl, hsnapshot, hvertices, w, he, hw, hv⟩
      refine .published vertices ?_ hv
      exact ⟨j, K, K, task, vertices, task, hmade, Nat.le_refl K, Nat.lt_succ_self K, hmade.publish, rfl⟩
  | published vertices hsince hp =>
    obtain hp' | ⟨w, task', vertices', he, hw, hbody, hv⟩ | he := published_step hnext hp
    · exact .published vertices (hsince.mono (Nat.le_succ K)) hp'
    · -- another list takes its place: that is a later published list
      obtain ⟨j, k, k', task, first, _, hmade, hkk', hk'K, _⟩ := hsince
      refine .published vertices' ?_ hv
      exact ⟨j, k, K, task, first, task', hmade, by omega, Nat.lt_succ_self K,
        ⟨w, he, hw, hbody.symm ▸ hv⟩, hbody⟩
    · by_cases hloaded : p ∈ (x.state K).world.chunks
      · have hup := (upload_step (he ▸ hnext) hdrawable hloaded hp).2
        exact .rebuilt ⟨K, vertices, Nat.lt_succ_self K, hsince, he, hp, hup⟩
      · -- the uploader drops the list
        exact covered_unloaded hnext hloaded
  | rebuilt h =>
    obtain ⟨m, vertices, hmK, hrest⟩ := h
    exact .rebuilt ⟨m, vertices, Nat.lt_succ_of_lt hmK, hrest⟩

theorem drawable_run (x : Run n N) {k : Nat} (hk : k ≤ N) : World.Drawable (x.state k).world := by
  refine x.invariant (fun k => World.Drawable (x.state k).world) ?_ ?_ k hk
  · rw [x.start]
    exact .of_keys (fun p => iff_of_false (AList.notMem_empty p) (AList.notMem_empty p))
      (fun p m hm => by simp [start, World.empty] at hm)
  · exact fun k _ hk hs => drawable_step (next_of_step hs) hk

theorem pending_marked (x : Run n N) {k : Nat} (hk : k ≤ N) :
    (x.state k).pending ⊆ (x.state k).chunksToUpdate := by
  refine x.invariant (fun k => (x.state k).pending ⊆ (x.state k).chunksToUpdate) ?_ ?_ k hk
  · rw [x.start]
    exact Finset.Subset.refl _
  · exact fun k _ hk hs => pending_marked_step (next_of_step hs) hk

theorem covered_run (x : Run n N) {i K : Nat} {q : Ivec3} (hK : K ≤ N) (hiK : i < K)
    (hw : WriteAt x i q) (ht : Touches q p) : Covered x i K p := by
  induction K, hiK using Nat.le_induction with
  | base => exact .pending ((write_step hw (next_of_step (x.next i hK))).2 p ht)
  | succ K hiK ih =>
    exact covered_step hiK (drawable_run x (Nat.le_of_succ_le hK)) (next_of_step (x.next K hK))
      (ih (Nat.le_of_succ_le hK))

/-- In a quiescent state the upload is all that can stand for a loaded chunk. -/
theorem rebuilt_of_quiescent (x : Run n N) {i K : Nat} {q : Ivec3} (hK : K ≤ N) (hiK : i < K)
    (hw : WriteAt x i q) (ht : Touches q p) (hq : Quiescent (x.state K))
    (hloaded : p ∈ (x.state K).world.chunks) : Rebuilt x i K p := by
  cases covered_run x hK hiK hw ht with
  | unloaded hp => exact absurd hloaded hp
  | pending hp =>
    have hmarked := pending_marked x hK hp
    rw [hq.chunksToUpdate] at hmarked
    exact absurd hmarked (Finset.notMem_empty p)
  | queued task ht hp =>
    rw [hq.tasks] at ht
    exact absurd ht List.not_mem_nil
  | fresh w task hw hlocal hp => exact absurd hw (hq.workers w task)
  | held w task j hij hjK hsnapshot hw hlocal hp => exact absurd hw (hq.workers w task)
  | published vertices hsince hp =>
    rw [hq.published p] at hp
    cases hp
  | rebuilt h => exact h

/-! ### From a published list back to its snapshot -/

/-- In the queue or in a worker's hands. -/
def Live (s : State n) (task : Task Ivec3) : Prop :=
  task ∈ s.tp.tasks ∨ ∃ w, s.tp.threads w = .running task

theorem live_step (h : Next s e s') (hlive : Live s' task) :
    Live s task ∨ (e = .enqueue task.body ∧ task.id = s.tp.enqueued) := by
  cases h with
  | enqueue pos rest hmain hpos =>
    rcases hlive with htasks | hrunning
    · rcases List.mem_append.mp htasks with hold | hnew
      · exact .inl (.inl hold)
      · obtain rfl := List.mem_singleton.mp hnew
        exact .inr ⟨rfl, rfl⟩
    · exact .inl (.inr hrunning)
  | take w head rest hw htasks =>
    left
    rcases hlive with hrest | ⟨v, hv⟩
    · exact .inl (htasks ▸ List.mem_cons_of_mem head hrest)
    · rcases ThreadPool.setThread_running hv with ⟨-, hhead⟩ | ⟨-, hold⟩
      · obtain rfl := Worker.running.inj hhead
        exact .inl (htasks ▸ List.mem_cons_self ..)
      · exact .inr ⟨v, hold⟩
  | exit w hw htasks =>
    left
    rcases hlive with hrest | ⟨v, hv⟩
    · exact .inl hrest
    · rcases ThreadPool.setThread_running hv with ⟨-, hexit⟩ | ⟨-, hold⟩
      · cases hexit
      · exact .inr ⟨v, hold⟩
  | publish w head nchunks vertices hw hlocal hvertices =>
    left
    rcases hlive with hrest | ⟨v, hv⟩
    · exact .inl hrest
    · rcases ThreadPool.setThread_running hv with ⟨-, hwait⟩ | ⟨-, hold⟩
      · cases hwait
      · exact .inr ⟨v, hold⟩
  | _ => exact .inl hlive

/-- A worker's copies were made by its own snapshot. -/
theorem held_back {nchunks : Chunks} (h : Next s e s') (hw : s'.tp.threads w = .running task)
    (hlocal : s'.neighborChunks w = some nchunks) :
    (s.tp.threads w = .running task ∧ s.neighborChunks w = some nchunks) ∨
      (e = .snapshot w ∧ s.tp.threads w = .running task ∧
        nchunks = ChunkVertices.snapshot s.world.chunks task.body) := by
  by_cases he : e = .snapshot w
  · subst he
    right
    cases h with
    | snapshot _ head hhead _ =>
      obtain rfl := Worker.running.inj (hw.symm.trans hhead)
      have hcopy := (Function.update_self ..).symm.trans hlocal
      exact ⟨rfl, hw, (Option.some.inj hcopy).symm⟩
  · left
    have hacquire : e ≠ .acquire w := by
      rintro rfl
      cases h with
      | take _ _ _ _ _ => cases (Function.update_self ..).symm.trans hlocal
      | exit _ _ _ => cases (Function.update_self ..).symm.trans hlocal
    have hpublish : e ≠ .publish w := by
      rintro rfl
      cases h with
      | publish _ _ _ _ _ _ _ => cases (ThreadPool.setThread_self _ _ _).symm.trans hw
    obtain ⟨hthread, hchunks⟩ := other_worker h hacquire he hpublish
    exact ⟨hthread.symm.trans hw, hchunks.symm.trans hlocal⟩

theorem live_run (x : Run n N) {K : Nat} (hK : K ≤ N) (h : Live (x.state K) task) :
    ∃ i < K, EnqueueAt x i task := by
  refine x.invariant (fun K => Live (x.state K) task → ∃ i < K, EnqueueAt x i task) ?_ ?_ K hK h
  · intro h
    rw [x.start] at h
    rcases h with hnil | ⟨w, hw⟩
    · exact absurd hnil List.not_mem_nil
    · cases hw
  · intro K _ ih hs hlive
    rcases live_step (next_of_step hs) hlive with hold | hnew
    · obtain ⟨i, hi, hat⟩ := ih hold
      exact ⟨i, Nat.lt_succ_of_lt hi, hat⟩
    · exact ⟨K, Nat.lt_succ_self K, hnew⟩

/-- The copies a worker holds are the world's chunks of one instant, after its task
was enqueued. -/
theorem held_run (x : Run n N) {K : Nat} {nchunks : Chunks} (hK : K ≤ N)
    (hw : (x.state K).tp.threads w = .running task)
    (hlocal : (x.state K).neighborChunks w = some nchunks) :
    ∃ i j, i < j ∧ j < K ∧ EnqueueAt x i task ∧ SnapshotAt x j task ∧
      nchunks = ChunkVertices.snapshot (x.state j).world.chunks task.body := by
  induction K with
  | zero =>
    rw [x.start] at hw
    cases hw
  | succ K ih =>
    have hnext := next_of_step (x.next K hK)
    rcases held_back hnext hw hlocal with ⟨hw', hlocal'⟩ | ⟨he, hw', rfl⟩
    · obtain ⟨i, j, hij, hjK, hrest⟩ := ih (Nat.le_of_succ_le hK) hw' hlocal'
      exact ⟨i, j, hij, Nat.lt_succ_of_lt hjK, hrest⟩
    · obtain ⟨i, hi, henqueue⟩ := live_run x (Nat.le_of_succ_le hK) (.inr ⟨w, hw'⟩)
      exact ⟨i, K, hi, Nat.lt_succ_self K, henqueue, ⟨w, he, hw'⟩, rfl⟩

/-- A published list is the list of one world, the one its worker copied. -/
theorem published_source (x : Run n N) {k : Nat} {vertices : List UInt32} (hk : k < N)
    (h : PublishAt x k task vertices) :
    ∃ i j, i < j ∧ j < k ∧ EnqueueAt x i task ∧ SnapshotAt x j task ∧
      ChunkVertices.createChunkVertices (x.state j).world.chunks task.body = .ok vertices := by
  obtain ⟨w, he, hw, hlookup⟩ := h
  have hnext := next_of_step (x.next k hk)
  rw [he] at hnext
  generalize x.state (k + 1) = s' at hnext hlookup
  cases hnext with
  | publish _ head nchunks vertices' hhead hlocal hvertices =>
    obtain rfl := Worker.running.inj (hw.symm.trans hhead)
    dsimp only at hlookup
    rw [AList.lookup_insert] at hlookup
    obtain rfl := Option.some.inj hlookup
    obtain ⟨i, j, hij, hjk, henqueue, hsnapshot, rfl⟩ := held_run x (Nat.le_of_lt hk) hw hlocal
    exact ⟨i, j, hij, hjk, henqueue, hsnapshot, hvertices⟩

/-! ### The theorem -/

/-- Every list published is the list `createChunkVertices` computes on the world as it
was at one instant after its task was enqueued. -/
def NoTornSnapshot (x : Run n N) : Prop :=
  ∀ k < N, ∀ task vertices, PublishAt x k task vertices →
    ∃ i j, i < j ∧ j < k ∧ EnqueueAt x i task ∧ SnapshotAt x j task ∧
      ChunkVertices.createChunkVertices (x.state j).world.chunks task.body = .ok vertices

/-- When nothing is left to do, every loaded mesh that a write touched was rebuilt from
a snapshot after the write. -/
def NoLostRebuild (x : Run n N) : Prop :=
  ∀ K ≤ N, Quiescent (x.state K) → ∀ i < K, ∀ q p, WriteAt x i q → Touches q p →
    p ∈ (x.state K).world.chunks → Rebuilt x i K p

/-- **No rebuild is lost and no snapshot is torn**, in every run and for any number of workers. -/
theorem rebuilds (x : Run n N) : NoTornSnapshot x ∧ NoLostRebuild x := by
  constructor
  · intro k hk task vertices hpublish
    exact published_source x hk hpublish
  · intro K hK hq i hiK q p hw ht hloaded
    exact rebuilt_of_quiescent x hK hiK hw ht hq hloaded

end MyMinecraft.Renderer
