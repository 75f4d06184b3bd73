import MyMinecraft.Renderer.Threads

/-! No data race in the chunk pipeline.

Each event lists the shared containers it reads and those it writes (`Event.reads`,
`Event.writes`); what is listed is all that counts, since an event goes on in the same way
whatever is in the containers it does not list, and leaves them as they are (`next_change`).
`race_free`: of two threads that could go on in a reachable state, neither writes what the
other reads or writes. The main thread reads the world without a lock all the same:
it is the only one that ever writes to it. -/
namespace MyMinecraft.Renderer.Threads
open Lib.Locks

variable {n : Nat} {s s' : State n} {e : Event n}

/-- The containers more than one function reaches. -/
inductive Place where
  /-- `client.data.chunks`. -/
  | packets
  | chunks
  | chunkMeshes
  | chunksVerticesToMesh

def Event.reads : Event n → List Place
  | .main .look => [.chunks, .chunkMeshes]
  | .main .popFront | .main .drained => [.packets]
  | .main .storeChunk => [.chunks]
  | .main .lockMeshes | .main .upload => [.chunksVerticesToMesh]
  | .worker _ .find => [.chunks]
  | _ => []

def Event.writes : Event n → List Place
  | .client .pushBack | .main .popFront => [.packets]
  | .main .storeChunk => [.chunks]
  | .main .storeMesh | .main .upload => [.chunkMeshes]
  | .main .clear | .worker _ .store => [.chunksVerticesToMesh]
  | _ => []

/-- What a thread that writes to a place has: the place's lock, or it is the only thread to
come there. -/
def Place.Owned (s : State n) (t : Thread n) : Place → Prop
  | .packets => s.holds t .dataMtx = .exclusive
  | .chunks => s.holds t .chunkMtx = .exclusive
  | .chunkMeshes => t = .main
  | .chunksVerticesToMesh => s.holds t .chunksVerticesToMeshMtx = .exclusive

theorem owned_of_writes (h : Next s e s') {p : Place} (hp : p ∈ e.writes) : p.Owned s e.thread := by
  cases h <;> simp only [Event.writes, List.mem_singleton, List.not_mem_nil] at hp
  case pushBack packet hclient =>
    subst hp
    simp only [Place.Owned, State.holds, Event.thread, hclient, ClientAt.holds]
  case popFront chunkData rest hmain hpackets =>
    subst hp
    simp only [Place.Owned, State.holds, Event.thread, hmain, MainAt.holds]
  case storeChunk chunkData hmain =>
    subst hp
    simp only [Place.Owned, State.holds, Event.thread, hmain, MainAt.holds]
  case storeMesh pos hmain =>
    subst hp
    rfl
  case upload e rest hmain =>
    subst hp
    rfl
  case clear hmain =>
    subst hp
    simp only [Place.Owned, State.holds, Event.thread, hmain, MainAt.holds]
  case store w task vertices hw hworker =>
    subst hp
    simp only [Place.Owned, State.holds, Event.thread, hworker, WorkerAt.holds]

/-- Only the main thread ever has `chunk_mtx` to itself. -/
theorem chunkMtx_main {t : Thread n} (h : s.holds t .chunkMtx = .exclusive) : t = .main := by
  cases t with
  | main => rfl
  | client =>
    simp only [State.holds] at h
    cases hc : s.client <;> rw [hc] at h <;> cases h
  | worker w =>
    simp only [State.holds] at h
    cases hw : s.worker w <;> rw [hw] at h <;> cases h

/-- While a thread reads a place no other thread is in a position to write to it. -/
theorem not_owned_of_reads (hi : Inv s) (h : Next s e s') {p : Place} (hp : p ∈ e.reads ∨ p ∈ e.writes)
    {t : Thread n} (ht : t ≠ e.thread) : ¬ p.Owned s t := by
  intro howned
  -- an owner here is an owner there
  have hboth {l : Lock} (hown : s.holds t l = .exclusive) (he : s.holds e.thread l ≠ .out) : False :=
    ht (hi.locks.exclusive hown he).symm
  rcases hp with hread | hwrite
  · cases h <;> simp only [Event.reads, List.mem_cons, List.not_mem_nil, or_false] at hread
    case look hmain =>
      rcases hread with rfl | rfl
      · exact ht (chunkMtx_main howned)
      · exact ht howned
    case popFront chunkData rest hmain hpackets =>
      subst hread
      exact hboth howned (by simp [State.holds, Event.thread, hmain, MainAt.holds])
    case drained hmain hpackets =>
      subst hread
      exact hboth howned (by simp [State.holds, Event.thread, hmain, MainAt.holds])
    case storeChunk chunkData hmain =>
      subst hread
      exact ht (chunkMtx_main howned)
    case lockMeshes m hmain hm =>
      subst hread
      have hout := (SharedMutex.lock_mode hm).1 t
      rw [hi.locks, howned] at hout
      cases hout
    case upload e rest hmain =>
      subst hread
      exact hboth howned (by simp [State.holds, Event.thread, hmain, MainAt.holds])
    case find w task pos rest hw hworker =>
      subst hread
      exact hboth howned (by simp [State.holds, Event.thread, hworker, WorkerAt.holds])
  · have hmine := owned_of_writes h hwrite
    cases p with
    | packets | chunks | chunksVerticesToMesh => exact hboth howned (by rw [hmine]; decide)
    | chunkMeshes => exact ht (howned.trans hmine.symm)


/-- Another content for a place. -/
inductive Change : Place → (State n → State n) → Prop where
  | packets (x : List ChunkData) : Change .packets fun s => {s with packets := x}
  | chunks (x : Chunks) : Change .chunks fun s => {s with world.chunks := x}
  | chunkMeshes (x : AList fun _ : Ivec3 => ChunkMesh) :
    Change .chunkMeshes fun s => {s with world.chunkMeshes := x}
  | chunksVerticesToMesh (x : AList fun _ : Ivec3 => List UInt32) :
    Change .chunksVerticesToMesh fun s => {s with chunksVerticesToMesh := x}

variable {p : Place} {f : State n → State n}

theorem uploadMesh_setChunks (w : World) (pos : Ivec3) (vertices : List UInt32) (x : Chunks) :
    ({w with chunks := x} : World).uploadMesh pos vertices = {w.uploadMesh pos vertices with chunks := x} := by
  simp only [World.uploadMesh]
  cases w.chunkMeshes.lookup pos <;> rfl

theorem storeChunk_change (hf : Change p f) (hp : p ≠ .chunks) (s : State n) (chunkData : ChunkData) :
    (f s).storeChunk chunkData = f (s.storeChunk chunkData) := by
  cases hf
  case chunks => exact absurd rfl hp
  all_goals
    simp only [State.storeChunk]
    cases s.world.chunks.lookup chunkData.pos <;> rfl

/-- A step does not see what is in a place it does not list, and leaves it there. -/
theorem next_change (h : Next s e s') (hf : Change p f) (hread : p ∉ e.reads) (hwrite : p ∉ e.writes) :
    Next (f s) e (f s') := by
  cases h with
  | push packet m hclient hm => cases hf <;> exact .push packet m hclient hm
  | pushBack packet hclient =>
    cases hf
    · exact absurd (List.mem_singleton_self _) hwrite
    all_goals exact .pushBack packet hclient
  | pushed hclient => cases hf <;> exact .pushed hclient
  | toggle hmain => cases hf <;> exact .toggle hmain
  | look hmain => cases hf <;> exact .look hmain
  | lockEntities m hmain hm => cases hf <;> exact .lockEntities m hmain hm
  | updateChunks m hmain hon hm => cases hf <;> exact .updateChunks m hmain hon hm
  | lockChunk chunkData m hmain hm => cases hf <;> exact .lockChunk chunkData m hmain hm
  | unlockEntities hmain => cases hf <;> exact .unlockEntities hmain
  | popFront chunkData rest hmain hpackets =>
    cases hf
    · exact absurd (List.mem_singleton_self _) hwrite
    all_goals exact .popFront chunkData rest hmain hpackets
  | drained hmain hpackets =>
    cases hf
    · exact absurd (List.mem_singleton_self _) hread
    all_goals exact .drained hmain hpackets
  | lockMeshes m hmain hm =>
    cases hf
    case chunksVerticesToMesh => exact absurd (List.mem_singleton_self _) hread
    all_goals exact .lockMeshes m hmain hm
  | unlockChunk pos hmain => cases hf <;> exact .unlockChunk pos hmain
  | unlockMeshes hmain => cases hf <;> exact .unlockMeshes hmain
  | addChunk pos hmain => cases hf <;> exact .addChunk pos hmain
  | enqueue pos rest hmain hpos => cases hf <;> exact .enqueue pos rest hmain hpos
  | enqueued hmain => cases hf <;> exact .enqueued hmain
  | clear hmain =>
    cases hf
    case chunksVerticesToMesh => exact absurd (List.mem_singleton_self _) hwrite
    all_goals exact .clear hmain
  | storeMesh pos hmain =>
    cases hf
    case chunkMeshes => exact absurd (List.mem_singleton_self _) hwrite
    all_goals exact .storeMesh pos hmain
  | upload e rest hmain =>
    cases hf
    case chunkMeshes => exact absurd (List.mem_singleton_self _) hwrite
    case chunksVerticesToMesh => exact absurd (List.mem_singleton_self _) hread
    · exact .upload e rest hmain
    · next x =>
      have hupload := Next.upload (s := {s with world.chunks := x}) e rest hmain
      rwa [uploadMesh_setChunks] at hupload
  | storeChunk chunkData hmain =>
    rw [← storeChunk_change hf (fun hp => hread (by rw [hp]; exact List.mem_singleton_self _))]
    cases hf <;> exact .storeChunk chunkData hmain
  | take w task rest hw htasks => cases hf <;> exact .take w task rest hw htasks
  | exit w hw htasks hstop => cases hf <;> exact .exit w hw htasks hstop
  | lockShared w task m hw hworker hm => cases hf <;> exact .lockShared w task m hw hworker hm
  | unlockShared w task hw hworker => cases hf <;> exact .unlockShared w task hw hworker
  | lock w task vertices m hw hworker hm => cases hf <;> exact .lock w task vertices m hw hworker hm
  | unlock w task hw hworker => cases hf <;> exact .unlock w task hw hworker
  | find w task pos rest hw hworker =>
    cases hf
    case chunks => exact absurd (List.mem_singleton_self _) hread
    all_goals exact .find w task pos rest hw hworker
  | build w task vertices hw hworker hvertices =>
    cases hf <;> exact .build w task vertices hw hworker hvertices
  | store w task vertices hw hworker =>
    cases hf
    case chunksVerticesToMesh => exact absurd (List.mem_singleton_self _) hwrite
    all_goals exact .store w task vertices hw hworker
  | finish w task hw hworker => cases hf <;> exact .finish w task hw hworker

/-- **The threads of the pipeline do not race.** When two of them can go on, at any moment of
any run, what the one writes to the other neither reads nor writes: whatever the one
leaves there, the other's step is the same. -/
theorem race_free (es : List (Event n)) (hrun : Lib.Runs.run step start es = some s) {e₁ e₂ : Event n}
    {s₁ s₂ : State n} (hne : e₁.thread ≠ e₂.thread) (h₁ : step s e₁ = some s₁) (h₂ : step s e₂ = some s₂) :
    ∀ p ∈ e₁.writes, p ∉ e₂.reads ∧ p ∉ e₂.writes ∧
      ∀ f : State n → State n, Change p f → step (f s) e₂ = some (f s₂) := by
  intro p hp
  have hi := inv_run hrun
  have howned := owned_of_writes (next_of_step h₁) hp
  have hout : ¬ (p ∈ e₂.reads ∨ p ∈ e₂.writes) := by
    intro hin
    exact not_owned_of_reads hi (next_of_step h₂) hin hne howned
  obtain ⟨hread, hwrite⟩ := not_or.mp hout
  exact ⟨hread, hwrite, fun f hf => step_of_next (next_change (next_of_step h₂) hf hread hwrite)⟩

/-- The only packet is taken from the queue, and the meshes it is part of are handed to the workers. -/
def oneDrained : List MainEvent :=
  .updateChunks :: .popFront :: .lockChunk :: .storeChunk :: .storeMesh :: .unlockChunk :: .addChunk :: .drained ::
    neighborChunkpos.map fun off => .enqueue (off * (16 : Int))

/-- A task, up to the unlock after its list is stored. -/
def oneMeshed : List WorkerEvent :=
  .acquire :: .lockShared :: List.replicate 7 .find ++ [.unlockShared, .build, .lock, .store, .unlock]

/-- One worker has stored a list and the main thread is about to upload it, while another copies its chunks. -/
def uploadingRun (w w' : Fin n) : List (Event n) :=
  .client (.lock (.monoTypeChunk ⟨0, 0, 0⟩ 1)) :: .client .pushBack :: .client .unlock ::
    oneDrained.map Event.main ++ .main .enqueued :: oneMeshed.map (Event.worker w) ++
      [.worker w' .acquire, .worker w' .lockShared, .main .lockMeshes]

theorem race_free_rendering : ∃ s s₁ s₂ : State 4, Lib.Runs.run step start (uploadingRun 2 3) = some s ∧
    step s (.main .upload) = some s₁ ∧ step s (.worker 3 .find) = some s₂ ∧
      ∀ p ∈ (.main .upload : Event 4).writes,
        p ∉ (.worker 3 .find : Event 4).reads ∧ p ∉ (.worker 3 .find : Event 4).writes ∧
          ∀ f : State 4 → State 4, Change p f → step (f s) (.worker 3 .find) = some (f s₂) := by
  have hany : (Lib.Runs.run step (start : State 4) (uploadingRun 2 3)).any
      (fun s => (step s (.main .upload)).isSome && (step s (.worker 3 .find)).isSome) = true := by
    delta step workerStep taskStep
    rw [ChunkVertices.verticesOf_eq_meshOf]
    decide +kernel
  obtain ⟨s, hrun, hs⟩ := (Option.any_eq_true _ _).mp hany
  obtain ⟨hupload, hfind⟩ := Bool.and_eq_true_iff.mp hs
  obtain ⟨s₁, h₁⟩ := Option.isSome_iff_exists.mp hupload
  obtain ⟨s₂, h₂⟩ := Option.isSome_iff_exists.mp hfind
  exact ⟨s, s₁, s₂, hrun, h₁, h₂, race_free (uploadingRun 2 3) hrun nofun h₁ h₂⟩

end MyMinecraft.Renderer.Threads
