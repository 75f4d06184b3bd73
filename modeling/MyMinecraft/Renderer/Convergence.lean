import MyMinecraft.ChunkVertices.Exact
import MyMinecraft.Renderer.Rebuild

/-! Meshes converge unless an older list is published over a newer one.

A task copies its chunks and stores its list in two critical sections, and the map
keeps whichever list for a position was stored last. Two tasks for one position,
from different frames, can therefore store their lists in the order opposite to
their copies; the older list is uploaded and nothing marks the mesh again
(`stale_mesh`). That is the only way to go wrong: in a run where no publish is
stale, every mesh in a quiescent state is the one the world asks for. -/
namespace MyMinecraft.Renderer
open ChunkVertices (createChunkVertices copied)
variable {n N : Nat}

/-! ### What a mesh depends on -/

/-- The two tables hold the same offsets: a write marks the meshes that copy it. -/
theorem mem_copied_iff {p q : Ivec3} : q ∈ copied p ↔ Touches q p := by
  have hback (off : Ivec3) : q = p + off * (16 : Int) ↔ p = q + (-off) * (16 : Int) := by
    simp only [Ivec3.ext_iff, Ivec3.add_x, Ivec3.add_y, Ivec3.add_z, Ivec3.mul_x, Ivec3.mul_y,
      Ivec3.mul_z, Ivec3.neg_x, Ivec3.neg_y, Ivec3.neg_z]
    omega
  have hthere : ∀ off ∈ ChunkVertices.neighborChunkpos.toList, -off ∈ neighborChunkpos := by decide
  have hhere : ∀ off ∈ neighborChunkpos, -off ∈ ChunkVertices.neighborChunkpos.toList := by decide
  rw [touches_iff, copied, List.mem_map]
  constructor
  · intro h
    obtain ⟨off, hoff, hq⟩ := h
    exact ⟨-off, hthere off hoff, (hback off).mp hq.symm⟩
  · intro h
    obtain ⟨off, hoff, hp⟩ := h
    refine ⟨-off, hhere off hoff, ((hback (-off)).mpr ?_).symm⟩
    rwa [neg_neg]

/-- A write elsewhere leaves the list for `p` as it was. -/
theorem createChunkVertices_insert (chunks : Chunks) {p q : Ivec3} (chunk : Chunk) (h : ¬ Touches q p) :
    createChunkVertices (chunks.insert q chunk) p = createChunkVertices chunks p := by
  have hsnapshot : ChunkVertices.snapshot (chunks.insert q chunk) p = ChunkVertices.snapshot chunks p := by
    refine Lib.Map.copyKeys_congr ∅ fun k hk => ?_
    rw [Lib.Map.lookup_insert, if_neg]
    rintro rfl
    exact h (mem_copied_iff.mp hk)
  unfold createChunkVertices
  rw [hsnapshot]

/-- **The dirty set covers every mesh a chunk change can affect.** -/
theorem createOrReplaceChunk_footprint (w : World) (p q : Ivec3) (blocktypes : Vector UInt8 4096)
    (h : p ∉ addChunk ∅ q) :
    ∃ vertices, createChunkVertices w.chunks p = .ok vertices ∧
      createChunkVertices (w.createOrReplaceChunk q blocktypes).chunks p = .ok vertices := by
  have htouch : ¬ Touches q p := fun ht => h (mem_addChunk.mpr (.inr ht))
  refine ⟨_, ChunkVertices.createChunkVertices_eq w.chunks p, ?_⟩
  rw [World.createOrReplaceChunk_chunks, createChunkVertices_insert _ _ htouch]
  exact ChunkVertices.createChunkVertices_eq w.chunks p

/-- A chunk of stone on the negative side, with nothing around it. -/
def loneStone : World := World.empty.createOrReplaceChunk ⟨-16, 0, 0⟩ (Vector.replicate 4096 3)

/-- Another is loaded diagonally beside it. -/
theorem createOrReplaceChunk_footprint_far :
    ∃ vertices, createChunkVertices loneStone.chunks ⟨-16, 0, 0⟩ = .ok vertices ∧
      createChunkVertices (loneStone.createOrReplaceChunk ⟨-32, 0, 16⟩ (Vector.replicate 4096 3)).chunks
        ⟨-16, 0, 0⟩ = .ok vertices ∧ vertices ≠ [] := by
  obtain ⟨vertices, hbefore, hafter⟩ :=
    createOrReplaceChunk_footprint loneStone ⟨-16, 0, 0⟩ ⟨-32, 0, 16⟩ (Vector.replicate 4096 3) (by decide)
  refine ⟨vertices, hbefore, hafter, ?_⟩
  rw [ChunkVertices.createChunkVertices_eq] at hbefore
  obtain rfl := Except.ok.inj hbefore
  refine List.isEmpty_eq_false_iff.mp ?_
  decide +kernel

/-! ### Whole runs -/

/-- Every loaded chunk shows the list its blocks and its neighbours' give. -/
def Converged (s : State n) : Prop :=
  ∀ p ∈ s.world.chunks, ∃ mesh vertices, s.world.chunkMeshes.lookup p = some mesh ∧
    mesh.vbo = some vertices ∧ createChunkVertices s.world.chunks p = .ok vertices

/-- Whenever nothing is left to do, the meshes are those the world asks for. -/
def MeshesConverge (x : Run n N) : Prop := ∀ K ≤ N, Quiescent (x.state K) → Converged (x.state K)

/-- The publish at `k` is of a snapshot older than that of a list already published for
the position, and the two snapshots give different lists. -/
def StaleAt (x : Run n N) (k : Nat) : Prop :=
  ∃ j j' k' task task' vertices vertices', j < j' ∧ j' < k' ∧ k' < k ∧
    SnapshotAt x j task ∧ PublishAt x k task vertices ∧
    SnapshotAt x j' task' ∧ PublishAt x k' task' vertices' ∧ task'.body = task.body ∧
    createChunkVertices (x.state j).world.chunks task.body ≠
      createChunkVertices (x.state j').world.chunks task.body

/-- No list is stored over a newer one that differs from it. -/
def NoStalePublish (x : Run n N) : Prop := ∀ k < N, ¬ StaleAt x k

/-! ### What a mesh depends on -/

/-- Between two instants with no write that touches `p`, its list is the same. -/
theorem createChunkVertices_stable (x : Run n N) {p : Ivec3} {a b : Nat} (hab : a ≤ b) (hb : b ≤ N)
    (h : ∀ i, a ≤ i → i < b → ∀ q, WriteAt x i q → ¬ Touches q p) :
    createChunkVertices (x.state b).world.chunks p = createChunkVertices (x.state a).world.chunks p := by
  induction b, hab using Nat.le_induction with
  | base => rfl
  | succ b hab ih =>
    rw [← ih (Nat.le_of_succ_le hb) fun i hi hib => h i hi (Nat.lt_succ_of_lt hib)]
    have hnext := next_of_step (x.next b hb)
    have hnow := h b hab (Nat.lt_succ_self b)
    unfold WriteAt at hnow
    generalize x.event b = e, x.state (b + 1) = s' at hnext hnow ⊢
    cases hnext with
    | drain c rest hmain hpackets =>
      have htouch : ¬ Touches c.pos p := hnow c.pos ⟨rfl, c, rest, hpackets, rfl⟩
      rw [World.createOrReplaceChunk_chunks]
      exact createChunkVertices_insert _ _ htouch
    | createChunksMesh hmain => rw [World.createChunksMesh_chunks]
    | _ => rfl

/-! ### What a mesh shows -/

variable {s s' : State n} {e : Event n} {p : Ivec3} {vertices : List UInt32}

/-- The mesh has `vertices` and no other list is waiting for it. -/
def Shows (s : State n) (p : Ivec3) (vertices : List UInt32) : Prop :=
  s.chunksVerticesToMesh.lookup p = none ∧
    ∃ mesh, s.world.chunkMeshes.lookup p = some mesh ∧ mesh.vbo = some vertices

theorem shows_step (h : Next s e s') (hloaded : p ∈ s.world.chunks) (hs : Shows s p vertices)
    (hpublish : ∀ w task, e = .publish w → s.tp.threads w = .running task → task.body ≠ p) :
    Shows s' p vertices := by
  obtain ⟨hnone, hmesh⟩ := hs
  cases h with
  | drain c rest hmain hpackets =>
    refine ⟨hnone, ?_⟩
    -- the chunk is replaced, its mesh stays
    have hstored : ¬ (p = c.pos ∧ s.world.chunks.lookup c.pos = none) := by
      intro h
      obtain ⟨rfl, hn⟩ := h
      exact AList.lookup_eq_none.mp hn hloaded
    show ∃ mesh, (s.world.createOrReplaceChunk c.pos c.blocktypes).chunkMeshes.lookup p = some mesh ∧ _
    rw [World.createOrReplaceChunk_mesh, if_neg hstored]
    exact hmesh
  | createChunksMesh hmain =>
    refine ⟨AList.lookup_empty p, ?_⟩
    show ∃ mesh, (s.world.createChunksMesh _).chunkMeshes.lookup p = some mesh ∧ _
    rw [World.createChunksMesh_mesh, hnone]
    exact hmesh
  | publish w task nchunks vertices' hw hlocal hvertices =>
    refine ⟨?_, hmesh⟩
    show (s.chunksVerticesToMesh.insert task.body vertices').lookup p = none
    rw [Lib.Map.lookup_insert, if_neg (Ne.symm (hpublish w task rfl hw)), hnone]
  | _ => exact ⟨hnone, hmesh⟩

theorem loaded_run (x : Run n N) {a b : Nat} (hab : a ≤ b) (hb : b ≤ N)
    (h : p ∈ (x.state a).world.chunks) : p ∈ (x.state b).world.chunks := by
  induction b, hab using Nat.le_induction with
  | base => exact h
  | succ b hab ih => exact loaded_mono (next_of_step (x.next b hb)) (ih (Nat.le_of_succ_le hb))

/-- The last list published for a loaded chunk waits in the map or is what the mesh shows. -/
theorem shows_last (x : Run n N) {k K : Nat} {task : Task Ivec3} (hkK : k < K) (hK : K ≤ N)
    (hpublish : PublishAt x k task vertices) (hloaded : task.body ∈ (x.state k).world.chunks)
    (hlast : ∀ k', k < k' → k' < K → ¬ ∃ task' vertices', task'.body = task.body ∧
      PublishAt x k' task' vertices') :
    (x.state K).chunksVerticesToMesh.lookup task.body = some vertices ∨
      Shows (x.state K) task.body vertices := by
  induction K, hkK using Nat.le_induction with
  | base =>
    obtain ⟨w, he, hw, hlookup⟩ := hpublish
    exact .inl hlookup
  | succ K hkK ih =>
    have hnext := next_of_step (x.next K hK)
    have hKN : K ≤ N := Nat.le_of_succ_le hK
    have hnow := hlast K hkK (Nat.lt_succ_self K)
    rcases ih hKN fun k' hk hk' => hlast k' hk (Nat.lt_succ_of_lt hk') with hwait | hshows
    · obtain hwait' | ⟨w, task', vertices', he, hw, hbody, hv⟩ | he := published_step hnext hwait
      · exact .inl hwait'
      · exact absurd ⟨task', vertices', hbody, w, he, hw, hbody ▸ hv⟩ hnow
      · right
        have hmem : task.body ∈ (x.state K).world.chunks :=
          loaded_run x (Nat.le_of_succ_le hkK) hKN hloaded
        exact upload_step (he ▸ hnext) (drawable_run x hKN) hmem hwait
    · right
      apply shows_step hnext (loaded_run x (Nat.le_of_succ_le hkK) hKN hloaded) hshows
      intro w task' he hw hbody
      rw [he] at hnext
      refine hnow ⟨task', ?_⟩
      generalize hs' : x.state (K + 1) = s' at hnext
      cases hnext with
      | publish _ head nchunks vertices' hhead hlocal hvertices =>
        obtain rfl := Worker.running.inj (hw.symm.trans hhead)
        refine ⟨vertices', hbody, w, he, hw, ?_⟩
        rw [hs']
        exact AList.lookup_insert _

/-! ### The theorem -/

/-- A loaded chunk was written. -/
theorem loaded_written (x : Run n N) {K : Nat} (hK : K ≤ N) (h : p ∈ (x.state K).world.chunks) :
    ∃ i < K, WriteAt x i p := by
  induction K with
  | zero =>
    rw [x.start] at h
    exact absurd h (AList.notMem_empty p)
  | succ K ih =>
    by_cases hold : p ∈ (x.state K).world.chunks
    · obtain ⟨i, hi, hw⟩ := ih (Nat.le_of_succ_le hK) hold
      exact ⟨i, Nat.lt_succ_of_lt hi, hw⟩
    · refine ⟨K, Nat.lt_succ_self K, ?_⟩
      have hnext := next_of_step (x.next K hK)
      unfold WriteAt
      generalize x.event K = e, x.state (K + 1) = s' at hnext h ⊢
      cases hnext with
      | drain c rest hmain hpackets =>
        have hpos := ((World.create_mem_chunks _ _ _ _).mp h).resolve_right hold
        exact ⟨rfl, c, rest, hpackets, hpos.symm⟩
      | createChunksMesh hmain =>
        rw [World.createChunksMesh_chunks] at h
        exact absurd h hold
      | _ => exact absurd h hold

theorem loaded_of_write (x : Run n N) {i K : Nat} (hiK : i < K) (hK : K ≤ N) (hw : WriteAt x i p) :
    p ∈ (x.state K).world.chunks := by
  have hnext := next_of_step (x.next i (Nat.lt_of_lt_of_le hiK hK))
  exact loaded_run x hiK hK (write_step hw hnext).1

/-- One instant, one list. -/
theorem publishAt_unique {x : Run n N} {k : Nat} {task task' : Task Ivec3} {vertices' : List UInt32}
    (h : PublishAt x k task vertices) (h' : PublishAt x k task' vertices') : vertices = vertices' := by
  obtain ⟨w, he, hw, hv⟩ := h
  obtain ⟨w', he', hw', hv'⟩ := h'
  obtain rfl := Event.publish.inj (he.symm.trans he')
  obtain rfl := Worker.running.inj (hw.symm.trans hw')
  exact Option.some.inj (hv.symm.trans hv')

/-- **Meshes converge in every run without a stale publish**, for any number of workers. -/
theorem meshes_converge (x : Run n N) (h : NoStalePublish x) : MeshesConverge x := by
  intro K hK hq p hloaded
  -- the last write that touches `p`: from there on its list is the final one
  obtain ⟨i₀, hi₀, hw₀⟩ := loaded_written x hK hloaded
  obtain ⟨i, hi₀i, hiK, ⟨q, hw, ht⟩, hquiet⟩ :=
    Lib.Runs.exists_last (fun i => ∃ q, WriteAt x i q ∧ Touches q p) hi₀ ⟨p, hw₀, .inl rfl⟩
  have hfinal (j : Nat) (hij : i < j) (hjK : j ≤ K) :
      createChunkVertices (x.state K).world.chunks p = createChunkVertices (x.state j).world.chunks p := by
    refine createChunkVertices_stable x hjK hK fun i' hi' hi'K q' hw' ht' => ?_
    exact hquiet i' (by omega) hi'K ⟨q', hw', ht'⟩
  obtain ⟨m, _, hmK, ⟨j, k, k', task, first, _, hmade, hkk', hk'm, _⟩, _⟩ :=
    rebuilt_of_quiescent x hK hiK hw ht hq hloaded
  have hjk := hmade.before
  -- the last list published for `p`, which is what the mesh shows
  obtain ⟨l, hkl, hlK, ⟨task', vertices, hbody, hpublish⟩, hlast⟩ :=
    Lib.Runs.exists_last (fun l => ∃ task' vertices, task'.body = p ∧ PublishAt x l task' vertices)
      (show k < K by omega) ⟨task, first, hmade.body, hmade.publish⟩
  obtain ⟨_, j', _, hj'l, _, hsnapshot, hlist⟩ := published_source x (by omega) hpublish
  subst hbody
  have hshows : Shows (x.state K) task'.body vertices := by
    have hmem := loaded_of_write x (show i₀ < l by have := hmade.after; omega) (by omega) hw₀
    refine (shows_last x hlK hK hpublish hmem hlast).resolve_left fun hwait => ?_
    rw [hq.published] at hwait
    cases hwait
  obtain ⟨_, mesh, hmesh, hvbo⟩ := hshows
  refine ⟨mesh, vertices, hmesh, hvbo, ?_⟩
  have hij := hmade.after
  have hfirst : createChunkVertices (x.state K).world.chunks task'.body = .ok first := by
    rw [hfinal j hij (by omega), hmade.list]
  rcases Nat.lt_or_eq_of_le hkl with hkl' | rfl
  · by_cases hj' : i < j'
    · rw [hfinal j' hj' (by omega), hlist]
    · -- an older snapshot, but its publish is not stale
      have hsame : createChunkVertices (x.state j').world.chunks task'.body =
          createChunkVertices (x.state j).world.chunks task'.body := by
        by_contra hne
        exact h l (by omega) ⟨j', j, k, task', task, vertices, first, by omega, hjk, hkl', hsnapshot,
          hpublish, hmade.snapshot, hmade.publish, hmade.body, hne⟩
      rw [hfirst, ← hmade.list, ← hsame, hlist]
  · rw [hfirst, publishAt_unique hmade.publish hpublish]

/-! ### Two runs -/

def Event.isDrain : Event n → Bool
  | .drain => true
  | _ => false

def Event.isSnapshot : Event n → Bool
  | .snapshot _ => true
  | _ => false

/-- Snapshots of one and the same world cannot be stale. -/
theorem noStalePublish_of_writes_first (x : Run n N) (b : Nat)
    (hwrites : ∀ i < N, ∀ q, WriteAt x i q → i < b)
    (hsnapshots : ∀ j < N, ∀ task, SnapshotAt x j task → b ≤ j) : NoStalePublish x := by
  intro k hk hstale
  obtain ⟨j, j', k', task, task', vertices, vertices', hjj', hj'k', hk'k, hs, _, _, _, _, hne⟩ := hstale
  refine hne (createChunkVertices_stable x (Nat.le_of_lt hjj') (by omega) ?_).symm
  intro i hji hij' q hw
  have hib := hwrites i (by omega) q hw
  have hbj := hsnapshots j (by omega) task hs
  omega

/-- The chunk at the origin and the six around it. -/
def aroundOrigin : List Ivec3 :=
  [⟨0, 0, 0⟩, ⟨16, 0, 0⟩, ⟨-16, 0, 0⟩, ⟨0, 16, 0⟩, ⟨0, -16, 0⟩, ⟨0, 0, 16⟩, ⟨0, 0, -16⟩]

/-- A call of `updateChunks` that drains one packet, for the origin. -/
def drainingFrame : List (Event n) :=
  [.updateChunks, .drain, .drained] ++ aroundOrigin.map .enqueue ++ [.enqueued, .createChunksMesh]

/-- A call that finds no packet and uploads. -/
def uploadingFrame : List (Event n) := [.updateChunks, .drained, .enqueued, .createChunksMesh]

/-- Worker `w` runs one task from start to end. -/
def build (w : Fin n) : List (Event n) := [.acquire w, .snapshot w, .publish w]

/-- One packet, meshed and uploaded. -/
def freshRun : List (Event 4) :=
  [.receive (.monoTypeChunk 0 3)] ++ drainingFrame ++ (List.replicate 7 (build 1)).flatten ++
    uploadingFrame

/-- Worker 0 copies stone and stalls; the chunk becomes dirt and is meshed; then worker
0 stores the stone. -/
def staleRun : List (Event 4) :=
  [.receive (.monoTypeChunk 0 3)] ++ drainingFrame ++ [.acquire 0, .snapshot 0] ++
    [.receive (.monoTypeChunk 0 2)] ++ drainingFrame ++ (List.replicate 13 (build 1)).flatten ++
    [.publish 0] ++ uploadingFrame

/-- The first vertex of the mesh at the origin. -/
def shownAtOrigin (s : State 4) : Option UInt32 :=
  (s.world.chunkMeshes.lookup 0).bind fun mesh => mesh.vbo.bind List.head?

/-- The first vertex it should have. -/
def wantedAtOrigin (s : State 4) : Option UInt32 :=
  (ChunkVertices.meshOf (ChunkVertices.read (ChunkVertices.snapshot s.world.chunks 0)) 0).head?

/-- The run without a stale publish ends with nothing to do and the chunk shown. -/
theorem meshes_converge_fresh : ∃ x : Run 4 freshRun.length, MeshesConverge x ∧
    Quiescent (x.state freshRun.length) ∧ 0 ∈ (x.state freshRun.length).world.chunks := by
  have hany : (Lib.Runs.run step start freshRun).any
      (fun s => decide (Quiescent s ∧ 0 ∈ s.world.chunks)) = true := by
    delta step State.publish
    rw [ChunkVertices.verticesOf_eq_meshOf]
    decide +kernel
  obtain ⟨s, hrun, hs⟩ := (Option.any_eq_true _ _).mp hany
  obtain ⟨x, hend, hevents⟩ := Lib.Runs.exists_execution start freshRun hrun
  refine ⟨x, meshes_converge x ?_, hend ▸ of_decide_eq_true hs⟩
  have hdrain : ∀ i : Fin freshRun.length, (freshRun.get i).isDrain = true → i.val < 3 := by
    decide +kernel
  have hcopy : ∀ j : Fin freshRun.length, (freshRun.get j).isSnapshot = true → 3 ≤ j.val := by
    decide +kernel
  refine noStalePublish_of_writes_first x 3 (fun i hi q hw => ?_) (fun j hj task hsnapshot => ?_)
  · have hevent : freshRun.get ⟨i, hi⟩ = .drain := (hevents i hi).symm.trans hw.1
    exact hdrain ⟨i, hi⟩ (by rw [hevent]; rfl)
  · obtain ⟨w, he, _⟩ := hsnapshot
    have hevent : freshRun.get ⟨j, hj⟩ = .snapshot w := (hevents j hj).symm.trans he
    exact hcopy ⟨j, hj⟩ (by rw [hevent]; rfl)

/-- Four workers, two packets for one chunk: its mesh keeps the first packet's blocks. -/
theorem stale_mesh : ¬ ∀ (N : Nat) (x : Run 4 N), MeshesConverge x := by
  intro h
  have hany : (Lib.Runs.run step start staleRun).any (fun s => decide (Quiescent s ∧
      0 ∈ s.world.chunks ∧ shownAtOrigin s ≠ wantedAtOrigin s)) = true := by
    delta step State.publish
    rw [ChunkVertices.verticesOf_eq_meshOf]
    decide +kernel
  obtain ⟨s, hrun, hs⟩ := (Option.any_eq_true _ _).mp hany
  obtain ⟨hq, hloaded, hne⟩ := of_decide_eq_true hs
  obtain ⟨x, hend, _⟩ := Lib.Runs.exists_execution start staleRun hrun
  subst hend
  obtain ⟨mesh, vertices, hmesh, hvbo, hlist⟩ := h _ x _ (Nat.le_refl _) hq 0 hloaded
  rw [ChunkVertices.createChunkVertices_eq] at hlist
  have hvertices := Except.ok.inj hlist
  apply hne
  rw [shownAtOrigin, wantedAtOrigin, hmesh, Option.bind_some, hvbo, Option.bind_some, hvertices]

end MyMinecraft.Renderer
