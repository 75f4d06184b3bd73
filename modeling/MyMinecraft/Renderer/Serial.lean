import MyMinecraft.Renderer.Convergence

/-! Tasks for one position, one at a time.

A list becomes stale when two workers have tasks for one position in their hands at once: the one
that copied first may store last. Where that never happens (with a single worker it cannot) a worker copies and
stores without another list for its position between, so the list stored last is the one
copied last, and the meshes converge whatever the order of everything else. -/
namespace MyMinecraft.Renderer
open ChunkVertices (createChunkVertices)
variable {n N : Nat}

/-- No two workers have tasks for one position in their hands. -/
def State.Apart (s : State n) : Prop :=
  ∀ w w' task task', s.tp.threads w = .running task → s.tp.threads w' = .running task' →
    task.body = task'.body → w = w'

theorem mem_held {τ : Type} {t : Worker τ} {task : Task τ} : task ∈ t.held ↔ t = .running task := by
  cases t <;> simp [Worker.held, eq_comm]

theorem apart_iff (s : State n) : s.Apart ↔ ∀ w w', ∀ task ∈ (s.tp.threads w).held,
    ∀ task' ∈ (s.tp.threads w').held, task.body = task'.body → w = w' := by
  simp only [mem_held]
  constructor
  · exact fun h w w' task hw task' hw' => h w w' task task' hw hw'
  · exact fun h w w' task task' hw hw' => h w w' task hw task' hw'

instance (s : State n) : Decidable s.Apart := decidable_of_iff _ (apart_iff s).symm

/-- Workers never have two tasks for one position in their hands. -/
def OneAtATime (x : Run n N) : Prop := ∀ k ≤ N, (x.state k).Apart

/-- Of two lists stored for a position, the second was copied after the first was stored. -/
def InTurn (x : Run n N) : Prop :=
  ∀ k l task task' first vertices, k < l → l < N → PublishAt x k task first → PublishAt x l task' vertices →
    task.body = task'.body →
      ∃ j, k < j ∧ j < l ∧ SnapshotAt x j task' ∧
        createChunkVertices (x.state j).world.chunks task'.body = .ok vertices

variable {w : Fin n} {p : Ivec3} {task : Task Ivec3} {vertices : List UInt32}

/-- A worker that has its copies has run its task since it made them. -/
theorem held_since (x : Run n N) {K : Nat} {nchunks : Chunks} (hK : K ≤ N)
    (hw : (x.state K).tp.threads w = .running task)
    (hlocal : (x.state K).neighborChunks w = some nchunks) :
    ∃ j < K, x.event j = .snapshot w ∧ nchunks = ChunkVertices.snapshot (x.state j).world.chunks task.body ∧
      ∀ i, j ≤ i → i ≤ K → (x.state i).tp.threads w = .running task := by
  induction K with
  | zero =>
    rw [x.start] at hw
    cases hw
  | succ K ih =>
    have hnow (j : Nat) (hheld : ∀ i, j ≤ i → i ≤ K → (x.state i).tp.threads w = .running task)
        (i : Nat) (hji : j ≤ i) (hiK : i ≤ K + 1) : (x.state i).tp.threads w = .running task := by
      rcases Nat.le_succ_iff.mp hiK with hiK | rfl
      · exact hheld i hji hiK
      · exact hw
    rcases held_back (next_of_step (x.next K hK)) hw hlocal with ⟨hw', hlocal'⟩ | ⟨he, hw', hcopy⟩
    · obtain ⟨j, hjK, he, hcopy, hheld⟩ := ih (Nat.le_of_succ_le hK) hw' hlocal'
      exact ⟨j, Nat.lt_succ_of_lt hjK, he, hcopy, hnow j hheld⟩
    · refine ⟨K, Nat.lt_succ_self K, he, hcopy, hnow K fun i hKi hiK => ?_⟩
      obtain rfl := Nat.le_antisymm hiK hKi
      exact hw'

/-- A published list is that of the world at an instant from which its worker was at it. -/
theorem published_since (x : Run n N) {k : Nat} (hk : k < N) (h : PublishAt x k task vertices) :
    ∃ w, ∃ j < k, x.event j = .snapshot w ∧
      createChunkVertices (x.state j).world.chunks task.body = .ok vertices ∧
      ∀ i, j ≤ i → i ≤ k → (x.state i).tp.threads w = .running task := by
  obtain ⟨w, he, hw, hlookup⟩ := h
  have hnext := next_of_step (x.next k hk)
  rw [he] at hnext
  generalize x.state (k + 1) = s' at hnext hlookup
  cases hnext with
  | publish _ head nchunks vertices' hhead hlocal hvertices =>
    obtain rfl := Worker.running.inj (hw.symm.trans hhead)
    dsimp only at hlookup
    rw [AList.lookup_insert] at hlookup
    obtain rfl := Option.some.inj hlookup
    obtain ⟨j, hjk, hcopy, rfl, hheld⟩ := held_since x (Nat.le_of_lt hk) hw hlocal
    exact ⟨w, j, hjk, hcopy, hvertices, hheld⟩

/-- A worker that publishes is done with its task. -/
theorem publish_waits (x : Run n N) {k : Nat} (hk : k < N) (he : x.event k = .publish w) :
    (x.state (k + 1)).tp.threads w = .waiting := by
  have hnext := next_of_step (x.next k hk)
  rw [he] at hnext
  generalize x.state (k + 1) = s' at hnext ⊢
  cases hnext with
  | publish _ head nchunks vertices' hhead hlocal hvertices => exact ThreadPool.setThread_self _ _ _

theorem inTurn (x : Run n N) (h : OneAtATime x) : InTurn x := by
  intro k l task task' first vertices hkl hl hfirst hlast hbody
  obtain ⟨w', j, hjl, hcopy, hlist, hheld⟩ := published_since x hl hlast
  refine ⟨j, ?_, hjl, ⟨w', hcopy, hheld j le_rfl hjl.le⟩, hlist⟩
  by_contra hjk
  obtain ⟨w, he, hw, _⟩ := hfirst
  -- the second worker would have been at its task when the first published
  obtain rfl := h k (by omega) w w' task task' hw (hheld k (by omega) hkl.le) hbody
  have hrunning := hheld (k + 1) (by omega) hkl
  rw [publish_waits x (by omega) he] at hrunning
  cases hrunning

/-- The list a mesh ends with is the one its chunk has. -/
theorem mesh_last (x : Run n N) (h : OneAtATime x) {K : Nat} (hK : K ≤ N) (hq : Quiescent (x.state K))
    (hloaded : p ∈ (x.state K).world.chunks) : ∃ mesh vertices, (x.state K).world.chunkMeshes.lookup p = some mesh ∧
      mesh.vbo = some vertices ∧ createChunkVertices (x.state K).world.chunks p = .ok vertices := by
  obtain ⟨i₀, hi₀, hw₀⟩ := loaded_written x hK hloaded
  obtain ⟨i, hi₀i, hiK, ⟨q, hw, ht⟩, hquiet⟩ :=
    Lib.Runs.exists_last (fun i => ∃ q, WriteAt x i q ∧ Touches q p) hi₀ ⟨p, hw₀, .inl rfl⟩
  have hfinal (j : Nat) (hij : i < j) (hjK : j ≤ K) :
      createChunkVertices (x.state K).world.chunks p = createChunkVertices (x.state j).world.chunks p := by
    refine createChunkVertices_stable x hjK hK fun i' hi' hi'K q' hw' ht' => ?_
    exact hquiet i' (by omega) hi'K ⟨q', hw', ht'⟩
  obtain ⟨m, _, hmK, ⟨j, k, k', task, first, _, hmade, hkk', hk'm, _⟩, _⟩ :=
    rebuilt_of_quiescent x hK hiK hw ht hq hloaded
  have hij := hmade.after
  have hjk := hmade.before
  obtain ⟨l, hkl, hlK, ⟨task', vertices, hbody, hpublish⟩, hlast⟩ :=
    Lib.Runs.exists_last (fun l => ∃ task' vertices, task'.body = p ∧ PublishAt x l task' vertices)
      (show k < K by omega) ⟨task, first, hmade.body, hmade.publish⟩
  subst hbody
  have hshows : Shows (x.state K) task'.body vertices := by
    have hmem := loaded_of_write x (show i₀ < l by omega) (by omega) hw₀
    refine (shows_last x hlK hK hpublish hmem hlast).resolve_left fun hwait => ?_
    rw [hq.published] at hwait
    cases hwait
  obtain ⟨_, mesh, hmesh, hvbo⟩ := hshows
  refine ⟨mesh, vertices, hmesh, hvbo, ?_⟩
  rcases Nat.lt_or_eq_of_le hkl with hkl' | rfl
  · obtain ⟨j', hkj', hj'l, _, hlist⟩ :=
      inTurn x h k l task task' first vertices hkl' (by omega) hmade.publish hpublish hmade.body
    rw [hfinal j' (by omega) (by omega), hlist]
  · rw [hfinal j hij (by omega), hmade.list, publishAt_unique hmade.publish hpublish]

/-- **Meshes converge in every run that works on each position one task at a time**, and their lists are
made one after the other. A single worker cannot do otherwise. -/
theorem converges_one_at_a_time (x : Run n N) :
    (n ≤ 1 → OneAtATime x) ∧ (OneAtATime x → MeshesConverge x ∧ InTurn x) := by
  refine ⟨fun hn k _ w w' _ _ _ _ _ => Fin.ext (by omega), fun h => ⟨?_, inTurn x h⟩⟩
  intro K hK hq p hloaded
  exact mesh_last x h hK hq hloaded

/-- The chunk turns from stone to dirt while one worker is at it and another at the one beside it. -/
def rewriting (w w' : Fin n) : List (Event n) :=
  .receive (.monoTypeChunk 0 3) :: drainingFrame ++ [.acquire w, .acquire w', .snapshot w, .snapshot w'] ++
    .receive (.monoTypeChunk 0 2) :: drainingFrame ++ [.publish w', .publish w] ++
    (List.replicate 12 (build w)).flatten ++ uploadingFrame

theorem converges_one_at_a_time_rewriting : ∃ x : Run 2 (rewriting (0 : Fin 2) 1).length,
    (MeshesConverge x ∧ InTurn x) ∧ Quiescent (x.state (rewriting (0 : Fin 2) 1).length) ∧
      0 ∈ (x.state (rewriting (0 : Fin 2) 1).length).world.chunks ∧
      ∃ k ≤ (rewriting (0 : Fin 2) 1).length, ∀ w, ((x.state k).tp.threads w).isRunning = true := by
  have hany : (Lib.Runs.run step start (rewriting (0 : Fin 2) 1)).any
      (fun s => decide (Quiescent s ∧ 0 ∈ s.world.chunks)) = true := by
    delta step State.publish
    rw [ChunkVertices.verticesOf_eq_meshOf]
    decide +kernel
  have hapart : Lib.Runs.check step State.Apart start (rewriting (0 : Fin 2) 1) = true := by
    delta step State.publish
    rw [ChunkVertices.verticesOf_eq_meshOf]
    decide +kernel
  have hboth : (Lib.Runs.run step start ((rewriting (0 : Fin 2) 1).take 16)).any
      (fun s => decide (∀ w, (s.tp.threads w).isRunning = true)) = true := by
    decide +kernel
  obtain ⟨s, hrun, hs⟩ := (Option.any_eq_true _ _).mp hany
  obtain ⟨s', hrun', hs'⟩ := (Option.any_eq_true _ _).mp hboth
  obtain ⟨x, hend, hevent⟩ := Lib.Runs.exists_execution start (rewriting (0 : Fin 2) 1) hrun
  have htake {k : Nat} (hk : k ≤ (rewriting (0 : Fin 2) 1).length) := Lib.Runs.run_take x hevent hk
  have halone : OneAtATime x := fun k hk =>
    Lib.Runs.along_of_check hapart _ (List.take_prefix k _) _ (htake hk)
  have hlong : 16 ≤ (rewriting (0 : Fin 2) 1).length := by decide
  refine ⟨x, (converges_one_at_a_time x).2 halone, ?_⟩
  obtain ⟨hq, hloaded⟩ := of_decide_eq_true hs
  refine ⟨hend ▸ hq, hend ▸ hloaded, 16, hlong, ?_⟩
  obtain rfl := Option.some.inj ((htake hlong).symm.trans hrun')
  exact of_decide_eq_true hs'

end MyMinecraft.Renderer
