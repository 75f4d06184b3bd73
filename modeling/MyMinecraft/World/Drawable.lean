import MyMinecraft.World

/-! The two maps of the world kept in step.

A chunk can be drawn when it has a mesh entry under its own position: the
uploader skips every other list. `createOrReplaceChunk` fills both maps and
`createChunksMesh` moves neither key set, but `clearAllChunks` empties only the
meshes, and a chunk that is still stored is replaced without a new mesh.
`drawable_iff` says exactly which runs keep the maps in step. -/
namespace MyMinecraft.World

/-- What is called on the world's two maps. -/
inductive Op where
  | createOrReplaceChunk (pos : Ivec3) (blocktypes : Vector UInt8 4096)
  | clearAllChunks
  | createChunksMesh (published : AList fun _ : Ivec3 => List UInt32)

def Op.Creates : Op → Prop
  | .createOrReplaceChunk _ _ => True
  | _ => False

def Op.Clears : Op → Prop
  | .clearAllChunks => True
  | _ => False

def apply (w : World) : Op → World
  | .createOrReplaceChunk pos blocktypes => w.createOrReplaceChunk pos blocktypes
  | .clearAllChunks => w.clearAllChunks
  | .createChunksMesh published => w.createChunksMesh published

def run (ops : List Op) : World := ops.foldl apply empty

theorem run_snoc (ops : List Op) (op : Op) : run (ops ++ [op]) = apply (run ops) op := by
  simp [run]

/-- Every stored chunk has a mesh under its own position and no other position has
one, so no list published for a stored chunk is dropped. -/
structure Drawable (w : World) : Prop where
  keys : ∀ p, p ∈ w.chunks ↔ p ∈ w.chunkMeshes
  worldpos : ∀ p m, w.chunkMeshes.lookup p = some m → m.worldpos = p
  uploads : ∀ published p vs, p ∈ w.chunks → published.lookup p = some vs →
    ∃ m, (w.createChunksMesh published).chunkMeshes.lookup p = some m ∧ m.vbo = some vs

/-- What is asked of the maps; the upload follows. -/
theorem Drawable.of_keys {w : World} (hk : ∀ p, p ∈ w.chunks ↔ p ∈ w.chunkMeshes)
    (hp : ∀ p m, w.chunkMeshes.lookup p = some m → m.worldpos = p) : Drawable w where
  keys := hk
  worldpos := hp
  uploads := by
    intro published p vs hmem hvs
    obtain ⟨m, hm⟩ := Lib.Map.mem_iff_lookup.mp ((hk p).mp hmem)
    refine ⟨{m with vbo := some vs}, ?_, rfl⟩
    rw [createChunksMesh_mesh, hvs, hm]
    rfl

/-! ### One operation -/

theorem create_mem_chunks (w : World) (pos : Ivec3) (b : Vector UInt8 4096) (p : Ivec3) :
    p ∈ (w.createOrReplaceChunk pos b).chunks ↔ p = pos ∨ p ∈ w.chunks := by
  rw [createOrReplaceChunk_chunks, AList.mem_insert]

theorem create_mem_meshes (w : World) (pos : Ivec3) (b : Vector UInt8 4096) (p : Ivec3) :
    p ∈ (w.createOrReplaceChunk pos b).chunkMeshes ↔
      (p = pos ∧ pos ∉ w.chunks) ∨ p ∈ w.chunkMeshes := by
  rw [← AList.lookup_isSome, createOrReplaceChunk_mesh, ← AList.lookup_eq_none]
  split
  · next h => simp [h]
  · next h => simp [h, AList.lookup_isSome]

theorem upload_mem_meshes (w : World) (published : AList fun _ : Ivec3 => List UInt32) (p : Ivec3) :
    p ∈ (w.createChunksMesh published).chunkMeshes ↔ p ∈ w.chunkMeshes := by
  rw [← AList.lookup_isSome, createChunksMesh_mesh, ← AList.lookup_isSome]
  cases published.lookup p with
  | none => rfl
  | some vs => rw [Option.isSome_map]

theorem Drawable.create {w : World} (h : Drawable w) (pos : Ivec3) (b : Vector UInt8 4096) :
    Drawable (w.createOrReplaceChunk pos b) := by
  refine .of_keys (fun p => ?_) (fun p m hm => ?_)
  · rw [create_mem_chunks, create_mem_meshes, h.keys p, h.keys pos]
    by_cases hp : p = pos
    · subst hp
      tauto
    · simp [hp]
  · rw [createOrReplaceChunk_mesh] at hm
    split at hm
    · next hp =>
      rw [← Option.some.inj hm, hp.1]
    · exact h.worldpos p m hm

theorem Drawable.upload {w : World} (h : Drawable w)
    (published : AList fun _ : Ivec3 => List UInt32) : Drawable (w.createChunksMesh published) := by
  refine .of_keys (fun p => ?_) (fun p m hm => ?_)
  · rw [createChunksMesh_chunks, upload_mem_meshes, h.keys p]
  · rw [createChunksMesh_mesh] at hm
    cases hv : published.lookup p with
    | none =>
      rw [hv] at hm
      exact h.worldpos p m hm
    | some vs =>
      rw [hv] at hm
      obtain ⟨old, hold, rfl⟩ := Option.map_eq_some_iff.mp hm
      exact h.worldpos p old hold

/-- A clear keeps the maps in step only when there was nothing to clear. -/
theorem drawable_clear (w : World) : Drawable w.clearAllChunks ↔ ∀ p, p ∉ w.chunks := by
  constructor
  · intro h p hp
    exact AList.notMem_empty p ((h.keys p).mp hp)
  · intro h
    refine .of_keys (fun p => ?_) (fun p m hm => ?_)
    · exact iff_of_false (h p) (AList.notMem_empty p)
    · rw [clearAllChunks, AList.lookup_empty] at hm
      cases hm

/-! ### Runs -/

/-- Chunks are never removed: some are stored once one was created. -/
theorem run_chunks_empty (ops : List Op) :
    (∀ p, p ∉ (run ops).chunks) ↔ ∀ op ∈ ops, ¬ op.Creates := by
  induction ops using List.reverseRecOn with
  | nil => simp [run, empty]
  | append_singleton ops op ih =>
    rw [run_snoc, List.forall_mem_append, ← ih]
    cases op with
    | createOrReplaceChunk pos b =>
      simp only [apply, create_mem_chunks, List.forall_mem_singleton, Op.Creates]
      constructor
      · intro h
        exact absurd (Or.inl rfl) (h pos)
      · intro h
        exact absurd trivial h.2
    | clearAllChunks => simp [apply, clearAllChunks, Op.Creates]
    | createChunksMesh published => simp [apply, createChunksMesh_chunks, Op.Creates]

theorem drawable_apply {w : World} (h : Drawable w) (op : Op) :
    Drawable (apply w op) ↔ (op.Clears → ∀ p, p ∉ w.chunks) := by
  cases op with
  | createOrReplaceChunk pos b => exact iff_of_true (h.create pos b) (fun hc => hc.elim)
  | clearAllChunks =>
    rw [apply, drawable_clear]
    exact ⟨fun hw _ => hw, fun hw => hw trivial⟩
  | createChunksMesh published => exact iff_of_true (h.upload published) (fun hc => hc.elim)

/-- **The maps are in step after every operation of a run exactly when no
`clearAllChunks` comes after a `createOrReplaceChunk`.** -/
theorem drawable_iff (ops : List Op) :
    (∀ before, before <+: ops → Drawable (run before)) ↔
      ops.Pairwise (fun a b => a.Creates → ¬ b.Clears) := by
  induction ops using List.reverseRecOn with
  | nil =>
    refine iff_of_true (fun before hb => ?_) List.Pairwise.nil
    rw [List.prefix_nil.mp hb]
    exact .of_keys (fun p => by simp [run, empty]) (fun p m hm => by simp [run, empty] at hm)
  | append_singleton ops op ih =>
    simp only [List.prefix_concat_iff, forall_eq_or_imp, ih, run_snoc, List.pairwise_append,
      List.pairwise_singleton, List.forall_mem_singleton, true_and]
    rw [and_comm]
    refine and_congr_right fun hpair => ?_
    have hbefore : Drawable (run ops) := ih.mpr hpair ops List.prefix_rfl
    rw [drawable_apply hbefore op, run_chunks_empty]
    exact ⟨fun h a ha hc hcl => h hcl a ha hc, fun h hcl a ha hc => h a ha hc hcl⟩

/-- Chunk 0 received, cleared and received again: it is stored, and resending it
took the branch that makes no mesh. -/
theorem clear_loses_mesh :
    ¬ ∀ before, before <+: [Op.createOrReplaceChunk 0 (Vector.replicate 4096 1), .clearAllChunks,
      .createOrReplaceChunk 0 (Vector.replicate 4096 1)] → Drawable (run before) := by
  intro h
  have hmem : (0 : Ivec3) ∈ (run [.createOrReplaceChunk 0 (Vector.replicate 4096 1),
      .clearAllChunks, .createOrReplaceChunk 0 (Vector.replicate 4096 1)]).chunks := by decide
  have hnot : (0 : Ivec3) ∉ (run [.createOrReplaceChunk 0 (Vector.replicate 4096 1),
      .clearAllChunks, .createOrReplaceChunk 0 (Vector.replicate 4096 1)]).chunkMeshes := by decide
  exact hnot (((h _ List.prefix_rfl).keys 0).mp hmem)

end MyMinecraft.World
