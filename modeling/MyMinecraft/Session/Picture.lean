import MyMinecraft.Renderer.Serial
import MyMinecraft.Session
import MyMinecraft.World.Terrain

/-! From the wire to the screen.

The client thread reads packets, the workers mesh what they bring, and the main thread uploads and
draws. Where no two workers mesh one position at once, what is drawn when nothing is left to do is decided by the
bytes on the wire: the faces between the blocks the server sent and the cells they are seen through, each
once, and every one of them that is in the frustum. -/
namespace MyMinecraft
open ChunkVertices

namespace Renderer
variable {n : Nat}

/-- A run of such states ends, when nothing is left to do, with the meshes its world asks for. -/
theorem current_run {es : List (Event n)} {s : State n} (hrun : Lib.Runs.run step start es = some s)
    (hapart : Lib.Runs.Along step State.Apart start es) (hq : Quiescent s)
    (hplaced : ∀ p ∈ s.world.chunks, p.Aligned ∧ p.Within (2 ^ 24 - 32)) : s.world.Current := by
  obtain ⟨x, rfl, hevent⟩ := Lib.Runs.exists_execution start es hrun
  have halone : OneAtATime x := fun k hk => hapart _ (List.take_prefix k es) _ (Lib.Runs.run_take x hevent hk)
  exact ⟨drawable_run x le_rfl, fun p hp => mesh_last x halone le_rfl hq hp, hplaced⟩

/-- A position with blocks was in one of the packets. -/
theorem mem_of_lastReceived {packets : List ChunkData} {pos : Ivec3} (h : lastReceived packets pos ≠ none) :
    ∃ c ∈ packets, c.pos = pos := by
  induction packets using List.reverseRecOn with
  | nil => exact absurd rfl h
  | append_singleton packets c ih =>
    rw [lastReceived_snoc] at h
    by_cases hpos : c.pos = pos
    · exact ⟨c, List.mem_append_right _ (List.mem_singleton_self c), hpos⟩
    · rw [if_neg hpos] at h
      obtain ⟨c', hc', hpos'⟩ := ih h
      exact ⟨c', List.mem_append_left _ hc', hpos'⟩

end Renderer

namespace Session
open World
open Lib.Wire (Endian)

variable {n : Nat} {w : Stream} {host : Endian} {es : List (Event n)} {s : State n} {entityId : Int}

/-! ### The pipeline's run inside the session's -/

/-- The pipeline's run `es'` comes through scenes of the session's run `es` and no others. -/
structure Inside (s₀ : State n) (host : Endian) (es : List (Event n)) (s : State n) (es' : List (Renderer.Event n)) :
    Prop where
  session : Lib.Runs.run (step host) s₀ es = some s
  pipeline : Lib.Runs.run Renderer.step Renderer.start es' = some s.scene
  along : ∀ P, Lib.Runs.Along (step host) (fun s => P s.scene) s₀ es → Lib.Runs.Along Renderer.step P Renderer.start es'

theorem scene_run (hrun : Lib.Runs.run (step host) (start entityId w.bytes) es = some s) :
    ∃ es', Inside (start entityId w.bytes) host es s es' := by
  refine Lib.Runs.run_history (fun es s => ∃ es', Inside (start entityId w.bytes) host es s es') ?_ ?_ es hrun
  · refine ⟨[], rfl, rfl, fun P hP before hbefore s hs => ?_⟩
    obtain rfl := List.prefix_nil.mp hbefore
    obtain rfl := Option.some.inj hs
    exact hP [] List.prefix_rfl _ rfl
  · intro es s e s' h hs
    obtain ⟨es', hsession, hpipeline, halong⟩ := h
    have hsession' : Lib.Runs.run (step host) (start entityId w.bytes) (es ++ [e]) = some s' := by
      rw [Lib.Runs.run_append, hsession, Option.bind_some]
      exact Lib.Runs.run_cons.mpr ⟨s', hs, rfl⟩
    obtain ⟨more, hlength, hmore, _⟩ := scene_step (fed_run entityId es hsession) hs
    have hpipeline' : Lib.Runs.run Renderer.step Renderer.start (es' ++ more) = some s'.scene := by
      rw [Lib.Runs.run_append, hpipeline, Option.bind_some, hmore]
    refine ⟨es' ++ more, hsession', hpipeline', fun P hP => ?_⟩
    have hold := halong P fun before hb => hP before (hb.trans (List.prefix_append es [e]))
    -- at most one scene is new
    match more, hlength with
    | [], _ => rwa [List.append_nil]
    | [e'], _ => exact Lib.Runs.along_snoc hold hpipeline' (hP _ List.prefix_rfl s' hsession')

/-- The chunks of the world are at positions that were sent. -/
theorem loaded_sent (h : Fed w es s) {p : Ivec3} (hp : p ∈ s.scene.world.chunks) :
    ∃ packet ∈ w.packets, ∃ c, packet.chunkData = some c ∧ c.pos = p := by
  obtain ⟨es', hrun, hreceived⟩ := h.scene
  obtain ⟨taken, hfifo, hchunks⟩ := Renderer.stored_run es' hrun
  have hsent : Renderer.lastReceived taken p ≠ none := by
    intro hnone
    refine AList.lookup_eq_none.mp ?_ hp
    rw [hchunks, hnone, Option.map_none]
  obtain ⟨c, hc, hpos⟩ := Renderer.mem_of_lastReceived hsent
  have hmem : c ∈ (w.packets.take (calls es)).filterMap Packet.chunkData := by
    rw [← hreceived, hfifo]
    exact List.mem_append_left _ hc
  obtain ⟨packet, hpacket, hdata⟩ := List.mem_filterMap.mp hmem
  exact ⟨packet, List.mem_of_mem_take hpacket, c, hdata, hpos⟩

/-! ### What is drawn -/

/-- The server's blocks have a block at `c`, and it is seen through the next cell in direction `d`. -/
def FaceSent (packets : List Packet) (c : Ivec3) (d : FaceOrientation) : Prop :=
  blockSent packets c ≠ 0 ∧ seeThrough (blockSent packets (c + getFaceOrientationVector d)) = true

variable {K : Type} [Field K] [LinearOrder K] [FloorRing K] [SquareRoot K]

/-- What is drawn of the server's blocks. -/
structure Pictured (packets : List Packet) (world : World) (planes : Vector (Vec4 K) 6) : Prop where
  drawn : ∀ t ∈ world.terrain planes, ∃ c d, FaceSent packets c d ∧ t ∈ faceTriangles d c
  seen : ∀ c d, FaceSent packets c d → ∀ t ∈ faceTriangles d c, ∀ x, InTriangle t x → InFrustum planes x →
    ∀ t' ∈ faceTriangles d c, t' ∈ world.terrain planes
  once : (world.terrain planes).Nodup

variable [IsStrictOrderedRing K]

/-- **What is on the screen is what came over the wire.** -/
theorem picture_of_wire (host : Endian) (w : Stream) (entityId : Int)
    (hw : ∀ packet ∈ w.packets, ∀ c, packet.chunkData = some c → c.pos.Aligned ∧ c.pos.Within (2 ^ 24 - 32))
    (es : List (Event n)) {s : State n} (hrun : Lib.Runs.run (step host) (start entityId w.bytes) es = some s)
    (hapart : Lib.Runs.Along (step host) (fun s => s.scene.Apart) (start entityId w.bytes) es)
    (hq : Renderer.Quiescent s.scene) (planes : Vector (Vec4 K) 6) :
    Pictured (w.packets.take (calls es)) s.scene.world planes := by
  have hfed := fed_run entityId es hrun
  obtain ⟨es', hinside⟩ := scene_run hrun
  have hcurrent : s.scene.world.Current := by
    refine Renderer.current_run hinside.pipeline (hinside.along _ hapart) hq fun p hp => ?_
    obtain ⟨packet, hpacket, c, hdata, rfl⟩ := loaded_sent hfed hp
    exact hw packet hpacket c hdata
  have hface (f : Ivec3 × FaceOrientation) : f ∈ s.scene.world.drawnFaces planes ↔
      FaceSent (w.packets.take (calls es)) f.1 f.2 ∧ boxInFrustum planes (getChunkAABB (chunkOf f.1)) = true := by
    rw [mem_drawnFaces hcurrent, blockOf_sent hfed hq.packets, blockOf_sent hfed hq.packets, FaceSent]
  have hmem (t : Triangle) : t ∈ s.scene.world.terrain planes ↔ ∃ c d,
      (FaceSent (w.packets.take (calls es)) c d ∧ boxInFrustum planes (getChunkAABB (chunkOf c)) = true) ∧
        t ∈ faceTriangles d c := by
    simp only [terrain_eq hcurrent, List.mem_flatMap, hface, Prod.exists]
  refine ⟨fun t ht => ?_, fun c d hsent t ht x hx hin t' ht' => ?_, terrain_nodup hcurrent⟩
  · obtain ⟨c, d, ⟨hsent, _⟩, ht⟩ := (hmem t).mp ht
    exact ⟨c, d, hsent, ht⟩
  · exact (hmem t').mpr ⟨c, d, ⟨hsent, drawn_of_point ht hx hin⟩, ht'⟩

/-- The chunk of `stoneThenCut` is drained, and the seven meshes it is part of are marked. -/
def drainingStone : List (Renderer.Event n) :=
  .updateChunks :: .drain :: .drained :: (Renderer.neighborChunkpos.map fun off =>
    .enqueue (⟨-16, 0, -32⟩ + off * (16 : Int))) ++ [.enqueued, .createChunksMesh]

/-- Two workers have a task each, and the one that copied last stores first. -/
def atOnce (w w' : Fin n) : List (Renderer.Event n) :=
  [.acquire w, .acquire w', .snapshot w, .snapshot w', .publish w', .publish w]

/-- Two of them are meshed at once, the others one after the other, and they are uploaded. -/
def shown (w w' : Fin n) : List (Event n) :=
  .receive :: (drainingStone ++ atOnce w w' ++ (List.replicate 5 (Renderer.build w)).flatten ++
    Renderer.uploadingFrame).map .scene

theorem picture_of_wire_corner : ∃ s : State 2,
    Lib.Runs.run (step .little) (start 0 stoneThenCut.bytes) (shown 0 1) = some s ∧
      Pictured stoneThenCut.packets s.scene.world throughCorner ∧
      (∀ t ∈ faceTriangles .left ⟨-16, 0, -32⟩, t ∈ s.scene.world.terrain throughCorner) ∧
      (Lib.Runs.run (step .little) (start 0 stoneThenCut.bytes) ((shown (0 : Fin 2) 1).take 15)).any
        (fun s => decide (∀ w, (s.scene.tp.threads w).isRunning = true)) = true := by
  have hany : (Lib.Runs.run (step .little) (start 0 stoneThenCut.bytes) (shown (0 : Fin 2) 1)).any
      (fun s => decide (Renderer.Quiescent s.scene)) = true := by
    delta step Renderer.step Renderer.State.publish
    rw [verticesOf_eq_meshOf]
    decide +kernel
  have hapart : Lib.Runs.check (step .little) (fun s => s.scene.Apart) (start 0 stoneThenCut.bytes)
      (shown (0 : Fin 2) 1) = true := by
    delta step Renderer.step Renderer.State.publish
    rw [verticesOf_eq_meshOf]
    decide +kernel
  obtain ⟨s, hrun, hq⟩ := (Option.any_eq_true _ _).mp hany
  have hpos : ∀ packet ∈ stoneThenCut.packets, ∀ c, packet.chunkData = some c →
      c.pos.Aligned ∧ c.pos.Within (2 ^ 24 - 32) := by
    intro packet hpacket c hc
    obtain rfl := List.mem_singleton.mp hpacket
    obtain rfl := Option.some.inj hc
    decide
  have hpicture : Pictured stoneThenCut.packets s.scene.world throughCorner :=
    picture_of_wire .little stoneThenCut 0 hpos (shown 0 1) hrun (Lib.Runs.along_of_check hapart)
      (of_decide_eq_true hq) throughCorner
  have hfirst : (⟨-16, 0, -32⟩, ⟨-16, 0, -31⟩, ⟨-16, 1, -31⟩) ∈ faceTriangles .left ⟨-16, 0, -32⟩ := by decide
  refine ⟨s, hrun, hpicture, hpicture.seen ⟨-16, 0, -32⟩ .left ⟨?_, ?_⟩ _ hfirst ⟨-16, 0, -32⟩ ?_ ?_, ?_⟩
  · decide +kernel
  · decide +kernel
  · refine subset_convexHull ℚ _ (Or.inl ?_)
    funext a
    cases a <;> simp [Vec3.get, coords, Ivec3.get]
  · intro plane hplane
    rw [throughCorner, Vector.toList_replicate, List.mem_replicate] at hplane
    rw [hplane.2]
    decide +kernel
  · decide +kernel

end Session
end MyMinecraft
