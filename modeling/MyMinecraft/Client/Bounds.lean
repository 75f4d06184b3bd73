import MyMinecraft.Client.Stream

/-! The bounds of the buffer.

Nothing makes a chat end in a zero. What stops the scan is that the buffer is longer
than the longest packet and was zero to begin with: no packet, whole or cut short,
reaches index 4108, so there is still a zero there after any run (`Run.clean`). -/
namespace MyMinecraft
open Lib.Wire (Endian)

/-- No store past index 4107, and no scan that finds no zero in the buffer. -/
def Access.Inside : Access → Prop
  | .write bytes => bytes.length ≤ 4108
  | .scan bytes => bytes.idxOf 0 < 5000 ∧ bytes[bytes.idxOf 0]? = some 0

namespace Client
variable (host : Endian)

/-- The runs of a client, with all they have done to the buffer: it is constructed; it calls `receive`, which
returns or throws; between calls the socket may come to have anything before it, also after a
body that was cut short, and the main thread is at the queues. A body that breaks off after so
many bytes is a call on a socket that has no more. -/
inductive Run : List Access → Client → Prop where
  | fresh (entityId : Int) (socket : List UInt8) :
    Run [] ⟨Buffer.zero, ⟨[], [], [], [], []⟩, entityId, socket⟩
  | call {trace : List Access} {c c' : Client} {result : Bool} (h : Run trace c)
      (hcall : c.receive host = .ok (result, c')) : Run (trace ++ c.accesses) c'
  | thrown {trace : List Access} {c : Client} {id : UInt8} {rest : List UInt8} (h : Run trace c)
      (hs : c.socket = id :: rest) (hid : packetid.lookup id = none) :
    Run (trace ++ c.accesses) (c.idRead id rest)
  | delivered {trace : List Access} {c : Client} (socket : List UInt8) (h : Run trace c) :
    Run trace {c with socket}
  | taken {trace : List Access} {c : Client} (data : Data) (h : Run trace c) : Run trace {c with data}

variable {host} {trace : List Access} {c : Client}

/-- The buffer is what the stores of the run have made of it. -/
theorem Run.buffer (h : Run host trace c) : c.buffer = trace.foldl Buffer.after Buffer.zero := by
  induction h with
  | fresh entityId socket => rfl
  | call _ hcall ih => rw [receive_accesses host hcall, ih, List.foldl_append]
  | thrown _ hs hid ih =>
    rw [List.foldl_append, ← ih, accesses_unknown hs hid]
    rfl
  | delivered socket _ ih => exact ih
  | taken data _ ih => exact ih

/-- Its end is as it was constructed, also after a call that threw. -/
theorem Run.clean (h : Run host trace c) : c.buffer.Clean := by
  induction h with
  | fresh entityId socket => exact Buffer.clean_zero
  | call _ hcall ih => exact receive_clean host ih hcall
  | thrown _ hs hid ih => exact ih.write_id _
  | delivered socket _ ih => exact ih
  | taken data _ ih => exact ih

/-- **A call stays in the buffer.** -/
theorem accesses_inside (hb : c.buffer.Clean) {access : Access} (h : access ∈ c.accesses) : access.Inside := by
  cases access with
  | write bytes => exact accesses_le h
  | scan bytes =>
    have hclean : (c.accesses.foldl Buffer.after c.buffer).Clean := hb.after fun _ => accesses_le
    have hzero : 0 ∈ bytes := by
      rw [scan_bytes h]
      exact hclean.terminated
    have hsize : bytes.length = 5000 := by
      rw [scan_bytes h]
      exact Buffer.size _
    have hindex : bytes.idxOf 0 < bytes.length := List.idxOf_lt_length_iff.mpr hzero
    refine ⟨?_, ?_⟩
    · rwa [hsize] at hindex
    · rw [List.getElem?_eq_getElem hindex, List.getElem_idxOf hindex]

/-- So does the next call of a run that has. -/
theorem append_inside (hb : c.buffer.Clean) (htrace : ∀ access ∈ trace, access.Inside) :
    ∀ access ∈ trace ++ c.accesses, access.Inside := by
  intro access h
  obtain hbefore | hcall := List.mem_append.mp h
  · exact htrace access hbefore
  · exact accesses_inside hb hcall

theorem Run.inside (h : Run host trace c) : ∀ access ∈ trace, access.Inside := by
  induction h with
  | fresh entityId socket => exact fun _ hmem => absurd hmem List.not_mem_nil
  | call hrun _ ih => exact append_inside hrun.clean ih
  | thrown hrun _ _ ih => exact append_inside hrun.clean ih
  | delivered socket _ ih => exact ih
  | taken data _ ih => exact ih

/-- **The scan of a chat stops in the buffer.** In every run, and in the call that comes next, no store
goes past the longest packet and every scan finds a zero; the buffer is what those stores
made of it and the next call does not leave it. -/
theorem buffer_inside (h : Run host trace c) :
    (∀ access ∈ trace ++ c.accesses, access.Inside) ∧
      c.buffer = trace.foldl Buffer.after Buffer.zero ∧ c.receive host ≠ .error .outOfBounds := by
  refine ⟨append_inside h.clean h.inside, h.buffer, fun hfault => ?_⟩
  obtain ⟨bytes, hscan, hzero⟩ := (receive_outOfBounds_iff host c).mp hfault
  obtain ⟨_, hfound⟩ := accesses_inside h.clean hscan
  exact hzero (List.mem_of_getElem? hfound)

/-- A chunk that breaks off before its last byte. -/
def cutChunk : Client := ⟨Buffer.zero, ⟨[], [], [], [], []⟩, 0, 0x04 :: List.replicate 4107 5⟩

/-- After it a chat without a zero. -/
theorem buffer_inside_chat : ∃ c, Run .little cutChunk.accesses c ∧
    c.socket = 0x06 :: List.replicate 4096 0x61 ∧ (∃ bytes, .scan bytes ∈ c.accesses) ∧
      (∀ access ∈ cutChunk.accesses ++ c.accesses, access.Inside) ∧ c.receive .little ≠ .error .outOfBounds := by
  have hchunk : packetid.lookup 0x04 = some 4108 := by decide
  have hshort : (List.replicate 4107 (5 : UInt8)).length < 4108 := by rw [List.length_replicate]; decide
  obtain ⟨c, hcall, -⟩ := receive_cut cutChunk .little hchunk hshort Buffer.clean_zero rfl
  have hrun : Run .little cutChunk.accesses {c with socket := 0x06 :: List.replicate 4096 0x61} :=
    .delivered _ (.call (.fresh 0 _) hcall)
  obtain ⟨hinside, -, hbounds⟩ := buffer_inside hrun
  exact ⟨_, hrun, rfl, scan_chat rfl (List.length_replicate ..).ge, hinside, hbounds⟩

end Client
end MyMinecraft
