import MyMinecraft.Client

/-! What a call does to the buffer.

`receive` stores the id and then the body from the start of the buffer up, the body as
far as it comes, and a chat is read from there on to the first zero. `accesses` lists
that for one call. It is all there is: the stores make the buffer the call leaves
(`receive_accesses`), and a call leaves the buffer's bounds exactly with a scan
that finds no zero (`receive_outOfBounds_iff`). -/
namespace MyMinecraft
open Lib.Wire (Endian)

inductive Access where
  /-- These bytes are stored, the first at index 0. -/
  | write (bytes : List UInt8)
  /-- The buffer holds these bytes when it is read from index 0 to the first zero. -/
  | scan (bytes : List UInt8)

namespace Buffer

/-- The buffer after the access. -/
def after (b : Buffer) : Access → Buffer
  | .write bytes => b.write bytes
  | .scan _ => b

theorem write_bytes (b : Buffer) {bs : List UInt8} (h : bs.length ≤ 5000) :
    (b.write bs).bytes = bs ++ b.bytes.drop bs.length := by
  have hsize := b.size
  apply List.take_of_length_le
  rw [List.length_append, List.length_drop]
  omega

/-- The id is read back from where it was put. -/
theorem getD_write_id (b : Buffer) (byte : UInt8) : (b.write [byte]).bytes.getD 0 0 = byte := by
  rw [write_bytes b (show [byte].length ≤ 5000 by simp)]
  rfl

end Buffer

namespace Client

/-- What follows the id: the body, and the scan of a chat that is complete. -/
def bodyAccesses (c : Client) (id : UInt8) : List Access :=
  match packetid.lookup id with
  | none => []
  | some len =>
    .write (c.socket.take len) ::
      if (c.receiveAll len).1 ∧ id = 0x06 then [.scan (c.receiveAll len).2.buffer.bytes] else []

/-- The client when it has read an id. -/
def idRead (c : Client) (byte : UInt8) (rest : List UInt8) : Client :=
  {c with buffer := c.buffer.write [byte], socket := rest}

/-- `id` in the source. -/
def idByte (c : Client) : UInt8 := c.buffer.bytes.getD 0 0

/-- The accesses of the next call, in order, whether it returns or not. -/
def accesses (c : Client) : List Access :=
  match c.socket with
  | [] => []
  | byte :: rest => .write [byte] :: (c.idRead byte rest).bodyAccesses (c.idRead byte rest).idByte

theorem idByte_idRead (c : Client) (byte : UInt8) (rest : List UInt8) : (c.idRead byte rest).idByte = byte :=
  Buffer.getD_write_id c.buffer byte

variable (host : Endian)

/-! ### The ways a call can go -/

theorem receive_end {c : Client} (hs : c.socket = []) : c.receive host = .ok (false, c) := by
  unfold receive
  rw [hs]

/-- `packetid.at` throws. -/
theorem receive_unknown {c : Client} {id : UInt8} {rest : List UInt8} (hs : c.socket = id :: rest)
    (hid : packetid.lookup id = none) : c.receive host = .error .outOfRange := by
  unfold receive
  rw [hs]
  simp only [Buffer.getD_write_id, hid]

theorem receive_known {c : Client} {id : UInt8} {rest : List UInt8} (hs : c.socket = id :: rest) {len : Nat}
    (hid : packetid.lookup id = some len) :
    c.receive host = if ((c.idRead id rest).receiveAll len).1 then
        (((c.idRead id rest).receiveAll len).2.handle host id).map fun c => (true, c)
      else .ok (false, ((c.idRead id rest).receiveAll len).2) := by
  unfold idRead receive
  rw [hs]
  simp only [Buffer.getD_write_id, hid]
  split
  · next h => simp [h]
  · next h => simp [h]

theorem receiveAll_whole {c : Client} {len : Nat} (h : len ≤ c.socket.length) :
    c.receiveAll len = (true, {c with buffer := c.buffer.write (c.socket.take len), socket := c.socket.drop len}) :=
  if_pos h

theorem receiveAll_cut {c : Client} {len : Nat} (h : c.socket.length < len) :
    c.receiveAll len = (false, {c with buffer := c.buffer.write c.socket, socket := []}) :=
  if_neg (Nat.not_le.mpr h)

/-- Whole or cut, the body is in the buffer as far as it came. -/
theorem receiveAll_buffer (c : Client) (len : Nat) :
    (c.receiveAll len).2.buffer = c.buffer.write (c.socket.take len) := by
  obtain h | h := Nat.lt_or_ge c.socket.length len
  · rw [receiveAll_cut h, List.take_of_length_le h.le]
  · rw [receiveAll_whole h]

/-- The handlers only read the buffer. -/
theorem handle_buffer {c c' : Client} {id : UInt8} (h : c.handle host id = .ok c') :
    c'.buffer = c.buffer := by
  unfold handle at h
  split at h
  case h_7 =>
    unfold receiveChat at h
    split at h
    · rw [← Except.ok.inj h]
    · cases h
  all_goals
    rw [← Except.ok.inj h]
    try rfl

/-- Of the handlers only that of the chat can fail. -/
theorem handle_ok (c : Client) {id : UInt8} (hid : id ≠ 0x06) : ∃ c', c.handle host id = .ok c' := by
  unfold handle
  split
  case h_7 hchat => exact absurd (UInt8.toNat_inj.mp hchat) hid
  all_goals exact ⟨_, rfl⟩

theorem handle_outOfBounds_iff (c : Client) (id : UInt8) :
    c.handle host id = .error .outOfBounds ↔ id = 0x06 ∧ 0 ∉ c.buffer.bytes := by
  by_cases hid : id = 0x06
  · subst hid
    show c.receiveChat = .error .outOfBounds ↔ _
    rw [receiveChat]
    by_cases hzero : 0 ∈ c.buffer.bytes <;> simp [hzero]
  · obtain ⟨c', hc'⟩ := handle_ok host c hid
    rw [hc']
    simp [hid]

/-! ### The accesses are those of the call -/

theorem accesses_end {c : Client} (hs : c.socket = []) : c.accesses = [] := by
  rw [accesses, hs]

theorem accesses_unknown {c : Client} {id : UInt8} {rest : List UInt8} (hs : c.socket = id :: rest)
    (hid : packetid.lookup id = none) : c.accesses = [.write [id]] := by
  rw [accesses, hs]
  simp only [idByte_idRead, bodyAccesses, hid]

theorem accesses_known {c : Client} {id : UInt8} {rest : List UInt8} (hs : c.socket = id :: rest) {len : Nat}
    (hid : packetid.lookup id = some len) :
    c.accesses = .write [id] :: .write (rest.take len) ::
      if ((c.idRead id rest).receiveAll len).1 ∧ id = 0x06 then
        [.scan ((c.idRead id rest).receiveAll len).2.buffer.bytes] else [] := by
  rw [accesses, hs]
  simp only [idByte_idRead, bodyAccesses, hid]
  rfl

theorem foldl_accesses {c : Client} {id : UInt8} {rest : List UInt8} (hs : c.socket = id :: rest) {len : Nat}
    (hid : packetid.lookup id = some len) :
    c.accesses.foldl Buffer.after c.buffer = ((c.idRead id rest).receiveAll len).2.buffer := by
  rw [accesses_known hs hid, receiveAll_buffer]
  split <;> rfl

/-- The accesses there can be: the id is stored, the body of a known id is stored, a whole chat is scanned. -/
theorem accesses_cases {c : Client} {access : Access} (h : access ∈ c.accesses) :
    ∃ id rest, c.socket = id :: rest ∧ (access = .write [id] ∨ ∃ len, packetid.lookup id = some len ∧
      (access = .write (rest.take len) ∨ (((c.idRead id rest).receiveAll len).1 = true ∧ id = 0x06) ∧
        access = .scan ((c.idRead id rest).receiveAll len).2.buffer.bytes)) := by
  cases hs : c.socket with
  | nil =>
    rw [accesses_end hs] at h
    cases h
  | cons id rest =>
    refine ⟨id, rest, rfl, ?_⟩
    cases hid : packetid.lookup id with
    | none =>
      rw [accesses_unknown hs hid] at h
      exact .inl (List.mem_singleton.mp h)
    | some len =>
      rw [accesses_known hs hid] at h
      obtain heq | hbody := List.mem_cons.mp h
      · exact .inl heq
      · refine .inr ⟨len, rfl, ?_⟩
        obtain heq | hscan := List.mem_cons.mp hbody
        · exact .inl heq
        · split at hscan
          · next hwhole => exact .inr ⟨hwhole, List.mem_singleton.mp hscan⟩
          · cases hscan

/-- No store goes past the longest packet. -/
theorem accesses_le {c : Client} {bytes : List UInt8} (h : .write bytes ∈ c.accesses) : bytes.length ≤ 4108 := by
  obtain ⟨id, rest, -, heq | ⟨len, hid, heq | ⟨-, heq⟩⟩⟩ := accesses_cases h
  · obtain rfl := Access.write.inj heq
    show 1 ≤ 4108
    decide
  · obtain rfl := Access.write.inj heq
    exact (List.length_take_le ..).trans (packetid_le hid)
  · cases heq

/-- A chat that is all there is scanned. -/
theorem scan_chat {c : Client} {rest : List UInt8} (hs : c.socket = 0x06 :: rest) (hlen : 4096 ≤ rest.length) :
    ∃ bytes, .scan bytes ∈ c.accesses := by
  have hid : packetid.lookup 0x06 = some 4096 := by decide
  have hwhole : ((c.idRead 0x06 rest).receiveAll 4096).1 = true := by rw [receiveAll_whole hlen]
  refine ⟨((c.idRead 0x06 rest).receiveAll 4096).2.buffer.bytes, ?_⟩
  rw [accesses_known hs hid, if_pos ⟨hwhole, rfl⟩]
  exact List.mem_cons_of_mem _ (List.mem_cons_of_mem _ (List.mem_singleton_self _))

/-- What a chat is scanned in is what the stores of the call have left. -/
theorem scan_bytes {c : Client} {bytes : List UInt8} (h : .scan bytes ∈ c.accesses) :
    bytes = (c.accesses.foldl Buffer.after c.buffer).bytes := by
  obtain ⟨id, rest, hs, heq | ⟨len, hid, heq | ⟨-, heq⟩⟩⟩ := accesses_cases h
  · cases heq
  · cases heq
  · rw [foldl_accesses hs hid]
    exact Access.scan.inj heq

/-- **The stores are all the call does to the buffer.** -/
theorem receive_accesses {c c' : Client} {result : Bool} (h : c.receive host = .ok (result, c')) :
    c'.buffer = c.accesses.foldl Buffer.after c.buffer := by
  cases hs : c.socket with
  | nil =>
    rw [receive_end host hs] at h
    obtain ⟨_, rfl⟩ := Prod.mk.inj (Except.ok.inj h)
    rw [accesses_end hs]
    rfl
  | cons id rest =>
    cases hid : packetid.lookup id with
    | none =>
      rw [receive_unknown host hs hid] at h
      cases h
    | some len =>
      rw [foldl_accesses hs hid]
      rw [receive_known host hs hid] at h
      split at h
      · cases hhandle : ((c.idRead id rest).receiveAll len).2.handle host id with
        | error e =>
          rw [hhandle] at h
          cases h
        | ok c₁ =>
          rw [hhandle] at h
          obtain ⟨_, rfl⟩ := Prod.mk.inj (Except.ok.inj h)
          exact handle_buffer host hhandle
      · obtain ⟨_, rfl⟩ := Prod.mk.inj (Except.ok.inj h)
        rfl

/-- **A call reads past the buffer exactly when it scans a buffer without a zero.** -/
theorem receive_outOfBounds_iff (c : Client) :
    c.receive host = .error .outOfBounds ↔ ∃ bytes, .scan bytes ∈ c.accesses ∧ 0 ∉ bytes := by
  cases hs : c.socket with
  | nil =>
    rw [receive_end host hs, accesses_end hs]
    simp
  | cons id rest =>
    cases hid : packetid.lookup id with
    | none =>
      rw [receive_unknown host hs hid, accesses_unknown hs hid]
      simp
    | some len =>
      have hmap (handled : Except Fault Client) : (handled.map fun c => (true, c)) = .error .outOfBounds ↔
          handled = .error .outOfBounds := by
        cases handled <;> simp [Except.map]
      rw [receive_known host hs hid, accesses_known hs hid]
      by_cases hwhole : ((c.idRead id rest).receiveAll len).1 = true
      · rw [if_pos hwhole, hmap, handle_outOfBounds_iff]
        by_cases hchat : id = 0x06
        · subst hchat
          simp [hwhole]
        · simp [hchat]
      · rw [if_neg hwhole]
        simp [hwhole]

end Client
end MyMinecraft
