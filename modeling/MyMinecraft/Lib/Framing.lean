import Mathlib

/-! Messages whose first byte says how long they are.

A stream of them is cut from the front: the first byte gives the length of the body, and
what follows the body is cut in turn. Whatever the messages, a stream of whole ones and
the beginning of another is cut into just these (`frames_stream`). -/
namespace Lib.Framing

/-- A message: its first byte and its body. -/
abbrev Frame := UInt8 × List UInt8

def Frame.bytes (f : Frame) : List UInt8 := f.1 :: f.2

variable (len : UInt8 → Option Nat)

/-- The whole messages at the front, and what is left. -/
def frames : List UInt8 → List Frame × List UInt8
  | [] => ([], [])
  | id :: rest =>
    match len id with
    | none => ([], id :: rest)
    | some n =>
      if n ≤ rest.length then
        let (fs, left) := frames (rest.drop n)
        ((id, rest.take n) :: fs, left)
      else ([], id :: rest)
termination_by bytes => bytes.length
decreasing_by
  simp only [List.length_drop, List.length_cons]
  omega

/-- The table knows the message. -/
def Fits (f : Frame) : Prop := len f.1 = some f.2.length

variable {len}

theorem frames_cons {f : Frame} (hf : Fits len f) (rest : List UInt8) :
    frames len (f.bytes ++ rest) = (f :: (frames len rest).1, (frames len rest).2) := by
  obtain ⟨id, body⟩ := f
  have hlen : len id = some body.length := hf
  have hle : body.length ≤ (body ++ rest).length := by
    rw [List.length_append]
    exact Nat.le_add_right ..
  show frames len (id :: (body ++ rest)) = _
  rw [frames, hlen]
  simp only [if_pos hle, List.take_left, List.drop_left]

/-- Of the beginning of a message nothing is cut off. -/
theorem frames_part {f : Frame} (hf : Fits len f) {part : List UInt8} (hpart : part <+: f.bytes)
    (hne : part ≠ f.bytes) : frames len part = ([], part) := by
  cases part with
  | nil => rw [frames]
  | cons id body =>
    obtain ⟨rfl, hbody⟩ := List.cons_prefix_cons.mp hpart
    have hlen : len f.1 = some f.2.length := hf
    have hshort : ¬ f.2.length ≤ body.length := by
      intro hle
      apply hne
      rw [hbody.eq_of_length (Nat.le_antisymm hbody.length_le hle), Frame.bytes]
    rw [frames, hlen]
    simp only [if_neg hshort]

/-- **A stream is cut into the messages it was made of.** -/
theorem frames_stream {fs : List Frame} (hfs : ∀ f ∈ fs, Fits len f) {next : Frame} (hnext : Fits len next)
    {part : List UInt8} (hpart : part <+: next.bytes) (hne : part ≠ next.bytes) :
    frames len (fs.flatMap Frame.bytes ++ part) = (fs, part) := by
  induction fs with
  | nil => exact frames_part hnext hpart hne
  | cons f fs ih =>
    have hrest := ih fun f' hf' => hfs f' (List.mem_cons_of_mem _ hf')
    rw [List.flatMap_cons, List.append_assoc, frames_cons (hfs f (List.mem_cons_self ..)), hrest]

end Lib.Framing
