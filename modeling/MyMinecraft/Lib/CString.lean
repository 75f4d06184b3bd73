import Mathlib

/-! C strings.

A C string is read from its first byte up to the first zero, which need not lie
inside the array it was put in. `text_append_iff` says when what follows the array
does not show. -/
namespace Lib.CString

/-- The bytes before the first zero, or all of them. -/
def text (bs : List UInt8) : List UInt8 := bs.takeWhile (· ≠ 0)

@[simp] theorem text_nil : text [] = [] := rfl

theorem text_cons_zero (bs : List UInt8) : text (0 :: bs) = [] := rfl

theorem text_cons {b : UInt8} (h : b ≠ 0) (bs : List UInt8) : text (b :: bs) = b :: text bs :=
  List.takeWhile_cons_of_pos (by simpa using h)

theorem text_append (a b : List UInt8) : text (a ++ b) = if 0 ∈ a then text a else a ++ text b := by
  induction a with
  | nil => rfl
  | cons c a ih =>
    by_cases hc : c = 0
    · subst hc
      rw [if_pos (List.mem_cons_self ..)]
      rfl
    · rw [List.cons_append, text_cons hc, text_cons hc, ih]
      by_cases ha : 0 ∈ a
      · rw [if_pos ha, if_pos (List.mem_cons_of_mem c ha)]
      · have hca : 0 ∉ c :: a := by simp [ha, Ne.symm hc]
        rw [if_neg ha, if_neg hca, List.cons_append]

theorem text_of_notMem {bs : List UInt8} (h : 0 ∉ bs) : text bs = bs := by
  rw [← List.append_nil bs, text_append, if_neg h, text_nil]

theorem text_eq_nil_iff (bs : List UInt8) : text bs = [] ↔ bs.headD 0 = 0 := by
  cases bs with
  | nil => simp
  | cons b bs =>
    by_cases hb : b = 0
    · subst hb
      simp [text_cons_zero]
    · simp [text_cons hb, hb]

/-- What follows an array does not show when the string ends in the array, or right behind it. -/
theorem text_append_iff (a b : List UInt8) : text (a ++ b) = text a ↔ 0 ∈ a ∨ b.headD 0 = 0 := by
  rw [text_append, ← text_eq_nil_iff]
  by_cases ha : 0 ∈ a
  · simp [ha]
  · simp [ha, text_of_notMem ha]

theorem text_take (n : Nat) (bs : List UInt8) : text (bs.take n) = (text bs).take n := by
  induction bs generalizing n with
  | nil => simp
  | cons b bs ih =>
    cases n with
    | zero => rfl
    | succ n =>
      by_cases hb : b = 0
      · subst hb
        rfl
      · rw [List.take_succ_cons, text_cons hb, text_cons hb, ih, List.take_succ_cons]

end Lib.CString
