import Mathlib

/-! Exact numbers with the special values of floating point.

A number of an ordered field, an infinity or not a number, with the operations of IEEE 754
on them: a division by zero goes on as an infinity, what has no value is `nan`, and
every comparison with `nan` is false. Nothing is rounded, and zero has no sign, so the sign of a
quotient by zero is its dividend's. -/
namespace Lib.Extended

inductive Number (K : Type) where
  | fin (x : K)
  /-- `neg` for the one below all numbers. -/
  | inf (neg : Bool)
  | nan

namespace Number
variable {K : Type}

section
variable [LinearOrder K]

def lt : Number K → Number K → Bool
  | .fin x, .fin y => decide (x < y)
  | .fin _, .inf s => !s
  | .inf s, .fin _ => s
  | .inf s, .inf t => s && !t
  | _, _ => false

@[simp] theorem lt_fin (x y : K) : lt (fin x) (fin y) = decide (x < y) := rfl
@[simp] theorem lt_inf (x : K) : lt (fin x) (inf false) = true := rfl
@[simp] theorem inf_lt (x : K) : lt (inf false) (fin x) = false := rfl
@[simp] theorem nan_lt (a : Number K) : lt nan a = false := by cases a <;> rfl
@[simp] theorem lt_nan (a : Number K) : lt a nan = false := by cases a <;> rfl

end

variable [Field K]

def add : Number K → Number K → Number K
  | .fin x, .fin y => .fin (x + y)
  | .fin _, .inf s | .inf s, .fin _ => .inf s
  | .inf s, .inf t => if s = t then .inf s else .nan
  | _, _ => .nan

def neg : Number K → Number K
  | .fin x => .fin (-x)
  | .inf s => .inf !s
  | .nan => .nan

instance : Add (Number K) := ⟨add⟩
instance : Sub (Number K) := ⟨fun a b => add a (neg b)⟩

@[simp] theorem fin_add (x y : K) : fin x + fin y = fin (x + y) := rfl
@[simp] theorem fin_sub (x y : K) : fin x - fin y = fin (x - y) := congrArg fin (sub_eq_add_neg x y).symm
@[simp] theorem nan_add (a : Number K) : nan + a = nan := by cases a <;> rfl
@[simp] theorem add_nan (a : Number K) : a + nan = nan := by cases a <;> rfl

variable [LinearOrder K]

def mul : Number K → Number K → Number K
  | .fin x, .fin y => .fin (x * y)
  | .fin x, .inf s | .inf s, .fin x => if x = 0 then .nan else .inf (s ^^ decide (x < 0))
  | .inf s, .inf t => .inf (s ^^ t)
  | _, _ => .nan

def div : Number K → Number K → Number K
  | .fin x, .fin y => if y = 0 then if x = 0 then .nan else .inf (decide (x < 0)) else .fin (x / y)
  | .fin _, .inf _ => .fin 0
  | .inf s, .fin y => .inf (s ^^ decide (y < 0))
  | _, _ => .nan

def abs : Number K → Number K
  | .fin x => .fin |x|
  | .inf _ => .inf false
  | .nan => .nan

/-- The function `root` of a number, for a square root; it is undefined below zero. -/
def sqrt (root : K → K) : Number K → Number K
  | .fin x => .fin (root x)
  | .inf false => .inf false
  | _ => .nan

/-- The conversion to an integer; one of no number is undefined, and 0 here. -/
def floor [FloorRing K] : Number K → Int
  | .fin x => ⌊x⌋
  | _ => 0

instance : Mul (Number K) := ⟨mul⟩
instance : Div (Number K) := ⟨div⟩

@[simp] theorem fin_mul (x y : K) : fin x * fin y = fin (x * y) := rfl
@[simp] theorem abs_fin (x : K) : abs (fin x) = fin |x| := rfl
@[simp] theorem abs_inf (s : Bool) : abs (inf s : Number K) = inf false := rfl

theorem fin_div (x : K) {y : K} (h : y ≠ 0) : fin x / fin y = fin (x / y) := if_neg h

theorem div_zero_of_pos {x : K} (h : 0 < x) : fin x / fin 0 = inf false := by
  show (if (0 : K) = 0 then if x = 0 then nan else inf (decide (x < 0)) else fin (x / 0)) = _
  rw [if_pos rfl, if_neg h.ne', decide_eq_false h.not_gt]

/-- Zero times an infinity has no value. -/
theorem zero_mul_inf (s : Bool) : (fin 0 * inf s : Number K) = nan := if_pos rfl

theorem mul_inf_of_pos {x : K} (h : 0 < x) : fin x * inf false = inf false := by
  show (if x = 0 then nan else inf (false ^^ decide (x < 0))) = _
  rw [if_neg h.ne', decide_eq_false h.not_gt]
  rfl

end Number
end Lib.Extended
