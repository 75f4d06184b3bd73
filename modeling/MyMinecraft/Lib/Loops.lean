import Mathlib

/-! Loops that append to a list and may fail, and bounded loops that search. -/
namespace Lib.Loops

variable {α β ε : Type}

/-- A loop each step of which succeeds and appends `g x` appends them all, in order. -/
theorem foldlM_append (f : List β → α → Except ε (List β)) (g : α → List β) (xs : List α)
    (h : ∀ x ∈ xs, ∀ acc, f acc x = .ok (acc ++ g x)) (acc : List β) :
    xs.foldlM f acc = .ok (acc ++ xs.flatMap g) := by
  induction xs generalizing acc with
  | nil => simp only [List.foldlM_nil, List.flatMap_nil, List.append_nil]; rfl
  | cons x xs ih =>
    have hx : f acc x = .ok (acc ++ g x) := h x (List.mem_cons_self ..) acc
    rw [List.foldlM_cons, hx]
    show xs.foldlM f (acc ++ g x) = _
    rw [ih (fun y hy => h y (List.mem_cons_of_mem _ hy)), List.flatMap_cons, List.append_assoc]

/-! ### Searching -/

variable {σ ρ : Type}

/-- At most `n` turns, each of which stops with a result or goes on. -/
def search (stop : σ → Option ρ) (next : σ → σ) : Nat → σ → Option ρ
  | 0, _ => none
  | n + 1, s =>
    match stop s with
    | some r => some r
    | none => search stop next n (next s)

theorem search_eq_none_iff (stop : σ → Option ρ) (next : σ → σ) (n : Nat) (s : σ) :
    search stop next n s = none ↔ ∀ i < n, stop (next^[i] s) = none := by
  induction n generalizing s with
  | zero => simp [search]
  | succ n ih =>
    rw [search, Nat.forall_lt_succ_left]
    cases h : stop s with
    | some r => simp [h]
    | none => simp [h, ih]

/-- The result is that of the first turn that stops. -/
theorem search_eq_some_iff (stop : σ → Option ρ) (next : σ → σ) (n : Nat) (s : σ) (r : ρ) :
    search stop next n s = some r ↔
      ∃ i < n, stop (next^[i] s) = some r ∧ ∀ j < i, stop (next^[j] s) = none := by
  induction n generalizing s with
  | zero => simp [search]
  | succ n ih =>
    rw [search]
    cases h : stop s with
    | some r' =>
      constructor
      · intro hr
        exact ⟨0, Nat.succ_pos n, h.trans hr, fun j hj => absurd hj (Nat.not_lt_zero j)⟩
      · intro hsome
        obtain ⟨i, -, hi, hbefore⟩ := hsome
        cases i with
        | zero => exact h.symm.trans hi
        | succ i => cases h.symm.trans (hbefore 0 (Nat.succ_pos i))
    | none =>
      constructor
      · intro hr
        obtain ⟨i, hi, hstop, hbefore⟩ := (ih (next s)).mp hr
        refine ⟨i + 1, Nat.succ_lt_succ hi, hstop, fun j hj => ?_⟩
        cases j with
        | zero => exact h
        | succ j => exact hbefore j (Nat.lt_of_succ_lt_succ hj)
      · intro hsome
        obtain ⟨i, hi, hstop, hbefore⟩ := hsome
        cases i with
        | zero => cases h.symm.trans hstop
        | succ i =>
          exact (ih (next s)).mpr ⟨i, Nat.lt_of_succ_lt_succ hi, hstop,
            fun j hj => hbefore (j + 1) (Nat.succ_lt_succ hj)⟩

end Lib.Loops
