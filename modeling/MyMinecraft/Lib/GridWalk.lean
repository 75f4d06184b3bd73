import Mathlib

/-! A ray through the unit cells of a grid.

A ray leaves a cell at the least of the times at which it leaves the cell's interval
on each axis. Crossing every axis where that time is attained gives the next cell. The
cells so walked, from the one the origin is in, miss nothing: at each time from 0 on it
is the turn of one of them, and that one has the ray in its closed cell
(`During.touches`), so if the ray is in the interior of a cell it is that cell
(`eq_of_inside`). Nor is a cell walked that the ray only grazes, the first excepted
(`inside_walk`). -/
namespace Lib.GridWalk

/-- A ray that moves on every axis. -/
structure Ray (ι K : Type*) [Zero K] where
  origin : ι → K
  direction : ι → K
  moves : ∀ a, direction a ≠ 0

section
variable {ι K : Type*} [Field K] [LinearOrder K]

/-- The point is in the interior of the cell. -/
def Inside (x : ι → K) (c : ι → ℤ) : Prop := ∀ a, c a < x a ∧ x a < c a + 1

/-- The point is in the closed cell. -/
def Touches (x : ι → K) (c : ι → ℤ) : Prop := ∀ a, c a ≤ x a ∧ x a ≤ c a + 1

theorem Inside.touches {x : ι → K} {c : ι → ℤ} (h : Inside x c) : Touches x c := fun a => ⟨(h a).1.le, (h a).2.le⟩

namespace Ray
variable (r : Ray ι K)

def point (t : K) : ι → K := fun a => r.origin a + t * r.direction a

/-- The way the ray goes on an axis. -/
def heading (a : ι) : ℤ := if 0 < r.direction a then 1 else -1

/-- How long the ray takes for one cell. -/
def width (a : ι) : K := 1 / |r.direction a|

/-- When the ray leaves the cell's interval on an axis. -/
def exit (c : ι → ℤ) (a : ι) : K :=
  (c a + (if 0 < r.direction a then 1 else 0) - r.origin a) / r.direction a

/-- When the ray enters it. -/
def enter (c : ι → ℤ) (a : ι) : K := r.exit c a - r.width a

/-- The axis is crossed when the ray leaves the cell. -/
def Leaves (c : ι → ℤ) (a : ι) : Prop := ∀ b, r.exit c a ≤ r.exit c b

instance [Fintype ι] (c : ι → ℤ) (a : ι) : Decidable (r.Leaves c a) := inferInstanceAs (Decidable (∀ _, _))

/-- The cell the ray goes to, across a face, an edge or a corner. -/
def next [Fintype ι] (c : ι → ℤ) : ι → ℤ := fun a => c a + if r.Leaves c a then r.heading a else 0

/-- When the ray leaves the cell. -/
def leave [Fintype ι] [Nonempty ι] (c : ι → ℤ) : K := Finset.univ.inf' Finset.univ_nonempty (r.exit c)

/-- The cell of the origin. -/
def first [FloorRing K] : ι → ℤ := fun a => ⌊r.origin a⌋

/-- The `n`-th cell. -/
def walk [Fintype ι] [FloorRing K] (n : ℕ) : ι → ℤ := r.next^[n] r.first

theorem walk_succ [Fintype ι] [FloorRing K] (n : ℕ) : r.walk (n + 1) = r.next (r.walk n) :=
  Function.iterate_succ_apply' ..

/-- When the ray leaves it. -/
def time [Fintype ι] [Nonempty ι] [FloorRing K] (n : ℕ) : K := r.leave (r.walk n)

/-- The turn of the `n`-th cell: from the times of the cells before, to its own. -/
structure During [Fintype ι] [Nonempty ι] [FloorRing K] (n : ℕ) (t : K) : Prop where
  nonneg : 0 ≤ t
  since : ∀ i < n, r.time i < t
  till : t ≤ r.time n

theorem lt_or_gt_zero (a : ι) : 0 < r.direction a ∨ r.direction a < 0 := (r.moves a).lt_or_gt.symm

theorem heading_eq (a : ι) : r.heading a = 1 ∨ r.heading a = -1 := by
  rw [heading]
  split
  · exact .inl rfl
  · exact .inr rfl

theorem exit_eq_of_pos {a : ι} (h : 0 < r.direction a) (c : ι → ℤ) :
    r.exit c a = (c a + 1 - r.origin a) / r.direction a := by
  rw [exit, if_pos h]

theorem exit_eq_of_neg {a : ι} (h : r.direction a < 0) (c : ι → ℤ) :
    r.exit c a = (c a - r.origin a) / r.direction a := by
  rw [exit, if_neg h.not_gt, add_zero]

/-- The ray leaves on a plane of the grid. -/
theorem point_exit (c : ι → ℤ) (a : ι) : ∃ k : ℤ, r.point (r.exit c a) a = k := by
  refine ⟨c a + if 0 < r.direction a then 1 else 0, ?_⟩
  rw [point, exit, div_mul_cancel₀ _ (r.moves a), add_sub_cancel]
  split <;> simp

theorem point_exit_eq (c : ι → ℤ) (a : ι) :
    r.point (r.exit c a) a = (c a + if 0 < r.direction a then 1 else 0 : ℤ) := by
  rw [point, exit, div_mul_cancel₀ _ (r.moves a), add_sub_cancel]
  split <;> simp

section
variable [Fintype ι] [Nonempty ι]

theorem leave_le (c : ι → ℤ) (a : ι) : r.leave c ≤ r.exit c a := Finset.inf'_le _ (Finset.mem_univ a)

theorem le_leave {c : ι → ℤ} {t : K} (h : ∀ a, t ≤ r.exit c a) : t ≤ r.leave c := Finset.le_inf' _ _ fun a _ => h a

theorem leaves_iff (c : ι → ℤ) (a : ι) : r.Leaves c a ↔ r.exit c a = r.leave c := by
  constructor
  · intro h
    exact le_antisymm (r.le_leave h) (r.leave_le c a)
  · intro h b
    rw [h]
    exact r.leave_le c b

theorem exists_leaves (c : ι → ℤ) : ∃ a, r.Leaves c a := by
  obtain ⟨a, _, h⟩ := Finset.exists_mem_eq_inf' Finset.univ_nonempty (r.exit c)
  exact ⟨a, (r.leaves_iff c a).mpr h.symm⟩

/-- Later times are in later turns. -/
theorem During.le [FloorRing K] {r : Ray ι K} {n m : ℕ} {t t' : K} (h : r.During n t) (h' : r.During m t')
    (htt : t ≤ t') : n ≤ m := by
  by_contra hlt
  exact absurd (h.since m (Nat.lt_of_not_le hlt)) (htt.trans h'.till).not_gt

end
end Ray
end

variable {ι K : Type*} [Field K] [LinearOrder K] [IsStrictOrderedRing K]

/-- Interiors meet no other cell. -/
theorem eq_of_inside {x : ι → K} {c c' : ι → ℤ} (h : Inside x c) (h' : Touches x c') : c = c' := by
  funext a
  have hlt : (c a : K) < (c' a + 1 : ℤ) := by
    rw [Int.cast_add, Int.cast_one]
    exact (h a).1.trans_le (h' a).2
  have hgt : (c' a : K) < (c a + 1 : ℤ) := by
    rw [Int.cast_add, Int.cast_one]
    exact (h' a).1.trans_lt (h a).2
  have hlt' := Int.cast_lt.mp hlt
  have hgt' := Int.cast_lt.mp hgt
  omega

namespace Ray
variable (r : Ray ι K)

/-! ### One cell -/

theorem width_pos (a : ι) : 0 < r.width a := one_div_pos.mpr (abs_pos.mpr (r.moves a))

theorem enter_eq_of_pos {a : ι} (h : 0 < r.direction a) (c : ι → ℤ) :
    r.enter c a = (c a - r.origin a) / r.direction a := by
  rw [enter, r.exit_eq_of_pos h, width, abs_of_pos h, ← sub_div]
  ring

theorem enter_eq_of_neg {a : ι} (h : r.direction a < 0) (c : ι → ℤ) :
    r.enter c a = (c a + 1 - r.origin a) / r.direction a := by
  rw [enter, r.exit_eq_of_neg h, width, abs_of_neg h, one_div_neg_eq_neg_one_div, sub_neg_eq_add, ← add_div]
  ring

theorem mem_interval_iff (c : ι → ℤ) (a : ι) (t : K) :
    (c a ≤ r.point t a ∧ r.point t a ≤ c a + 1) ↔ r.enter c a ≤ t ∧ t ≤ r.exit c a := by
  obtain h | h := r.lt_or_gt_zero a
  · rw [r.enter_eq_of_pos h, r.exit_eq_of_pos h, div_le_iff₀ h, le_div_iff₀ h, sub_le_iff_le_add',
      le_sub_iff_add_le', point]
  · rw [r.enter_eq_of_neg h, r.exit_eq_of_neg h, div_le_iff_of_neg h, le_div_iff_of_neg h, sub_le_iff_le_add',
      le_sub_iff_add_le', point, and_comm]

theorem mem_interior_iff (c : ι → ℤ) (a : ι) (t : K) :
    (c a < r.point t a ∧ r.point t a < c a + 1) ↔ r.enter c a < t ∧ t < r.exit c a := by
  obtain h | h := r.lt_or_gt_zero a
  · rw [r.enter_eq_of_pos h, r.exit_eq_of_pos h, div_lt_iff₀ h, lt_div_iff₀ h, sub_lt_iff_lt_add',
      lt_sub_iff_add_lt', point]
  · rw [r.enter_eq_of_neg h, r.exit_eq_of_neg h, div_lt_iff_of_neg h, lt_div_iff_of_neg h, sub_lt_iff_lt_add',
      lt_sub_iff_add_lt', point, and_comm]

theorem touches_iff (c : ι → ℤ) (t : K) :
    Touches (r.point t) c ↔ ∀ a, r.enter c a ≤ t ∧ t ≤ r.exit c a :=
  forall_congr' fun a => r.mem_interval_iff c a t

theorem inside_iff (c : ι → ℤ) (t : K) :
    Inside (r.point t) c ↔ ∀ a, r.enter c a < t ∧ t < r.exit c a :=
  forall_congr' fun a => r.mem_interior_iff c a t

/-! ### From cell to cell -/

theorem heading_div (a : ι) : r.heading a / r.direction a = r.width a := by
  rw [heading, width]
  obtain h | h := r.lt_or_gt_zero a
  · rw [if_pos h, abs_of_pos h, Int.cast_one]
  · rw [if_neg h.not_gt, abs_of_neg h, Int.cast_neg, Int.cast_one, neg_div, div_neg]

section
variable [Fintype ι]

theorem exit_next (c : ι → ℤ) (a : ι) :
    r.exit (r.next c) a = r.exit c a + if r.Leaves c a then r.width a else 0 := by
  by_cases hleaves : r.Leaves c a
  · rw [exit, exit, next, if_pos hleaves, if_pos hleaves, ← heading_div, Int.cast_add, ← add_div]
    ring
  · rw [exit, exit, next, if_neg hleaves, if_neg hleaves, add_zero, add_zero]

/-- On the axes crossed the ray enters where it left. -/
theorem enter_next (c : ι → ℤ) (a : ι) :
    r.enter (r.next c) a = if r.Leaves c a then r.exit c a else r.enter c a := by
  rw [enter, exit_next]
  split
  · exact add_sub_cancel_right _ _
  · rw [add_zero, enter]

theorem leave_lt_next [Nonempty ι] (c : ι → ℤ) : r.leave c < r.leave (r.next c) := by
  refine (Finset.lt_inf'_iff _).mpr fun a _ => ?_
  rw [exit_next]
  split
  · exact (r.leave_le c a).trans_lt (lt_add_of_pos_right _ (r.width_pos a))
  · next h =>
    rw [add_zero]
    exact lt_of_le_of_ne (r.leave_le c a) fun heq => h ((r.leaves_iff c a).mpr heq.symm)

end

/-! ### The walk -/

variable [FloorRing K]

theorem exit_first_nonneg (a : ι) : 0 ≤ r.exit r.first a := by
  obtain h | h := r.lt_or_gt_zero a
  · rw [r.exit_eq_of_pos h]
    exact div_nonneg (sub_nonneg.mpr (Int.lt_floor_add_one _).le) h.le
  · rw [r.exit_eq_of_neg h]
    exact div_nonneg_of_nonpos (sub_nonpos.mpr (Int.floor_le _)) h.le

theorem enter_first_nonpos (a : ι) : r.enter r.first a ≤ 0 := by
  obtain h | h := r.lt_or_gt_zero a
  · rw [r.enter_eq_of_pos h]
    exact div_nonpos_of_nonpos_of_nonneg (sub_nonpos.mpr (Int.floor_le _)) h.le
  · rw [r.enter_eq_of_neg h]
    exact div_nonpos_of_nonneg_of_nonpos (sub_nonneg.mpr (Int.lt_floor_add_one _).le) h.le

variable [Fintype ι] [Nonempty ι]

theorem time_strictMono : StrictMono r.time := by
  refine strictMono_nat_of_lt_succ fun n => ?_
  rw [time, time, walk_succ]
  exact r.leave_lt_next _

theorem time_nonneg (n : ℕ) : 0 ≤ r.time n :=
  calc 0 ≤ r.leave r.first := Finset.le_inf' _ _ fun a _ => r.exit_first_nonneg a
    _ = r.time 0 := rfl
    _ ≤ r.time n := r.time_strictMono.monotone n.zero_le

/-- No axis is entered late. -/
theorem enter_walk_succ (n : ℕ) (a : ι) : r.enter (r.walk (n + 1)) a ≤ r.time n := by
  induction n with
  | zero =>
    rw [walk_succ, enter_next]
    split
    · next h => exact ((r.leaves_iff _ a).mp h).le
    · exact (r.enter_first_nonpos a).trans (r.time_nonneg 0)
  | succ n ih =>
    rw [walk_succ, enter_next]
    split
    · next h => exact ((r.leaves_iff _ a).mp h).le
    · exact ih.trans (r.time_strictMono n.lt_succ_self).le

theorem exists_during {n : ℕ} {t : K} (h : 0 ≤ t) (hn : t ≤ r.time n) : ∃ i ≤ n, r.During i t := by
  induction n with
  | zero => exact ⟨0, le_rfl, h, fun i hi => absurd hi i.not_lt_zero, hn⟩
  | succ n ih =>
    obtain hle | hlt := le_or_gt t (r.time n)
    · obtain ⟨i, hi, hduring⟩ := ih hle
      exact ⟨i, hi.trans n.le_succ, hduring⟩
    · refine ⟨n + 1, le_rfl, h, fun i hi => ?_, hn⟩
      exact (r.time_strictMono.monotone (Nat.le_of_lt_succ hi)).trans_lt hlt

/-- The ray leaves a cell for good. -/
theorem le_time_of_touches {n : ℕ} {t : K} (h : Touches (r.point t) (r.walk n)) : t ≤ r.time n :=
  r.le_leave fun a => ((r.touches_iff _ t).mp h a).2

/-- After the first the ray is in the interior of each cell walked. -/
theorem inside_walk {n : ℕ} {t : K} (h : r.time n < t) (h' : t < r.time (n + 1)) :
    Inside (r.point t) (r.walk (n + 1)) :=
  (r.inside_iff _ t).mpr fun a => ⟨(r.enter_walk_succ n a).trans_lt h, h'.trans_le (r.leave_le _ a)⟩

/-- A cell's turn begins when the ray first meets it, closed. -/
theorem isLeast_touches (n : ℕ) :
    IsLeast {t | 0 ≤ t ∧ Touches (r.point t) (r.walk (n + 1))} (r.time n) := by
  constructor
  · refine ⟨r.time_nonneg n, (r.touches_iff _ _).mpr fun a => ⟨r.enter_walk_succ n a, ?_⟩⟩
    exact (r.time_strictMono n.lt_succ_self).le.trans (r.leave_le _ a)
  · intro t ht
    obtain ⟨a, ha⟩ := r.exists_leaves (r.walk n)
    have henter := ((r.touches_iff _ t).mp ht.2 a).1
    rwa [walk_succ, enter_next, if_pos ha, (r.leaves_iff _ a).mp ha] at henter

variable {r} {n : ℕ} {t : K}

/-- In its turn the cell has been entered on every axis. -/
theorem During.enter_le (h : r.During n t) (a : ι) : r.enter (r.walk n) a ≤ t := by
  cases n with
  | zero => exact (r.enter_first_nonpos a).trans h.nonneg
  | succ n => exact (r.enter_walk_succ n a).trans (h.since n n.lt_succ_self).le

/-- The ray is in the cell whose turn it is. -/
theorem During.touches (h : r.During n t) : Touches (r.point t) (r.walk n) :=
  (r.touches_iff _ t).mpr fun a => ⟨h.enter_le a, h.till.trans (r.leave_le _ a)⟩

theorem during_time (r : Ray ι K) (n : ℕ) : r.During n (r.time n) :=
  ⟨r.time_nonneg n, fun _ hi => r.time_strictMono hi, le_rfl⟩

/-! ### Crossings -/

/-- The ray crosses a plane of the grid on the axis. A plane it starts in counts if it goes down from
there, since the origin's cell has its lower planes and not its upper ones. -/
def Crosses (r : Ray ι K) (t : K) (a : ι) : Prop :=
  (∃ k : ℤ, r.point t a = k) ∧ (0 < t ∨ t = 0 ∧ r.direction a < 0)

theorem During.enter_lt (h : r.During n t) {a : ι} (ht : 0 < t ∨ t = 0 ∧ r.direction a < 0) :
    r.enter (r.walk n) a < t := by
  cases n with
  | zero =>
    obtain hpos | ⟨rfl, hneg⟩ := ht
    · exact (r.enter_first_nonpos a).trans_lt hpos
    · show r.enter r.first a < 0
      rw [r.enter_eq_of_neg hneg]
      exact div_neg_of_pos_of_neg (sub_pos.mpr (Int.lt_floor_add_one _)) hneg
  | succ n => exact (r.enter_walk_succ n a).trans_lt (h.since n n.lt_succ_self)

/-- In the turn of a cell, the planes crossed are those by which the ray leaves it. -/
theorem During.crosses_iff (h : r.During n t) (a : ι) : r.Crosses t a ↔ r.exit (r.walk n) a = t := by
  constructor
  · intro hcross
    obtain ⟨⟨k, hk⟩, ht⟩ := hcross
    by_contra hne
    have hlt : t < r.exit (r.walk n) a := lt_of_le_of_ne (h.till.trans (r.leave_le _ a)) (Ne.symm hne)
    -- strictly between two planes there is no third
    obtain ⟨hlow, hhigh⟩ := (r.mem_interior_iff (r.walk n) a t).mpr ⟨h.enter_lt ht, hlt⟩
    rw [hk] at hlow hhigh
    have hlow' : r.walk n a < k := Int.cast_lt.mp hlow
    have hhigh' : k < r.walk n a + 1 := by
      apply (Int.cast_lt (R := K)).mp
      rwa [Int.cast_add, Int.cast_one]
    omega
  · intro hexit
    refine ⟨hexit ▸ r.point_exit _ a, ?_⟩
    obtain hpos | hzero := h.nonneg.lt_or_eq
    · exact .inl hpos
    · refine .inr ⟨hzero.symm, ?_⟩
      cases n with
      | zero =>
        obtain hup | hdown := r.lt_or_gt_zero a
        · have hlate : 0 < r.exit r.first a := by
            rw [r.exit_eq_of_pos hup]
            exact div_pos (sub_pos.mpr (Int.lt_floor_add_one _)) hup
          exact absurd (hexit.trans hzero.symm) hlate.ne'
        · exact hdown
      | succ n => exact absurd (hzero.symm ▸ h.since n n.lt_succ_self) (r.time_nonneg n).not_gt

/-- At the end of a turn the planes crossed are those that lead to the next cell. -/
theorem crosses_time_iff (r : Ray ι K) (n : ℕ) (a : ι) : r.Crosses (r.time n) a ↔ r.Leaves (r.walk n) a := by
  rw [(r.during_time n).crosses_iff, leaves_iff, time]

theorem During.eq_time_of_crosses (h : r.During n t) {a : ι} (hcross : r.Crosses t a) : t = r.time n := by
  have hexit := (h.crosses_iff a).mp hcross
  exact le_antisymm h.till (hexit ▸ r.leave_le _ a)

/-- Strictly between two planes there is no third. -/
theorem eq_of_between {x : K} {m k : ℤ} (h : m < x ∧ x < m + 1) (h' : k ≤ x ∧ x ≤ k + 1) : k = m := by
  have hlow : k < m + 1 := by
    apply (Int.cast_lt (R := K)).mp
    rw [Int.cast_add, Int.cast_one]
    exact h'.1.trans_lt h.2
  have hhigh : m < k + 1 := by
    apply (Int.cast_lt (R := K)).mp
    rw [Int.cast_add, Int.cast_one]
    exact h.1.trans_le h'.2
  omega

/-- Where a ray crosses one plane at most, the only cells it meets are the one it is in and, at the end of
its turn, the next. -/
theorem During.eq_of_touches (h : r.During n t) (ht : 0 < t) {c : ι → ℤ} (hc : Touches (r.point t) c)
    (hone : ∀ a b, r.Crosses t a → r.Crosses t b → a = b) : c = r.walk n ∨ (t = r.time n ∧ c = r.walk (n + 1)) := by
  have hstays (a : ι) (ha : ¬ r.Crosses t a) : c a = r.walk n a := by
    have hexit : t < r.exit (r.walk n) a :=
      lt_of_le_of_ne (h.till.trans (r.leave_le _ a)) fun heq => ha ((h.crosses_iff a).mpr heq.symm)
    exact eq_of_between ((r.mem_interior_iff (r.walk n) a t).mpr ⟨h.enter_lt (.inl ht), hexit⟩) (hc a)
  by_cases hcross : ∃ a, r.Crosses t a
  · obtain ⟨a, ha⟩ := hcross
    have hrest (b : ι) (hb : b ≠ a) : ¬ r.Crosses t b := fun hb' => hb (hone b a hb' ha)
    have htime := h.eq_time_of_crosses ha
    have hpoint : r.point t a = (r.walk n a + if 0 < r.direction a then 1 else 0 : ℤ) := by
      rw [← (h.crosses_iff a).mp ha, r.point_exit_eq]
    -- on the axis crossed, the plane has a cell on either side
    obtain ⟨hlow, hhigh⟩ := hc a
    rw [hpoint] at hlow hhigh
    have hlow' := Int.cast_le.mp hlow
    have hhigh' : (r.walk n a + if 0 < r.direction a then 1 else 0 : ℤ) ≤ c a + 1 := by
      apply (Int.cast_le (R := K)).mp
      rwa [Int.cast_add (c a), Int.cast_one]
    have hsides : c a = r.walk n a ∨ c a = r.walk n a + r.heading a := by
      rw [heading]
      by_cases hpos : 0 < r.direction a
      · rw [if_pos hpos] at hlow' hhigh' ⊢
        omega
      · rw [if_neg hpos] at hlow' hhigh' ⊢
        omega
    have hleaves (b : ι) : r.Leaves (r.walk n) b ↔ r.Crosses t b := by rw [htime, crosses_time_iff]
    obtain hback | hnext := hsides
    · left
      funext b
      by_cases hb : b = a
      · exact hb ▸ hback
      · exact hstays b (hrest b hb)
    · right
      refine ⟨htime, ?_⟩
      funext b
      rw [walk_succ, next]
      by_cases hb : b = a
      · rw [hb, if_pos ((hleaves a).mpr ha)]
        exact hnext
      · rw [if_neg fun hb' => hrest b hb ((hleaves b).mp hb'), add_zero]
        exact hstays b (hrest b hb)
  · left
    funext a
    exact hstays a fun ha => hcross ⟨a, ha⟩

/-- When the ray has crossed anything, up to a time. -/
def crossings (r : Ray ι K) (t : K) : Set K := {s | s ≤ t ∧ ∃ a, r.Crosses s a}

theorem encard_times (r : Ray ι K) (n : ℕ) : (r.time '' Finset.range n).encard = n := by
  rw [r.time_strictMono.injective.encard_image, Set.encard_coe_eq_coe_finsetCard, Finset.card_range]

/-- **A turn is over when the ray has crossed that often and once more.** -/
theorem encard_crossings_le_iff (r : Ray ι K) (n : ℕ) (t : K) : (r.crossings t).encard ≤ n ↔ t < r.time n := by
  constructor
  · intro hcard
    by_contra hle
    have htimes : r.time '' Finset.range (n + 1) ⊆ r.crossings t := by
      intro s hs
      obtain ⟨i, hi, rfl⟩ := hs
      obtain ⟨a, ha⟩ := r.exists_leaves (r.walk i)
      have hin : i ≤ n := Nat.le_of_lt_succ (Finset.mem_range.mp hi)
      exact ⟨(r.time_strictMono.monotone hin).trans (not_lt.mp hle), a, (r.crosses_time_iff i a).mpr ha⟩
    have hcount := (Set.encard_le_encard htimes).trans hcard
    rw [encard_times] at hcount
    exact absurd (Nat.cast_le.mp hcount) n.lt_succ_self.not_ge
  · intro hlt
    have htimes : r.crossings t ⊆ r.time '' Finset.range n := by
      intro s hs
      obtain ⟨hst, a, ha⟩ := hs
      have hnonneg : 0 ≤ s := ha.2.elim le_of_lt fun h => h.1.ge
      obtain ⟨i, _, hduring⟩ := r.exists_during hnonneg (hst.trans hlt.le)
      obtain rfl := hduring.eq_time_of_crosses ha
      exact ⟨i, Finset.mem_range.mpr (r.time_strictMono.lt_iff_lt.mp (hst.trans_lt hlt)), rfl⟩
    exact (Set.encard_le_encard htimes).trans (r.encard_times n).le

end Ray
end Lib.GridWalk
