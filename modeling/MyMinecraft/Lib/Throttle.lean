import Mathlib

/-! Doing something at most once a period.

Time passes in pieces. They are added up until they come to the period; then the thing is done and the
sum starts again at zero. So it is done no more often than once a period (`Paced.atMost`), and where no piece is longer than
`longest`, at least once in a period and a piece (`Paced.atLeast`). -/
namespace Lib.Throttle
variable {T : Type}

section
variable [Add T] [Zero T] [LE T] [DecidableLE T]

/-- The sum after one more piece, and whether the thing is done. -/
def tick (period interval delta : T) : T × Bool :=
  if period ≤ interval + delta then (0, true) else (interval + delta, false)

end

variable [AddCommMonoid T] [LinearOrder T]

/-- After `elapsed`, in pieces of at most `longest`, it was done `count` times and `interval` has added up
since. -/
structure Paced (period longest : T) (count : Nat) (interval elapsed : T) : Prop where
  nonneg : 0 ≤ interval
  short : interval ≤ period
  upper : count • period + interval ≤ elapsed
  lower : elapsed ≤ count • (period + longest) + interval

variable {period longest interval elapsed delta : T} {count : Nat}

theorem paced_start (h : 0 ≤ period) : Paced period longest 0 0 0 := by
  refine ⟨le_rfl, h, ?_, ?_⟩ <;> rw [zero_nsmul, add_zero]

variable [IsOrderedAddMonoid T]

theorem paced_tick (h : Paced period longest count interval elapsed) (h₀ : 0 ≤ delta) (hlong : delta ≤ longest) :
    Paced period longest (count + (tick period interval delta).2.toNat) (tick period interval delta).1
      (elapsed + delta) := by
  rw [tick]
  by_cases hdone : period ≤ interval + delta
  · rw [if_pos hdone]
    refine ⟨le_rfl, h.nonneg.trans h.short, ?_, ?_⟩
    · calc (count + 1) • period + 0 = count • period + period := by rw [add_zero, succ_nsmul]
        _ ≤ count • period + (interval + delta) := by gcongr
        _ = count • period + interval + delta := (add_assoc _ _ _).symm
        _ ≤ elapsed + delta := by gcongr; exact h.upper
    · calc elapsed + delta ≤ count • (period + longest) + interval + delta := by gcongr; exact h.lower
        _ = count • (period + longest) + (interval + delta) := add_assoc _ _ _
        _ ≤ count • (period + longest) + (period + longest) := by gcongr; exact h.short
        _ = (count + 1) • (period + longest) + 0 := by rw [add_zero, succ_nsmul]
  · rw [if_neg hdone]
    refine ⟨add_nonneg h.nonneg h₀, (not_le.mp hdone).le, ?_, ?_⟩
    · calc (count + 0) • period + (interval + delta) = count • period + interval + delta := (add_assoc _ _ _).symm
        _ ≤ elapsed + delta := by gcongr; exact h.upper
    · calc elapsed + delta ≤ count • (period + longest) + interval + delta := by gcongr; exact h.lower
        _ = (count + 0) • (period + longest) + (interval + delta) := add_assoc _ _ _

theorem Paced.atMost (h : Paced period longest count interval elapsed) : count • period ≤ elapsed :=
  (le_add_of_nonneg_right h.nonneg).trans h.upper

theorem Paced.atLeast (h : Paced period longest count interval elapsed) :
    elapsed ≤ count • (period + longest) + period := by
  refine h.lower.trans ?_
  gcongr
  exact h.short

end Lib.Throttle
