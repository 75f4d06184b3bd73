import Mathlib

/-! Locks, and what each thread has of them.

A `std::shared_mutex` has one owner or any number of readers; a `std::mutex` is one that
nobody reads. `mode` is the same seen from a thread, and every operation is a change of
one thread's mode, so a program whose threads know from where they are which locks they
have can be followed lock by lock. -/
namespace Lib.Locks

inductive Mode where
  | out
  | shared
  | exclusive
  deriving DecidableEq

/-- A lock that one thread has alone or any number share. -/
structure SharedMutex (T : Type) where
  owner : Option T
  readers : Finset T
  apart : owner = none ∨ readers = ∅

namespace SharedMutex
variable {T : Type} [DecidableEq T]

def free : SharedMutex T := ⟨none, ∅, .inl rfl⟩

def lock (m : SharedMutex T) (t : T) : Option (SharedMutex T) :=
  if m.owner = none ∧ m.readers = ∅ then some ⟨some t, ∅, .inr rfl⟩ else none

def lockShared (m : SharedMutex T) (t : T) : Option (SharedMutex T) :=
  if m.owner = none then some ⟨none, insert t m.readers, .inl rfl⟩ else none

def unlock (m : SharedMutex T) : SharedMutex T := ⟨none, m.readers, .inl rfl⟩

def unlockShared (m : SharedMutex T) (t : T) : SharedMutex T :=
  ⟨m.owner, m.readers.erase t, m.apart.imp_right fun h => by rw [h, Finset.erase_empty]⟩

/-- What `t` has. -/
def mode (m : SharedMutex T) (t : T) : Mode :=
  if m.owner = some t then .exclusive else if t ∈ m.readers then .shared else .out

variable {m m' : SharedMutex T} {t u : T}

@[simp] theorem mode_free (t : T) : (free : SharedMutex T).mode t = .out := rfl

theorem mode_exclusive : m.mode t = .exclusive ↔ m.owner = some t := by
  unfold mode
  split
  · next h => simp [h]
  · next h => split <;> simp [h]

theorem mode_shared : m.mode t = .shared ↔ t ∈ m.readers := by
  unfold mode
  split
  · next h =>
    have hnone : m.readers = ∅ := m.apart.resolve_left (by simp [h])
    simp [hnone]
  · split <;> simp_all

/-- Who owns the lock has it alone. -/
theorem mode_other (ht : m.mode t = .exclusive) (hu : u ≠ t) : m.mode u = .out := by
  have howner := mode_exclusive.mp ht
  have hreaders : m.readers = ∅ := m.apart.resolve_left (by simp [howner])
  unfold mode
  rw [howner, if_neg (fun h => hu (Option.some.inj h).symm), hreaders, if_neg (Finset.notMem_empty u)]

theorem lock_mode (h : m.lock t = some m') :
    (∀ u, m.mode u = .out) ∧ m'.mode = Function.update m.mode t .exclusive := by
  unfold lock at h
  split at h
  · next hfree =>
    obtain rfl := Option.some.inj h
    have hout : ∀ u, m.mode u = .out := by
      intro u
      simp [mode, hfree]
    refine ⟨hout, funext fun u => ?_⟩
    by_cases hu : u = t
    · subst hu
      rw [Function.update_self, mode_exclusive]
    · rw [Function.update_of_ne hu, hout]
      exact mode_other (mode_exclusive.mpr rfl) hu
  · cases h

theorem lockShared_mode (h : m.lockShared t = some m') :
    (∀ u, m.mode u ≠ .exclusive) ∧ m'.mode = Function.update m.mode t .shared := by
  unfold lockShared at h
  split at h
  · next hfree =>
    obtain rfl := Option.some.inj h
    refine ⟨fun u hu => ?_, funext fun u => ?_⟩
    · rw [mode_exclusive, hfree] at hu
      cases hu
    · by_cases hu : u = t
      · subst hu
        rw [Function.update_self, mode_shared]
        exact Finset.mem_insert_self ..
      · rw [Function.update_of_ne hu]
        simp [mode, hfree, hu]
  · cases h

theorem unlock_mode (h : m.mode t = .exclusive) : m.unlock.mode = Function.update m.mode t .out := by
  have hreaders : m.readers = ∅ := m.apart.resolve_left (by simp [mode_exclusive.mp h])
  have hout : ∀ u, m.unlock.mode u = .out := by
    intro u
    simp [mode, unlock, hreaders]
  refine funext fun u => ?_
  rw [hout]
  by_cases hu : u = t
  · subst hu
    rw [Function.update_self]
  · rw [Function.update_of_ne hu, mode_other h hu]

theorem unlockShared_mode (h : m.mode t = .shared) :
    (m.unlockShared t).mode = Function.update m.mode t .out := by
  have howner : m.owner = none :=
    m.apart.resolve_right (Finset.ne_empty_of_mem (mode_shared.mp h))
  refine funext fun u => ?_
  by_cases hu : u = t
  · subst hu
    rw [Function.update_self]
    simp [mode, unlockShared, howner]
  · rw [Function.update_of_ne hu]
    simp [mode, unlockShared, hu]

/-- Who has to wait for the lock waits for someone. -/
theorem lock_none (h : m.lock t = none) : ∃ u, m.mode u ≠ .out := by
  unfold lock at h
  split at h
  · cases h
  · next hheld =>
    rcases m.apart with howner | hreaders
    · obtain ⟨u, hu⟩ := Finset.nonempty_iff_ne_empty.mpr fun he => hheld ⟨howner, he⟩
      exact ⟨u, by simp [mode_shared.mpr hu]⟩
    · obtain ⟨u, hu⟩ := Option.ne_none_iff_exists'.mp fun he => hheld ⟨he, hreaders⟩
      exact ⟨u, by simp [mode_exclusive.mpr hu]⟩

theorem lockShared_none (h : m.lockShared t = none) : ∃ u, m.mode u = .exclusive := by
  unfold lockShared at h
  split at h
  · cases h
  · next hheld =>
    obtain ⟨u, hu⟩ := Option.ne_none_iff_exists'.mp hheld
    exact ⟨u, mode_exclusive.mpr hu⟩

end SharedMutex

/-! ### Many locks -/

section
variable {L T : Type} [DecidableEq T]

/-- The locks are held as the threads' positions say. -/
def Agree (locks : L → SharedMutex T) (holds : T → L → Mode) : Prop :=
  ∀ l t, (locks l).mode t = holds t l

variable {locks : L → SharedMutex T} {holds holds' : T → L → Mode} {l : L} {t u : T} {m : SharedMutex T}

/-- One thread takes or gives back one lock and moves to where it has it or has it no more. -/
theorem Agree.move [DecidableEq L] (h : Agree locks holds) (mode : Mode)
    (hm : m.mode = Function.update (locks l).mode t mode)
    (hholds : holds' = Function.update holds t (Function.update (holds t) l mode)) :
    Agree (Function.update locks l m) holds' := by
  subst hholds
  intro k u
  by_cases hk : k = l
  · subst hk
    rw [Function.update_self, hm]
    by_cases hu : u = t
    · subst hu
      simp only [Function.update_self]
    · rw [Function.update_of_ne hu, Function.update_of_ne hu, h]
  · rw [Function.update_of_ne hk, h]
    by_cases hu : u = t
    · subst hu
      rw [Function.update_self, Function.update_of_ne hk]
    · rw [Function.update_of_ne hu]

/-- Two threads are not in one lock if one of them has it exclusively. -/
theorem Agree.exclusive (h : Agree locks holds) (ht : holds t l = .exclusive) (hu : holds u l ≠ .out) :
    u = t := by
  by_contra hne
  exact hu ((h l u).symm.trans (SharedMutex.mode_other ((h l t).trans ht) hne))

end
end Lib.Locks
