import MyMinecraft.Threadpool

/-! The pool and its condition variable.

In `ThreadPool` a worker that waits takes a task as soon as there is one. In the source
it sleeps in `cv_.wait` until it is notified, and the notification comes after the
critical section, from a caller that may be held up in between. `Monitor` has that: who is
asleep, and how many callers have still to notify. What a worker does when it is
awake is what it does in `ThreadPool`, so every run here is a run there (`refines`).
What has to be shown is that nobody sleeps through his task (`no_lost_wakeup`) or
through the end (`stop_returns`). -/
namespace MyMinecraft

def Worker.isWaiting {τ : Type} : Worker τ → Bool
  | .waiting => true
  | .running _ | .exited => false

/-- The steps a worker has before it: its task's end, and to leave. -/
def Worker.left {τ : Type} : Worker τ → Nat
  | .waiting => 1
  | .running _ => 2
  | .exited => 0

namespace ThreadPool

/-- The pool with its condition variable. -/
structure Monitor (n : Nat) (τ : Type) where
  pool : ThreadPool n τ
  /-- In `cv_.wait`, and not notified since. -/
  asleep : Finset (Fin n)
  /-- The calls of `enqueue` that have left their section and not called `notify_one`. -/
  notifying : Nat
  /-- The same of `stop` and `notify_all`. -/
  stopping : Nat

namespace Monitor
variable {n : Nat} {τ : Type}

inductive Event (n : Nat) (τ : Type) where
  /-- The section of `enqueue`. -/
  | enqueue (body : τ)
  /-- `notify_one` wakes `w`. -/
  | notifyOne (w : Fin n)
  /-- `notify_one` finds nobody asleep. -/
  | notifyNone
  /-- The section of `stop`. -/
  | stop
  | notifyAll
  /-- Worker `w` has the mutex and looks at the queue and at `stop_`. -/
  | check (w : Fin n)
  /-- `cv_.wait` returns without a notification. -/
  | wake (w : Fin n)
  | finish (w : Fin n)

def start : Monitor n τ := ⟨ThreadPool.start, ∅, 0, 0⟩

def notifyOne (s : Monitor n τ) (w : Fin n) : Option (Monitor n τ) :=
  if 0 < s.notifying ∧ w ∈ s.asleep then
    some {s with asleep := s.asleep.erase w, notifying := s.notifying - 1}
  else none

def notifyNone (s : Monitor n τ) : Option (Monitor n τ) :=
  if 0 < s.notifying ∧ s.asleep = ∅ then some {s with notifying := s.notifying - 1} else none

def notifyAll (s : Monitor n τ) : Option (Monitor n τ) :=
  if 0 < s.stopping then some {s with asleep := ∅, stopping := s.stopping - 1} else none

/-- The predicate of `cv_.wait`, and what follows it. Where the worker cannot go on it sleeps. -/
def check (s : Monitor n τ) (w : Fin n) : Option (Monitor n τ) :=
  if w ∈ s.asleep then none
  else
    match s.pool.threads w with
    | .waiting =>
      match s.pool.acquire w with
      | some pool => some {s with pool}
      | none => some {s with asleep := insert w s.asleep}
    | _ => none

def wake (s : Monitor n τ) (w : Fin n) : Option (Monitor n τ) :=
  if w ∈ s.asleep then some {s with asleep := s.asleep.erase w} else none

def step (s : Monitor n τ) : Event n τ → Option (Monitor n τ)
  | .enqueue body => some {s with pool := s.pool.enqueue body, notifying := s.notifying + 1}
  | .notifyOne w => s.notifyOne w
  | .notifyNone => s.notifyNone
  | .stop => some {s with pool := {s.pool with stop := true}, stopping := s.stopping + 1}
  | .notifyAll => s.notifyAll
  | .check w => s.check w
  | .wake w => s.wake w
  | .finish w => (s.pool.finish w).map fun pool => {s with pool}

/-! ### The steps, read backwards -/

inductive Next (s : Monitor n τ) : Event n τ → Monitor n τ → Prop where
  | enqueue (body : τ) :
    Next s (.enqueue body) {s with pool := s.pool.enqueue body, notifying := s.notifying + 1}
  | notifyOne (w : Fin n) (hcall : 0 < s.notifying) (hw : w ∈ s.asleep) :
    Next s (.notifyOne w) {s with asleep := s.asleep.erase w, notifying := s.notifying - 1}
  | notifyNone (hcall : 0 < s.notifying) (hnobody : s.asleep = ∅) :
    Next s .notifyNone {s with notifying := s.notifying - 1}
  | stop : Next s .stop {s with pool := {s.pool with stop := true}, stopping := s.stopping + 1}
  | notifyAll (hcall : 0 < s.stopping) :
    Next s .notifyAll {s with asleep := ∅, stopping := s.stopping - 1}
  | take (w : Fin n) (task : Task τ) (rest : List (Task τ)) (hawake : w ∉ s.asleep)
      (hw : s.pool.threads w = .waiting) (htasks : s.pool.tasks = task :: rest) :
    Next s (.check w) {s with pool := {s.pool.setThread w (.running task) with tasks := rest}}
  | exit (w : Fin n) (hawake : w ∉ s.asleep) (hw : s.pool.threads w = .waiting)
      (htasks : s.pool.tasks = []) (hstop : s.pool.stop = true) :
    Next s (.check w) {s with pool := s.pool.setThread w .exited}
  | sleep (w : Fin n) (hawake : w ∉ s.asleep) (hw : s.pool.threads w = .waiting)
      (htasks : s.pool.tasks = []) (hstop : s.pool.stop = false) :
    Next s (.check w) {s with asleep := insert w s.asleep}
  | wake (w : Fin n) (hw : w ∈ s.asleep) : Next s (.wake w) {s with asleep := s.asleep.erase w}
  | finish (w : Fin n) (task : Task τ) (hw : s.pool.threads w = .running task) :
    Next s (.finish w) {s with pool := s.pool.setThread w .waiting}

variable {s s' : Monitor n τ} {e : Event n τ}

/-- A waiting worker that cannot go on has nothing to take and is not told to leave. -/
theorem acquire_none {p : ThreadPool n τ} {w : Fin n} (hw : p.threads w = .waiting) (h : p.acquire w = none) :
    p.tasks = [] ∧ p.stop = false := by
  unfold acquire at h
  cases htasks : p.tasks with
  | cons task rest =>
    simp only [hw, htasks] at h
    cases h
  | nil =>
    cases hstop : p.stop with
    | false => exact ⟨rfl, rfl⟩
    | true =>
      simp only [hw, htasks, hstop] at h
      cases h

theorem next_of_check {w : Fin n} (h : s.check w = some s') : Next s (.check w) s' := by
  unfold check at h
  split at h
  · cases h
  · next hawake =>
    split at h
    · next hw =>
      split at h
      · next pool hpool =>
        obtain rfl := Option.some.inj h
        obtain ⟨_, ⟨task, rest, htasks, rfl⟩ | ⟨htasks, hstop, rfl⟩⟩ := acquire_cases hpool
        · exact .take w task rest hawake hw htasks
        · exact .exit w hawake hw htasks hstop
      · next hnone =>
        obtain rfl := Option.some.inj h
        obtain ⟨htasks, hstop⟩ := acquire_none hw hnone
        exact .sleep w hawake hw htasks hstop
    · cases h

/-- The step function does only what `Next` lists. -/
theorem next_of_step (h : step s e = some s') : Next s e s' := by
  cases e with
  | enqueue body => exact Lib.Runs.of_some h (.enqueue body)
  | notifyOne w => exact Lib.Runs.of_guard h fun hcall => .notifyOne w hcall.1 hcall.2
  | notifyNone => exact Lib.Runs.of_guard h fun hcall => .notifyNone hcall.1 hcall.2
  | stop => exact Lib.Runs.of_some h .stop
  | notifyAll => exact Lib.Runs.of_guard h fun hcall => .notifyAll hcall
  | check w => exact next_of_check h
  | wake w => exact Lib.Runs.of_guard h fun hw => .wake w hw
  | finish w =>
    refine Lib.Runs.of_map h fun pool hpool => ?_
    obtain ⟨task, hw, rfl⟩ := finish_cases hpool
    exact .finish w task hw

/-! ### Who is awake -/

/-- Awake and between tasks: the next thing the worker does is look at the queue. -/
def ready (s : Monitor n τ) : Finset (Fin n) :=
  Finset.univ.filter fun w => (s.pool.threads w).isWaiting = true ∧ w ∉ s.asleep

theorem mem_ready {w : Fin n} : w ∈ s.ready ↔ s.pool.threads w = .waiting ∧ w ∉ s.asleep := by
  have hwaiting : (s.pool.threads w).isWaiting = true ↔ s.pool.threads w = .waiting := by
    cases s.pool.threads w <;> simp [Worker.isWaiting]
  rw [ready, Finset.mem_filter, hwaiting]
  exact and_iff_right (Finset.mem_univ w)

/-- What every run keeps. A worker goes to sleep over an empty queue; since then each task came with a
notification, which has woken somebody or is still to come. -/
structure Inv (s : Monitor n τ) : Prop where
  waiting : ∀ w ∈ s.asleep, s.pool.threads w = .waiting
  notified : s.asleep.Nonempty → s.pool.tasks.length ≤ s.ready.card + s.notifying
  stopped : s.pool.stop = true → s.asleep = ∅ ∨ 0 < s.stopping

theorem inv_start : Inv (start : Monitor n τ) where
  waiting w hw := absurd hw (Finset.notMem_empty w)
  notified _ := Nat.zero_le _
  stopped h := by cases h

/-- A worker that was asleep is ready when it wakes. -/
theorem ready_wake (hi : Inv s) {w : Fin n} (hw : w ∈ s.asleep) (notifying : Nat) :
    (Monitor.mk s.pool (s.asleep.erase w) notifying s.stopping).ready = insert w s.ready := by
  ext v
  rw [Finset.mem_insert, mem_ready, mem_ready, Finset.mem_erase]
  by_cases hv : v = w
  · subst hv
    simp [hi.waiting v hw]
  · simp [hv]

theorem card_ready_wake (hi : Inv s) {w : Fin n} (hw : w ∈ s.asleep) (notifying : Nat) :
    (Monitor.mk s.pool (s.asleep.erase w) notifying s.stopping).ready.card = s.ready.card + 1 := by
  rw [ready_wake hi hw]
  exact Finset.card_insert_of_notMem fun h => (mem_ready.mp h).2 hw

/-- A worker that takes a task or leaves was ready. -/
theorem ready_setThread {w : Fin n} {t : Worker τ} (ht : t ≠ .waiting) (tasks : List (Task τ)) :
    (Monitor.mk {s.pool.setThread w t with tasks} s.asleep s.notifying s.stopping).ready = s.ready.erase w := by
  ext v
  rw [Finset.mem_erase, mem_ready, mem_ready]
  show (s.pool.setThread w t).threads v = _ ∧ _ ↔ _
  by_cases hv : v = w
  · subst hv
    simp [ht]
  · rw [setThread_ne _ _ hv]
    simp [hv]

/-- Who sleeps is waiting whatever a worker that is awake does. -/
theorem Inv.waiting_setThread (hi : Inv s) {w : Fin n} (hawake : w ∉ s.asleep) (t : Worker τ) :
    ∀ v ∈ s.asleep, (s.pool.setThread w t).threads v = .waiting := by
  intro v hv
  have hne : v ≠ w := fun heq => hawake (heq ▸ hv)
  exact (setThread_ne _ _ hne).trans (hi.waiting v hv)

/-- Where somebody still sleeps, `stop` is on its way to `notify_all`. -/
theorem Inv.stopping_of_asleep (hi : Inv s) {w : Fin n} (hw : w ∈ s.asleep) (hstop : s.pool.stop = true) :
    0 < s.stopping :=
  (hi.stopped hstop).resolve_left fun hnone => absurd hw (hnone ▸ Finset.notMem_empty w)

theorem inv_step (hi : Inv s) (h : Next s e s') : Inv s' := by
  cases h with
  | enqueue body =>
    refine ⟨hi.waiting, fun hasleep => ?_, hi.stopped⟩
    have hold := hi.notified hasleep
    show (s.pool.tasks ++ [_]).length ≤ s.ready.card + (s.notifying + 1)
    rw [List.length_append, List.length_singleton]
    omega
  | notifyOne w hcall hw =>
    refine ⟨fun v hv => hi.waiting v (Finset.mem_of_mem_erase hv), fun _ => ?_,
      fun hstop => .inr (hi.stopping_of_asleep hw hstop)⟩
    have hold := hi.notified ⟨w, hw⟩
    rw [card_ready_wake hi hw]
    show s.pool.tasks.length ≤ s.ready.card + 1 + (s.notifying - 1)
    omega
  | notifyNone hcall hnobody =>
    exact ⟨hi.waiting, fun hasleep => absurd hnobody hasleep.ne_empty, hi.stopped⟩
  | stop => exact ⟨hi.waiting, hi.notified, fun _ => .inr (Nat.succ_pos _)⟩
  | notifyAll hcall =>
    exact ⟨fun v hv => absurd hv (Finset.notMem_empty v), fun hasleep => absurd rfl hasleep.ne_empty,
      fun _ => .inl rfl⟩
  | take w task rest hawake hw htasks =>
    refine ⟨hi.waiting_setThread hawake _, fun hasleep => ?_, hi.stopped⟩
    have hold := hi.notified hasleep
    have hready : w ∈ s.ready := mem_ready.mpr ⟨hw, hawake⟩
    have hcard := Finset.card_erase_add_one hready
    rw [htasks, List.length_cons] at hold
    rw [ready_setThread (by simp)]
    show rest.length ≤ (s.ready.erase w).card + s.notifying
    omega
  | exit w hawake hw htasks hstop =>
    refine ⟨hi.waiting_setThread hawake _, fun _ => ?_, hi.stopped⟩
    show s.pool.tasks.length ≤ _
    rw [htasks]
    exact Nat.zero_le _
  | sleep w hawake hw htasks hstop =>
    refine ⟨fun v hv => ?_, fun _ => ?_, fun hstop' => ?_⟩
    · obtain rfl | hv' := Finset.mem_insert.mp hv
      · exact hw
      · exact hi.waiting v hv'
    · show s.pool.tasks.length ≤ _
      rw [htasks]
      exact Nat.zero_le _
    · cases hstop.symm.trans hstop'
  | wake w hw =>
    refine ⟨fun v hv => hi.waiting v (Finset.mem_of_mem_erase hv), fun _ => ?_,
      fun hstop => .inr (hi.stopping_of_asleep hw hstop)⟩
    have hold := hi.notified ⟨w, hw⟩
    rw [card_ready_wake hi hw]
    show s.pool.tasks.length ≤ s.ready.card + 1 + s.notifying
    omega
  | finish w task hw =>
    have hawake : w ∉ s.asleep := fun hmem => by cases hw.symm.trans (hi.waiting w hmem)
    refine ⟨hi.waiting_setThread hawake _, fun hasleep => ?_, hi.stopped⟩
    refine (hi.notified hasleep).trans (Nat.add_le_add_right (Finset.card_le_card fun v hv => ?_) _)
    obtain ⟨hwait, hawake'⟩ := mem_ready.mp hv
    refine mem_ready.mpr ⟨?_, hawake'⟩
    have hne : v ≠ w := fun heq => by cases hw.symm.trans (heq ▸ hwait)
    exact (setThread_ne _ _ hne).trans hwait

theorem inv_run {es : List (Event n τ)} (hrun : Lib.Runs.run step start es = some s) : Inv s :=
  Lib.Runs.run_invariant Inv (fun _ _ _ hi hs => inv_step hi (next_of_step hs)) inv_start hrun

/-! ### Nobody sleeps through a task -/

theorem check_of_ready {w : Fin n} (hw : w ∈ s.ready) : ∃ s', s.check w = some s' := by
  obtain ⟨hwait, hawake⟩ := mem_ready.mp hw
  simp only [check, if_neg hawake, hwait]
  cases s.pool.acquire w with
  | some pool => exact ⟨_, rfl⟩
  | none => exact ⟨_, rfl⟩

theorem finish_of_running {w : Fin n} {task : Task τ} (hw : s.pool.threads w = .running task) :
    ∃ s', step s (.finish w) = some s' := by
  simp only [step, ThreadPool.finish, hw]
  exact ⟨_, rfl⟩

/-- **No wakeup is lost.** While anybody sleeps, each task in the queue has a worker of its own that is awake
and free, or a notification on its way. So once every caller has notified, the workers come to a
stop only over an empty queue, or when all have left. -/
theorem no_lost_wakeup {es : List (Event n τ)} (hrun : Lib.Runs.run step start es = some s) :
    (s.asleep.Nonempty → s.pool.tasks.length ≤ s.ready.card + s.notifying) ∧
      (s.notifying = 0 → (∀ w, step s (.check w) = none ∧ step s (.finish w) = none) →
        s.pool.tasks = [] ∨ ∀ w, s.pool.threads w = .exited) := by
  have hi := inv_run hrun
  refine ⟨hi.notified, fun hcalled hstuck => ?_⟩
  have hready : s.ready = ∅ := by
    refine Finset.eq_empty_of_forall_notMem fun w hw => ?_
    obtain ⟨s', hs'⟩ := check_of_ready hw
    cases (hstuck w).1.symm.trans hs'
  obtain hnobody | hasleep := s.asleep.eq_empty_or_nonempty
  · right
    intro w
    cases hw : s.pool.threads w with
    | exited => rfl
    | running task =>
      obtain ⟨s', hs'⟩ := finish_of_running hw
      cases (hstuck w).2.symm.trans hs'
    | waiting =>
      have hmem : w ∈ s.ready := mem_ready.mpr ⟨hw, hnobody ▸ Finset.notMem_empty w⟩
      exact absurd hmem (hready ▸ Finset.notMem_empty w)
  · left
    have hlength := hi.notified hasleep
    rw [hready, hcalled] at hlength
    exact List.length_eq_zero_iff.mp (Nat.le_zero.mp hlength)

/-- One task, two workers: both are asleep when it comes, the wrong one wakes for nothing and goes back. -/
def overslept : List (Event 2 Nat) :=
  [.check 0, .check 1, .wake 1, .check 1, .enqueue 7, .notifyOne 0]

theorem no_lost_wakeup_overslept : ∃ s : Monitor 2 Nat, Lib.Runs.run step start overslept = some s ∧
    s.asleep.Nonempty ∧ s.pool.tasks.length ≤ s.ready.card + s.notifying := by
  have hany : (Lib.Runs.run step start overslept).any (fun s => decide s.asleep.Nonempty) = true := by
    decide
  obtain ⟨s, hrun, hasleep⟩ := (Option.any_eq_true _ _).mp hany
  exact ⟨s, hrun, of_decide_eq_true hasleep, (no_lost_wakeup hrun).1 (of_decide_eq_true hasleep)⟩

/-! ### Nobody sleeps through the end -/

def Event.IsWorker : Event n τ → Prop
  | .check _ | .wake _ | .finish _ => True
  | .enqueue _ | .notifyOne _ | .notifyNone | .stop | .notifyAll => False

/-- The steps the workers have before them when nothing is enqueued any more: a worker's are to leave
and, when it is running, to return before that, and each task in the queue is taken and returns. -/
def left (s : Monitor n τ) : Nat := 2 * s.pool.tasks.length + ∑ w, (s.pool.threads w).left

/-- `stop` has notified everybody. -/
structure Stopped (s : Monitor n τ) : Prop where
  stop : s.pool.stop = true
  awake : s.asleep = ∅

theorem stopped_step (hs : Stopped s) (he : e.IsWorker) (h : Next s e s') : Stopped s' ∧ s'.left + 1 = s.left := by
  cases h with
  | take w task rest hawake hw htasks =>
    refine ⟨⟨hs.stop, hs.awake⟩, ?_⟩
    have hsum := sum_setThread Worker.left s.pool w (.running task)
    rw [hw, Worker.left, Worker.left] at hsum
    show 2 * rest.length + ∑ v, ((s.pool.setThread w _).threads v).left + 1 = 2 * s.pool.tasks.length + _
    rw [htasks, List.length_cons]
    omega
  | exit w hawake hw htasks hstop =>
    refine ⟨⟨hs.stop, hs.awake⟩, ?_⟩
    have hsum := sum_setThread Worker.left s.pool w .exited
    rw [hw, Worker.left, Worker.left] at hsum
    show 2 * s.pool.tasks.length + ∑ v, ((s.pool.setThread w _).threads v).left + 1 = 2 * s.pool.tasks.length + _
    omega
  | sleep w hawake hw htasks hstop => cases hs.stop.symm.trans hstop
  | wake w hw => exact absurd hw (hs.awake ▸ Finset.notMem_empty w)
  | finish w task hw =>
    refine ⟨⟨hs.stop, hs.awake⟩, ?_⟩
    have hsum := sum_setThread Worker.left s.pool w .waiting
    rw [hw, Worker.left, Worker.left] at hsum
    show 2 * s.pool.tasks.length + ∑ v, ((s.pool.setThread w _).threads v).left + 1 = 2 * s.pool.tasks.length + _
    omega
  | enqueue body => exact he.elim
  | notifyOne w hcall hw => exact he.elim
  | notifyNone hcall hnobody => exact he.elim
  | stop => exact he.elim
  | notifyAll hcall => exact he.elim

/-- Workers that are awake can go on until they have left. -/
theorem stuck_iff (hs : Stopped s) : (∀ e : Event n τ, e.IsWorker → step s e = none) ↔ ∀ w, s.pool.threads w = .exited := by
  constructor
  · intro hstuck w
    cases hw : s.pool.threads w with
    | exited => rfl
    | running task =>
      obtain ⟨s', hs'⟩ := finish_of_running hw
      cases (hstuck (.finish w) trivial).symm.trans hs'
    | waiting =>
      obtain ⟨s', hs'⟩ := check_of_ready (mem_ready.mpr ⟨hw, hs.awake ▸ Finset.notMem_empty w⟩)
      cases (hstuck (.check w) trivial).symm.trans hs'
  · intro hexited e he
    refine Option.eq_none_iff_forall_ne_some.mpr fun s' hs' => ?_
    cases next_of_step hs' with
    | take w task rest hawake hw htasks => cases (hexited w).symm.trans hw
    | exit w hawake hw htasks hstop => cases (hexited w).symm.trans hw
    | sleep w hawake hw htasks hstop => cases (hexited w).symm.trans hw
    | wake w hw => exact absurd hw (hs.awake ▸ Finset.notMem_empty w)
    | finish w task hw => cases (hexited w).symm.trans hw
    | enqueue body => exact he.elim
    | notifyOne w hcall hw => exact he.elim
    | notifyNone hcall hnobody => exact he.elim
    | stop => exact he.elim
    | notifyAll hcall => exact he.elim

/-- **`stop` returns.** Once it has notified everybody, the workers take exactly the steps they have left,
in whatever order, and come to no halt before all of them have left the loop, which is what
`join` waits for. -/
theorem stop_returns {es es' : List (Event n τ)} (hrun : Lib.Runs.run step start es = some s)
    (hstop : s.pool.stop = true) (hcalled : s.stopping = 0) (hworkers : ∀ e ∈ es', e.IsWorker)
    (hrun' : Lib.Runs.run step s es' = some s') :
    es'.length + s'.left = s.left ∧
      ((∀ e : Event n τ, e.IsWorker → step s' e = none) ↔ ∀ w, s'.pool.threads w = .exited) := by
  have hawake : s.asleep = ∅ := ((inv_run hrun).stopped hstop).resolve_right (by omega)
  obtain ⟨hs', hlength⟩ := Lib.Runs.run_measure Stopped Event.IsWorker left
    (fun _ _ _ hs he h => stopped_step hs he (next_of_step h)) ⟨hstop, hawake⟩ hworkers hrun'
  exact ⟨by omega, stuck_iff hs'⟩

/-- `stop` comes while one worker runs a task and the other sleeps. -/
def stoppedEarly : List (Event 2 Nat) :=
  [.check 1, .enqueue 7, .check 0, .notifyOne 1, .check 1, .enqueue 8, .stop, .notifyAll]

theorem stop_returns_early : ∃ s s' : Monitor 2 Nat, Lib.Runs.run step start stoppedEarly = some s ∧
    Lib.Runs.run step s [.check 1, .finish 0, .check 0, .finish 1] = some s' ∧ 4 + s'.left = s.left := by
  have hany : (Lib.Runs.run step start stoppedEarly).any (fun s => s.pool.stop && s.stopping == 0 &&
      (Lib.Runs.run step s [.check 1, .finish 0, .check 0, .finish 1]).isSome) = true := by
    decide
  obtain ⟨s, hrun, hs⟩ := (Option.any_eq_true _ _).mp hany
  simp only [Bool.and_eq_true, beq_iff_eq] at hs
  obtain ⟨⟨hstop, hcalled⟩, hrest⟩ := hs
  obtain ⟨s', hrun'⟩ := Option.isSome_iff_exists.mp hrest
  have hworkers : ∀ e ∈ [Event.check (1 : Fin 2), .finish 0, .check 0, (.finish 1 : Event 2 Nat)], e.IsWorker := by
    simp [Event.IsWorker]
  exact ⟨s, s', hrun, hrun', (stop_returns hrun hstop hcalled hworkers hrun').1⟩

/-! ### The pool without the condition variable -/

/-- What callers see: a task enqueued, or `stop_` set. -/
def Event.call : Event n τ → List (Option τ)
  | .enqueue body => [some body]
  | .stop => [none]
  | _ => []

/-- The same of the events of `ThreadPool`. -/
def call : ThreadPool.Event n τ → List (Option τ)
  | .enqueue body => [some body]
  | .stop => [none]
  | .acquire _ | .finish _ => []

theorem history_step {h : History n τ} {e : ThreadPool.Event n τ} {pool : ThreadPool n τ}
    (hs : h.pool.step e = some pool) :
    ∃ h', Lib.Runs.run History.step h [e] = some h' ∧ h'.pool = pool := by
  simp only [Lib.Runs.run, History.step, hs, Option.map_some, Option.bind_some]
  refine ⟨_, rfl, ?_⟩
  cases e with
  | enqueue body => rfl
  | stop => rfl
  | acquire w => dsimp only; split <;> rfl
  | finish w => dsimp only; split <;> rfl

/-- A step is a step of the pool, or the pool does not notice it. -/
theorem pool_step (h : Next s e s') : (s'.pool = s.pool ∧ e.call = []) ∨
    ∃ e', s.pool.step e' = some s'.pool ∧ call e' = e.call := by
  cases h with
  | enqueue body => exact .inr ⟨.enqueue body, rfl, rfl⟩
  | stop => exact .inr ⟨.stop, rfl, rfl⟩
  | take w task rest hawake hw htasks =>
    refine .inr ⟨.acquire w, ?_, rfl⟩
    simp only [ThreadPool.step, ThreadPool.acquire, hw, htasks]
  | exit w hawake hw htasks hstop =>
    refine .inr ⟨.acquire w, ?_, rfl⟩
    simp only [ThreadPool.step, ThreadPool.acquire, hw, htasks, hstop]
  | finish w task hw =>
    refine .inr ⟨.finish w, ?_, rfl⟩
    simp only [ThreadPool.step, ThreadPool.finish, hw]
  | _ => exact .inl ⟨rfl, rfl⟩

/-- **The condition variable changes nothing but the time a task waits**: every run with sleeping and
waking is a run of the pool without, with the same calls in the same order, so what its
histories keep is kept here. -/
theorem refines {es : List (Event n τ)} (hrun : Lib.Runs.run step start es = some s) :
    ∃ es' h, Lib.Runs.run History.step History.start es' = some h ∧ h.pool = s.pool ∧ h.Inv ∧
      es'.flatMap call = es.flatMap Event.call := by
  have hstep (s : Monitor n τ) (h : History n τ) (e : Event n τ) (s₁ : Monitor n τ) (hpool : h.pool = s.pool)
      (hs : step s e = some s₁) : ∃ es' h₁, Lib.Runs.run History.step h es' = some h₁ ∧
        h₁.pool = s₁.pool ∧ es'.flatMap call = e.call := by
    obtain ⟨hsame, hcall⟩ | ⟨e', he', hcall⟩ := pool_step (next_of_step hs)
    · exact ⟨[], h, rfl, hpool.trans hsame.symm, hcall.symm⟩
    · rw [← hpool] at he'
      obtain ⟨h', hrun', hpool'⟩ := history_step he'
      exact ⟨[e'], h', hrun', hpool', by rw [List.flatMap_singleton, hcall]⟩
  have hstart : (History.start : History n τ).pool = (start : Monitor n τ).pool := rfl
  obtain ⟨es', h, hrun', hpool, hcalls⟩ := Lib.Runs.run_simulation _ Event.call call hstep hstart hrun
  exact ⟨es', h, hrun', hpool, History.inv_run es' hrun', hcalls⟩

theorem refines_early : ∃ (s : Monitor 2 Nat) (h : History 2 Nat), Lib.Runs.run step start stoppedEarly = some s ∧
    h.pool = s.pool ∧ h.Inv := by
  obtain ⟨s, hrun⟩ := Option.isSome_iff_exists.mp
    (show (Lib.Runs.run step (start : Monitor 2 Nat) stoppedEarly).isSome = true by decide)
  obtain ⟨_, h, _, hpool, hinv, _⟩ := refines hrun
  exact ⟨s, h, hrun, hpool, hinv⟩

end Monitor
end ThreadPool
end MyMinecraft
