import MyMinecraft.Lib.Runs

/-! The thread pool (`Threadpool.hpp`).

A step is one critical section of `queue_mutex_`, or a task returning. `acquire`
is a worker's whole section: it waits until there is a task or `stop_`, leaves
when there is `stop_` and no task, and takes the front of the queue otherwise.

`History` runs the pool and writes down what happened. `runs_each_once` says that
tasks are taken in the order they were enqueued and never twice, that every task
is queued, running or finished and only one of these, and that when all workers
have left, what was enqueued before `stop_` has finished. -/
namespace MyMinecraft

/-- A closure in the queue. `id` is its place among all `enqueue` calls and only tells
two closures apart. -/
structure Task (τ : Type) where
  id : Nat
  body : τ
  deriving DecidableEq

inductive Worker (τ : Type) where
  | waiting
  | running (task : Task τ)
  | exited
  deriving DecidableEq

/-- What the worker is running, as a multiset of at most one task. -/
def Worker.held {τ : Type} : Worker τ → Multiset (Task τ)
  | .running task => {task}
  | .waiting | .exited => 0

def Worker.isRunning {τ : Type} : Worker τ → Bool
  | .running _ => true
  | .waiting | .exited => false

structure ThreadPool (n : Nat) (τ : Type) where
  threads : Fin n → Worker τ
  tasks : List (Task τ)
  stop : Bool
  /-- How many `enqueue` calls there were. -/
  enqueued : Nat

namespace ThreadPool
variable {n : Nat} {τ : Type}

inductive Event (n : Nat) (τ : Type) where
  | enqueue (body : τ)
  | stop
  | acquire (w : Fin n)
  | finish (w : Fin n)

def start : ThreadPool n τ := ⟨fun _ => .waiting, [], false, 0⟩

def enqueue (s : ThreadPool n τ) (body : τ) : ThreadPool n τ :=
  {s with tasks := s.tasks ++ [⟨s.enqueued, body⟩], enqueued := s.enqueued + 1}

def setThread (s : ThreadPool n τ) (w : Fin n) (t : Worker τ) : ThreadPool n τ :=
  {s with threads := Function.update s.threads w t}

@[simp] theorem setThread_self (s : ThreadPool n τ) (w : Fin n) (t : Worker τ) :
    (s.setThread w t).threads w = t := Function.update_self ..

theorem setThread_ne (s : ThreadPool n τ) {v w : Fin n} (t : Worker τ) (h : v ≠ w) :
    (s.setThread w t).threads v = s.threads v := Function.update_of_ne h ..

/-- No other change makes `v` a worker that has left. -/
theorem setThread_exited {s : ThreadPool n τ} {v w : Fin n} {t : Worker τ} (ht : t ≠ .exited)
    (h : (s.setThread w t).threads v = .exited) : s.threads v = .exited := by
  by_cases hv : v = w
  · subst hv
    rw [setThread_self] at h
    exact absurd h ht
  · rwa [setThread_ne s t hv] at h

theorem setThread_running {s : ThreadPool n τ} {v w : Fin n} {t : Worker τ} {task : Task τ}
    (h : (s.setThread w t).threads v = .running task) :
    (v = w ∧ t = .running task) ∨ (v ≠ w ∧ s.threads v = .running task) := by
  by_cases hv : v = w
  · subst hv
    rw [setThread_self] at h
    exact .inl ⟨rfl, h⟩
  · rw [setThread_ne s t hv] at h
    exact .inr ⟨hv, h⟩

/-- The worker's critical section. -/
def acquire (s : ThreadPool n τ) (w : Fin n) : Option (ThreadPool n τ) :=
  match s.threads w with
  | .waiting =>
    match s.tasks, s.stop with
    | task :: rest, _ => some {s.setThread w (.running task) with tasks := rest}
    | [], true => some (s.setThread w .exited)
    | [], false => none -- `cv_.wait` holds it
  | _ => none

/-- `task()` returns and the loop starts over. -/
def finish (s : ThreadPool n τ) (w : Fin n) : Option (ThreadPool n τ) :=
  match s.threads w with
  | .running _ => some (s.setThread w .waiting)
  | _ => none

def step (s : ThreadPool n τ) : Event n τ → Option (ThreadPool n τ)
  | .enqueue body => some (s.enqueue body)
  | .stop => some {s with stop := true}
  | .acquire w => s.acquire w
  | .finish w => s.finish w

/-- Everything a worker's section can do. -/
theorem acquire_cases {s s' : ThreadPool n τ} {w : Fin n} (h : s.acquire w = some s') :
    s.threads w = .waiting ∧
      ((∃ task rest, s.tasks = task :: rest ∧
          s' = {s.setThread w (.running task) with tasks := rest}) ∨
        (s.tasks = [] ∧ s.stop = true ∧ s' = s.setThread w .exited)) := by
  unfold acquire at h
  cases hw : s.threads w with
  | waiting =>
    rw [hw] at h
    refine ⟨rfl, ?_⟩
    cases htasks : s.tasks with
    | cons task rest =>
      simp only [htasks] at h
      exact .inl ⟨task, rest, rfl, (Option.some.inj h).symm⟩
    | nil =>
      cases hstop : s.stop with
      | false => simp only [htasks, hstop] at h; cases h
      | true =>
        simp only [htasks, hstop] at h
        exact .inr ⟨rfl, rfl, (Option.some.inj h).symm⟩
  | running task => rw [hw] at h; cases h
  | exited => rw [hw] at h; cases h

theorem finish_cases {s s' : ThreadPool n τ} {w : Fin n} (h : s.finish w = some s') :
    ∃ task, s.threads w = .running task ∧ s' = s.setThread w .waiting := by
  unfold finish at h
  cases hw : s.threads w with
  | running task =>
    rw [hw] at h
    exact ⟨task, rfl, (Option.some.inj h).symm⟩
  | waiting => rw [hw] at h; cases h
  | exited => rw [hw] at h; cases h

/-! ### The tasks workers hold -/

def running (s : ThreadPool n τ) : Multiset (Task τ) := ∑ w, (s.threads w).held

/-- Changing one worker exchanges what it adds to a sum over all of them. -/
theorem sum_setThread {M : Type} [AddCommMonoid M] (f : Worker τ → M) (s : ThreadPool n τ) (w : Fin n)
    (t : Worker τ) : ∑ v, f ((s.setThread w t).threads v) + f (s.threads w) = ∑ v, f (s.threads v) + f t := by
  have hmove := Lib.Runs.sum_move (f := fun v => f ((s.setThread w t).threads v)) (g := fun v => f (s.threads v)) w
    fun v hv => congrArg f (setThread_ne s t hv)
  rwa [setThread_self] at hmove

theorem running_setThread (s : ThreadPool n τ) (w : Fin n) (t : Worker τ) :
    (s.setThread w t).running + (s.threads w).held = s.running + t.held :=
  sum_setThread Worker.held s w t

/-! ### Histories -/

/-- The pool, and what its run did so far. -/
structure History (n : Nat) (τ : Type) where
  pool : ThreadPool n τ
  enqueued : List (Task τ)
  started : List (Fin n × Task τ)
  finished : List (Task τ)
  /-- What was enqueued when `stop_` was first set. -/
  beforeStop : Option (List (Task τ))

namespace History

def start : History n τ := ⟨ThreadPool.start, [], [], [], none⟩

/-- The pool takes the event; the history says which task it was about. -/
def step (h : History n τ) (e : Event n τ) : Option (History n τ) :=
  (h.pool.step e).map fun pool =>
    match e with
    | .enqueue body => {h with pool, enqueued := h.enqueued ++ [⟨h.pool.enqueued, body⟩]}
    | .stop => {h with pool, beforeStop := h.beforeStop.or (some h.enqueued)}
    | .acquire w =>
      match pool.threads w with
      | .running task => {h with pool, started := h.started ++ [(w, task)]}
      | _ => {h with pool}
    | .finish w =>
      match h.pool.threads w with
      | .running task => {h with pool, finished := h.finished ++ [task]}
      | _ => {h with pool}

/-- The history only watches: its pool runs as the pool alone does. -/
theorem run_pool (h : History n τ) (es : List (Event n τ)) :
    (Lib.Runs.run step h es).map pool = Lib.Runs.run ThreadPool.step h.pool es := by
  induction es generalizing h with
  | nil => rfl
  | cons e es ih =>
    simp only [Lib.Runs.run]
    cases hp : h.pool.step e with
    | none => simp [step, hp]
    | some pool =>
      simp only [step, hp, Option.map_some, Option.bind_some]
      rw [ih]
      congr 1
      cases e with
      | acquire w => dsimp only; split <;> rfl
      | finish w => dsimp only; split <;> rfl
      | _ => rfl

/-- What every run keeps. The queue is what is left of the arrivals after the tasks
taken, and a worker leaves only once that is nothing. -/
structure Inv (h : History n τ) : Prop where
  ids : h.enqueued.map Task.id = List.range h.pool.enqueued
  fifo : h.enqueued = h.started.map Prod.snd ++ h.pool.tasks
  taken : (h.started.map Prod.snd : Multiset (Task τ)) = h.pool.running + h.finished
  stopped : h.beforeStop.isSome = h.pool.stop
  drained : ∀ w, h.pool.threads w = .exited → ∃ l, h.beforeStop = some l ∧
    ∀ t ∈ l, t ∈ h.started.map Prod.snd
  earlier : ∀ l, h.beforeStop = some l → l <+: h.enqueued

theorem inv_start : Inv (start : History n τ) where
  ids := rfl
  fifo := rfl
  taken := by
    simp [start, running, ThreadPool.start, Worker.held]
  stopped := rfl
  drained := fun w hw => by cases hw
  earlier := fun l hl => by cases hl

variable {h h' : History n τ}

theorem inv_enqueue (hi : Inv h) (body : τ) (hs : h.step (.enqueue body) = some h') : Inv h' := by
  obtain rfl := Option.some.inj hs
  exact {
    ids := by
      rw [List.map_append, hi.ids]
      exact List.range_succ.symm
    fifo := by
      show h.enqueued ++ _ = _ ++ (h.pool.tasks ++ _)
      rw [hi.fifo, List.append_assoc]
    taken := hi.taken
    stopped := hi.stopped
    drained := hi.drained
    earlier := fun l hl => (hi.earlier l hl).trans (List.prefix_append _ _) }

theorem inv_stop (hi : Inv h) (hs : h.step .stop = some h') : Inv h' := by
  obtain rfl := Option.some.inj hs
  refine { ids := hi.ids, fifo := hi.fifo, taken := hi.taken, stopped := ?_, drained := ?_, earlier := ?_ }
  · show (h.beforeStop.or (some h.enqueued)).isSome = true
    cases h.beforeStop <;> rfl
  · intro w hw
    obtain ⟨l, hl, ht⟩ := hi.drained w hw
    refine ⟨l, ?_, ht⟩
    show h.beforeStop.or (some h.enqueued) = some l
    rw [hl, Option.some_or]
  · intro l hl
    -- a second `stop` keeps what the first one saw
    cases hb : h.beforeStop with
    | none =>
      have hl' : h.beforeStop.or (some h.enqueued) = some l := hl
      rw [hb, Option.none_or] at hl'
      rw [← Option.some.inj hl']
    | some l' =>
      have hl' : h.beforeStop.or (some h.enqueued) = some l := hl
      rw [hb, Option.some_or] at hl'
      rw [← Option.some.inj hl']
      exact hi.earlier l' hb

/-- A worker takes the front of the queue. -/
theorem inv_take (hi : Inv h) (w : Fin n) (task : Task τ) (rest : List (Task τ))
    (hw : h.pool.threads w = .waiting) (ht : h.pool.tasks = task :: rest) :
    Inv { h with
      pool := {h.pool.setThread w (.running task) with tasks := rest}
      started := h.started ++ [(w, task)] } where
  ids := hi.ids
  fifo := by
    show h.enqueued = _
    rw [hi.fifo, ht, List.map_append, List.append_assoc]
    rfl
  taken := by
    have hrun := running_setThread h.pool w (.running task)
    rw [hw] at hrun
    simp only [Worker.held, add_zero] at hrun
    show (((h.started ++ [(w, task)]).map Prod.snd : List (Task τ)) : Multiset (Task τ)) =
      (h.pool.setThread w (.running task)).running + h.finished
    rw [hrun, List.map_append, ← Multiset.coe_add, hi.taken]
    exact add_right_comm _ _ _
  stopped := hi.stopped
  drained := by
    intro v hv
    obtain ⟨l, hl, hstarted⟩ := hi.drained v (setThread_exited (by simp) hv)
    refine ⟨l, hl, fun t htl => ?_⟩
    rw [List.map_append]
    exact List.mem_append_left _ (hstarted t htl)
  earlier := hi.earlier

/-- A worker that leaves found the queue empty: everything enqueued was taken. -/
theorem inv_exit (hi : Inv h) (w : Fin n) (hw : h.pool.threads w = .waiting)
    (ht : h.pool.tasks = []) (hstop : h.pool.stop = true) :
    Inv {h with pool := h.pool.setThread w .exited} where
  ids := hi.ids
  fifo := hi.fifo
  taken := by
    have hrun := running_setThread h.pool w .exited
    rw [hw] at hrun
    simp only [Worker.held, add_zero] at hrun
    show _ = (h.pool.setThread w .exited).running + _
    rw [hrun, hi.taken]
  stopped := hi.stopped
  drained := by
    intro v _
    have hsome : h.beforeStop.isSome = true := by rw [hi.stopped, hstop]
    obtain ⟨l, hl⟩ := Option.isSome_iff_exists.mp hsome
    have hall : h.enqueued = h.started.map Prod.snd := by rw [hi.fifo, ht, List.append_nil]
    exact ⟨l, hl, fun t htl => hall ▸ (hi.earlier l hl).subset htl⟩
  earlier := hi.earlier

theorem inv_acquire (hi : Inv h) (w : Fin n) (hs : h.step (.acquire w) = some h') : Inv h' := by
  obtain ⟨pool, hpool, rfl⟩ := Option.map_eq_some_iff.mp hs
  obtain ⟨hw, ⟨task, rest, ht, rfl⟩ | ⟨ht, hstop, rfl⟩⟩ := acquire_cases hpool
  · simp only [setThread_self]
    exact inv_take hi w task rest hw ht
  · simp only [setThread_self]
    exact inv_exit hi w hw ht hstop

theorem inv_finish (hi : Inv h) (w : Fin n) (hs : h.step (.finish w) = some h') : Inv h' := by
  obtain ⟨pool, hpool, rfl⟩ := Option.map_eq_some_iff.mp hs
  obtain ⟨task, hw, rfl⟩ := finish_cases hpool
  simp only [hw]
  exact {
    ids := hi.ids
    fifo := hi.fifo
    taken := by
      have hrun := running_setThread h.pool w .waiting
      rw [hw] at hrun
      simp only [Worker.held, add_zero] at hrun
      show (_ : Multiset (Task τ)) = (h.pool.setThread w .waiting).running +
        ((h.finished ++ [task] : List (Task τ)) : Multiset (Task τ))
      rw [hi.taken, ← hrun, ← Multiset.coe_add, Multiset.coe_singleton]
      abel
    stopped := hi.stopped
    drained := fun v hv => hi.drained v (setThread_exited (by simp) hv)
    earlier := hi.earlier }

theorem inv_step (e : Event n τ) (hi : Inv h) (hs : h.step e = some h') : Inv h' := by
  cases e with
  | enqueue body => exact inv_enqueue hi body hs
  | stop => exact inv_stop hi hs
  | acquire w => exact inv_acquire hi w hs
  | finish w => exact inv_finish hi w hs

theorem inv_run (es : List (Event n τ)) (hrun : Lib.Runs.run step start es = some h) : Inv h :=
  Lib.Runs.run_invariant Inv (fun _ e _ hi hs => inv_step e hi hs) inv_start hrun

/-- What the pool owes its callers. -/
structure RunsEachOnce (h : History n τ) : Prop where
  /-- Tasks are taken in the order they were enqueued. -/
  in_order : h.started.map Prod.snd <+: h.enqueued
  /-- No task is started twice, by one worker or by two. -/
  once : (h.started.map Prod.snd).Nodup
  /-- The enqueued tasks are the queued, the running and the finished ones. -/
  partition : (h.enqueued : Multiset (Task τ)) = h.pool.tasks + h.pool.running + h.finished
  /-- No task is counted twice there. -/
  disjoint : h.enqueued.Nodup
  /-- When every worker has left, `stop_` was set and what was enqueued before it has finished. -/
  drains : (∀ w, h.pool.threads w = .exited) →
    ∃ l, h.beforeStop = some l ∧ ∀ t ∈ l, t ∈ h.finished

/-- **The pool runs each task exactly once and drains before it stops**, for any number
of workers and any interleaving of callers, workers and stops. -/
theorem runs_each_once (hn : 0 < n) (es : List (Event n τ))
    (hrun : Lib.Runs.run step start es = some h) : RunsEachOnce h := by
  have hi := inv_run es hrun
  have htaken : h.started.map Prod.snd <+: h.enqueued := ⟨h.pool.tasks, hi.fifo.symm⟩
  have hnodup : h.enqueued.Nodup := by
    apply List.Nodup.of_map Task.id
    rw [hi.ids]
    exact List.nodup_range
  refine ⟨htaken, hnodup.sublist htaken.sublist, ?_, hnodup, ?_⟩
  · rw [hi.fifo, ← Multiset.coe_add, hi.taken]
    abel
  · intro hexit
    obtain ⟨l, hl, hstarted⟩ := hi.drained ⟨0, hn⟩ (hexit _)
    have hidle : h.pool.running = 0 := by
      unfold running
      exact Finset.sum_eq_zero fun w _ => by rw [hexit w, Worker.held]
    refine ⟨l, hl, fun t ht => ?_⟩
    have hmem : t ∈ (h.started.map Prod.snd : Multiset (Task τ)) := hstarted t ht
    rw [hi.taken, hidle, zero_add] at hmem
    exact hmem

/-- Two workers: one takes both tasks while `stop_` is set under it, then both leave. -/
theorem runs_each_once_two_workers : ∃ h : History 2 Nat,
    Lib.Runs.run step start [.enqueue 7, .acquire 0, .enqueue 8, .stop, .finish 0, .acquire 0,
      .finish 0, .acquire 0, .acquire 1] = some h ∧ RunsEachOnce h := by
  obtain ⟨h, hrun⟩ := Option.isSome_iff_exists.mp
    (show (Lib.Runs.run step (start : History 2 Nat) [.enqueue 7, .acquire 0, .enqueue 8, .stop,
      .finish 0, .acquire 0, .finish 0, .acquire 0, .acquire 1]).isSome = true by decide)
  exact ⟨h, hrun, runs_each_once (by decide) _ hrun⟩

end History
end ThreadPool
end MyMinecraft
