import Mathlib

/-! Runs of a partial step function.

A system is a step function `S → E → Option S`: an event that is not enabled has
no successor. A finite run is read two ways: as the list of events it takes
(`run`), and as the states and events at each instant (`Execution`), which is how
a property relates what happened at different times. -/
namespace Lib.Runs

variable {S E : Type}

/-- The state after the listed events, if each was enabled. -/
def run (step : S → E → Option S) : S → List E → Option S
  | s, [] => some s
  | s, e :: es => (step s e).bind fun s' => run step s' es

variable {step : S → E → Option S}

theorem run_cons {s s' : S} {e : E} {es : List E} :
    run step s (e :: es) = some s' ↔ ∃ s₁, step s e = some s₁ ∧ run step s₁ es = some s' := by
  rw [run, Option.bind_eq_some_iff]

theorem run_append (s : S) (a b : List E) :
    run step s (a ++ b) = (run step s a).bind fun s' => run step s' b := by
  induction a generalizing s with
  | nil => rfl
  | cons e es ih =>
    simp only [List.cons_append, run, ih, Option.bind_assoc]

/-! ### The branches of a step function

What a step leads to, by the shape of the branch it takes. -/

section
variable {P : S → Prop} {s₁ s' : S}

theorem of_some (h : some s₁ = some s') (hs₁ : P s₁) : P s' := Option.some.inj h ▸ hs₁

theorem of_guard {c : Prop} [Decidable c] (h : (if c then some s₁ else none) = some s') (hs₁ : c → P s₁) :
    P s' := by
  obtain ⟨hc, heq⟩ := Option.ite_none_right_eq_some.mp h
  exact of_some heq (hs₁ hc)

theorem of_map {A : Type} {f : A → S} {o : Option A} (h : o.map f = some s') (hf : ∀ a, o = some a → P (f a)) :
    P s' := by
  obtain ⟨a, ha, rfl⟩ := Option.map_eq_some_iff.mp h
  exact hf a ha

end

/-! ### Whole runs -/

/-- What a step preserves, a run preserves. -/
theorem run_invariant (Inv : S → Prop)
    (hstep : ∀ s e s', Inv s → step s e = some s' → Inv s') {s s' : S} {es : List E}
    (hs : Inv s) (hrun : run step s es = some s') : Inv s' := by
  induction es generalizing s with
  | nil => exact Option.some.inj hrun ▸ hs
  | cons e es ih =>
    obtain ⟨s₁, he, hrest⟩ := run_cons.mp hrun
    exact ih (hstep s e s₁ hs he) hrest

/-- What one more step preserves of a run, with the events it has taken, holds of every run. -/
theorem run_history {s₀ : S} (P : List E → S → Prop) (h₀ : P [] s₀)
    (hstep : ∀ es s e s', P es s → step s e = some s' → P (es ++ [e]) s') (es : List E) :
    ∀ {s : S}, run step s₀ es = some s → P es s := by
  induction es using List.reverseRecOn with
  | nil =>
    intro s hrun
    exact Option.some.inj hrun ▸ h₀
  | append_singleton es e ih =>
    intro s hrun
    rw [run_append] at hrun
    obtain ⟨s₁, hs₁, hlast⟩ := Option.bind_eq_some_iff.mp hrun
    obtain ⟨s₂, he, hend⟩ := run_cons.mp hlast
    obtain rfl := Option.some.inj hend
    exact hstep es s₁ e s₂ (ih hs₁) he

/-- A run of `N` steps from `s₀`: `state k` is the state before the `k`-th event. What
the functions say past `N` means nothing. -/
structure Execution (step : S → E → Option S) (s₀ : S) (N : Nat) where
  state : Nat → S
  event : Nat → E
  start : state 0 = s₀
  next : ∀ k, k < N → step (state k) (event k) = some (state (k + 1))

namespace Execution
variable {s₀ : S} {N : Nat}

/-- An invariant may speak of the instant and of everything before it. -/
theorem invariant (x : Execution step s₀ N) (Inv : Nat → Prop) (h₀ : Inv 0)
    (hstep : ∀ k, k < N → Inv k → step (x.state k) (x.event k) = some (x.state (k + 1)) →
      Inv (k + 1)) : ∀ k, k ≤ N → Inv k := by
  intro k
  induction k with
  | zero => exact fun _ => h₀
  | succ k ih => exact fun hk => hstep k hk (ih (Nat.le_of_lt hk)) (x.next k hk)

/-- One event put in front of a run. -/
def cons {s : S} {e : E} (h : step s e = some s₀) (x : Execution step s₀ N) :
    Execution step s (N + 1) where
  state
    | 0 => s
    | k + 1 => x.state k
  event
    | 0 => e
    | k + 1 => x.event k
  start := rfl
  next
    | 0, _ => h.trans (congrArg some x.start.symm)
    | k + 1, hk => x.next k (Nat.lt_of_succ_lt_succ hk)

end Execution

/-- What each beginning of a list has, when one more element keeps it exactly under a condition. -/
theorem prefixes_iff {α : Type} (P : List α → Prop) (Q : List α → α → Prop) (h₀ : P [])
    (hstep : ∀ before a, P before → (P (before ++ [a]) ↔ Q before a)) (l : List α) :
    (∀ before, before <+: l → P before) ↔ ∀ before a, before ++ [a] <+: l → Q before a := by
  induction l using List.reverseRecOn with
  | nil =>
    refine iff_of_true (fun before hb => ?_) (fun before a hb => by simp at hb)
    rw [List.prefix_nil.mp hb]
    exact h₀
  | append_singleton l a ih =>
    have hbefore : (∀ before b, before ++ [b] <+: l ++ [a] → Q before b) ↔
        Q l a ∧ ∀ before b, before ++ [b] <+: l → Q before b := by
      constructor
      · intro h
        exact ⟨h l a List.prefix_rfl, fun before b hb => h before b (hb.trans (List.prefix_append _ _))⟩
      · intro h before b hb
        rcases List.prefix_concat_iff.mp hb with heq | hb'
        · obtain ⟨rfl, hlast⟩ := List.append_inj' heq rfl
          obtain rfl := List.singleton_inj.mp hlast
          exact h.1
        · exact h.2 before b hb'
    rw [hbefore, ← ih]
    simp only [List.prefix_concat_iff, forall_eq_or_imp]
    exact and_congr_left fun hl => hstep l a (hl l List.prefix_rfl)

/-- Of the instants before `K` with a property there is a last one. -/
theorem exists_last (P : Nat → Prop) {i K : Nat} (hiK : i < K) (hi : P i) :
    ∃ m, i ≤ m ∧ m < K ∧ P m ∧ ∀ m', m < m' → m' < K → ¬ P m' := by
  induction K, hiK using Nat.le_induction with
  | base => exact ⟨i, Nat.le_refl i, Nat.lt_succ_self i, hi, fun m' h h' => by omega⟩
  | succ K hiK ih =>
    by_cases hK : P K
    · exact ⟨K, Nat.le_of_succ_le hiK, Nat.lt_succ_self K, hK, fun m' h h' => by omega⟩
    · obtain ⟨m, him, hmK, hm, hlast⟩ := ih
      refine ⟨m, him, Nat.lt_succ_of_lt hmK, hm, fun m' h h' => ?_⟩
      rcases Nat.lt_succ_iff_lt_or_eq.mp h' with hlt | rfl
      · exact hlast m' h hlt
      · exact hK

/-- Every list of enabled events is an execution that ends where the run does. -/
theorem exists_execution [Inhabited E] (s : S) (es : List E) {s' : S} (h : run step s es = some s') :
    ∃ x : Execution step s es.length, x.state es.length = s' ∧
      ∀ k (hk : k < es.length), x.event k = es[k] := by
  induction es generalizing s with
  | nil =>
    refine ⟨⟨fun _ => s, fun _ => default, rfl, fun k hk => absurd hk (Nat.not_lt_zero k)⟩, ?_, ?_⟩
    · exact Option.some.inj h
    · exact fun k hk => absurd hk (Nat.not_lt_zero k)
  | cons e es ih =>
    obtain ⟨s₁, he, hrest⟩ := run_cons.mp h
    obtain ⟨x, hx, hev⟩ := ih s₁ hrest
    refine ⟨x.cons he, hx, ?_⟩
    intro k hk
    cases k with
    | zero => rfl
    | succ k => exact hev k (Nat.lt_of_succ_lt_succ hk)

/-- The states of an execution are those its events lead to. -/
theorem run_take {s₀ : S} {es : List E} (x : Execution step s₀ es.length)
    (hevent : ∀ k (hk : k < es.length), x.event k = es[k]) {k : Nat} (hk : k ≤ es.length) :
    run step s₀ (es.take k) = some (x.state k) := by
  induction k with
  | zero => exact congrArg some x.start.symm
  | succ k ih =>
    rw [List.take_succ_eq_append_getElem hk, run_append, ih (Nat.le_of_succ_le hk), Option.bind_some]
    refine run_cons.mpr ⟨x.state (k + 1), ?_, rfl⟩
    rw [← hevent k hk]
    exact x.next k hk

/-- `P` holds in every state the run comes through. -/
def Along (step : S → E → Option S) (P : S → Prop) (s : S) (es : List E) : Prop :=
  ∀ before, before <+: es → ∀ s', run step s before = some s' → P s'

theorem along_snoc {P : S → Prop} {s s' : S} {es : List E} {e : E} (h : Along step P s es)
    (hrun : run step s (es ++ [e]) = some s') (hs' : P s') : Along step P s (es ++ [e]) := by
  intro before hbefore s₁ hs₁
  rcases List.prefix_concat_iff.mp hbefore with rfl | hbefore
  · exact Option.some.inj (hrun.symm.trans hs₁) ▸ hs'
  · exact h before hbefore s₁ hs₁

/-- `P` looked at in every state the run comes through. -/
def check (step : S → E → Option S) (P : S → Prop) [DecidablePred P] : S → List E → Bool
  | s, [] => decide (P s)
  | s, e :: es => decide (P s) && (step s e).all fun s' => check step P s' es

theorem along_of_check {P : S → Prop} [DecidablePred P] {s : S} {es : List E} (h : check step P s es = true) :
    Along step P s es := by
  induction es generalizing s with
  | nil =>
    intro before hbefore s' hs'
    obtain rfl := List.prefix_nil.mp hbefore
    exact Option.some.inj hs' ▸ of_decide_eq_true h
  | cons e es ih =>
    obtain ⟨hnow, hrest⟩ := Bool.and_eq_true_iff.mp h
    intro before hbefore s' hs'
    obtain rfl | ⟨rest, rfl, hprefix⟩ := List.prefix_cons_iff.mp hbefore
    · exact Option.some.inj hs' ▸ of_decide_eq_true hnow
    · obtain ⟨s₁, he, hrun⟩ := run_cons.mp hs'
      rw [he] at hrest
      exact ih hrest rest hprefix s' hrun

/-! ### Two systems -/

section
variable {S' E' L : Type} {step' : S' → E' → Option S'}

/-- Where each step can be followed in another system, each run can, and what is seen of the one run is seen
of the other. -/
theorem run_simulation (R : S → S' → Prop) (seen : E → List L) (seen' : E' → List L)
    (hstep : ∀ s t e s₁, R s t → step s e = some s₁ →
      ∃ es' t₁, run step' t es' = some t₁ ∧ R s₁ t₁ ∧ es'.flatMap seen' = seen e)
    {s s₁ : S} {t : S'} {es : List E} (hs : R s t) (hrun : run step s es = some s₁) :
    ∃ es' t₁, run step' t es' = some t₁ ∧ R s₁ t₁ ∧ es'.flatMap seen' = es.flatMap seen := by
  induction es generalizing s t with
  | nil => exact ⟨[], t, rfl, Option.some.inj hrun ▸ hs, rfl⟩
  | cons e es ih =>
    obtain ⟨s₂, he, hrest⟩ := run_cons.mp hrun
    obtain ⟨first, t₂, hfirst, hs₂, hseen⟩ := hstep s t e s₂ hs he
    obtain ⟨rest, t₁, hrest', hs₁, hseen'⟩ := ih hs₂ hrest
    refine ⟨first ++ rest, t₁, ?_, hs₁, ?_⟩
    · rw [run_append, hfirst, Option.bind_some, hrest']
    · rw [List.flatMap_append, List.flatMap_cons, hseen, hseen']

/-- Where each step is one step of what is seen of it, or nothing, a run is a run once its unseen events are
left out. -/
theorem run_erase (Inv : S → Prop) (abs : S → S') (seen : E → Option E')
    (hinv : ∀ s e s', Inv s → step s e = some s' → Inv s')
    (hquiet : ∀ s e s', Inv s → step s e = some s' → seen e = none → abs s' = abs s)
    (hseen : ∀ s e s' e', Inv s → step s e = some s' → seen e = some e' → step' (abs s) e' = some (abs s'))
    {s s' : S} {es : List E} (hs : Inv s) (hrun : run step s es = some s') :
    run step' (abs s) (es.filterMap seen) = some (abs s') := by
  induction es generalizing s with
  | nil => exact congrArg (some ∘ abs) (Option.some.inj hrun)
  | cons e es ih =>
    obtain ⟨s₁, he, hrest⟩ := run_cons.mp hrun
    have hnext := ih (hinv s e s₁ hs he) hrest
    cases hsee : seen e with
    | none => rwa [List.filterMap_cons_none hsee, ← hquiet s e s₁ hs he hsee]
    | some e' =>
      rw [List.filterMap_cons_some hsee]
      exact run_cons.mpr ⟨abs s₁, hseen s e s₁ e' hs he hsee, hnext⟩

end

/-! ### What is left to do -/

/-- Where each step uses up one of what is left, as `r` compares, a run uses up one for each of its steps. -/
theorem run_count {r : Nat → Nat → Prop} (hrefl : ∀ a, r a a) (htrans : ∀ a b c, r a b → r b c → r a c)
    (hsucc : ∀ a b, r a b → r (a + 1) (b + 1)) (Inv : S → Prop) (P : E → Prop) (left : S → Nat)
    (hstep : ∀ s e s', Inv s → P e → step s e = some s' → Inv s' ∧ r (left s' + 1) (left s)) {s s' : S}
    {es : List E} (hs : Inv s) (hes : ∀ e ∈ es, P e) (hrun : run step s es = some s') :
    Inv s' ∧ r (left s' + es.length) (left s) := by
  induction es generalizing s with
  | nil =>
    obtain rfl := Option.some.inj hrun
    exact ⟨hs, hrefl _⟩
  | cons e es ih =>
    obtain ⟨s₁, he, hrest⟩ := run_cons.mp hrun
    obtain ⟨hs₁, hleft⟩ := hstep s e s₁ hs (hes e (List.mem_cons_self ..)) he
    obtain ⟨hs', hlength⟩ := ih hs₁ (fun e' he' => hes e' (List.mem_cons_of_mem _ he')) hrest
    exact ⟨hs', htrans _ _ _ (hsucc _ _ hlength) hleft⟩

/-- Steps that each use up one of what is left are as many as are used up. -/
theorem run_measure (Inv : S → Prop) (P : E → Prop) (left : S → Nat)
    (hstep : ∀ s e s', Inv s → P e → step s e = some s' → Inv s' ∧ left s' + 1 = left s) {s s' : S}
    {es : List E} (hs : Inv s) (hes : ∀ e ∈ es, P e) (hrun : run step s es = some s') :
    Inv s' ∧ left s' + es.length = left s :=
  run_count (r := Eq) (fun _ => rfl) (fun _ _ _ => Eq.trans) (fun _ _ => congrArg Nat.succ) Inv P left hstep hs
    hes hrun

/-- Steps that each use up some of what is left are at most as many as that. -/
theorem run_bound (Inv : S → Prop) (P : E → Prop) (left : S → Nat)
    (hstep : ∀ s e s', Inv s → P e → step s e = some s' → Inv s' ∧ left s' < left s) {s s' : S} {es : List E}
    (hs : Inv s) (hes : ∀ e ∈ es, P e) (hrun : run step s es = some s') :
    Inv s' ∧ left s' + es.length ≤ left s :=
  run_count (r := LE.le) (fun _ => le_rfl) (fun _ _ _ => le_trans) (fun _ _ => Nat.succ_le_succ) Inv P left hstep hs
    hes hrun

/-- What there is of all threads, when one of them moves. -/
theorem sum_move {T M : Type} [Fintype T] [DecidableEq T] [AddCommMonoid M] {f g : T → M} (t : T)
    (h : ∀ u, u ≠ t → f u = g u) : ∑ u, f u + g t = ∑ u, g u + f t := by
  have hrest : ∑ u ∈ Finset.univ.erase t, f u = ∑ u ∈ Finset.univ.erase t, g u :=
    Finset.sum_congr rfl fun u hu => h u (Finset.ne_of_mem_erase hu)
  rw [← Finset.add_sum_erase _ f (Finset.mem_univ t), ← Finset.add_sum_erase _ g (Finset.mem_univ t), hrest]
  abel

/-- Where every step uses up some of what is left, a run can be taken on until no step is left. -/
theorem exists_stuck (Inv : S → Prop) (P : E → Prop) (left : S → Nat)
    (hstep : ∀ s e s', Inv s → P e → step s e = some s' → Inv s' ∧ left s' < left s) {s : S} (hs : Inv s) :
    ∃ es s', (∀ e ∈ es, P e) ∧ run step s es = some s' ∧ Inv s' ∧ ∀ e, P e → step s' e = none := by
  induction hleft : left s using Nat.strong_induction_on generalizing s with
  | _ k ih =>
    by_cases hstuck : ∀ e, P e → step s e = none
    · exact ⟨[], s, fun e he => absurd he List.not_mem_nil, rfl, hs, hstuck⟩
    · push Not at hstuck
      obtain ⟨e, he, hnext⟩ := hstuck
      obtain ⟨s₁, hs₁⟩ := Option.ne_none_iff_exists'.mp hnext
      obtain ⟨hinv, hless⟩ := hstep s e s₁ hs he hs₁
      obtain ⟨es, s', hes, hrun, hlast⟩ := ih (left s₁) (by omega) hinv rfl
      refine ⟨e :: es, s', ?_, run_cons.mpr ⟨s₁, hs₁, hrun⟩, hlast⟩
      intro e' he'
      rcases List.mem_cons.mp he' with rfl | he'
      · exact he
      · exact hes e' he'

end Lib.Runs
