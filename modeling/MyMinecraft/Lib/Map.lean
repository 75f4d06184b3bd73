import Mathlib

/-! Association maps updated key by key.

`AList` is the map; what is added here is how its lookups move under one
insertion, written as a single rule, and under a loop of insertions. -/
namespace Lib.Map

variable {K V : Type} [DecidableEq K]

theorem lookup_insert (a k : K) (v : V) (m : AList fun _ : K => V) :
    (m.insert k v).lookup a = if a = k then some v else m.lookup a := by
  by_cases h : a = k
  · subst h
    simp
  · rw [AList.lookup_insert_ne h, if_neg h]

theorem lookup_erase (a k : K) (m : AList fun _ : K => V) :
    (m.erase k).lookup a = if a = k then none else m.lookup a := by
  by_cases h : a = k
  · subst h
    simp
  · rw [AList.lookup_erase_ne h, if_neg h]

theorem mem_iff_lookup {a : K} {m : AList fun _ : K => V} : a ∈ m ↔ ∃ v, m.lookup a = some v := by
  rw [← AList.lookup_isSome, Option.isSome_iff_exists]

/-- Copying the listed keys of `src` into `dst`. -/
def copyKeys (src dst : AList fun _ : K => V) (ks : List K) : AList fun _ : K => V :=
  ks.foldl (fun m k => match src.lookup k with
    | some v => m.insert k v
    | none => m) dst

/-- Only what the source holds at the listed keys matters. -/
theorem copyKeys_congr {src src' : AList fun _ : K => V} (dst : AList fun _ : K => V) {ks : List K}
    (h : ∀ k ∈ ks, src.lookup k = src'.lookup k) : copyKeys src dst ks = copyKeys src' dst ks := by
  induction ks generalizing dst with
  | nil => rfl
  | cons k ks ih =>
    have hk : src.lookup k = src'.lookup k := h k (List.mem_cons_self ..)
    simp only [copyKeys, List.foldl_cons, hk]
    exact ih _ fun k' hk' => h k' (List.mem_cons_of_mem _ hk')

/-- A copied key reads as in the source if it was listed and present there. -/
theorem lookup_copyKeys (src dst : AList fun _ : K => V) (ks : List K) (a : K)
    (h : dst.lookup a = none ∨ dst.lookup a = src.lookup a) :
    (copyKeys src dst ks).lookup a = if a ∈ ks then src.lookup a else dst.lookup a := by
  induction ks generalizing dst with
  | nil => simp [copyKeys]
  | cons k ks ih =>
    cases hk : src.lookup k with
    | none =>
      have hstep : copyKeys src dst (k :: ks) = copyKeys src dst ks := by
        simp only [copyKeys, List.foldl_cons, hk]
      rw [hstep, ih dst h]
      by_cases ha : a = k
      · subst ha
        have hd : dst.lookup a = none := by simpa [hk] using h
        simp [hk, hd]
      · simp [ha]
    | some v =>
      have hstep : copyKeys src dst (k :: ks) = copyKeys src (dst.insert k v) ks := by
        simp only [copyKeys, List.foldl_cons, hk]
      rw [hstep]
      by_cases ha : a = k
      · subst ha
        rw [ih (dst.insert a v) (Or.inr (by rw [lookup_insert, if_pos rfl, hk]))]
        simp [hk]
      · rw [ih (dst.insert k v) (by rw [lookup_insert, if_neg ha]; exact h), lookup_insert,
          if_neg ha]
        simp [ha]

/-- A run of updates each of which moves one key: a key sees only its own. -/
theorem lookup_foldl {O : Type} (apply : (AList fun _ : K => V) → O → AList fun _ : K => V)
    (key : O → K) (one : Option V → O → Option V)
    (h : ∀ m o a, (apply m o).lookup a = if a = key o then one (m.lookup a) o else m.lookup a)
    (ops : List O) (m : AList fun _ : K => V) (a : K) :
    (ops.foldl apply m).lookup a = (ops.filter (fun o => key o = a)).foldl one (m.lookup a) := by
  induction ops generalizing m with
  | nil => rfl
  | cons o ops ih =>
    rw [List.foldl_cons, ih, h, List.filter_cons]
    by_cases ho : a = key o
    · rw [if_pos ho, if_pos (by simpa using ho.symm), List.foldl_cons]
    · rw [if_neg ho, if_neg (by simpa using Ne.symm ho)]

end Lib.Map
