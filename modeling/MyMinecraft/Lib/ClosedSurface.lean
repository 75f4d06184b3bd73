import Mathlib

/-! Closed surfaces made of the faces of cells.

Cells are the points of an abelian group, each with one face in every direction. A
face is a list of directed edges, given for the cell at 0 and shifted to the
others. If the faces of one cell close up (`cube`) and two faces that meet cancel
(`glue`), then the faces between the cells of any finite set and the cells outside
it close up too: `boundary_balanced`. Closing up means that every directed edge
occurs as often as its reverse. -/
namespace Lib.ClosedSurface

variable {G : Type} [DecidableEq G]

/-- Every directed edge occurs as often as its reverse. -/
def Balanced (es : List (G × G)) : Prop := ∀ u v, es.count (u, v) = es.count (v, u)

/-- How much more often an edge occurs than its reverse. -/
def net (es : List (G × G)) (u v : G) : Int := (es.count (u, v) : Int) - es.count (v, u)

theorem balanced_iff_net {es : List (G × G)} : Balanced es ↔ ∀ u v, net es u v = 0 := by
  unfold Balanced net
  refine forall_congr' fun u => forall_congr' fun v => ?_
  omega

/-- A list that is its own reversal up to order is balanced; for a table of edges this
is a computation. -/
theorem balanced_of_perm {es : List (G × G)} (h : es.Perm (es.map Prod.swap)) : Balanced es := by
  intro u v
  calc es.count (u, v) = (es.map Prod.swap).count (u, v) := h.count_eq _
    _ = es.count (v, u) := List.count_map_of_injective es _ Prod.swap_injective (v, u)

theorem net_append (a b : List (G × G)) (u v : G) : net (a ++ b) u v = net a u v + net b u v := by
  simp only [net, List.count_append]
  omega

theorem net_flatMap {α : Type} (xs : List α) (f : α → List (G × G)) (u v : G) :
    net (xs.flatMap f) u v = (xs.map fun x => net (f x) u v).sum := by
  induction xs with
  | nil => rfl
  | cons x xs ih => rw [List.flatMap_cons, net_append, ih, List.map_cons, List.sum_cons]

variable [AddCommGroup G]

def shift (g : G) (es : List (G × G)) : List (G × G) := es.map fun e => (e.1 + g, e.2 + g)

theorem net_shift (g : G) (es : List (G × G)) (u v : G) :
    net (shift g es) u v = net es (u - g) (v - g) := by
  have hinj : Function.Injective fun e : G × G => (e.1 + g, e.2 + g) := by
    rintro ⟨a, b⟩ ⟨c, d⟩ h
    simpa using h
  have hcount (a b : G) : (shift g es).count (a, b) = es.count (a - g, b - g) := by
    have h := List.count_map_of_injective es _ hinj (a - g, b - g)
    simpa [shift] using h
  rw [net, net, hcount, hcount]

/-- The faces of a cell, by direction, with the two facts their tables must have. -/
structure FaceSystem (G D : Type) [AddCommGroup G] [DecidableEq G] [Fintype D] where
  dir : D → G
  opp : D → D
  edges : D → List (G × G)
  dir_ne : ∀ d, dir d ≠ 0
  dir_opp : ∀ d, dir (opp d) = -dir d
  opp_opp : ∀ d, opp (opp d) = d
  /-- The faces of one cell close up. -/
  cube : ∀ u v, ∑ d, net (edges d) u v = 0
  /-- A face and the opposite face of the next cell cancel. -/
  glue : ∀ d, Balanced (edges d ++ shift (dir d) (edges (opp d)))

namespace FaceSystem
variable {D : Type} [Fintype D] (F : FaceSystem G D)

/-- What the face of cell `c` in direction `d` contributes to the edge from `u` to `v`. -/
def flow (u v : G) (d : D) (c : G) : Int := net (F.edges d) (u - c) (v - c)

theorem flow_opp (u v : G) (d : D) (c : G) :
    F.flow u v d c + F.flow u v (F.opp d) (c + F.dir d) = 0 := by
  have h := balanced_iff_net.mp (F.glue d) (u - c) (v - c)
  rw [net_append, net_shift, sub_sub, sub_sub] at h
  exact h

/-- Between two cells of the set the faces cancel in pairs. -/
theorem inner_sum (S : Finset G) (u v : G) :
    ∑ e ∈ (S ×ˢ Finset.univ).filter (fun e : G × D => e.1 + F.dir e.2 ∈ S),
      F.flow u v e.2 e.1 = 0 := by
  refine Finset.sum_involution (fun e _ => (e.1 + F.dir e.2, F.opp e.2)) ?_ ?_ ?_ ?_
  · exact fun e _ => F.flow_opp u v e.2 e.1
  · intro e _ _ h
    exact F.dir_ne e.2 (by simpa using congrArg Prod.fst h)
  · intro e he
    simp only [Finset.mem_filter, Finset.mem_product, Finset.mem_univ, and_true] at he ⊢
    refine ⟨he.2, ?_⟩
    rw [F.dir_opp, add_neg_cancel_right]
    exact he.1
  · intro e _
    simp only [F.dir_opp, F.opp_opp, add_neg_cancel_right]

/-- The faces between cells of the set and cells outside it. -/
theorem outer_sum (S : Finset G) (u v : G) :
    ∑ c ∈ S, ∑ d, (if c + F.dir d ∈ S then 0 else F.flow u v d c) = 0 := by
  have hall : ∑ c ∈ S, ∑ d, F.flow u v d c = 0 := Finset.sum_eq_zero fun c _ => F.cube _ _
  have hin : ∑ c ∈ S, ∑ d, (if c + F.dir d ∈ S then F.flow u v d c else 0) = 0 := by
    rw [← Finset.sum_product', ← Finset.sum_filter]
    exact F.inner_sum S u v
  calc ∑ c ∈ S, ∑ d, (if c + F.dir d ∈ S then 0 else F.flow u v d c)
      = ∑ c ∈ S, ∑ d, (F.flow u v d c - if c + F.dir d ∈ S then F.flow u v d c else 0) := by
        refine Finset.sum_congr rfl fun c _ => Finset.sum_congr rfl fun d _ => ?_
        split <;> simp
    _ = 0 := by simp only [Finset.sum_sub_distrib, hall, hin, sub_self]

/-- The edges of the faces that separate the listed cells from the others. -/
def boundary (dirs : List D) (S : List G) : List (G × G) :=
  S.flatMap fun c => dirs.flatMap fun d =>
    if c + F.dir d ∈ S then [] else shift c (F.edges d)

/-- **The boundary of any finite set of cells closes up.** -/
theorem boundary_balanced {dirs : List D} {S : List G} (hdirs : dirs.Nodup)
    (hall : ∀ d, d ∈ dirs) (hS : S.Nodup) : Balanced (F.boundary dirs S) := by
  classical
  refine balanced_iff_net.mpr fun u v => ?_
  have hface (c : G) (d : D) : net (if c + F.dir d ∈ S then [] else shift c (F.edges d)) u v =
      if c + F.dir d ∈ S.toFinset then 0 else F.flow u v d c := by
    simp only [List.mem_toFinset]
    split
    · rfl
    · exact net_shift c (F.edges d) u v
  have huniv : dirs.toFinset = Finset.univ :=
    Finset.eq_univ_iff_forall.mpr fun d => List.mem_toFinset.mpr (hall d)
  calc net (F.boundary dirs S) u v
      = (S.map fun c => (dirs.map fun d =>
          if c + F.dir d ∈ S.toFinset then 0 else F.flow u v d c).sum).sum := by
        simp only [boundary, net_flatMap, hface]
    _ = ∑ c ∈ S.toFinset, ∑ d, (if c + F.dir d ∈ S.toFinset then 0 else F.flow u v d c) := by
        rw [← List.sum_toFinset _ hS]
        refine Finset.sum_congr rfl fun c _ => ?_
        rw [← List.sum_toFinset _ hdirs, huniv]
    _ = 0 := F.outer_sum S.toFinset u v

end FaceSystem
end Lib.ClosedSurface
