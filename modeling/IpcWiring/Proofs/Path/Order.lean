import Mathlib.Data.List.Induction
import IpcWiring.Path

/-!
# The order of paths

Components compare by kind, names among themselves by code point, and paths compare like words over
them. The comparison is a linear order on component lists: it is transitive and total
(`Path.le_trans`, `Path.le_total`), and two paths compare as equal just when their components are
the same (`Path.cmp_eq_iff`). A path is within a directory just when the directory's components
start its own (`Path.isWithin_iff`).
-/

namespace IpcWiring

namespace Component

/-! ## Components -/

/-- A component compared with another by kind and then by text. -/
theorem cmp_eq_then (a b : Component) :
    a.cmp b = (compare a.rank b.rank).then (compare a.text b.text) := by
  cases a <;> cases b <;> simp [cmp, rank, text] <;> rfl

/-- Kind and text say what the component is. -/
theorem eq_of_rank_of_text {a b : Component} (hr : a.rank = b.rank) (ht : a.text = b.text) :
    a = b := by
  cases a <;> cases b <;> simp_all [rank, text]

instance : Std.OrientedCmp cmp where
  eq_swap {a b} := by
    rw [cmp_eq_then, cmp_eq_then, Ordering.swap_then, ← Std.OrientedOrd.eq_swap,
      ← Std.OrientedOrd.eq_swap]

instance : Std.TransCmp cmp where
  isLE_trans {a b c} hab hbc := by
    rw [cmp_eq_then] at hab hbc ⊢
    have htrans : Std.TransCmp (compareLex (compareOn rank) (compareOn text)) := inferInstance
    exact htrans.isLE_trans hab hbc

instance : Std.LawfulEqCmp cmp where
  compare_self {a} := by rw [cmp_eq_then]; simp
  eq_of_compare {a b} h := by
    rw [cmp_eq_then, Ordering.then_eq_eq] at h
    exact eq_of_rank_of_text (Std.LawfulEqOrd.eq_of_compare h.1) (Std.LawfulEqOrd.eq_of_compare h.2)

/-- Component lists compare like words. -/
theorem cmpList_eq_compareLex : ∀ as bs : List Component, cmpList as bs = as.compareLex cmp bs
  | [], [] => rfl
  | [], _ :: _ => rfl
  | _ :: _, [] => rfl
  | a :: as, b :: bs => by
    rw [cmpList, List.compareLex_cons_cons, cmpList_eq_compareLex as bs]

end Component

namespace Path

/-! ## Paths -/

/-- Paths compare as the words of their components. -/
theorem cmp_eq_compareLex (p q : Path) :
    p.cmp q = p.components.compareLex Component.cmp q.components :=
  Component.cmpList_eq_compareLex _ _

instance : Std.TransCmp Path.cmp where
  eq_swap {p q} := by rw [cmp_eq_compareLex, cmp_eq_compareLex]; exact Std.OrientedCmp.eq_swap
  isLE_trans {p q r} hpq hqr := by
    rw [cmp_eq_compareLex] at hpq hqr ⊢
    exact Std.TransCmp.isLE_trans hpq hqr

/-- Paths compare as equal when their components are the same. -/
theorem cmp_eq_iff {p q : Path} : p.cmp q = .eq ↔ p.components = q.components := by
  rw [cmp_eq_compareLex]
  exact Std.LawfulEqCmp.compare_eq_iff_eq

/-- A path does not come after another if the comparison says so. -/
theorem le_iff {p q : Path} : p.le q = true ↔ (p.cmp q).isLE = true := by
  rw [le]
  cases p.cmp q <;> simp

/-- The order of paths is transitive. -/
theorem le_trans (p q r : Path) (hpq : p.le q = true) (hqr : q.le r = true) : p.le r = true :=
  le_iff.2 (Std.TransCmp.isLE_trans (le_iff.1 hpq) (le_iff.1 hqr))

/-- Of two paths one does not come after the other. -/
theorem le_total (p q : Path) : (p.le q || q.le p) = true := by
  have hswap : q.cmp p = (p.cmp q).swap := Std.OrientedCmp.eq_swap
  rw [le, le, hswap]
  cases p.cmp q <;> rfl

/-- A path that does not come after another one with other components comes before it. -/
theorem cmp_eq_lt {p q : Path} (hle : p.le q = true) (hne : p.components ≠ q.components) :
    p.cmp q = .lt := by
  have h := le_iff.1 hle
  cases hc : p.cmp q with
  | lt => rfl
  | eq => exact absurd (cmp_eq_iff.1 hc) hne
  | gt => rw [hc] at h; cases h

/-- A path that comes before another one does not have its components. -/
theorem components_ne {p q : Path} (h : p.cmp q = .lt) : p.components ≠ q.components := by
  intro he
  rw [cmp_eq_iff.2 he] at h
  cases h

/-- Paths in strict order are determined by which paths they are. -/
theorem eq_of_pairwise_lt {ps qs : List Path} (hp : ps.Pairwise fun p q => p.cmp q = .lt)
    (hq : qs.Pairwise fun p q => p.cmp q = .lt) (hmem : ∀ p, p ∈ ps ↔ p ∈ qs) : ps = qs := by
  have hnodup : ∀ {rs : List Path}, rs.Pairwise (fun p q => p.cmp q = .lt) → rs.Nodup := fun hrs =>
    hrs.imp fun hlt he => components_ne hlt (congrArg components he)
  refine List.Perm.eq_of_pairwise (fun p q _ _ hpq hqp => ?_) hp hq
    ((List.perm_ext_iff_of_nodup (hnodup hp) (hnodup hq)).2 hmem)
  have hswap : p.cmp q = (q.cmp p).swap := Std.OrientedCmp.eq_swap
  rw [hswap, hqp] at hpq
  cases hpq

/-! ## Directories -/

/-- A path is within a directory when the directory's components start its own. -/
theorem isWithin_iff {dir p : Path} : dir.isWithin p = true ↔ dir.components <+: p.components :=
  List.isPrefixOf_iff_prefix

/-- Every path is within itself. -/
theorem isWithin_refl (p : Path) : p.isWithin p = true := isWithin_iff.2 (List.prefix_refl _)

/-- Being within a directory only depends on components. -/
theorem isWithin_congr {d e p q : Path} (hd : d.components = e.components)
    (hp : p.components = q.components) : d.isWithin p = e.isWithin q := by
  rw [isWithin, isWithin, hd, hp]

end Path

end IpcWiring
