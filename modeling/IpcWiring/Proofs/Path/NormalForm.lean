import IpcWiring.Proofs.Path.Join
import IpcWiring.Proofs.Path.Location

/-!
# The normal form of paths

A normalized path is the root if the path is absolute, then at most one `..`, then names, with one
separator between neighbours (`Path.IsNormal`). Normalizing follows the components on one path that
grows and shrinks at its end (`Path.pushOrPop`): a component is pushed, and a `..` pops the last
one, or is pushed itself where nothing can be popped. Nothing can be popped from the empty path and
from the root, so that a `..` stands at most once, in front of all names. That is the invariant
(`Path.foldl_pushOrPop`): after each component the path is written from the components kept so far,
and these are resolved.
-/

namespace IpcWiring

/-! ## Resolved components by the last one -/

namespace Component

/-- Resolved components have no names, or a name behind resolved ones. -/
theorem Resolved.cases_last {cs : List Component} (h : Resolved cs) :
    cs ∈ fronts ∨ ∃ init s, cs = init ++ [.name s] ∧ Resolved init := by
  obtain ⟨front, hfront, names, hnames, rfl⟩ := h
  rcases List.eq_nil_or_concat names with rfl | ⟨init, s, rfl⟩
  · exact .inl (by simpa using hfront)
  · refine .inr ⟨front ++ init.map .name, s, by simp, front, hfront, init, fun t ht => ?_, rfl⟩
    exact hnames t (by simp [ht])

end Component

namespace Path

open Component

/-! ## Pushing and popping -/

/-- The path behind which one more component has been followed. -/
def pushOrPop (out : Path) : Component → Path
  | .here => out
  | .up =>
    match out.parent? with
    | some parent => parent
    | none => out.join ⟨Component.up.text⟩
  | c => out.join ⟨c.text⟩

variable {kept cs : List Component} {c : Component}

/-- The last component is popped if it is not the root. -/
theorem parent?_ofComponents_snoc (h : Component.Resolved (cs ++ [c])) (hc : c ≠ .root) :
    (ofComponents (cs ++ [c])).parent? = some (ofComponents cs) := by
  have hcomponents := components_ofComponents_of_resolved h
  rcases h.cases_last with hfront | ⟨init, s, heq, -⟩
  · match cs with
    | [] =>
      obtain rfl : c = .up := by simpa [fronts, hc] using hfront
      rfl
    | [d] =>
      obtain ⟨rfl, rfl⟩ : d = .root ∧ c = .up := by simpa [fronts] using hfront
      rfl
    | _ :: _ :: _ => simp [fronts] at hfront
  · obtain ⟨rfl, hname⟩ := List.append_inj' heq rfl
    obtain rfl := List.singleton_inj.1 hname
    exact (resolved_ofComponents h).parent?_eq hcomponents

/-- Following a component keeps the path written from the components that are kept. -/
theorem pushOrPop_ofComponents (h : Component.Resolved kept.reverse) (hc : c.IsStep) :
    pushOrPop (ofComponents kept.reverse) c = ofComponents (normalizeStep kept c).reverse := by
  cases c with
  | root | here => exact hc.elim
  | name s =>
    have hjoin := (resolved_ofComponents h).join_eq hc
    rw [components_ofComponents_of_resolved h] at hjoin
    exact hjoin.trans (congrArg ofComponents List.reverse_cons.symm)
  | up =>
    match kept, h with
    | [], _ => rfl
    | .root :: kept, h =>
      rw [List.reverse_cons] at h
      obtain rfl := List.reverse_eq_nil_iff.1 (eq_nil_of_resolved_root h)
      rfl
    | .here :: kept, h | .up :: kept, h | .name s :: kept, h =>
      rw [List.reverse_cons] at h
      rw [pushOrPop, List.reverse_cons, parent?_ofComponents_snoc h nofun]
      rfl

/-- Following components keeps the path written from the components that are kept. -/
theorem foldl_pushOrPop (kept : List Component) (hcs : ∀ c ∈ cs, c.IsStep)
    (h : Component.Resolved kept.reverse) :
    cs.foldl pushOrPop (ofComponents kept.reverse) =
      ofComponents (cs.foldl normalizeStep kept).reverse := by
  induction cs generalizing kept with
  | nil => rfl
  | cons c cs ih =>
    obtain ⟨hc, hcs⟩ := List.forall_mem_cons.1 hcs
    rw [List.foldl_cons, pushOrPop_ofComponents h hc, ih _ hcs (resolved_normalizeStep h hc)]
    rfl

/-- Normalizing is following the components from the empty path on. -/
theorem foldl_pushOrPop_components (p : Path) :
    p.components.foldl pushOrPop ⟨""⟩ = p.normalize := by
  have hnil : Component.Resolved [] := ⟨[], by simp [fronts], [], nofun, rfl⟩
  have hroot : Component.Resolved [.root] := ⟨[.root], by simp [fronts], [], nofun, rfl⟩
  rw [normalize, normalComponents]
  obtain ⟨steps, hsteps, h | h | h⟩ := components_eq p
  · rw [h]
    exact foldl_pushOrPop [] hsteps hnil
  · rw [h, List.foldl_cons, List.foldl_cons]
    exact foldl_pushOrPop [.root] hsteps hroot
  · rw [h, List.foldl_cons, List.foldl_cons]
    exact foldl_pushOrPop [] hsteps hnil

/-! ## The normal form -/

/-- The path is the root if it is absolute, then at most one `..`, then names, and is written with
one separator between neighbours. -/
def IsNormal (p : Path) : Prop :=
  ∃ ups ≤ 1, ∃ names : List String, (∀ s ∈ names, IsEntryName s) ∧
    p.components = p.front ++ List.replicate ups .up ++ names.map .name ∧
    p.text = (if p.isAbsolute then "/" else "") ++
      Text.joinWith "/" (List.replicate ups ".." ++ names)

/-- A course has no root in it. -/
theorem Course.root_notMem_components (c : Course) : Component.root ∉ c.components := by
  simp [Course.components]

/-- Components without the root are written with a separator between neighbours. -/
theorem ofComponents_of_root_notMem (h : Component.root ∉ cs) :
    ofComponents cs = ⟨Text.joinWith "/" (cs.map Component.text)⟩ := by
  match cs, h with
  | .root :: _, h => exact (h List.mem_cons_self).elim
  | [], _ | .here :: _, _ | .up :: _, _ | .name _ :: _, _ => rfl

/-- Normalizing leaves a path absolute or relative. -/
theorem isAbsolute_normalize (p : Path) : p.normalize.isAbsolute = p.isAbsolute := by
  have hroot : ∀ q : Path, q.isAbsolute = true ↔ Component.root ∈ q.components := fun q =>
    ⟨root_mem_components, isAbsolute_of_root_mem⟩
  rw [Bool.eq_iff_iff, hroot, components_normalize_eq_course, List.mem_append,
    or_iff_left p.course.paired.root_notMem_components, front]
  cases p.isAbsolute <;> simp

/-- The names that are left in a normalized path can be names of entries. -/
theorem isEntryName_of_mem_course {p : Path} {s : String} (hs : s ∈ p.course.names) :
    IsEntryName s := by
  have hmem : Component.name s ∈ p.normalize.components := by
    rw [components_normalize_eq_course, Course.components]
    exact List.mem_append_right _ (List.mem_append_right _
      (List.mem_map_of_mem (List.mem_reverse.2 hs)))
  obtain ⟨steps, hsteps, h | h⟩ := (resolved_normalize p).components.steps
  · exact hsteps _ (h ▸ hmem)
  · rw [h, List.mem_cons] at hmem
    exact hsteps _ (hmem.resolve_left fun hroot => by cases hroot)

/-- Normalized paths are in normal form. -/
theorem isNormal_normalize (p : Path) : p.normalize.IsNormal := by
  have hcomponents := components_normalize_eq_course p
  refine ⟨p.course.climbs % 2, by omega, p.course.names.reverse, fun s hs => ?_, ?_, ?_⟩
  · exact isEntryName_of_mem_course (List.mem_reverse.1 hs)
  · rw [hcomponents, front, front, isAbsolute_normalize, List.append_assoc]
    rfl
  · have hwritten := congrArg Path.text (resolved_normalize p).written
    have htexts : p.course.paired.components.map Component.text =
        List.replicate (p.course.climbs % 2) ".." ++ p.course.names.reverse := by
      rw [Course.components, List.map_append, List.map_replicate, List.map_map]
      exact congrArg _ (List.map_id _)
    rw [← hwritten, hcomponents, isAbsolute_normalize, front, ← htexts]
    cases p.isAbsolute with
    | true => rfl
    | false =>
      rw [if_neg Bool.false_ne_true, if_neg Bool.false_ne_true, String.empty_append,
        List.nil_append, ofComponents_of_root_notMem p.course.paired.root_notMem_components]

/-! ## Separators -/

/-- The pieces of a path are the pieces of its text. -/
theorem map_fst_segments (p : Path) : p.segments.map (·.1) = Text.splitOn '/' p.text := by
  rw [segments]
  split
  · next h => rw [h]; rfl
  · next h => rw [h, List.map_cons, List.map_map]; exact congrArg _ (List.map_id _)

/-- The pieces of a resolved path stand for its components one by one, unless that is the root or
has no components. -/
theorem Resolved.splitOn_eq {p : Path} (h : p.Resolved) (hnil : p.components ≠ [])
    (hroot : p.components ≠ [.root]) :
    Text.splitOn '/' p.text = p.components.map fun c => (piece c).1 := by
  have hsegments := segments_of_resolved h.components hnil hroot
  rw [h.written] at hsegments
  rw [← map_fst_segments, hsegments, List.map_map]
  rfl

/-- No piece of a resolved path is a `.`. -/
theorem Resolved.here_notMem_pieces {p : Path} (h : p.Resolved) :
    "." ∉ Text.splitOn '/' p.text := by
  have htext := congrArg Path.text h.written
  by_cases hnil : p.components = []
  · rw [← htext, hnil]
    decide
  by_cases hroot : p.components = [.root]
  · rw [← htext, hroot]
    decide
  obtain ⟨steps, hsteps, hp⟩ := h.components.steps
  rw [h.splitOn_eq hnil hroot, List.mem_map]
  rintro ⟨c, hc, hdot⟩
  have hstep : c = .root ∨ c.IsStep := by
    rcases hp with hp | hp <;> rw [hp] at hc
    · exact .inr (hsteps c hc)
    · exact (List.mem_cons.1 hc).imp_right (hsteps c)
  cases c with
  | root => revert hdot; decide
  | here => exact hstep.resolve_left nofun
  | up => revert hdot; decide
  | name s => exact (hstep.resolve_left nofun).2.1 hdot

/-- Only the first piece of a resolved path can be empty, the path being no root. -/
theorem Resolved.empty_notMem_tail {p : Path} (h : p.Resolved) (hroot : p.components ≠ [.root]) :
    "" ∉ (Text.splitOn '/' p.text).tail := by
  by_cases hnil : p.components = []
  · rw [← congrArg Path.text h.written, hnil]
    decide
  obtain ⟨steps, hsteps, hp⟩ := h.components.steps
  have htail : ∀ c ∈ p.components.tail, c.IsStep := by
    rcases hp with hp | hp <;> rw [hp]
    · exact fun c hc => hsteps c (List.mem_of_mem_tail hc)
    · exact hsteps
  rw [h.splitOn_eq hnil hroot, ← List.map_tail, List.mem_map]
  rintro ⟨c, hc, hempty⟩
  rw [piece_of_isStep (htail c hc)] at hempty
  exact (htail c hc).text_ne_empty hempty

/-- The pieces behind a separator are not the first one. -/
theorem mem_tail_splitOn {a t piece : String} (h : piece ∈ Text.splitOn '/' t) :
    piece ∈ (Text.splitOn '/' (a ++ "/" ++ t)).tail := by
  have hne : Text.splitOn '/' a ≠ [] := mt List.map_eq_nil_iff.1 (Text.cutAt_ne_nil _ _)
  rw [Text.splitOn_append_separator, List.tail_append_of_ne_nil hne]
  exact List.mem_append_right _ h

/-- In a resolved path no separator stands behind another one, and only the root ends in one. -/
theorem Resolved.separators {p : Path} (h : p.Resolved) :
    (∀ a b, p.text ≠ a ++ "//" ++ b) ∧ ∀ a, p.text = a ++ "/" → p.text = "/" := by
  by_cases hroot : p.components = [.root]
  · have htext : "/" = p.text := by
      rw [← h.written, hroot]
      rfl
    refine ⟨fun a b hab => ?_, fun _ _ => htext.symm⟩
    have hlength := congrArg String.length (htext.trans hab)
    rw [String.length_append, String.length_append] at hlength
    have hone : "/".length = 1 := rfl
    have htwo : "//".length = 2 := rfl
    omega
  · have hempty := h.empty_notMem_tail hroot
    refine ⟨fun a b hab => ?_, fun a ha => ?_⟩
    · have htwo : a ++ "//" ++ b = a ++ "/" ++ ("/" ++ b) := String.toList_injective (by simp)
      have hmem : "" ∈ Text.splitOn '/' ("/" ++ b) := by
        rw [Text.splitOn_separator_append]
        exact List.mem_cons_self
      rw [hab, htwo] at hempty
      exact (hempty (mem_tail_splitOn hmem)).elim
    · have hmem : "" ∈ Text.splitOn '/' "" := List.mem_singleton_self _
      have hend : a ++ "/" = a ++ "/" ++ "" := String.append_empty.symm
      rw [ha, hend] at hempty
      exact (hempty (mem_tail_splitOn hmem)).elim

/-- **The normal form of paths.** Normalizing a path is following its components on one path that
grows and shrinks at its end. The result is the root if the path is absolute, then at most one `..`,
then names of entries. It has no `.` among its pieces, no separator behind another one, and none at
its end, the root apart, and normalizing it again changes nothing. -/
theorem normalize_isNormal (p : Path) :
    p.components.foldl pushOrPop ⟨""⟩ = p.normalize ∧
      p.normalize.isAbsolute = p.isAbsolute ∧ p.normalize.IsNormal ∧
      "." ∉ Text.splitOn '/' p.normalize.text ∧
      (∀ a b, p.normalize.text ≠ a ++ "//" ++ b) ∧
      (∀ a, p.normalize.text = a ++ "/" → p.normalize.text = "/") ∧
      p.normalize.normalize = p.normalize := by
  have hresolved := resolved_normalize p
  obtain ⟨hrepeated, htrailing⟩ := hresolved.separators
  exact ⟨foldl_pushOrPop_components p, isAbsolute_normalize p, isNormal_normalize p,
    hresolved.here_notMem_pieces, hrepeated, htrailing, hresolved.normalize_eq⟩

/-- A path that climbs above the root keeps one `..` behind it and has no `.` and no separator to
spare, and the root is written as the root. -/
theorem normalize_isNormal_climbing :
    (Path.mk "/a//./b/../../../c/").normalize = ⟨"/../c"⟩ ∧
      (Path.mk "/../c").normalize = ⟨"/../c"⟩ ∧ (Path.mk "/a/..").normalize = ⟨"/"⟩ ∧
      ∀ a, (Path.mk "/a/..").normalize.text = a ++ "/" →
        (Path.mk "/a/..").normalize.text = "/" := by
  have hclimbing : (Path.mk "/a//./b/../../../c/").normalize = ⟨"/../c"⟩ := by rfl
  have hroot : (Path.mk "/a/..").normalize = ⟨"/"⟩ := by rfl
  obtain ⟨-, -, -, -, -, -, hagain⟩ := normalize_isNormal ⟨"/a//./b/../../../c/"⟩
  obtain ⟨-, -, -, -, -, htrailing, -⟩ := normalize_isNormal ⟨"/a/.."⟩
  rw [hclimbing] at hagain
  exact ⟨hclimbing, hagain, hroot, htrailing⟩

end Path

end IpcWiring
