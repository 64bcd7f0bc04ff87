import IpcWiring.Proofs.Path.Resolved

/-!
# Texts behind directories

A directory joined with any relative text has the components of the directory and then those that
the pieces of the text stand for (`Path.Full.components_join_text`). More text behind a full path is
more text behind its last component (`Path.Full.append_text_eq`), and components that are taken back
by as many `..` leave no trace (`Path.normalComponents_returned`).
-/

namespace IpcWiring

namespace Text

variable {α : Type} [DecidableEq α] {sep : α}

/-- There is always a piece. -/
theorem cutAt_ne_nil (sep : α) (s : List α) : cutAt sep s ≠ [] := by
  cases s with
  | nil => exact List.cons_ne_nil _ _
  | cons c s =>
    rw [cutAt]
    split
    · exact List.cons_ne_nil _ _
    · split <;> exact List.cons_ne_nil _ _

/-- A separator divides the pieces in front of it from those behind it. -/
theorem cutAt_append_separator (s t : List α) :
    cutAt sep (s ++ sep :: t) = cutAt sep s ++ cutAt sep t := by
  induction s with
  | nil => simp [cutAt]
  | cons c s ih =>
    rw [List.cons_append, cutAt, ih, cutAt]
    split
    · rfl
    · obtain ⟨piece, pieces, hs⟩ := List.exists_cons_of_ne_nil (cutAt_ne_nil sep s)
      rw [hs]
      rfl

/-- A separator divides the pieces in front of it from those behind it. -/
theorem splitOn_append_separator (s t : String) :
    splitOn '/' (s ++ "/" ++ t) = splitOn '/' s ++ splitOn '/' t := by
  have hchars : (s ++ "/" ++ t).toList = s.toList ++ '/' :: t.toList := by simp
  rw [splitOn, hchars, cutAt_append_separator, List.map_append]
  rfl

end Text

namespace Path

open Component

/-- The components that the pieces of a text stand for behind other components. -/
def laterComponents (text : String) : List Component :=
  (Text.splitOn '/' text).filterMap (Component.ofSegment? false false)

/-- Behind the first piece it does not matter whether the path is absolute. -/
theorem ofSegment?_later (rooted : Bool) :
    Component.ofSegment? false rooted = Component.ofSegment? false false := by
  funext s
  simp only [Component.ofSegment?, Bool.false_and]

/-- Behind a separator the pieces stand for components of their own. -/
theorem components_append_separator {s : String} (hs : s ≠ "") (t : String) :
    (Path.mk (s ++ "/" ++ t)).components = (Path.mk s).components ++ laterComponents t := by
  have habsolute : (Path.mk (s ++ "/" ++ t)).isAbsolute = (Path.mk s).isAbsolute := by
    obtain ⟨c, cs, hc⟩ := List.exists_cons_of_ne_nil (l := s.toList) (by simpa using hs)
    simp [isAbsolute, hc]
  cases hp : Text.splitOn '/' s with
  | nil => exact absurd (List.map_eq_nil_iff.1 hp) (Text.cutAt_ne_nil _ _)
  | cons first rest =>
    have hall := Text.splitOn_append_separator s t
    rw [hp, List.cons_append] at hall
    rw [components_of_splitOn hall, components_of_splitOn hp, habsolute, List.filterMap_append,
      List.append_assoc, laterComponents]
    simp only [ofSegment?_later]

/-- Behind the root the pieces of a text stand for components of their own. -/
theorem components_root_append (t : String) :
    (Path.mk ("/" ++ t)).components = .root :: laterComponents t := by
  rw [components_of_splitOn (Text.splitOn_separator_append t), isAbsolute_separator_append,
    laterComponents, ofSegment?_later]
  rfl

/-- What is written from resolved components with the root is full. -/
theorem full_ofComponents {cs : List Component} (h : Component.Resolved cs)
    (hroot : Component.root ∈ cs) : (ofComponents cs).Full :=
  ⟨resolved_ofComponents h, (components_ofComponents_of_resolved h).symm ▸ hroot⟩

/-- The full paths are the absolute ones that normalizing leaves as they are. -/
theorem full_iff {p : Path} : p.Full ↔ p.isAbsolute = true ∧ p.normalize = p :=
  ⟨fun h => ⟨isAbsolute_of_root_mem h.absolute, h.resolved.normalize_eq⟩,
    fun ⟨habsolute, hnormal⟩ => ⟨hnormal ▸ resolved_normalize p, root_mem_components habsolute⟩⟩

/-- A full path is written from the root and steps. -/
theorem Full.exists_steps {p : Path} (h : p.Full) :
    ∃ steps, (∀ c ∈ steps, c.IsStep) ∧ p.components = .root :: steps := by
  obtain ⟨steps, hsteps, hc | hc⟩ := h.resolved.components.steps
  · exact (hsteps .root (hc ▸ h.absolute)).elim
  · exact ⟨steps, hsteps, hc⟩

/-- Text behind a full path stands behind the text of its last component, and behind the root it is
a component of its own. -/
theorem Full.append_text_eq {p : Path} (h : p.Full) :
    (p = ⟨"/"⟩ ∧ p.components = [.root]) ∨
      ∃ init c, (∀ d ∈ init ++ [c], d.IsStep) ∧ p.components = .root :: init ++ [c] ∧
        ∃ lead, p.text = lead ++ c.text ∧
          ∀ s, (⟨lead ++ s⟩ : Path) = ofComponents (.root :: init ++ [.name s]) := by
  obtain ⟨steps, hsteps, hc⟩ := h.exists_steps
  have hwritten := h.resolved.written
  rcases List.eq_nil_or_concat steps with rfl | ⟨init, c, rfl⟩
  · refine .inl ⟨?_, hc⟩
    rw [← hwritten, hc]
    rfl
  · rw [List.concat_eq_append] at hsteps hc
    obtain ⟨lead, hlead⟩ := exists_ofComponents_snoc (.root :: init)
    have htext : ofComponents (.root :: (init ++ [c])) = ⟨lead ++ c.text⟩ := by
      rw [← hlead, List.cons_append]
      simp only [ofComponents, List.map_append, List.map_singleton, Component.text]
    rw [hc, htext] at hwritten
    exact .inr ⟨init, c, hsteps, hc, lead, (congrArg Path.text hwritten).symm,
      fun s => (hlead s).symm⟩

/-- The components of a full directory joined with a relative text. -/
theorem Full.components_join_text {dir : Path} (h : dir.Full) {text : String}
    (htext : (Path.mk text).isAbsolute = false) :
    (dir.join ⟨text⟩).components = dir.components ++ laterComponents text := by
  rcases h.append_text_eq with ⟨rfl, hc⟩ | ⟨init, c, hsteps, -, lead, hlead, -⟩
  · have hjoin : (Path.mk "/").join ⟨text⟩ = ⟨"/" ++ text⟩ := by
      rw [join, htext]
      rfl
    rw [hjoin, components_root_append, hc]
    rfl
  · have hlast := hsteps c (by simp)
    have hend : Text.endsWith "/" dir.text = false := by
      rw [hlead]
      exact endsWith_append hlast.text_ne_empty hlast.not_mem_text
    have hne : dir.text ≠ "" := by
      rw [hlead]
      simp [hlast.text_ne_empty]
    have hjoin : dir.join ⟨text⟩ = ⟨dir.text ++ "/" ++ text⟩ := by
      rw [join, htext, hend, decide_eq_false hne]
      rfl
    rw [hjoin]
    exact components_append_separator hne text

/-! ## Going up again -/

/-- Every `..` takes back one component that is not the root. -/
theorem foldl_normalizeStep_up {taken : List Component} (h : Component.root ∉ taken)
    (kept : List Component) :
    (List.replicate taken.length Component.up).foldl normalizeStep (taken ++ kept) = kept := by
  induction taken with
  | nil => rfl
  | cons c taken ih =>
    have hstep : normalizeStep (c :: taken ++ kept) .up = taken ++ kept := by
      cases c with
      | root => exact absurd List.mem_cons_self h
      | here | up | name => rfl
    rw [List.length_cons, List.replicate_succ, List.foldl_cons, hstep]
    exact ih fun hm => h (List.mem_cons_of_mem c hm)

/-- Components that are taken back by as many `..` leave no trace. -/
theorem normalComponents_returned {base taken : List Component}
    (h : Component.Resolved (base ++ taken)) (hroot : Component.root ∉ taken)
    (more : List Component) :
    normalComponents (base ++ taken ++ (List.replicate taken.length .up ++ more)) =
      normalComponents (base ++ more) := by
  have hkept : ∀ {cs : List Component}, Component.Resolved cs →
      cs.foldl normalizeStep [] = cs.reverse := fun hcs => by
    rw [← List.reverse_eq_iff]
    exact normalComponents_of_resolved hcs
  have hbase : Component.Resolved base := by simpa using h.take base.length
  have hlast : Component.root ∉ taken.reverse := by simpa using hroot
  have hreturned : (List.replicate taken.length Component.up).foldl normalizeStep
      (taken.reverse ++ base.reverse) = base.reverse := by
    simpa using foldl_normalizeStep_up hlast base.reverse
  rw [normalComponents, List.foldl_append, hkept h, List.foldl_append, List.reverse_append,
    hreturned, normalComponents, List.foldl_append, hkept hbase]

end Path

end IpcWiring
