import Mathlib.Data.List.Induction
import IpcWiring.Path

/-!
# Resolved paths

A path is resolved when it is written the way `Path.normalize` writes it. The components of a
resolved path are the root if it is absolute, at most one `..`, and then names
(`Component.Resolved`), and its text is the one that `Path.ofComponents` gives them. So two resolved
paths with the same components are the same path (`Path.Resolved.eq_of_components_eq`), normalizing
a resolved path changes nothing (`Path.Resolved.normalize_eq`), and a resolved directory joined with
the name of an entry is resolved again (`Path.Resolved.join`).
-/

namespace IpcWiring

/-! ## Cutting at separators -/

namespace Text

variable {α : Type} [DecidableEq α] {sep : α}

/-- A list without the separator is one piece. -/
theorem cutAt_of_not_mem : ∀ {s : List α}, sep ∉ s → cutAt sep s = [s]
  | [], _ => rfl
  | c :: s, h => by
    have hc : c ≠ sep := fun e => h (e ▸ List.mem_cons_self)
    have hs := cutAt_of_not_mem (s := s) fun hm => h (List.mem_cons_of_mem c hm)
    simp [cutAt, hc, hs]

/-- A piece in front of the first separator is the first one. -/
theorem cutAt_append_cons {rest : List α} : ∀ {s : List α}, sep ∉ s →
    cutAt sep (s ++ sep :: rest) = s :: cutAt sep rest
  | [], _ => by simp [cutAt]
  | c :: s, h => by
    have hc : c ≠ sep := fun e => h (e ▸ List.mem_cons_self)
    have hs : cutAt sep (s ++ sep :: rest) = s :: cutAt sep rest :=
      cutAt_append_cons fun hm => h (List.mem_cons_of_mem c hm)
    simp [cutAt, hc, hs]

/-- No piece has the separator. -/
theorem not_mem_of_mem_cutAt : ∀ {s piece : List α}, piece ∈ cutAt sep s → sep ∉ piece
  | [], piece, h => by
    have : piece = [] := by simpa [cutAt] using h
    simp [this]
  | c :: s, piece, h => by
    by_cases hc : c = sep
    · rw [cutAt, if_pos hc] at h
      rcases List.mem_cons.1 h with rfl | h
      · exact List.not_mem_nil
      · exact not_mem_of_mem_cutAt h
    · rw [cutAt, if_neg hc] at h
      split at h
      · have : piece = [c] := by simpa using h
        simpa [this] using Ne.symm hc
      · next first rest heq =>
        have hin : ∀ q ∈ first :: rest, sep ∉ q := fun q hq =>
          not_mem_of_mem_cutAt (s := s) (heq ▸ hq)
        rcases List.mem_cons.1 h with rfl | h
        · simpa using ⟨Ne.symm hc, hin first List.mem_cons_self⟩
        · exact hin piece (List.mem_cons_of_mem _ h)

/-- Cutting what was put together gives the pieces back. -/
theorem cutAt_intercalate : ∀ {pieces : List (List α)}, pieces ≠ [] → (∀ q ∈ pieces, sep ∉ q) →
    cutAt sep ([sep].intercalate pieces) = pieces
  | [], h, _ => absurd rfl h
  | [q], _, h => by
    rw [List.intercalate_singleton]
    exact cutAt_of_not_mem (h q (by simp))
  | q :: r :: rest, _, h => by
    have hr : cutAt sep ([sep].intercalate (r :: rest)) = r :: rest := cutAt_intercalate (by simp)
      fun x hx => h x (List.mem_cons_of_mem _ hx)
    rw [List.intercalate_cons_cons, List.append_assoc, List.singleton_append,
      cutAt_append_cons (h q (by simp)), hr]

/-- Cutting a text that was put together from pieces without the separator gives the pieces. -/
theorem splitOn_joinWith {pieces : List String} (hne : pieces ≠ [])
    (h : ∀ s ∈ pieces, '/' ∉ s.toList) : splitOn '/' (joinWith "/" pieces) = pieces := by
  have hsep : "/".toList = ['/'] := rfl
  rw [splitOn, joinWith, String.toList_intercalate, hsep, cutAt_intercalate (by simpa using hne)
    (by simpa using h)]
  simp

/-- A separator in front of a text is an empty piece in front of its pieces. -/
theorem splitOn_separator_append (s : String) : splitOn '/' ("/" ++ s) = "" :: splitOn '/' s := by
  have hsep : ("/" ++ s).toList = [] ++ '/' :: s.toList := by simp
  rw [splitOn, hsep, cutAt_append_cons (by simp)]
  rfl

end Text

/-! ## Components of written paths -/

/-- An entry of a directory can have the name. -/
def IsEntryName (s : String) : Prop := s ≠ "" ∧ s ≠ "." ∧ s ≠ ".." ∧ '/' ∉ s.toList

instance (s : String) : Decidable (IsEntryName s) := inferInstanceAs (Decidable (_ ∧ _))

namespace Component

/-- The component can stand anywhere in a path. -/
def IsStep : Component → Prop
  | up => True
  | name s => IsEntryName s
  | root | here => False

/-- The text of a step is not empty. -/
theorem IsStep.text_ne_empty {c : Component} (h : c.IsStep) : c.text ≠ "" := by
  cases c with
  | up => decide
  | name s => exact h.1
  | root | here => exact h.elim

/-- The text of a step has no separator. -/
theorem IsStep.not_mem_text {c : Component} (h : c.IsStep) : '/' ∉ c.text.toList := by
  cases c with
  | up => decide
  | name s => exact h.2.2.2
  | root | here => exact h.elim

/-- The text of a step stands for it. -/
theorem IsStep.ofSegment? {c : Component} (h : c.IsStep) (isFirst rooted : Bool) :
    Component.ofSegment? isFirst rooted c.text = some c := by
  cases c with
  | up => cases isFirst <;> rfl
  | name s =>
    obtain ⟨h1, h2, h3, -⟩ := h
    simp [Component.ofSegment?, text, h1, h2, h3]
  | root | here => exact h.elim

/-- A piece without a separator stands for nothing, for a step, or, if it is the first one, for the
root or a `.`. -/
theorem ofSegment?_eq_some {isFirst rooted : Bool} {s : String} {c : Component}
    (hs : '/' ∉ s.toList) (h : Component.ofSegment? isFirst rooted s = some c) :
    c.IsStep ∨ isFirst = true ∧ (c = root ∨ c = here) := by
  unfold Component.ofSegment? at h
  split at h
  · cases isFirst <;> cases rooted <;> simp_all
  · next h1 =>
    split at h
    · cases isFirst <;> simp_all
    · next h2 =>
      split at h
      · cases h; exact .inl trivial
      · next h3 => cases h; exact .inl ⟨h1, h2, h3, hs⟩

end Component

namespace Path

open Component

/-- The pieces of a text have no separator. -/
theorem not_mem_of_mem_splitOn {text piece : String} (h : piece ∈ Text.splitOn '/' text) :
    '/' ∉ piece.toList := by
  obtain ⟨q, hq, rfl⟩ := List.mem_map.1 h
  simpa using Text.not_mem_of_mem_cutAt hq

/-- The components behind the first piece. -/
theorem filterMap_segments (p : Path) (rest : List String) :
    (rest.map fun s => (s, Component.ofSegment? false p.isAbsolute s)).filterMap (·.2) =
      rest.filterMap (Component.ofSegment? false p.isAbsolute) := by
  rw [List.filterMap_map]
  rfl

/-- The components of a text whose pieces are known. -/
theorem components_of_splitOn {text first : String} {rest : List String}
    (h : Text.splitOn '/' text = first :: rest) :
    (Path.mk text).components =
      (Component.ofSegment? true (Path.mk text).isAbsolute first).toList ++
        rest.filterMap (Component.ofSegment? false (Path.mk text).isAbsolute) := by
  unfold components segments
  rw [h]
  simp only [List.filterMap_cons, filterMap_segments]
  cases Component.ofSegment? true _ first <;> rfl

/-- The components of a path are steps, behind a root or a `.` if there is one. -/
theorem components_eq (p : Path) :
    ∃ steps, (∀ c ∈ steps, c.IsStep) ∧
      (p.components = steps ∨ p.components = .root :: steps ∨ p.components = .here :: steps) := by
  obtain ⟨text⟩ := p
  have hpieces : ∀ s ∈ Text.splitOn '/' text, '/' ∉ s.toList := fun _ => not_mem_of_mem_splitOn
  cases hp : Text.splitOn '/' text with
  | nil => exact ⟨[], nofun, .inl (by simp [components, segments, hp])⟩
  | cons first rest =>
    rw [hp] at hpieces
    have hsteps : ∀ c ∈ rest.filterMap (Component.ofSegment? false (Path.mk text).isAbsolute),
        c.IsStep := by
      intro c hc
      obtain ⟨s, hs, hc⟩ := List.mem_filterMap.1 hc
      simpa using ofSegment?_eq_some (hpieces s (List.mem_cons_of_mem _ hs)) hc
    rw [components_of_splitOn hp]
    cases hfirst : Component.ofSegment? true (Path.mk text).isAbsolute first with
    | none => exact ⟨_, hsteps, .inl rfl⟩
    | some c =>
      rcases ofSegment?_eq_some (hpieces first List.mem_cons_self) hfirst with hc | ⟨-, rfl | rfl⟩
      · refine ⟨c :: _, fun d hd => ?_, .inl rfl⟩
        rcases List.mem_cons.1 hd with rfl | hd
        exacts [hc, hsteps d hd]
      · exact ⟨_, hsteps, .inr (.inl rfl)⟩
      · exact ⟨_, hsteps, .inr (.inr rfl)⟩

/-- The first component of an absolute path is the root. -/
theorem root_mem_components {p : Path} (h : p.isAbsolute = true) :
    Component.root ∈ p.components := by
  obtain ⟨text⟩ := p
  obtain ⟨rest, hrest⟩ : ∃ rest, text.toList = '/' :: rest := by
    rw [isAbsolute, beq_iff_eq] at h
    exact List.head?_eq_some_iff.1 h
  have hsplit : Text.splitOn '/' text = "" :: (Text.cutAt '/' rest).map String.ofList := by
    rw [Text.splitOn, hrest]
    simp [Text.cutAt]
  rw [components_of_splitOn hsplit, h]
  exact List.mem_append_left _ (by decide)

/-- Only the first piece of an absolute path stands for the root. -/
theorem isAbsolute_of_root_mem {p : Path} (h : Component.root ∈ p.components) :
    p.isAbsolute = true := by
  have hpiece : ∀ {isFirst rooted : Bool} {s : String},
      Component.ofSegment? isFirst rooted s = some .root → rooted = true := by
    intro isFirst rooted s hs
    unfold Component.ofSegment? at hs
    split at hs
    · cases rooted <;> simp_all
    · split at hs
      · split at hs <;> cases hs
      · split at hs <;> cases hs
  obtain ⟨⟨s, c?⟩, hsegment, rfl⟩ := List.mem_filterMap.1 h
  unfold segments at hsegment
  split at hsegment
  · cases hsegment
  · rcases List.mem_cons.1 hsegment with heq | hrest
    · exact hpiece (Prod.mk.inj heq).2.symm
    · obtain ⟨t, -, heq⟩ := List.mem_map.1 hrest
      exact hpiece (Prod.mk.inj heq).2

/-- The texts of steps stand for them. -/
theorem filterMap_text_steps {cs : List Component} (h : ∀ c ∈ cs, c.IsStep) (rooted : Bool) :
    (cs.map Component.text).filterMap (Component.ofSegment? false rooted) = cs := by
  induction cs with
  | nil => rfl
  | cons c cs ih =>
    rw [List.map_cons, List.filterMap_cons, (h c List.mem_cons_self).ofSegment?]
    simp only [ih fun d hd => h d (List.mem_cons_of_mem c hd)]

/-- The pieces of a text that was written from steps. -/
theorem splitOn_steps {c : Component} {cs : List Component} (h : ∀ d ∈ c :: cs, d.IsStep) :
    Text.splitOn '/' (Text.joinWith "/" ((c :: cs).map Component.text)) =
      c.text :: cs.map Component.text := by
  refine Text.splitOn_joinWith (by simp) fun s hs => ?_
  obtain ⟨d, hd, rfl⟩ := List.mem_map.1 hs
  exact (h d hd).not_mem_text

/-- Reading what was written from steps gives the steps back. -/
theorem components_ofComponents {cs : List Component} (h : ∀ c ∈ cs, c.IsStep) :
    (ofComponents cs).components = cs := by
  cases cs with
  | nil => rfl
  | cons c cs =>
    have hof : ofComponents (c :: cs) = ⟨Text.joinWith "/" ((c :: cs).map Component.text)⟩ := by
      cases c with
      | root => exact (h _ List.mem_cons_self).elim
      | here | up | name => rfl
    rw [hof, components_of_splitOn (splitOn_steps h), (h c List.mem_cons_self).ofSegment?,
      filterMap_text_steps fun d hd => h d (List.mem_cons_of_mem c hd)]
    rfl

/-- A path that is written from the root on is absolute. -/
theorem isAbsolute_separator_append (s : String) : (Path.mk ("/" ++ s)).isAbsolute = true := by
  simp [isAbsolute]

/-- Reading what was written from the root and steps gives them back. -/
theorem components_ofComponents_root {cs : List Component} (h : ∀ c ∈ cs, c.IsStep) :
    (ofComponents (.root :: cs)).components = .root :: cs := by
  cases cs with
  | nil => rfl
  | cons c cs =>
    have hsplit := Text.splitOn_separator_append (Text.joinWith "/" ((c :: cs).map Component.text))
    rw [splitOn_steps h] at hsplit
    rw [ofComponents, components_of_splitOn hsplit, isAbsolute_separator_append, ← List.map_cons,
      filterMap_text_steps h]
    rfl

end Path

/-! ## Resolved component lists -/

namespace Component

/-- What can stand in front of the names of a resolved path. -/
def fronts : List (List Component) := [[], [.root], [.up], [.root, .up]]

/-- The components of a resolved path: the root if it is absolute, at most one `..`, and names. -/
def Resolved (cs : List Component) : Prop :=
  ∃ front ∈ fronts, ∃ names : List String, (∀ s ∈ names, IsEntryName s) ∧
    cs = front ++ names.map .name

/-- A resolved list with one more name is resolved. -/
theorem Resolved.snoc {cs : List Component} (h : Resolved cs) {s : String} (hs : IsEntryName s) :
    Resolved (cs ++ [.name s]) := by
  obtain ⟨front, hf, names, hn, rfl⟩ := h
  refine ⟨front, hf, names ++ [s], fun t ht => ?_, by simp⟩
  rcases List.mem_append.1 ht with ht | ht
  · exact hn t ht
  · rw [List.mem_singleton.1 ht]; exact hs

/-- A resolved list without its last component is resolved. -/
theorem Resolved.dropLast {cs : List Component} (h : Resolved cs) : Resolved cs.dropLast := by
  obtain ⟨front, hf, names, hn, rfl⟩ := h
  rcases List.eq_nil_or_concat names with rfl | ⟨init, s, rfl⟩
  · refine ⟨front.dropLast, ?_, [], nofun, by simp⟩
    simp only [fronts, List.mem_cons, List.not_mem_nil, or_false] at hf ⊢
    rcases hf with rfl | rfl | rfl | rfl <;> simp
  · refine ⟨front, hf, init, fun t ht => hn t (by simp [ht]), ?_⟩
    simp [← List.append_assoc]

/-- The first components of a resolved list are resolved. -/
theorem Resolved.take {cs : List Component} (h : Resolved cs) (n : Nat) : Resolved (cs.take n) := by
  induction cs using List.reverseRecOn with
  | nil => simpa using h
  | append_singleton init c ih =>
    by_cases hn : n ≤ init.length
    · rw [List.take_append_of_le_length hn]
      exact ih (by simpa using h.dropLast)
    · rw [List.take_of_length_le (by simp; omega)]
      exact h

/-- The components of a resolved list are steps, behind the root if there is one. -/
theorem Resolved.steps {cs : List Component} (h : Resolved cs) :
    ∃ steps, (∀ c ∈ steps, c.IsStep) ∧ (cs = steps ∨ cs = .root :: steps) := by
  obtain ⟨front, hf, names, hn, rfl⟩ := h
  have hnames : ∀ c ∈ names.map Component.name, c.IsStep := fun c hc => by
    obtain ⟨s, hs, rfl⟩ := List.mem_map.1 hc
    exact hn s hs
  have hup : ∀ c ∈ Component.up :: names.map Component.name, c.IsStep := fun c hc => by
    rcases List.mem_cons.1 hc with rfl | hc
    exacts [trivial, hnames c hc]
  simp only [fronts, List.mem_cons, List.not_mem_nil, or_false] at hf
  rcases hf with rfl | rfl | rfl | rfl
  · exact ⟨_, hnames, .inl rfl⟩
  · exact ⟨_, hnames, .inr rfl⟩
  · exact ⟨_, hup, .inl rfl⟩
  · exact ⟨_, hup, .inr rfl⟩

end Component

namespace Path

open Component

/-- Reading what was written from a resolved list gives the list back. -/
theorem components_ofComponents_of_resolved {cs : List Component} (h : Component.Resolved cs) :
    (ofComponents cs).components = cs := by
  obtain ⟨steps, hs, rfl | rfl⟩ := h.steps
  exacts [components_ofComponents hs, components_ofComponents_root hs]

/-! ## Normalizing -/

/-- Normalizing keeps a name behind all else. -/
theorem normalComponents_snoc (cs : List Component) (s : String) :
    normalComponents (cs ++ [.name s]) = normalComponents cs ++ [.name s] := by
  simp [normalComponents, List.foldl_append, normalizeStep]

/-- The root is the first component of a resolved list or none. -/
theorem eq_nil_of_resolved_root {cs : List Component} (h : Component.Resolved (cs ++ [.root])) :
    cs = [] := by
  obtain ⟨steps, hs, he | he⟩ := h.steps
  · exact (hs .root (he ▸ by simp)).elim
  · cases cs with
    | nil => rfl
    | cons c cs =>
      obtain ⟨-, rfl⟩ := List.cons_eq_cons.1 he
      exact (hs .root (by simp)).elim

/-- One step of normalizing keeps the components resolved. -/
theorem resolved_normalizeStep {kept : List Component} {c : Component}
    (h : Component.Resolved kept.reverse) (hc : c.IsStep) :
    Component.Resolved (normalizeStep kept c).reverse := by
  cases c with
  | name s => simpa [normalizeStep] using h.snoc hc
  | root | here => exact hc.elim
  | up =>
    match kept, h with
    | [], _ => exact ⟨[.up], by simp [fronts], [], nofun, rfl⟩
    | .root :: kept, h =>
      rw [List.reverse_cons] at h
      obtain rfl := List.reverse_eq_nil_iff.1 (eq_nil_of_resolved_root h)
      exact ⟨[.root, .up], by simp [fronts], [], nofun, rfl⟩
    | .here :: kept, h | .up :: kept, h | .name s :: kept, h =>
      simpa [normalizeStep] using h.dropLast

/-- Normalizing steps keeps the components resolved. -/
theorem resolved_foldl_normalizeStep {cs : List Component} (hcs : ∀ c ∈ cs, c.IsStep)
    (kept : List Component) (h : Component.Resolved kept.reverse) :
    Component.Resolved (cs.foldl normalizeStep kept).reverse := by
  induction cs generalizing kept with
  | nil => exact h
  | cons c cs ih =>
    exact ih (fun d hd => hcs d (List.mem_cons_of_mem c hd)) _
      (resolved_normalizeStep h (hcs c List.mem_cons_self))

/-- Normalizing gives resolved components. -/
theorem resolved_normalComponents (p : Path) :
    Component.Resolved (normalComponents p.components) := by
  have hnil : Component.Resolved [] := ⟨[], by simp [fronts], [], nofun, rfl⟩
  have hroot : Component.Resolved [.root] := ⟨[.root], by simp [fronts], [], nofun, rfl⟩
  obtain ⟨steps, hs, h | h | h⟩ := components_eq p
  · rw [h]; exact resolved_foldl_normalizeStep hs [] hnil
  · rw [h]; exact resolved_foldl_normalizeStep hs [.root] hroot
  · rw [h]; exact resolved_foldl_normalizeStep hs [] hnil

/-- Normalizing keeps resolved components. -/
theorem normalComponents_of_resolved {cs : List Component} (h : Component.Resolved cs) :
    normalComponents cs = cs := by
  obtain ⟨front, hf, names, -, rfl⟩ := h
  induction names using List.reverseRecOn with
  | nil =>
    simp only [fronts, List.mem_cons, List.not_mem_nil, or_false] at hf
    rcases hf with rfl | rfl | rfl | rfl <;> rfl
  | append_singleton names s ih =>
    rw [List.map_append, List.map_singleton, ← List.append_assoc, normalComponents_snoc, ih]

/-- The path is written the way `normalize` writes it. -/
structure Resolved (p : Path) : Prop where
  components : Component.Resolved p.components
  written : ofComponents p.components = p

/-- What is written from resolved components is resolved. -/
theorem resolved_ofComponents {cs : List Component} (h : Component.Resolved cs) :
    (ofComponents cs).Resolved := by
  have hc := components_ofComponents_of_resolved h
  exact ⟨hc.symm ▸ h, by rw [hc]⟩

/-- The components of a normalized path. -/
theorem components_normalize (p : Path) : p.normalize.components = normalComponents p.components :=
  components_ofComponents_of_resolved (resolved_normalComponents p)

/-- A normalized path is resolved. -/
theorem resolved_normalize (p : Path) : p.normalize.Resolved :=
  resolved_ofComponents (resolved_normalComponents p)

/-- Normalizing changes nothing on a resolved path. -/
theorem Resolved.normalize_eq {p : Path} (h : p.Resolved) : p.normalize = p := by
  rw [normalize, normalComponents_of_resolved h.components, h.written]

/-- Resolved paths with the same components are the same. -/
theorem Resolved.eq_of_components_eq {p q : Path} (hp : p.Resolved) (hq : q.Resolved)
    (h : p.components = q.components) : p = q := by
  rw [← hp.written, h, hq.written]

/-- Resolved paths that count as the same are the same. -/
theorem Resolved.beq_iff_eq {p q : Path} (hp : p.Resolved) (hq : q.Resolved) :
    (p == q) = true ↔ p = q :=
  ⟨fun h => hp.eq_of_components_eq hq (beq_iff.1 h), fun h => h ▸ beq_iff.2 rfl⟩

/-- The path is resolved and absolute. -/
structure Full (p : Path) : Prop where
  resolved : p.Resolved
  absolute : Component.root ∈ p.components

/-! ## Entries of a directory -/

/-- A text does not end in a separator if its last piece does not. -/
theorem endsWith_append {s t : String} (hne : t ≠ "") (ht : '/' ∉ t.toList) :
    Text.endsWith "/" (s ++ t) = false := by
  rcases List.eq_nil_or_concat t.toList with hnil | ⟨init, c, hc⟩
  · exact absurd (by simpa using hnil) hne
  have hlast : c ≠ '/' := fun e => ht (by simp [hc, e])
  have hsep : "/".toList = ['/'] := rfl
  rw [Text.endsWith, String.toList_append, hc, hsep, ← Bool.not_eq_true, List.isSuffixOf_iff_suffix]
  rintro ⟨l, hl⟩
  rw [List.concat_eq_append, ← List.append_assoc] at hl
  exact hlast (List.singleton_inj.1 (List.append_inj' hl rfl).2).symm

/-- A text that ends in the name of an entry does not end in a `.` component. -/
theorem endsWith_here_append {s t : String} (ht : IsEntryName t) :
    Text.endsWith "/." (s ++ t) = false := by
  obtain ⟨hne, hdot, -, hsep⟩ := ht
  rcases List.eq_nil_or_concat t.toList with hnil | ⟨init, c, hc⟩
  · exact absurd (by simpa using hnil) hne
  have hend : "/.".toList = ['/'] ++ ['.'] := rfl
  rw [List.concat_eq_append] at hc
  rw [Text.endsWith, String.toList_append, hc, hend, ← Bool.not_eq_true, List.isSuffixOf_iff_suffix]
  rintro ⟨l, hl⟩
  rw [← List.append_assoc, ← List.append_assoc] at hl
  obtain ⟨hfront, hlast⟩ := List.append_inj' hl rfl
  rcases List.eq_nil_or_concat init with rfl | ⟨before, d, rfl⟩
  · refine hdot (String.toList_injective ?_)
    rw [hc, ← hlast]
    rfl
  · rw [List.concat_eq_append, ← List.append_assoc] at hfront
    refine hsep ?_
    rw [hc, List.concat_eq_append, ← (List.append_inj' hfront rfl).2]
    simp

/-- The last piece stands behind the others and a separator. -/
theorem joinWith_snoc (pieces : List String) (t : String) :
    Text.joinWith "/" (pieces ++ [t]) =
      (if pieces = [] then "" else Text.joinWith "/" pieces ++ "/") ++ t := by
  by_cases h : pieces = []
  · simp [h, Text.joinWith]
  · rw [if_neg h, Text.joinWith, String.intercalate_append_of_ne_nil h (by simp),
      String.intercalate_singleton]
    rfl

/-- A path that is written from components ends in the last name. -/
theorem exists_ofComponents_snoc (cs : List Component) :
    ∃ lead, ∀ s, ofComponents (cs ++ [Component.name s]) = ⟨lead ++ s⟩ := by
  have hjoin : ∀ cs : List Component, ∃ lead, ∀ s,
      Text.joinWith "/" ((cs ++ [Component.name s]).map Component.text) = lead ++ s := fun cs => by
    refine ⟨if cs.map Component.text = [] then "" else
      Text.joinWith "/" (cs.map Component.text) ++ "/", fun s => ?_⟩
    rw [List.map_append, List.map_singleton]
    exact joinWith_snoc _ _
  match cs with
  | .root :: rest =>
    obtain ⟨lead, h⟩ := hjoin rest
    refine ⟨"/" ++ lead, fun s => ?_⟩
    rw [List.cons_append, ofComponents, h, String.append_assoc]
  | [] => exact ⟨"", fun s => by simp [ofComponents, Text.joinWith, Component.text]⟩
  | .here :: rest =>
    obtain ⟨lead, h⟩ := hjoin (.here :: rest)
    exact ⟨lead, fun s => congrArg Path.mk (h s)⟩
  | .up :: rest =>
    obtain ⟨lead, h⟩ := hjoin (.up :: rest)
    exact ⟨lead, fun s => congrArg Path.mk (h s)⟩
  | .name u :: rest =>
    obtain ⟨lead, h⟩ := hjoin (.name u :: rest)
    exact ⟨lead, fun s => congrArg Path.mk (h s)⟩

/-- The name of an entry is no absolute path. -/
theorem isAbsolute_entryName {s : String} (hs : IsEntryName s) :
    (Path.mk s).isAbsolute = false := by
  rw [isAbsolute, ← Bool.not_eq_true, beq_iff_eq]
  exact fun h => hs.2.2.2 (List.mem_of_mem_head? h)

/-- Joining a written directory with a name writes the name behind it. -/
theorem join_ofSteps (lead : String) {steps : List Component} (h : ∀ c ∈ steps, c.IsStep)
    (hne : steps ≠ []) {s : String} (hs : IsEntryName s) :
    (Path.mk (lead ++ Text.joinWith "/" (steps.map Component.text))).join ⟨s⟩ =
      ⟨lead ++ Text.joinWith "/" ((steps ++ [Component.name s]).map Component.text)⟩ := by
  obtain ⟨init, c, rfl⟩ := (List.eq_nil_or_concat steps).resolve_left hne
  rw [List.concat_eq_append] at h ⊢
  have hc := h c (by simp)
  have hmap : (init ++ [c]).map Component.text = init.map Component.text ++ [c.text] := by simp
  have hend : Text.endsWith "/" (lead ++ Text.joinWith "/" ((init ++ [c]).map Component.text)) =
      false := by
    rw [hmap, joinWith_snoc, ← String.append_assoc]
    exact endsWith_append hc.text_ne_empty hc.not_mem_text
  have hnonempty : lead ++ Text.joinWith "/" ((init ++ [c]).map Component.text) ≠ "" := by
    rw [hmap, joinWith_snoc]
    simp [hc.text_ne_empty]
  have hsnoc : (init ++ [c] ++ [Component.name s]).map Component.text =
      (init ++ [c]).map Component.text ++ [s] := by simp [Component.text]
  have hpieces : (init ++ [c]).map Component.text ≠ [] := by simp
  rw [hsnoc, joinWith_snoc, if_neg hpieces, join, isAbsolute_entryName hs]
  simp only [Bool.false_eq_true, if_false, decide_eq_false hnonempty, hend, Bool.or_self,
    String.append_assoc]

/-- A resolved directory joined with the name of an entry. -/
theorem Resolved.join_eq {dir : Path} (h : dir.Resolved) {s : String} (hs : IsEntryName s) :
    dir.join ⟨s⟩ = ofComponents (dir.components ++ [.name s]) := by
  obtain ⟨steps, hsteps, hc | hc⟩ := h.components.steps
  · rw [hc]
    conv_lhs => rw [← h.written, hc]
    match steps, hsteps with
    | [], _ => simp [join, isAbsolute_entryName hs, ofComponents, Text.joinWith, Component.text]
    | c :: cs, hsteps =>
      have hof : ∀ ds : List Component, ofComponents (c :: ds) =
          ⟨"" ++ Text.joinWith "/" ((c :: ds).map Component.text)⟩ := fun ds => by
        cases c with
        | root => exact (hsteps _ List.mem_cons_self).elim
        | here | up | name => simp [ofComponents]
      rw [List.cons_append, hof, hof]
      exact join_ofSteps "" hsteps nofun hs
  · rw [hc]
    conv_lhs => rw [← h.written, hc]
    by_cases hne : steps = []
    · subst hne
      have hend : Text.endsWith "/" "/" = true := rfl
      simp [join, isAbsolute_entryName hs, ofComponents, Text.joinWith, Component.text, hend]
    · exact join_ofSteps "/" hsteps hne hs

/-- The components of a resolved directory joined with the name of an entry. -/
theorem Resolved.components_join {dir : Path} (h : dir.Resolved) {s : String}
    (hs : IsEntryName s) : (dir.join ⟨s⟩).components = dir.components ++ [.name s] := by
  rw [h.join_eq hs, components_ofComponents_of_resolved (h.components.snoc hs)]

/-- A resolved directory joined with the name of an entry is resolved. -/
theorem Resolved.join {dir : Path} (h : dir.Resolved) {s : String} (hs : IsEntryName s) :
    (dir.join ⟨s⟩).Resolved := by
  rw [h.join_eq hs]
  exact resolved_ofComponents (h.components.snoc hs)

/-! ## Parents -/

/-- The piece that a component is written as; nothing stands in front of the first separator. -/
def piece : Component → String × Option Component
  | .root => ("", some .root)
  | c => (c.text, some c)

/-- A piece stands for its component. -/
theorem snd_piece (c : Component) : (piece c).2 = some c := by cases c <;> rfl

/-- The piece of a step is its text. -/
theorem piece_of_isStep {c : Component} (h : c.IsStep) : piece c = (c.text, some c) := by
  cases c with
  | root => exact h.elim
  | here | up | name => rfl

/-- The pieces of a path that was written from steps. -/
theorem segments_ofComponents {c : Component} {cs : List Component}
    (h : ∀ d ∈ c :: cs, d.IsStep) : (ofComponents (c :: cs)).segments = (c :: cs).map piece := by
  have hof : ofComponents (c :: cs) = ⟨Text.joinWith "/" ((c :: cs).map Component.text)⟩ := by
    cases c with
    | root => exact (h _ List.mem_cons_self).elim
    | here | up | name => rfl
  rw [hof, segments, splitOn_steps h]
  simp only [List.map_cons, piece_of_isStep (h c List.mem_cons_self),
    (h c List.mem_cons_self).ofSegment?, List.map_map, List.cons.injEq, true_and]
  refine List.map_congr_left fun d hd => ?_
  have hd := h d (List.mem_cons_of_mem c hd)
  rw [Function.comp_apply, hd.ofSegment?, piece_of_isStep hd]

/-- The pieces of a path that was written from the root and steps. -/
theorem segments_ofComponents_root {c : Component} {cs : List Component}
    (h : ∀ d ∈ c :: cs, d.IsStep) :
    (ofComponents (.root :: c :: cs)).segments = (Component.root :: c :: cs).map piece := by
  have hmap : ((c :: cs).map Component.text).map
      (fun s => (s, Component.ofSegment? false true s)) = (c :: cs).map piece := by
    rw [List.map_map]
    refine List.map_congr_left fun d hd => ?_
    rw [Function.comp_apply, (h d hd).ofSegment?, piece_of_isStep (h d hd)]
  rw [ofComponents, segments, Text.splitOn_separator_append, splitOn_steps h,
    isAbsolute_separator_append]
  exact congrArg (("", some Component.root) :: ·) hmap

/-- The pieces of a path that was written from resolved components and is longer than the root. -/
theorem segments_of_resolved {cs : List Component} (h : Component.Resolved cs) (hne : cs ≠ [])
    (hroot : cs ≠ [.root]) : (ofComponents cs).segments = cs.map piece := by
  obtain ⟨steps, hsteps, rfl | rfl⟩ := h.steps
  · obtain ⟨c, cs, rfl⟩ := List.exists_cons_of_ne_nil hne
    exact segments_ofComponents hsteps
  · obtain ⟨c, cs, rfl⟩ := List.exists_cons_of_ne_nil (l := steps) fun h => hroot (by rw [h])
    exact segments_ofComponents_root hsteps

/-- Pieces that all stand for a component are not trimmed. -/
theorem trimSegments_map_piece (cs : List Component) :
    trimSegments (cs.map piece) = cs.map piece := by
  have hdrop : (cs.map piece).reverse.dropWhile (·.2.isNone) = (cs.map piece).reverse := by
    rw [← List.map_reverse]
    cases cs.reverse with
    | nil => rfl
    | cons c cs => simp [snd_piece]
  rw [trimSegments, hdrop, List.reverse_reverse]

/-- Writing the pieces of resolved components gives their path. -/
theorem ofSegments_map_piece {cs : List Component} (h : Component.Resolved cs) :
    ofSegments (cs.map piece) = ofComponents cs := by
  have hfst : ∀ {cs : List Component}, (∀ c ∈ cs, c.IsStep) →
      (cs.map piece).map (·.1) = cs.map Component.text := fun h => by
    rw [List.map_map]
    exact List.map_congr_left fun c hc => by rw [Function.comp_apply, piece_of_isStep (h c hc)]
  obtain ⟨steps, hsteps, rfl | rfl⟩ := h.steps
  · match cs, hsteps with
    | [], _ => rfl
    | .up :: cs, hsteps => exact congrArg (Path.mk ∘ Text.joinWith "/") (hfst hsteps)
    | .name s :: cs, hsteps => exact congrArg (Path.mk ∘ Text.joinWith "/") (hfst hsteps)
    | .root :: cs, hsteps | .here :: cs, hsteps => exact (hsteps _ List.mem_cons_self).elim
  · match steps, hsteps with
    | [], _ => rfl
    | c :: cs, hsteps =>
      have hjoin := congrArg (Path.mk ∘ Text.joinWith "/" ∘ List.cons "") (hfst hsteps)
      refine Eq.trans hjoin (congrArg Path.mk ?_)
      simp only [Text.joinWith, Function.comp_apply, List.map_cons, String.intercalate_cons_cons,
        String.empty_append]

/-- The parent of a resolved path has all components but the last. -/
theorem Resolved.parent?_eq {p : Path} (h : p.Resolved) {cs : List Component} {s : String}
    (hp : p.components = cs ++ [Component.name s]) : p.parent? = some (ofComponents cs) := by
  have hcs : Component.Resolved cs := by simpa [hp] using h.components.dropLast
  have hseg : p.segments = cs.map piece ++ [(s, some (Component.name s))] := by
    have hfull := segments_of_resolved (hp ▸ h.components) (by simp)
      (fun he => by cases cs <;> simp at he)
    rw [← hp, h.written, hp, List.map_append] at hfull
    exact hfull
  rw [parent?, hseg, List.reverse_append, List.reverse_singleton, List.singleton_append,
    List.dropWhile_cons, if_neg (by simp)]
  simp only [List.reverse_reverse, trimSegments_map_piece, ofSegments_map_piece hcs]

end Path

end IpcWiring
