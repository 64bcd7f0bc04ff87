import IpcWiring.Proofs.TypeText.Alternatives
import IpcWiring.Proofs.TypeText.RoundTrip

/-!
# Types of fields that may be left out

The type of such a field is `withUndefined` of a type text, which knows no grammar. What is read
from it is the type itself, or the type with `undefined` written behind it; `Phrase.parse_relaxed`
tells for every type whether that is the union that is meant.
-/

namespace IpcWiring.TypeText

namespace Phrase

/-! ## Widened types -/

/-- The last part of the type takes what is written behind the type. -/
def IsOpen : Phrase → Prop
  | function .. | conditional .. => True
  | _ => False

/-- The type that is written with one more alternative behind it. -/
def extended : Phrase → Phrase
  | function parameters result => function parameters (extended result)
  | conditional check bound positive negative =>
    conditional check bound positive (extended negative)
  | t => union t undefined

/-- The type is another one with `undefined` for one more alternative, unless that has it. Which
parentheses are around its parts is left open. -/
def Relaxes (u t : Phrase) : Prop :=
  (undefined ∈ t.alternatives ∧ u = t) ∨
    (undefined ∉ t.alternatives ∧ u.bare = (union t undefined).bare)

section

variable {t : Phrase}

/-- A type that is neither of the open ones is not open. -/
theorem not_isOpen (hfunction : ∀ parameters result, t = function parameters result → False)
    (hconditional : ∀ check bound positive negative,
      t = conditional check bound positive negative → False) : ¬ t.IsOpen := fun h => by
  cases t with
  | function parameters result => exact hfunction parameters result rfl
  | conditional check bound positive negative =>
    exact hconditional check bound positive negative rfl
  | _ => exact h

/-- A type that is not open is extended by an alternative of its own. -/
theorem extended_of_not_isOpen (h : ¬ t.IsOpen) : t.extended = union t undefined := by
  cases t with
  | function | conditional => exact (h trivial).elim
  | _ => rfl

/-- A type that is not open could also stand in a union. -/
theorem fits_union (h : Fits .type t) (hopen : ¬ t.IsOpen) : Fits .union t := by
  cases t with
  | function | conditional => exact (hopen trivial).elim
  | optional | spread | parameter | property | method | bounded => cases h.1
  | generic => cases h
  | quoted => exact h
  | use | applied | paren | array | tuple | union | intersection | operator | object =>
    exact ⟨rfl, h.2⟩

/-- How an extended type is written. -/
theorem text_extended (t : Phrase) : t.extended.text = t.text ++ " | undefined" := by
  have hchars : t.extended.chars = t.chars ++ [' ', '|', ' '] ++ undefinedWord.chars := by
    induction t using extended.induct with
    | case1 parameters result ih =>
      simp_all [extended, chars, atoms, spell]
    | case2 check bound positive negative ih => simp_all [extended, chars, atoms, spell]
    | case3 t hfunction hconditional =>
      have hopen := not_isOpen hfunction hconditional
      rw [extended_of_not_isOpen hopen, chars_union, undefined, chars_use]
      simp
  rw [text, text, hchars, List.append_assoc, String.ofList_append]
  rfl

/-- An extended type may stand where any type may. -/
theorem fits_extended (h : Fits .type t) : Fits .type t.extended := by
  induction t using extended.induct with
  | case1 parameters result ih => exact ⟨h.1, h.2.1, ih h.2.2⟩
  | case2 check bound positive negative ih =>
    exact ⟨h.1, h.2.1, h.2.2.1, h.2.2.2.1, ih h.2.2.2.2⟩
  | case3 t hfunction hconditional =>
    have hopen := not_isOpen hfunction hconditional
    rw [extended_of_not_isOpen hopen]
    exact ⟨rfl, fits_union h hopen, rfl, by decide⟩

/-- The text of a type that is not open admits `undefined` if one of its alternatives is that, or
exposes it. -/
theorem admitsUndefined_text (h : Fits .type t) (hopen : ¬ t.IsOpen) :
    admitsUndefined t.text = true ↔ ∃ a ∈ t.alternatives, a = undefined ∨ a.Exposes := by
  have hfits := fits_union h hopen
  have hexposed := exposed_alternatives (s := []) (e := []) hfits nofun nofun
  rw [List.nil_append, List.append_nil] at hexposed
  rw [text, admitsUndefined_iff, hexposed]
  exact exists_congr fun a => and_congr_right fun ha =>
    or_congr_right (exposed_iff (fits_of_mem_alternatives hfits a ha))

/-- No phrase is an alternative of itself. -/
theorem bare_ne_union (t : Phrase) : t.bare ≠ (union t undefined).bare := fun h => by
  have hsize := congrArg sizeOf h
  rw [bare, union.sizeOf_spec] at hsize
  omega

/-- A type relaxes itself if `undefined` is one of its alternatives. -/
theorem relaxes_self : t.Relaxes t ↔ undefined ∈ t.alternatives := by
  rw [Relaxes, and_iff_left rfl, or_iff_left fun h => bare_ne_union t h.2]

/-- The only alternative of an open type is the type. -/
theorem undefined_not_mem (h : t.IsOpen) : undefined ∉ t.alternatives := by
  have hunion : ¬ t.IsUnion := by
    rintro ⟨left, right, rfl⟩
    exact h
  rw [alternatives_of_not_isUnion hunion, List.mem_singleton]
  rintro rfl
  exact h

/-- An open type is not relaxed by extending it. -/
theorem not_relaxes_extended (h : t.IsOpen) : ¬ t.extended.Relaxes t := by
  rintro (⟨hmem, -⟩ | ⟨-, hbare⟩)
  · exact undefined_not_mem h hmem
  · cases t with
    | function | conditional =>
      rw [extended, bare, bare] at hbare
      cases hbare
    | _ => exact h

/-- The type of a field that may be left out is read as the type it is made of, or as that with
`undefined` written behind it. This relaxes the type just if `undefined` is one of its alternatives,
or if nothing that stands between two bars inside of it is `undefined` and what is written behind it
goes to no part of it. -/
theorem parse_relaxed (h : Fits .type t) (name : String) (imports : List TypeImport) :
    ∃ u, parse (RequestField.relaxed name t.text imports).typeText = some u ∧
      (u = t ∨ u = t.extended) ∧
      (u.Relaxes t ↔ undefined ∈ t.alternatives ∨
        (¬ t.IsOpen ∧ ∀ a ∈ t.alternatives, ¬ a.Exposes)) := by
  rw [RequestField.relaxed, withUndefined]
  by_cases hadmits : admitsUndefined t.text = true
  · rw [if_pos hadmits]
    refine ⟨t, parse_text h, .inl rfl, relaxes_self.trans (or_iff_left_of_imp ?_).symm⟩
    rintro ⟨hopen, hnone⟩
    obtain ⟨a, ha, rfl | hexposes⟩ := (admitsUndefined_text h hopen).1 hadmits
    · exact ha
    · exact (hnone a ha hexposes).elim
  · rw [if_neg hadmits, ← text_extended]
    refine ⟨t.extended, parse_text (fits_extended h), .inr rfl, ?_⟩
    by_cases hopen : t.IsOpen
    · refine iff_of_false (not_relaxes_extended hopen) ?_
      rintro (hmem | ⟨hnot, -⟩)
      · exact undefined_not_mem hopen hmem
      · exact hnot hopen
    · have hnone := mt (admitsUndefined_text h hopen).2 hadmits
      have hmem : undefined ∉ t.alternatives := fun hmem => hnone ⟨_, hmem, .inl rfl⟩
      have hexposes : ∀ a ∈ t.alternatives, ¬ a.Exposes := fun a ha he => hnone ⟨a, ha, .inr he⟩
      refine iff_of_true (.inr ⟨hmem, ?_⟩) (.inr ⟨hopen, hexposes⟩)
      rw [extended_of_not_isOpen hopen]

end

/-! ## Open and nested types -/

/-- The function type `() => number`. -/
def callback : Phrase := function [] (use ⟨'n', ['u', 'm', 'b', 'e', 'r'], rfl, rfl⟩)

/-- The object type `{ cursor: string | undefined | null }`. -/
def cursor : Phrase :=
  object [property false (.word ⟨'c', ['u', 'r', 's', 'o', 'r'], rfl, rfl⟩) false
    (union (union (use ⟨'s', ['t', 'r', 'i', 'n', 'g'], rfl, rfl⟩) undefined)
      (use ⟨'n', ['u', 'l', 'l'], rfl, rfl⟩))]

/-- Neither of them is relaxed. -/
theorem parse_relaxed_callback_cursor :
    (callback.text = "() => number" ∧
      ∃ u, parse (RequestField.relaxed "listener" callback.text []).typeText = some u ∧
        ¬ u.Relaxes callback) ∧
    (cursor.text = "\x7b cursor: string | undefined | null \x7d" ∧
      ∃ u, parse (RequestField.relaxed "page" cursor.text []).typeText = some u ∧
        ¬ u.Relaxes cursor) := by
  refine ⟨⟨by decide +kernel, ?_⟩, ⟨by decide +kernel, ?_⟩⟩
  · have hfits : Fits .type callback := ⟨rfl, trivial, rfl, by decide⟩
    obtain ⟨u, hu, -, hrelaxes⟩ := parse_relaxed hfits "listener" []
    have hopen : callback.IsOpen := trivial
    refine ⟨u, hu, fun h => ?_⟩
    rcases hrelaxes.1 h with hmem | ⟨hnot, -⟩
    · exact undefined_not_mem hopen hmem
    · exact hnot hopen
  · have hfits : Fits .type cursor :=
      ⟨rfl, ⟨rfl, rfl, ⟨rfl, ⟨rfl, by decide⟩, rfl, by decide⟩, rfl, by decide⟩, trivial⟩
    obtain ⟨u, hu, -, hrelaxes⟩ := parse_relaxed hfits "page" []
    have hexposes : cursor.Exposes :=
      .part List.mem_cons_self (.part List.mem_cons_self (.middle _ _))
    refine ⟨u, hu, fun h => ?_⟩
    rcases hrelaxes.1 h with hmem | ⟨-, hnone⟩
    · cases List.mem_singleton.1 hmem
    · exact hnone cursor List.mem_cons_self hexposes

end Phrase

end IpcWiring.TypeText
