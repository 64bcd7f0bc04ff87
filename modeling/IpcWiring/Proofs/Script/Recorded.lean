import IpcWiring.Proofs.Script.Readings

/-!
# Recorded types

What is recorded of a type is written on one line (`Written.onOneLine_tidy`), and a type that fits
is recorded as one that does (`Written.fits_tidy`). The record of a record is itself, and what is
printed of properties tells what they do.
-/

namespace IpcWiring.Script

open Reader Grammar

/-! ## Tidy types fit -/

/-- Tidy gaps end no line. -/
theorem Gaps.breaks_tidy (gaps : Gaps) : gaps.tidy.breaks = false := by
  cases gaps <;> rfl

/-- A tidy head fits. -/
theorem Head.fits_tidy (h : Head) : h.tidy.Fits := by
  intro behind hbehind
  obtain ⟨_, -, rfl⟩ := Option.map_eq_some_iff.1 hbehind
  exact ⟨List.cons_ne_nil _ _, rfl⟩

/-- No separator is printed behind the last property only. -/
theorem Fields.startsLine_tidy {rest : Fields} (h : rest.stop? = none) : rest.tidy.StartsLine := by
  cases rest with
  | nil => trivial
  | typed | bare => cases h

/-- A tidy type is a part of a union if the type is. -/
theorem Written.isPart_tidy {w : Written} (h : w.IsPart) : w.tidy.IsPart := by
  cases w with
  | union => exact h.elim
  | _ => trivial

/-- Tidy types are parts of a union if the types are. -/
theorem More.all_isPart_tidy : ∀ {more : More}, more.All Written.IsPart →
    more.tidy.All Written.IsPart
  | .nil, _ => trivial
  | .cons .., ⟨hnext, hmore⟩ => ⟨Written.isPart_tidy hnext, More.all_isPart_tidy hmore⟩

/-- The word `any` is a type. -/
theorem fits_any : (Written.word Word.any).Fits := by
  change Word.any.text ∉ otherWords
  decide

mutual

/-- What is recorded of a type that fits does so. -/
theorem Written.fits_tidy : ∀ w : Written, w.Fits → w.tidy.Fits
  | .word name, h => h
  | .quoted q, h => h
  | .applied name before inside first more last, ⟨hname, hplain, _, hfirst, hmore⟩ =>
    ⟨hname, hplain, before.breaks_tidy, first.fits_tidy hfirst, more.fits_tidy hmore⟩
  | .array item suffixes, ⟨hitem, _, hne, hfits⟩ => by
    refine ⟨?_, ?_, ?_, item.fits_tidy hfits⟩
    · cases item with
      | array | union => exact hitem.elim
      | _ => trivial
    · intro b hb
      obtain ⟨b', -, rfl⟩ := List.mem_map.1 hb
      exact b'.before.breaks_tidy
    · intro hnil
      exact hne (List.map_eq_nil_iff.1 hnil)
  | .union first more, ⟨hfirst, hmore, hfitsFirst, hfitsMore⟩ =>
    ⟨Written.isPart_tidy hfirst, More.all_isPart_tidy hmore, first.fits_tidy hfitsFirst,
      more.fits_tidy hfitsMore⟩
  | .literal fields last, h => fields.fits_tidy h

/-- What is recorded of types that fit does so. -/
theorem More.fits_tidy : ∀ more : More, more.Fits → more.tidy.Fits
  | .nil, _ => trivial
  | .cons _ _ next more, ⟨hnext, hmore⟩ => ⟨next.fits_tidy hnext, more.fits_tidy hmore⟩

/-- What is printed of properties that fit does so. -/
theorem Fields.fits_tidy : ∀ fields : Fields, fields.Fits → fields.tidy.Fits
  | .nil, _ => trivial
  | .typed _ head _ _ _ type _ rest, ⟨_, _, htype, hrest⟩ =>
    ⟨head.fits_tidy, Fields.startsLine_tidy, type.fits_tidy htype, rest.fits_tidy hrest⟩
  | .bare _ head _ rest, ⟨_, _, hrest⟩ =>
    ⟨head.fits_tidy, Fields.startsLine_tidy, fits_any, rest.fits_tidy hrest⟩

end

/-- What is recorded of a type is recorded of what is recorded. -/
theorem Written.text_tidy (w : Written) : w.tidy.text = w.text := by
  rw [text, tidy_tidy, text]

/-- What is printed of properties tells what they do. -/
theorem Fields.view_tidy (fields : Fields) : fields.tidy.view = fields.view := by
  cases fields with
  | nil => rfl
  | typed _ head _ _ _ type _ rest =>
    simp [tidy, view, Head.tidy, type.text_tidy, rest.view_tidy]
  | bare _ head _ rest =>
    have hany : (Written.word Word.any).text = "any" := rfl
    simp [tidy, view, Head.tidy, hany, rest.view_tidy]

/-! ## Texts on one line -/

/-- The text has no line break. -/
def OnOneLine (cs : List Char) : Prop := ∀ c ∈ cs, c ≠ '\n' ∧ c ≠ '\r'

section

variable {a b : List Char}

/-- No text is on one line. -/
@[simp]
theorem onOneLine_nil : OnOneLine [] := List.forall_mem_nil _

/-- One more character is on the line if it ends none. -/
@[simp]
theorem onOneLine_cons {c : Char} :
    OnOneLine (c :: a) ↔ (c ≠ '\n' ∧ c ≠ '\r') ∧ OnOneLine a := List.forall_mem_cons

/-- Two texts are on one line if each one is. -/
@[simp]
theorem onOneLine_append : OnOneLine (a ++ b) ↔ OnOneLine a ∧ OnOneLine b := List.forall_mem_append

end

/-- A word is on one line. -/
@[simp]
theorem Word.onOneLine (w : Word) : OnOneLine w.chars := by
  intro c hc
  have hcontinues := w.continuesName_of_mem c hc
  refine ⟨?_, ?_⟩ <;>
    rintro rfl <;> revert hcontinues <;> decide

/-- A quoted text is on one line. -/
theorem Quoted.onOneLine (q : Quoted) : OnOneLine q.chars := by
  have hmark : q.mark ≠ '\n' ∧ q.mark ≠ '\r' := by
    rcases q.mark_cases with h | h <;> rw [h] <;> decide
  have hbody : OnOneLine q.body := fun c hc => (q.closed c hc).2.2
  simp [Quoted.chars, hmark, hbody]

/-- Tidy gaps are on one line. -/
@[simp]
theorem Gaps.onOneLine_tidy (gaps : Gaps) : OnOneLine gaps.tidy.chars := by
  cases gaps with
  | nil => exact onOneLine_nil
  | cons => exact onOneLine_cons.2 ⟨by decide, onOneLine_nil⟩

/-- Tidy brackets are on one line. -/
theorem onOneLine_suffixes (suffixes : List Suffix) :
    OnOneLine (suffixChars (suffixes.map Suffix.tidy)) := by
  induction suffixes with
  | nil => exact onOneLine_nil
  | cons s suffixes ih =>
    rw [List.map_cons, suffixChars, List.flatMap_cons, ← suffixChars]
    simp [Suffix.chars, Suffix.tidy, ih]

/-- A tidy head is on one line. -/
theorem Head.onOneLine_tidy (h : Head) : OnOneLine h.tidy.chars := by
  obtain ⟨readonly?, name, quotes?, optional?⟩ := h
  cases readonly? <;> cases optional? <;>
    simp [tidy, chars, readonlyChars, keyChars, optionalChars, Gaps.chars_space, Gaps.chars_nil]

/-- A separator that is printed is on one line. -/
theorem Fields.onOneLine_stop (rest : Fields) : OnOneLine (stopChars rest.stop?) := by
  rw [stop?]
  cases rest.isNil with
  | true => exact onOneLine_nil
  | false => exact onOneLine_cons.2 ⟨by decide, onOneLine_nil⟩

mutual

/-- What is recorded of a type is on one line. -/
theorem Written.onOneLine_tidy : ∀ w : Written, OnOneLine w.tidy.chars
  | .word name => name.onOneLine
  | .quoted q => q.onOneLine
  | .applied name before inside first more last => by
    simp [Written.tidy, Written.chars, first.onOneLine_tidy,
      more.onOneLine_tidy (c := ',') (by decide)]
  | .array item suffixes =>
    onOneLine_append.2 ⟨item.onOneLine_tidy, onOneLine_suffixes suffixes⟩
  | .union first more =>
    onOneLine_append.2 ⟨first.onOneLine_tidy, more.onOneLine_tidy (by decide)⟩
  | .literal fields last => by
    have hlast : OnOneLine (Gaps.chars (if fields.isNil then [] else .space)) := by
      split <;> simp [Gaps.chars_space, Gaps.chars_nil]
    simp [Written.tidy, Written.chars, fields.onOneLine_tidy, hlast]

/-- What is recorded of further types is on one line. -/
theorem More.onOneLine_tidy {c : Char} (hc : c ≠ '\n' ∧ c ≠ '\r') :
    ∀ more : More, OnOneLine (more.tidy.chars c)
  | .nil => onOneLine_nil
  | .cons before behind next more => by
    simp [More.tidy, More.chars, hc, next.onOneLine_tidy, more.onOneLine_tidy hc]

/-- What is printed of properties is on one line. -/
theorem Fields.onOneLine_tidy : ∀ fields : Fields, OnOneLine fields.tidy.chars
  | .nil => onOneLine_nil
  | .typed lead head colon behind bar? type stop? rest => by
    simp [Fields.tidy, Fields.chars, barChars, Gaps.chars_nil, Gaps.chars_space,
      head.onOneLine_tidy, type.onOneLine_tidy, rest.onOneLine_stop, rest.onOneLine_tidy]
  | .bare lead head stop? rest => by
    simp [Fields.tidy, Fields.chars, Written.chars, barChars, Gaps.chars_nil, Gaps.chars_space,
      head.onOneLine_tidy, rest.onOneLine_stop, rest.onOneLine_tidy]

end

end IpcWiring.Script
