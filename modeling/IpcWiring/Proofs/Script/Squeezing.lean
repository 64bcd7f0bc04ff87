import Mathlib.Data.List.Chain
import IpcWiring.Proofs.Script.Stretches

/-!
# Squeezing stretches

Squeezing a text keeps its texts in quotes and its single characters, and leaves one space for each
gap between two of them (`squeeze_spelled`). Nothing that is kept joins up to a comment or to other
quotes, since whatever was dropped between two characters has left a space: the squeezed stretches
are the one way to cut the squeezed text (`Stretch.Cut.squeezed`).
-/

namespace IpcWiring.Script

namespace Stretch

/-- The stretch is kept: it is neither blank nor a comment. -/
def isKept : Stretch → Bool
  | quoted _ | unclosed _ | single _ _ => true
  | line _ _ | block _ _ _ | blank _ _ => false

/-- One space. -/
def space : Stretch := blank ' ' isBlank_space

/-- The space before what is kept, if one is due. -/
def due (gap written : Bool) : List Stretch := if gap && written then [space] else []

/-- The stretches that are kept, with a space for each gap between two of them. -/
def squeezed (gap written : Bool) : List Stretch → List Stretch
  | [] => []
  | s :: rest =>
    if s.isKept then due gap written ++ s :: squeezed false true rest
    else squeezed true written rest

/-- What comes behind a stretch that is kept: others, each with a space before it or none. -/
inductive Spaced : List Stretch → Prop
  | nil : Spaced []
  | kept {s : Stretch} {rest : List Stretch} : s.isKept = true → Spaced rest → Spaced (s :: rest)
  | space {s : Stretch} {rest : List Stretch} :
      s.isKept = true → Spaced (s :: rest) → Spaced (space :: s :: rest)

end Stretch

open Stretch

section

variable {s : Stretch} {stretches rest : List Stretch} {cs : List Char}

/-! ## Squeezing a text -/

/-- Quotes that are not closed are kept to the end of the text. -/
theorem squeeze_open {mark : Char} {body : List Char} (h : TypeText.isOpen mark body = true)
    (written : Bool) : squeeze (.quoted mark false) written body = body := by
  fun_induction TypeText.isOpen mark body with
  | case1 => rfl
  | case2 c body ih => simp [squeeze, ih h]
  | case3 c body hpair ih =>
    rw [Bool.and_eq_true, bne_iff_ne] at h
    by_cases hslash : c = '\\'
    · subst hslash
      cases body with
      | nil => rfl
      | cons d body => exact (hpair d body rfl rfl).elim
    · simp [squeeze, hslash, h.1, ih h.2]

/-- A comment that is not closed is dropped to the end of the text. -/
theorem squeeze_openComment {before : Char} {text : List Char}
    (h : blockCommentLength? (before :: text) = none) (written : Bool) :
    squeeze (.blockComment before) written text = [] := by
  induction text generalizing before with
  | nil => rfl
  | cons c text ih =>
    obtain ⟨hopen, htext⟩ := not_close_of_blockCommentLength? h
    rw [squeeze, hopen, if_neg Bool.false_ne_true, ih htext]

/-- A stretch that is kept is written, behind a space if one is due. -/
theorem squeeze_kept (hkept : s.isKept = true) (h : s.Admits cs.head?) (gap written : Bool) :
    squeeze (.plain gap) written (s.chars ++ cs) =
      gapText gap written ++ (s.chars ++ squeeze (.plain false) true cs) := by
  cases s with
  | quoted q => exact isTidy_closed q.isMark q.mark_ne.2 q.closed gap written cs
  | unclosed q =>
    obtain rfl := List.head?_eq_none_iff.1 h
    have hquote : isQuote q.mark = true := q.isMark
    rw [List.append_nil, Stretch.chars, squeeze.eq_def]
    simp only [hquote, if_true]
    rw [squeeze_open q.isOpen, squeeze, List.append_nil]
  | single c hc =>
    rw [isSingle_iff] at hc
    by_cases hslash : c = '/'
    · subst hslash
      have hnext := h rfl
      have hline : ¬cs.head? = some '/' := fun hd => (hnext _ hd).1 rfl
      have hblock : ¬cs.head? = some '*' := fun hd => (hnext _ hd).2 rfl
      rw [Stretch.chars, List.singleton_append, squeeze.eq_def]
      simp [hc, hline, hblock]
    · exact Squeezes.char ⟨hc.1, hslash, hc.2⟩ gap written cs
  | line | block | blank => cases hkept

/-- A stretch that is not kept is a gap. -/
theorem squeeze_dropped (hkept : s.isKept = false) (h : s.Admits cs.head?) (gap written : Bool) :
    squeeze (.plain gap) written (s.chars ++ cs) = squeeze (.plain true) written cs := by
  cases s with
  | line text htext =>
    change squeeze .lineComment written (text ++ cs) = _
    rw [squeeze_lineComment htext]
    cases cs with
    | nil => rfl
    | cons c cs =>
      obtain rfl := h c rfl
      -- The end of the line closes the comment, and it is a blank of its own.
      have hclosed : squeeze .lineComment written ('\n' :: cs) =
          squeeze (.plain true) written cs := rfl
      exact hclosed.trans (squeeze_gap (.blank '\n' rfl) true written cs).symm
  | block text htext closed =>
    cases closed with
    | true => exact squeeze_gap (.block text htext) gap written cs
    | false =>
      obtain rfl := List.head?_eq_none_iff.1 (h rfl)
      -- The scan starts the comment as if a space stood before its text, so `/*/` is not closed.
      have hopen := squeeze_openComment (blockCommentLength?_space htext) written
      rw [List.append_nil]
      change squeeze (.blockComment ' ') written (text ++ []) = []
      rwa [List.append_nil]
  | blank c hc => exact squeeze_gap (.blank c hc) gap written cs
  | quoted | unclosed | single => cases hkept

/-- The space that is due is written. -/
theorem spelled_due (gap written : Bool) : spelled (due gap written) = gapText gap written := by
  cases gap <;> cases written <;> rfl

/-- Squeezing a text leaves its squeezed stretches. -/
theorem squeeze_spelled (h : Cut stretches) (gap written : Bool) :
    squeeze (.plain gap) written (spelled stretches) =
      spelled (squeezed gap written stretches) := by
  induction stretches generalizing gap written with
  | nil => rfl
  | cons s rest ih =>
    rw [spelled_cons, squeezed]
    by_cases hkept : s.isKept = true
    · rw [if_pos hkept, squeeze_kept hkept h.1, ih h.2, ← spelled_due, ← spelled_cons]
      exact List.flatMap_append.symm
    · rw [if_neg hkept, squeeze_dropped (Bool.eq_false_iff.2 hkept) h.1, ih h.2]

/-! ## Squeezed stretches -/

/-- Squeezed stretches have spaces between them only. -/
theorem spaced_squeezed (gap written : Bool) (stretches : List Stretch) :
    Spaced (squeezed gap written stretches) := by
  induction stretches generalizing gap written with
  | nil => exact .nil
  | cons s rest ih =>
    rw [squeezed]
    by_cases hkept : s.isKept = true
    · rw [if_pos hkept, due]
      cases gap && written with
      | true => exact .space hkept (.kept hkept (ih false true))
      | false => exact .kept hkept (ih false true)
    · rw [if_neg hkept]
      exact ih true written

/-- Nothing that is dropped comes before the first stretch that is kept. -/
theorem head?_squeezed (gap : Bool) (stretches : List Stretch) :
    ∀ s ∈ (squeezed gap false stretches).head?, s.isKept = true := by
  induction stretches generalizing gap with
  | nil => exact nofun
  | cons s rest ih =>
    rw [squeezed]
    by_cases hkept : s.isKept = true
    · rw [if_pos hkept, due, Bool.and_false]
      rintro _ ⟨⟩
      exact hkept
    · rw [if_neg hkept]
      exact ih true

/-- Behind a gap squeezed stretches start with a space, if there are any. -/
theorem squeezed_gap (stretches : List Stretch) :
    squeezed true true stretches = [] ∨ ∃ rest, squeezed true true stretches = space :: rest := by
  induction stretches with
  | nil => exact .inl rfl
  | cons s rest ih =>
    rw [squeezed]
    by_cases hkept : s.isKept = true
    · rw [if_pos hkept]
      exact .inr ⟨_, rfl⟩
    · rwa [if_neg hkept]

/-- Squeezing leaves the next character, or a space or the end of the text in its place. -/
theorem head?_spelled_squeezed (stretches : List Stretch) :
    (spelled (squeezed false true stretches)).head? = none ∨
      (spelled (squeezed false true stretches)).head? = some ' ' ∨
      (spelled (squeezed false true stretches)).head? = (spelled stretches).head? := by
  cases stretches with
  | nil => exact .inl rfl
  | cons s rest =>
    rw [squeezed]
    by_cases hkept : s.isKept = true
    · rw [if_pos hkept]
      refine .inr (.inr ?_)
      rw [head?_spelled_cons]
      exact head?_spelled_cons s _
    · rw [if_neg hkept]
      rcases squeezed_gap rest with heq | ⟨rest', heq⟩
      · exact .inl (by rw [heq]; rfl)
      · exact .inr (.inl (by rw [heq]; rfl))

/-- What can stand behind a stretch that is kept can stand there when it is squeezed. -/
theorem Stretch.Admits.squeezed (hkept : s.isKept = true) (h : s.Admits (spelled rest).head?) :
    s.Admits (spelled (squeezed false true rest)).head? := by
  cases s with
  | quoted => trivial
  | unclosed =>
    obtain rfl := spelled_eq_nil_iff.1 (List.head?_eq_none_iff.1 h)
    rfl
  | single c =>
    -- A slash is followed by what followed it before, by a space, or by nothing.
    intro hslash
    rcases head?_spelled_squeezed rest with heq | heq | heq <;> rw [heq]
    · exact nofun
    · rintro _ ⟨⟩
      decide
    · exact h hslash
  | line | block | blank => cases hkept

/-- Squeezed stretches are a way to cut their text. -/
theorem Stretch.Cut.squeezed (h : Cut stretches) (gap written : Bool) :
    Cut (squeezed gap written stretches) := by
  induction stretches generalizing gap written with
  | nil => trivial
  | cons s rest ih =>
    rw [Stretch.squeezed]
    by_cases hkept : s.isKept = true
    · have hrest : Cut (s :: Stretch.squeezed false true rest) :=
        ⟨h.1.squeezed hkept, ih h.2 false true⟩
      rw [if_pos hkept, due]
      cases gap && written with
      | true => exact ⟨trivial, hrest⟩
      | false => exact hrest
    · rw [if_neg hkept]
      exact ih h.2 true written

/-- Squeezing takes away nothing that is kept. -/
theorem filter_squeezed (gap written : Bool) (stretches : List Stretch) :
    (squeezed gap written stretches).filter isKept = stretches.filter isKept := by
  induction stretches generalizing gap written with
  | nil => rfl
  | cons s rest ih =>
    have hdue : (due gap written).filter isKept = [] := by
      cases gap <;> cases written <;> rfl
    rw [squeezed]
    by_cases hkept : s.isKept = true
    · rw [if_pos hkept, List.filter_append, hdue, List.filter_cons_of_pos hkept,
        List.filter_cons_of_pos hkept, ih]
      rfl
    · rw [if_neg hkept, List.filter_cons_of_neg hkept, ih]

/-- Squeezing leaves alone what has spaces between stretches only. -/
theorem Stretch.Spaced.squeezed_eq (h : Spaced stretches) :
    squeezed false true stretches = stretches := by
  induction h with
  | nil => rfl
  | kept hkept _ ih =>
    rw [squeezed, if_pos hkept, ih]
    rfl
  | space hkept _ ih =>
    rw [squeezed, if_pos hkept] at ih
    change squeezed true true _ = _
    rw [squeezed, if_pos hkept]
    exact congrArg (Stretch.space :: ·) ih

/-- Only spaces stand between the stretches that are kept. -/
theorem Stretch.Spaced.isKept_or_space (h : Spaced stretches) :
    ∀ s ∈ stretches, s.isKept = true ∨ s = Stretch.space := by
  induction h with
  | nil => exact nofun
  | kept hkept _ ih => exact List.forall_mem_cons.2 ⟨.inl hkept, ih⟩
  | space _ _ ih => exact List.forall_mem_cons.2 ⟨.inr rfl, ih⟩

/-- No space stands next to another one. -/
theorem Stretch.Spaced.isChain (h : Spaced stretches) :
    stretches.IsChain fun s t => s.isKept = true ∨ t.isKept = true := by
  induction h with
  | nil => exact .nil
  | kept hkept _ ih => exact ih.cons fun _ _ => .inl hkept
  | space hkept _ ih => exact ih.cons_cons (.inr hkept)

end

end IpcWiring.Script
