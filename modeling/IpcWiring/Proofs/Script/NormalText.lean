import Mathlib.Data.List.DropRight
import IpcWiring.Proofs.Script.Squeezing

/-!
# Normal text stays as it is

Normal text is made of the squeezed stretches, less the blanks at the end of quotes that are not
closed and an operator at the start (`normalizeChars_spelled`). It is tidy (`tidy_tidied`), and
tidying changes nothing in tidy text that starts with no operator. So such normal text is its own
normal text (`normalize_stable`).
-/

namespace IpcWiring.TypeText

open Text (isBlank trimEndChars)

/-- Quotes that are not closed in a text are not closed in a part of it either. -/
theorem isOpen_of_append {mark : Char} (hmark : mark ≠ '\\') {a b : List Char}
    (h : isOpen mark (a ++ b) = true) : isOpen mark a = true := by
  fun_induction isOpen mark a with
  | case1 => rfl
  | case2 c a ih => exact ih h
  | case3 c a hpair ih =>
    rw [Bool.and_eq_true, bne_iff_ne]
    by_cases hslash : c = '\\'
    -- A backslash at the end of the part has lost the character that it escapes.
    · subst hslash
      cases a with
      | nil => exact ⟨hmark.symm, rfl⟩
      | cons d a => exact (hpair d a rfl rfl).elim
    · rw [List.cons_append, isOpen, Bool.and_eq_true, bne_iff_ne] at h
      · exact ⟨h.1, ih h.2⟩
      · exact fun _ _ hc => absurd hc hslash

/-- The text without the blanks at its end. -/
def OpenQuoted.trimmed (q : OpenQuoted) : OpenQuoted where
  mark := q.mark
  body := trimEndChars q.body
  isMark := q.isMark
  isOpen := by
    obtain ⟨blanks, hbody⟩ := List.rdropWhile_prefix isBlank q.body
    refine isOpen_of_append q.mark_ne (b := blanks) ?_
    rw [trimEndChars, ← List.rdropWhile, hbody]
    exact q.isOpen

end IpcWiring.TypeText

namespace IpcWiring.Script

open Text (isBlank trimChars trimStartChars trimEndChars)
open Stretch

namespace Stretch

/-- The stretch is a text in quotes, closed or not. -/
def isInQuotes : Stretch → Bool
  | quoted _ | unclosed _ => true
  | line _ _ | block _ _ _ | blank _ _ | single _ _ => false

/-- The stretch is one of the operators that can lead a type. -/
def isOperator : Stretch → Bool
  | single c _ => c == '|' || c == '&'
  | quoted _ | unclosed _ | line _ _ | block _ _ _ | blank _ _ => false

/-- Quotes that are not closed end with no blank; all else is left alone. -/
def trimmed : Stretch → Stretch
  | unclosed q => unclosed q.trimmed
  | s => s

/-- Drops one operator at the start with the gap behind it. -/
def withoutOperator : List Stretch → List Stretch
  | [] => []
  | s :: rest => if s.isOperator then rest.dropWhile (!·.isKept) else s :: rest

/-- The stretches of the normal text. -/
def tidied (stretches : List Stretch) : List Stretch :=
  withoutOperator ((squeezed false false stretches).map trimmed)

/-- Tidy stretches: the first one is kept, others follow with a space before them or none, and no
quotes have blanks at their end. -/
structure Tidy (stretches : List Stretch) : Prop where
  cut : Cut stretches
  spaced : Spaced stretches
  starts : ∀ s ∈ stretches.head?, s.isKept = true
  trimmed : ∀ s ∈ stretches, s.trimmed = s

end Stretch

section

variable {s : Stretch} {stretches rest : List Stretch}

/-! ## Trimming stretches -/

/-- A trimmed stretch is kept as before. -/
theorem Stretch.isKept_trimmed (s : Stretch) : s.trimmed.isKept = s.isKept := by
  cases s <;> rfl

/-- A trimmed stretch starts as before. -/
theorem Stretch.head?_trimmed (s : Stretch) : s.trimmed.chars.head? = s.chars.head? := by
  cases s <;> rfl

/-- Nothing is left to trim. -/
theorem Stretch.trimmed_trimmed (s : Stretch) : s.trimmed.trimmed = s.trimmed := by
  cases s with
  | unclosed q =>
    refine congrArg Stretch.unclosed (TypeText.OpenQuoted.ext (congrArg (q.mark :: ·) ?_))
    exact List.rdropWhile_idempotent isBlank q.body
  | quoted | line | block | blank | single => rfl

/-- Trimmed stretches start as before. -/
theorem head?_spelled_trimmed (stretches : List Stretch) :
    (spelled (stretches.map trimmed)).head? = (spelled stretches).head? := by
  cases stretches with
  | nil => rfl
  | cons s rest => rw [List.map_cons, head?_spelled_cons, head?_spelled_cons, s.head?_trimmed]

/-- Trimmed stretches are a way to cut their text. -/
theorem Stretch.Cut.trimmed (h : Cut stretches) : Cut (stretches.map trimmed) := by
  induction stretches with
  | nil => trivial
  | cons s rest ih =>
    refine ⟨?_, ih h.2⟩
    rw [head?_spelled_trimmed]
    cases s <;> exact h.1

/-- Trimmed stretches have spaces between them only. -/
theorem Stretch.Spaced.trimmed (h : Spaced stretches) : Spaced (stretches.map trimmed) := by
  induction h with
  | nil => exact .nil
  | kept hkept _ ih => exact .kept (by rwa [isKept_trimmed]) ih
  | space hkept _ ih => exact .space (by rwa [isKept_trimmed]) ih

/-! ## The characters of stretches that are kept -/

/-- No quote is blank. -/
theorem isBlank_of_isQuote {c : Char} (h : isQuote c = true) : isBlank c = false := by
  rw [← Bool.not_eq_true]
  intro hblank
  rw [isQuote_of_isBlank hblank] at h
  cases h

/-- No quote is an operator. -/
theorem beq_operator_of_isQuote {c : Char} (h : isQuote c = true) :
    (c == '|' || c == '&') = false := by
  simp only [isQuote, Bool.or_eq_true, beq_iff_eq] at h
  rcases h with (rfl | rfl) | rfl <;> rfl

/-- A stretch that is kept starts with no blank, and with an operator just if it is one. -/
theorem Stretch.exists_first (hkept : s.isKept = true) : ∃ c more, s.chars = c :: more ∧
    isBlank c = false ∧ s.isOperator = (c == '|' || c == '&') ∧
    (s.isOperator = true → more = []) := by
  cases s with
  | quoted q =>
    exact ⟨q.mark, _, rfl, isBlank_of_isQuote q.isMark, (beq_operator_of_isQuote q.isMark).symm,
      nofun⟩
  | unclosed q =>
    exact ⟨q.mark, _, rfl, isBlank_of_isQuote q.isMark, (beq_operator_of_isQuote q.isMark).symm,
      nofun⟩
  | single c hc =>
    exact ⟨c, [], rfl, (isSingle_iff.1 hc).2, rfl, fun _ => rfl⟩
  | line | block | blank => cases hkept

/-- At its end a stretch that is kept is trimmed as its text is. -/
theorem trimEndChars_chars (hkept : s.isKept = true) : trimEndChars s.chars = s.trimmed.chars := by
  cases s with
  | quoted q =>
    have hlast : q.chars.getLast? = some q.mark := List.getLast?_concat
    refine Text.trimEndChars_eq fun c hc => ?_
    obtain rfl := Option.some.inj (hlast.symm.trans hc)
    exact q.mark_ne.1
  | unclosed q => exact Text.trimEndChars_cons (isBlank_of_isQuote q.isMark) q.body
  | single c hc => exact Text.trimEndChars_cons (isSingle_iff.1 hc).2 []
  | line | block | blank => cases hkept

/-- Only the end of the text can stand behind what is to be trimmed. -/
theorem Stretch.trimmed_of_admits {c : Char} (h : s.Admits (some c)) : s.trimmed = s := by
  cases s with
  | unclosed => cases h
  | quoted | line | block | blank | single => rfl

/-- What stands behind a stretch is trimmed by itself. -/
theorem trimEndChars_spelled_cons (hrest : rest ≠ []) (h : Cut (s :: rest))
    (ih : trimEndChars (spelled rest) = spelled (rest.map trimmed)) :
    trimEndChars (spelled (s :: rest)) = spelled ((s :: rest).map trimmed) := by
  have hne : trimEndChars (spelled rest) ≠ [] := by
    rw [ih]
    exact mt spelled_eq_nil_iff.1 (mt List.map_eq_nil_iff.1 hrest)
  obtain ⟨c, hc⟩ := Option.ne_none_iff_exists'.1
    (mt List.head?_eq_none_iff.1 (mt spelled_eq_nil_iff.1 hrest))
  have hadmits := h.1
  rw [hc] at hadmits
  rw [spelled_cons, Text.trimEndChars_append _ hne, ih, List.map_cons, spelled_cons,
    trimmed_of_admits hadmits]

/-- Stretches are trimmed as their text is. -/
theorem trimEndChars_spelled (hspaced : Spaced stretches) (h : Cut stretches) :
    trimEndChars (spelled stretches) = spelled (stretches.map trimmed) := by
  induction hspaced with
  | nil => rfl
  | @kept s rest hkept _ ih =>
    -- Only the last stretch can end with blanks, and it is kept, so no part is blank.
    by_cases hrest : rest = []
    · subst hrest
      rw [List.map_singleton, spelled, spelled, List.flatMap_singleton, List.flatMap_singleton]
      exact trimEndChars_chars hkept
    · exact trimEndChars_spelled_cons hrest h (ih h.2)
  | space _ _ ih => exact trimEndChars_spelled_cons (List.cons_ne_nil _ _) h (ih h.2)

/-- Text that starts with a stretch that is kept starts with no blank. -/
theorem head?_spelled_not (hstarts : ∀ s ∈ stretches.head?, s.isKept = true) :
    ∀ c ∈ (spelled stretches).head?, isBlank c = false := by
  cases stretches with
  | nil => exact nofun
  | cons s rest =>
    obtain ⟨c, more, hchars, hblank, -⟩ := exists_first (hstarts s rfl)
    rw [head?_spelled_cons, hchars]
    rintro _ ⟨⟩
    exact hblank

/-- A stretch that is kept ends the gap before it. -/
theorem dropWhile_kept (hkept : s.isKept = true) (rest : List Stretch) :
    (s :: rest).dropWhile (!·.isKept) = s :: rest :=
  List.dropWhile_cons_of_neg (by rw [hkept]; exact Bool.false_ne_true)

/-- Blanks at the start of the text are the gap before the first stretch that is kept. -/
theorem trimStartChars_spelled (h : Spaced stretches) :
    trimStartChars (spelled stretches) = spelled (stretches.dropWhile (!·.isKept)) := by
  induction h with
  | nil => rfl
  | kept hkept =>
    rw [dropWhile_kept hkept]
    refine Text.dropWhile_isBlank (head?_spelled_not ?_)
    rintro _ ⟨⟩
    exact hkept
  | space _ _ ih => exact ih

/-- An operator at the start of the text is the first stretch. -/
theorem dropLeadingOperator_spelled (hspaced : Spaced stretches)
    (hstarts : ∀ s ∈ stretches.head?, s.isKept = true) :
    dropLeadingOperator (spelled stretches) = spelled (withoutOperator stretches) := by
  cases hspaced with
  | nil => rfl
  | @kept s rest hkept hrest =>
    obtain ⟨c, more, hchars, -, hoperator, hmore⟩ := exists_first hkept
    rw [spelled_cons, hchars, List.cons_append, dropLeadingOperator, ← hoperator, withoutOperator]
    by_cases hop : s.isOperator = true
    · rw [if_pos hop, if_pos hop, hmore hop, List.nil_append, trimStartChars_spelled hrest]
    · rw [if_neg hop, if_neg hop, spelled_cons, hchars, List.cons_append]
  | space => cases hstarts _ rfl

/-! ## Normal text -/

/-- Stretches behind one that is dropped are a way to cut their text. -/
theorem Stretch.Cut.of_suffix (h : Cut stretches) (hsuffix : rest <:+ stretches) : Cut rest := by
  obtain ⟨front, rfl⟩ := hsuffix
  induction front with
  | nil => exact h
  | cons s front ih => exact ih h.2

/-- Stretches without an operator are the last ones. -/
theorem withoutOperator_suffix (stretches : List Stretch) :
    withoutOperator stretches <:+ stretches := by
  cases stretches with
  | nil => exact List.suffix_rfl
  | cons s rest =>
    rw [withoutOperator]
    split
    · exact (List.dropWhile_suffix _).trans (List.suffix_cons s rest)
    · exact List.suffix_rfl

/-- Behind the gap at their start there are spaces between stretches only. -/
theorem Stretch.Spaced.dropWhile (h : Spaced stretches) :
    Spaced (stretches.dropWhile (!·.isKept)) := by
  induction h with
  | nil => exact .nil
  | kept hkept hrest =>
    rw [dropWhile_kept hkept]
    exact .kept hkept hrest
  | space _ _ ih => exact ih

/-- Without their operator tidy stretches are tidy as well. -/
theorem Stretch.Tidy.withoutOperator (h : Tidy stretches) :
    Tidy (withoutOperator stretches) where
  cut := h.cut.of_suffix (withoutOperator_suffix stretches)
  trimmed s hs := h.trimmed s ((withoutOperator_suffix stretches).subset hs)
  spaced := by
    cases h.spaced with
    | nil => exact .nil
    | @kept s rest hkept hrest =>
      rw [Stretch.withoutOperator]
      by_cases hop : s.isOperator = true
      · rw [if_pos hop]
        exact hrest.dropWhile
      · rw [if_neg hop]
        exact h.spaced
    | space => cases h.starts _ rfl
  starts := by
    cases stretches with
    | nil => exact nofun
    | cons s rest =>
      rw [Stretch.withoutOperator]
      by_cases hop : s.isOperator = true
      · rw [if_pos hop]
        intro t ht
        have hnot := List.head?_dropWhile_not (fun s : Stretch => !s.isKept) rest
        rw [Option.mem_def.1 ht] at hnot
        simpa using hnot
      · rw [if_neg hop]
        exact h.starts

/-- Squeezed and trimmed stretches are tidy. -/
theorem Stretch.Cut.tidy (h : Cut stretches) :
    Tidy ((Stretch.squeezed false false stretches).map Stretch.trimmed) where
  cut := (h.squeezed false false).trimmed
  spaced := (spaced_squeezed false false stretches).trimmed
  starts := by
    intro s hs
    rw [List.head?_map] at hs
    obtain ⟨t, ht, rfl⟩ := Option.map_eq_some_iff.1 hs
    rw [isKept_trimmed]
    exact head?_squeezed false stretches t ht
  trimmed := by
    intro s hs
    obtain ⟨t, -, rfl⟩ := List.mem_map.1 hs
    exact t.trimmed_trimmed

/-- The stretches of the normal text are tidy. -/
theorem tidy_tidied (h : Cut stretches) : Tidy (tidied stretches) := h.tidy.withoutOperator

/-- Normal text is made of the tidied stretches. -/
theorem normalizeChars_spelled (h : Cut stretches) :
    normalizeChars (spelled stretches) = spelled (tidied stretches) := by
  have hstart : trimStartChars (spelled (squeezed false false stretches)) =
      spelled (squeezed false false stretches) :=
    Text.dropWhile_isBlank (head?_spelled_not (head?_squeezed false stretches))
  rw [normalizeChars, squeeze_spelled h, trimChars, hstart,
    trimEndChars_spelled (spaced_squeezed false false stretches) (h.squeezed false false)]
  exact dropLeadingOperator_spelled h.tidy.spaced h.tidy.starts

/-! ## Tidy stretches -/

namespace Stretch.Tidy

/-- Trimming changes nothing. -/
theorem map_trimmed (h : Tidy stretches) : stretches.map Stretch.trimmed = stretches :=
  (List.map_congr_left h.trimmed).trans (List.map_id _)

/-- The text does not start with a blank. -/
theorem head?_not (h : Tidy stretches) : ∀ c ∈ (spelled stretches).head?, isBlank c = false :=
  head?_spelled_not h.starts

/-- The text does not end with a blank. -/
theorem getLast?_not (h : Tidy stretches) :
    ∀ c ∈ (spelled stretches).getLast?, isBlank c = false := by
  have htrim := trimEndChars_spelled h.spaced h.cut
  rw [h.map_trimmed] at htrim
  intro c hc
  rw [← htrim] at hc
  exact Text.getLast?_trimEndChars hc

/-- Squeezing changes nothing. -/
theorem squeezed_eq (h : Tidy stretches) : squeezed false false stretches = stretches := by
  have heq := h.spaced.squeezed_eq
  cases stretches with
  | nil => rfl
  | cons s rest =>
    have hkept := h.starts s rfl
    -- Before the first stretch there is no gap, so no space is due, written or not.
    rw [squeezed, if_pos hkept] at heq ⊢
    exact heq

/-- Where the text does not start with an operator, tidying changes nothing. -/
theorem tidied_eq (h : Tidy stretches)
    (hstart : ∀ c ∈ (spelled stretches).head?, c ≠ '|' ∧ c ≠ '&') :
    tidied stretches = stretches := by
  rw [tidied, h.squeezed_eq, h.map_trimmed]
  cases stretches with
  | nil => rfl
  | cons s rest =>
    obtain ⟨c, more, hchars, -, hoperator, -⟩ := exists_first (h.starts s rfl)
    rw [head?_spelled_cons, hchars] at hstart
    obtain ⟨hbar, hand⟩ := hstart c rfl
    rw [beq_false_of_ne hbar, beq_false_of_ne hand] at hoperator
    rw [Stretch.withoutOperator, hoperator]
    rfl

end Stretch.Tidy

/-- An operator is kept, and it is no text in quotes. -/
theorem isKept_of_isOperator (h : s.isOperator = true) :
    s.isKept = true ∧ s.isInQuotes = false := by
  cases s with
  | single => exact ⟨rfl, rfl⟩
  | quoted | unclosed | line | block | blank => cases h

/-- No stretch that is kept is dropped with the gap before it. -/
theorem filter_dropWhile (stretches : List Stretch) :
    (stretches.dropWhile (!·.isKept)).filter isKept = stretches.filter isKept := by
  induction stretches with
  | nil => rfl
  | cons s rest ih =>
    by_cases hkept : s.isKept = true
    · rw [dropWhile_kept hkept]
    · rw [List.dropWhile_cons_of_pos (by simpa using hkept), List.filter_cons_of_neg hkept, ih]

/-- Of the stretches that are kept at most one operator is not left. -/
theorem filter_tidied (stretches : List Stretch) : ∃ operator : List Stretch,
    (operator = [] ∨ ∃ s, s.isOperator = true ∧ operator = [s]) ∧
      (stretches.filter isKept).map trimmed = operator ++ (tidied stretches).filter isKept := by
  have hkept : (stretches.filter isKept).map trimmed =
      ((squeezed false false stretches).map trimmed).filter isKept := by
    rw [List.filter_map, ← filter_squeezed false false stretches]
    exact congrArg _ (List.filter_congr fun s _ => s.isKept_trimmed.symm)
  rw [hkept, tidied]
  cases (squeezed false false stretches).map trimmed with
  | nil => exact ⟨[], .inl rfl, rfl⟩
  | cons s rest =>
    rw [withoutOperator]
    by_cases hop : s.isOperator = true
    · refine ⟨[s], .inr ⟨s, hop, rfl⟩, ?_⟩
      rw [if_pos hop, filter_dropWhile, List.filter_cons_of_pos (isKept_of_isOperator hop).1]
      rfl
    · exact ⟨[], .inl rfl, by rw [if_neg hop]; rfl⟩

/-- The texts in quotes are left, those that are not closed without the blanks at their end. -/
theorem filter_isInQuotes_tidied (stretches : List Stretch) :
    (tidied stretches).filter isInQuotes = (stretches.filter isInQuotes).map trimmed := by
  have hkept : ∀ stretches : List Stretch,
      (stretches.filter isKept).filter isInQuotes = stretches.filter isInQuotes := by
    intro stretches
    rw [List.filter_filter]
    refine List.filter_congr fun s _ => ?_
    cases s <;> rfl
  obtain ⟨operator, hoperator, hfilter⟩ := filter_tidied stretches
  have hnone : operator.filter isInQuotes = [] := by
    rcases hoperator with rfl | ⟨s, hop, rfl⟩
    · rfl
    · rw [List.filter_singleton, (isKept_of_isOperator hop).2]
      rfl
  have hquotes := congrArg (List.filter isInQuotes) hfilter
  rw [List.filter_append, hnone, List.nil_append, hkept, List.filter_map] at hquotes
  rw [← hquotes, ← hkept stretches]
  exact congrArg _ (List.filter_congr fun s _ => by cases s <;> rfl)

/-- **Normal text is stable.** The raw text and its normal text fall into stretches in exactly one
way each, and those of the normal text are the tidied ones of the raw text. They are kept or single
spaces, so outside quotes there is no comment and no other blank, and no blank is at either end. What
is kept is that of the raw text, blanks at the end of quotes that are not closed and at most one
operator at the start aside; so the texts in quotes are those of the raw text. And if the normal
text starts with no operator, it is its own normal text. -/
theorem normalize_stable (text : String) : ∃ stretches line : List Stretch,
    Cut stretches ∧ spelled stretches = text.toList ∧
      (∀ other, Cut other → spelled other = text.toList → other = stretches) ∧
    Cut line ∧ spelled line = (normalize text).toList ∧
      (∀ other, Cut other → spelled other = (normalize text).toList → other = line) ∧
    line = tidied stretches ∧ (∀ s ∈ line, s.isKept = true ∨ s = space) ∧
    (line.IsChain fun s t => s.isKept = true ∨ t.isKept = true) ∧
    (∀ c ∈ (normalize text).toList.head?, isBlank c = false) ∧
    (∀ c ∈ (normalize text).toList.getLast?, isBlank c = false) ∧
    (∃ operator : List Stretch, (operator = [] ∨ ∃ s, s.isOperator = true ∧ operator = [s]) ∧
      (stretches.filter isKept).map trimmed = operator ++ line.filter isKept) ∧
    line.filter isInQuotes = (stretches.filter isInQuotes).map trimmed ∧
    ((∀ c ∈ (normalize text).toList.head?, c ≠ '|' ∧ c ≠ '&') →
      normalize (normalize text) = normalize text) := by
  obtain ⟨stretches, ⟨hcut, hspelled⟩, hunique⟩ := existsUnique_stretches text.toList
  have hline := tidy_tidied hcut
  have hnormal : spelled (tidied stretches) = (normalize text).toList := by
    rw [normalize, String.toList_ofList, ← hspelled, normalizeChars_spelled hcut]
  refine ⟨stretches, tidied stretches, hcut, hspelled, fun other h heq => hunique other ⟨h, heq⟩,
    hline.cut, hnormal, fun other h heq => h.unique hline.cut (heq.trans hnormal.symm), rfl,
    hline.spaced.isKept_or_space, hline.spaced.isChain, ?_, ?_, filter_tidied stretches,
    filter_isInQuotes_tidied stretches, fun hstart => ?_⟩
  · rw [← hnormal]
    exact hline.head?_not
  · rw [← hnormal]
    exact hline.getLast?_not
  · rw [← hnormal] at hstart
    have hagain : normalizeChars (normalize text).toList = (normalize text).toList := by
      rw [← hnormal, normalizeChars_spelled hline.cut, hline.tidied_eq hstart]
    rw [normalize, hagain, String.ofList_toList]

/-- A text with an operator at its start, comments, and quotes that are not closed. -/
def unclosedText : String := " | /* x */'a // b'// y\n|/ /'\\\"  "

/-- The operator at the start is dropped, comments leave spaces, and quotes that are not closed lose
the blanks behind their last escape. What is left stays as it is. -/
theorem normalize_stable_unclosed :
    normalize unclosedText = "'a // b' |/ /'\\\"" ∧
      (∀ c ∈ "'a // b' |/ /'\\\"".toList.head?, c ≠ '|' ∧ c ≠ '&') ∧
      normalize "'a // b' |/ /'\\\"" = "'a // b' |/ /'\\\"" := by
  obtain ⟨_, _, -, -, -, -, -, -, -, -, -, -, -, -, -, hagain⟩ := normalize_stable unclosedText
  have hnormal : normalize unclosedText = "'a // b' |/ /'\\\"" := by decide +kernel
  have hfirst : "'a // b' |/ /'\\\"".toList.head? = some '\'' := by decide +kernel
  have hstart : ∀ c ∈ "'a // b' |/ /'\\\"".toList.head?, c ≠ '|' ∧ c ≠ '&' := by
    rw [hfirst]
    rintro _ ⟨⟩
    decide
  rw [hnormal] at hagain
  exact ⟨hnormal, hstart, hagain hstart⟩

/-- One operator is dropped at a time. -/
example : normalize "| | a" = "| a" ∧ normalize "| a" = "a" := by decide +kernel

end

end IpcWiring.Script
