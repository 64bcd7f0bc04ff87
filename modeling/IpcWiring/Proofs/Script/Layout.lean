import IpcWiring.Proofs.Script.Tokens
import IpcWiring.Proofs.TypeText.Phrase

/-!
# Texts on one line

Outside quotes a text is put on one line by leaving one space in the place of each gap (`squeeze_gap`).
What a text is squeezed to does not depend on what stands around it (`Squeezes`), so texts are
squeezed piece by piece; and a text that is its own outcome is tidy (`IsTidy`).
-/

namespace IpcWiring.Script

open Text (isBlank)

/-! ## Squeezed texts -/

/-- A space is blank. -/
theorem isBlank_space : isBlank ' ' = true := rfl

/-- The gaps as they are left between two tokens on one line. -/
def Gaps.tidy : Gaps → Gaps
  | [] => []
  | _ :: _ => [.blank ' ' isBlank_space]

/-- Tidy gaps stay as they are. -/
@[simp]
theorem Gaps.tidy_tidy (gaps : Gaps) : gaps.tidy.tidy = gaps.tidy := by
  cases gaps <;> rfl

/-- Outside quotes the first text is squeezed to the second one. -/
def Squeezes (raw tidy : List Char) : Prop :=
  ∀ gap written rest, squeeze (.plain gap) written (raw ++ rest) =
    gapText gap written ++ (tidy ++ squeeze (.plain false) true rest)

/-- A comment up to the end of its line is a gap. -/
theorem squeeze_lineComment {text : List Char} (h : '\n' ∉ text)
    (written : Bool) (rest : List Char) :
    squeeze .lineComment written (text ++ rest) = squeeze .lineComment written rest := by
  induction text with
  | nil => rfl
  | cons c text ih =>
    obtain ⟨hc, htext⟩ := not_or.1 (mt List.mem_cons.2 h)
    have hne : (c == '\n') = false := beq_eq_false_iff_ne.2 (Ne.symm hc)
    rw [List.cons_append, squeeze, hne, if_neg Bool.false_ne_true, ih htext]

/-- A text in which no comment is closed does not close one at its start. -/
theorem not_close_of_blockCommentLength? {c d : Char} {text : List Char}
    (h : blockCommentLength? (c :: d :: text) = none) :
    (c == '*' && d == '/') = false ∧ blockCommentLength? (d :: text) = none := by
  have hclose : ¬(c = '*' ∧ d = '/') := by
    rintro ⟨rfl, rfl⟩
    cases h
  refine ⟨by rwa [← Bool.not_eq_true, Bool.and_eq_true, beq_iff_eq, beq_iff_eq], ?_⟩
  rw [blockCommentLength?] at h
  · exact Option.map_eq_none_iff.1 h
  · rintro tail rfl htail
    exact hclose ⟨rfl, (List.cons.inj htail).1⟩

/-- A space before a text does not close a comment. -/
theorem blockCommentLength?_space {text : List Char} (h : blockCommentLength? text = none) :
    blockCommentLength? (' ' :: text) = none := by
  rw [blockCommentLength?, h]
  · rfl
  · rintro _ hc
    cases hc

/-- A closed comment is a gap. -/
theorem squeeze_blockComment {before : Char} {text : List Char}
    (h : blockCommentLength? (before :: text) = none) (written : Bool) (rest : List Char) :
    squeeze (.blockComment before) written (text ++ '*' :: '/' :: rest) =
      squeeze (.plain true) written rest := by
  induction text generalizing before with
  | nil =>
    have hslash : (before == '*' && '*' == '/') = false := Bool.and_false _
    rw [List.nil_append, squeeze, hslash, if_neg Bool.false_ne_true]
    rfl
  | cons c text ih =>
    obtain ⟨hopen, htext⟩ := not_close_of_blockCommentLength? h
    rw [List.cons_append, squeeze, hopen, if_neg Bool.false_ne_true, ih htext]

/-- No blank is a quote. -/
theorem isQuote_of_isBlank {c : Char} (h : isBlank c = true) : isQuote c = false := by
  have hnone := Text.all_of_isBlank (p := fun c => !isQuote c) (by decide) h
  rwa [Bool.not_eq_true'] at hnone

/-- Gaps between two characters are squeezed to one space. -/
theorem squeeze_gap (g : Gap) (gap written : Bool) (rest : List Char) :
    squeeze (.plain gap) written (g.chars ++ rest) = squeeze (.plain true) written rest := by
  cases g with
  | blank c h =>
    have hslash : c ≠ '/' := by
      rintro rfl
      cases h
    rw [show (Gap.blank c h).chars ++ rest = c :: rest from rfl, squeeze.eq_def]
    simp [isQuote_of_isBlank h, hslash, h]
  | line text h carriageReturn =>
    have hend : '\n' ∉ text := by
      intro hmem
      cases h _ hmem
    have hchars : ∀ stop : List Char, squeeze (.plain gap) written ('/' :: '/' :: (text ++ stop)) =
        squeeze .lineComment written stop := by
      intro stop
      rw [← squeeze_lineComment hend]
      rfl
    cases carriageReturn with
    | false =>
      have hline : (Gap.line text h false).chars ++ rest =
          '/' :: '/' :: (text ++ '\n' :: rest) := by
        simp [Gap.chars]
      rw [hline, hchars]
      rfl
    | true =>
      have hline : (Gap.line text h true).chars ++ rest =
          '/' :: '/' :: (text ++ '\r' :: '\n' :: rest) := by
        simp [Gap.chars]
      rw [hline, hchars]
      rfl
  | block text h =>
    have hline : (Gap.block text h).chars ++ rest = '/' :: '*' :: (text ++ '*' :: '/' :: rest) := by
      simp [Gap.chars]
    rw [hline, ← squeeze_blockComment (blockCommentLength?_space h)]
    rfl

/-- Gaps between two tokens are squeezed to one space. -/
theorem squeeze_gaps (gaps : Gaps) (rest : List Char) :
    squeeze (.plain false) true (gaps.chars ++ rest) =
      squeeze (.plain !gaps.isEmpty) true rest := by
  have hall : ∀ gaps : Gaps, squeeze (.plain true) true (gaps.chars ++ rest) =
      squeeze (.plain true) true rest := by
    intro gaps
    induction gaps with
    | nil => rfl
    | cons g gaps ih =>
      rw [Gaps.chars, List.flatMap_cons, List.append_assoc, squeeze_gap]
      exact ih
  cases gaps with
  | nil => rfl
  | cons g gaps =>
    rw [Gaps.chars, List.flatMap_cons, List.append_assoc, squeeze_gap]
    exact hall gaps

/-- The character is kept as it is outside quotes. -/
def IsKept (c : Char) : Prop := isQuote c = false ∧ c ≠ '/' ∧ isBlank c = false

namespace Squeezes

variable {a a' b b' : List Char}

/-- A character that is kept. -/
theorem char {c : Char} (h : IsKept c) : Squeezes [c] [c] := by
  obtain ⟨hquote, hslash, hblank⟩ := h
  intro gap written rest
  rw [List.singleton_append, squeeze.eq_def]
  simp [hquote, hslash, hblank]

/-- Texts one after the other. -/
theorem append (h : Squeezes a a') (h' : Squeezes b b') : Squeezes (a ++ b) (a' ++ b') := by
  intro gap written rest
  rw [List.append_assoc, h, h']
  simp [gapText]

/-- Texts with gaps between them. -/
theorem gaps (h : Squeezes a a') (gaps : Gaps) (h' : Squeezes b b') :
    Squeezes (a ++ (gaps.chars ++ b)) (a' ++ (gaps.tidy.chars ++ b')) := by
  intro gap written rest
  rw [List.append_assoc, h, List.append_assoc, squeeze_gaps, h']
  cases gaps with
  | nil => simp [gapText, Gaps.tidy, Gaps.chars]
  | cons => simp [gapText, Gaps.tidy, Gaps.chars, Gap.chars]

/-- Characters that are kept. -/
theorem chars {cs : List Char} (hne : cs ≠ []) (h : ∀ c ∈ cs, IsKept c) : Squeezes cs cs := by
  induction cs with
  | nil => exact (hne rfl).elim
  | cons c cs ih =>
    obtain ⟨hc, hcs⟩ := List.forall_mem_cons.1 h
    cases cs with
    | nil => exact char hc
    | cons d cs => exact (char hc).append (ih (List.cons_ne_nil d cs) hcs)

end Squeezes

/-- The text stays as it is where it stands outside quotes. -/
def IsTidy (cs : List Char) : Prop := Squeezes cs cs

namespace IsTidy

variable {a b : List Char}

/-- Texts one after the other. -/
theorem append (ha : IsTidy a) (hb : IsTidy b) : IsTidy (a ++ b) := Squeezes.append ha hb

/-- Texts with tidy gaps between them. -/
theorem gaps (ha : IsTidy a) (gaps : Gaps) (hb : IsTidy b) :
    IsTidy (a ++ (gaps.tidy.chars ++ b)) := by
  have h := Squeezes.gaps ha gaps.tidy hb
  rwa [Gaps.tidy_tidy] at h

/-- Texts with a space between them. -/
theorem space (ha : IsTidy a) (hb : IsTidy b) : IsTidy (a ++ ' ' :: b) :=
  Squeezes.gaps ha [.blank ' ' rfl] hb

end IsTidy

/-- A character of a name is kept. -/
theorem isKept_of_continuesName {c : Char} (h : continuesName c = true) : IsKept c := by
  refine ⟨?_, ?_, ?_⟩
  · rw [← Bool.not_eq_true]
    intro hquote
    simp only [isQuote, Bool.or_eq_true, beq_iff_eq] at hquote
    rcases hquote with (rfl | rfl) | rfl <;> revert h <;> decide
  · rintro rfl
    revert h
    decide
  · rw [← Bool.not_eq_true]
    intro hblank
    rw [continuesName_of_isBlank hblank] at h
    cases h

/-- A word is kept. -/
theorem Word.isTidy (w : Word) : IsTidy w.chars :=
  Squeezes.chars (List.cons_ne_nil _ _) fun c hc =>
    isKept_of_continuesName (w.continuesName_of_mem c hc)

/-- What stands in quotes is kept up to where they are closed. -/
theorem squeeze_closed {mark : Char} (hmark : mark ≠ '\\') {body : List Char}
    (h : TypeText.isClosed mark body = true) (written : Bool) (rest : List Char) :
    squeeze (.quoted mark false) written (body ++ mark :: rest) =
      body ++ mark :: squeeze (.plain false) written rest := by
  fun_induction TypeText.isClosed mark body with
  | case1 => simp [squeeze, hmark]
  | case2 c body ih => simp [squeeze, ih h]
  | case3 => cases h
  | case4 c body hpair hlast ih =>
    rw [Bool.and_eq_true, bne_iff_ne] at h
    have hslash : c ≠ '\\' := by
      intro hc
      cases body with
      | nil => exact hlast hc rfl
      | cons d body => exact hpair d body hc rfl
    simp [squeeze, hslash, h.1, ih h.2]

/-- Quotes are closed where the text in them has neither the mark nor an escape. -/
theorem isClosed_of_forall {mark : Char} {body : List Char}
    (h : ∀ c ∈ body, c ≠ mark ∧ c ≠ '\\') : TypeText.isClosed mark body = true := by
  induction body with
  | nil => rfl
  | cons c body ih =>
    obtain ⟨⟨hmark, hslash⟩, hbody⟩ := List.forall_mem_cons.1 h
    rw [TypeText.isClosed, ih hbody, Bool.and_true, bne_iff_ne]
    · exact hmark
    · exact fun _ _ hc => absurd hc hslash
    · exact fun hc => absurd hc hslash

/-- A text in quotes is kept. -/
theorem isTidy_closed {mark : Char} (hquote : isQuote mark = true) (hmark : mark ≠ '\\')
    {body : List Char} (h : TypeText.isClosed mark body = true) :
    IsTidy (mark :: (body ++ [mark])) := by
  intro gap written rest
  rw [List.cons_append, List.append_assoc, List.singleton_append, squeeze.eq_def]
  simp only [hquote, if_true]
  rw [squeeze_closed hmark h, List.cons_append, List.append_assoc, List.singleton_append]

/-- A quoted text is kept. -/
theorem Quoted.isTidy (q : Quoted) : IsTidy q.chars := by
  have hmark : isQuote q.mark = true ∧ q.mark ≠ '\\' := by
    rcases q.mark_cases with h | h <;> rw [h] <;> decide
  have hbody : ∀ c ∈ q.body, c ≠ q.mark ∧ c ≠ '\\' := fun c hc =>
    ⟨(q.closed c hc).1, (q.closed c hc).2.1⟩
  exact isTidy_closed hmark.1 hmark.2 (isClosed_of_forall hbody)

end IpcWiring.Script
