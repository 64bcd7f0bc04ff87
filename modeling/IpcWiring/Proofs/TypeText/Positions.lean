import IpcWiring.Proofs.TypeText.Segments

/-!
# Substitution by positions

The pass over a text can be run by positions in it: each turn looks at the character at a position,
looks for the end of what starts there, and cuts pieces out of the text, which is possible only
between positions that are in the text and in order. No turn fails, each goes forward, and each
deals with exactly one segment of the text (`turn?_segment`). So the run by positions ends for every
text, and with what `substitute` gives (`scan?_spelled`).
-/

namespace IpcWiring.TypeText

open IpcWiring.Text (isBlank startsIdentifier continuesIdentifier)
open Segment

/-! ## The run by positions -/

/-- The position of the next mark that is not behind a backslash, or one past the end. The character
behind a backslash is skipped, also if there is none. -/
def closingMark (cs : List Char) (mark : Char) (i : Nat) : Nat :=
  if h : i < cs.length then
    if cs[i] == mark then i
    else if cs[i] == '\\' then closingMark cs mark (i + 2)
    else closingMark cs mark (i + 1)
  else i
termination_by cs.length - i

/-- The position of the next character that continues no identifier, or the end. -/
def wordEnd (cs : List Char) (i : Nat) : Nat :=
  if h : i < cs.length then
    if continuesIdentifier cs[i] then wordEnd cs (i + 1) else i
  else i
termination_by cs.length - i

/-- The piece of a text between two positions, if both are in the text and in order. -/
def slice? (cs : List Char) (start stop : Nat) : Option (List Char) :=
  if start ≤ stop ∧ stop ≤ cs.length then some ((cs.take stop).drop start) else none

/-- One turn at a position: what it puts out, and the position it goes on at. There is none if it
reads outside of the text. -/
def turn? (bound : String → Option String) (cs : List Char) (i : Nat) :
    Option (List Char × Nat) := do
  let c ← cs[i]?
  if c == '\'' || c == '"' || c == '`' then
    let stop := min (closingMark cs c (i + 1) + 1) cs.length
    let span ← slice? cs i stop
    return (span, stop)
  else if startsIdentifier c then
    let stop := wordEnd cs i
    let word ← slice? cs i stop
    let before ← slice? cs 0 i
    let after ← slice? cs stop cs.length
    let text := match bound (String.ofList word) with
      | some value =>
        if isParameterPlace (previous? before) (next? after) then grouped value.toList else word
      | none => word
    return (text, stop)
  else
    return ([c], i + 1)

section

variable {bound : String → Option String} {cs out : List Char} {mark : Char} {i j : Nat}

/-- The closing mark is looked for from left to right. -/
theorem le_closingMark : i ≤ closingMark cs mark i := by
  fun_induction closingMark cs mark i with
  | case1 => exact Nat.le_refl _
  | case2 | case3 => omega
  | case4 => exact Nat.le_refl _

/-- The end of a word is looked for from left to right. -/
theorem le_wordEnd : i ≤ wordEnd cs i := by
  fun_induction wordEnd cs i with
  | case1 => omega
  | case2 | case3 => exact Nat.le_refl _

/-- A word ends behind its first character. -/
theorem lt_wordEnd (h : i < cs.length) (hcontinues : continuesIdentifier cs[i] = true) :
    i < wordEnd cs i := by
  rw [wordEnd, dif_pos h, if_pos hcontinues]
  exact le_wordEnd

/-- A turn goes forward. -/
theorem lt_of_turn? (h : turn? bound cs i = some (out, j)) : i < j := by
  obtain ⟨c, hc, h⟩ := Option.bind_eq_some_iff.1 h
  obtain ⟨hi, rfl⟩ := List.getElem?_eq_some_iff.1 hc
  split at h
  · obtain ⟨span, -, hturn⟩ := Option.bind_eq_some_iff.1 h
    have hmark : i + 1 ≤ closingMark cs cs[i] (i + 1) := le_closingMark
    cases hturn
    omega
  · split at h
    · next hstarts =>
      obtain ⟨word, -, h⟩ := Option.bind_eq_some_iff.1 h
      obtain ⟨before, -, h⟩ := Option.bind_eq_some_iff.1 h
      obtain ⟨after, -, hturn⟩ := Option.bind_eq_some_iff.1 h
      cases hturn
      exact lt_wordEnd hi (continues_of_starts hstarts)
    · cases h
      exact Nat.lt_succ_self i

end

/-- Runs from a position to the end of the text, if no turn reads outside of it. -/
def scan? (bound : String → Option String) (cs : List Char) (i : Nat) : Option (List Char) :=
  if i < cs.length then
    match hturn : turn? bound cs i with
    | none => none
    | some (out, j) =>
      have := lt_of_turn? hturn
      (scan? bound cs j).map (out ++ ·)
  else some []
termination_by cs.length - i

/-- A turn that does not fail starts the run. -/
theorem scan?_of_turn? {bound : String → Option String} {cs out : List Char} {i j : Nat}
    (hi : i < cs.length) (hturn : turn? bound cs i = some (out, j)) :
    scan? bound cs i = (scan? bound cs j).map (out ++ ·) := by
  rw [scan?, if_pos hi]
  split
  · next hnone =>
    rw [hnone] at hturn
    cases hturn
  · next hsome =>
    rw [hsome] at hturn
    cases hturn
    rfl

/-! ## What stands at a position -/

section

variable {bound : String → Option String} {mark : Char}

/-- A piece of a text is cut out of it. -/
theorem slice?_append (front span rest : List Char) :
    slice? (front ++ (span ++ rest)) front.length (front ++ span).length = some span := by
  rw [slice?, if_pos]
  · rw [← List.append_assoc, List.take_left, List.drop_left]
  · simp only [List.length_append]
    omega

/-- The character at a position is the first of what stands there. -/
theorem getElem_front (front cs : List Char) (c : Char)
    (h : front.length < (front ++ c :: cs).length) : (front ++ c :: cs)[front.length] = c := by
  rw [List.getElem_append_right (Nat.le_refl _)]
  simp

/-- What stands in quotes ends behind the closing mark, or with the text. -/
theorem closingMark_append (hmark : mark ≠ '\\') (front cs : List Char) :
    min (closingMark (front ++ cs) mark front.length + 1) (front ++ cs).length =
      (front ++ (quotedSpan mark cs).1).length := by
  fun_induction quotedSpan mark cs generalizing front with
  | case1 =>
    rw [closingMark, dif_neg] <;> simp
  | case2 c rest span left hspan ih =>
    have hlt : front.length < (front ++ '\\' :: c :: rest).length := by simp
    have hrest := ih (front ++ ['\\', c])
    rw [hspan, List.append_assoc] at hrest
    rw [closingMark, dif_pos hlt, getElem_front, beq_eq_false_iff_ne.2 hmark.symm]
    simpa using hrest
  | case3 c rest _ hc =>
    have hlt : front.length < (front ++ c :: rest).length := by simp
    rw [closingMark, dif_pos hlt, getElem_front, if_pos hc]
    simp
  | case4 c rest hpair hc span left hspan ih =>
    have hlt : front.length < (front ++ c :: rest).length := by simp
    have hrest := ih (front ++ [c])
    rw [hspan, List.append_assoc] at hrest
    rw [closingMark, dif_pos hlt, getElem_front, if_neg hc]
    by_cases hbackslash : c = '\\'
    · cases rest with
      | nil =>
        cases hspan
        have hpast : closingMark (front ++ [c]) mark (front.length + 2) = front.length + 2 := by
          rw [closingMark, dif_neg]
          simp
        rw [hbackslash] at hpast ⊢
        simp [hpast]
      | cons d rest => exact (hpair d rest hbackslash rfl).elim
    · rw [beq_eq_false_iff_ne.2 hbackslash]
      simpa using hrest

/-- A word ends with the last character that continues it. -/
theorem wordEnd_append (front cs : List Char) : wordEnd (front ++ cs) front.length =
    (front ++ cs.takeWhile continuesIdentifier).length := by
  induction cs generalizing front with
  | nil => rw [wordEnd, dif_neg] <;> simp
  | cons c cs ih =>
    have hlt : front.length < (front ++ c :: cs).length := by simp
    rw [wordEnd, dif_pos hlt, getElem_front, List.takeWhile_cons]
    cases hcontinues : continuesIdentifier c with
    | false => simp
    | true => simpa using ih (front ++ [c])

end

/-! ## A turn for a segment -/

section

variable {bound : String → Option String} {s : Segment} {segments rest : List Segment}

/-- A turn at a quote puts out what stands in quotes. -/
theorem turn?_quote {mark : Char} {span left : List Char}
    (hmark : (mark == '\'' || mark == '"' || mark == '`') = true) (hne : mark ≠ '\\')
    (hspan : quotedSpan mark (span ++ left) = (span, left)) (front : List Char) :
    turn? bound (front ++ (mark :: span ++ left)) front.length =
      some (mark :: span, (front ++ mark :: span).length) := by
  have hfirst : (front ++ (mark :: span ++ left))[front.length]? = some mark := by simp
  have hstop : min (closingMark (front ++ (mark :: span ++ left)) mark (front.length + 1) + 1)
      (front ++ (mark :: span ++ left)).length = (front ++ mark :: span).length := by
    have hclosing := closingMark_append hne (front ++ [mark]) (span ++ left)
    rw [hspan] at hclosing
    simpa using hclosing
  have hslice := slice?_append front (mark :: span) left
  rw [turn?, hfirst, Option.bind_eq_bind, Option.bind_some, if_pos hmark]
  dsimp only
  rw [hstop, hslice]
  rfl

/-- A turn at a word puts out the word, or the text it is bound to. -/
theorem turn?_word {w : Word} {rest : List Char}
    (h : ∀ c ∈ rest.head?, continuesIdentifier c = false) (front : List Char) :
    turn? bound (front ++ (w.chars ++ rest)) front.length =
      some ((Segment.word w).rewritten bound front rest, (front ++ w.chars).length) := by
  have hfirst : (front ++ (w.chars ++ rest))[front.length]? = some w.first := by
    simp [Word.chars]
  have hstop : wordEnd (front ++ (w.chars ++ rest)) front.length = (front ++ w.chars).length := by
    rw [wordEnd_append, Word.chars, List.cons_append,
      List.takeWhile_cons_of_pos (continues_of_starts w.starts), (w.span_rest h).1]
  have hword := slice?_append front w.chars rest
  have hbefore : slice? (front ++ (w.chars ++ rest)) 0 front.length = some front :=
    slice?_append [] front (w.chars ++ rest)
  have hafter := slice?_append (front ++ w.chars) rest []
  rw [List.append_nil, List.append_assoc] at hafter
  rw [turn?, hfirst, Option.bind_eq_bind, Option.bind_some, w.first_ne, if_neg Bool.false_ne_true,
    if_pos w.starts]
  dsimp only
  rw [hstop, hword, hbefore, hafter, Segment.rewritten_word]
  rfl

/-- A turn rewrites the segment that stands at its position. -/
theorem turn?_segment (h : Cut (s :: rest)) (front : List Char) :
    turn? bound (front ++ spelled (s :: rest)) front.length =
      some (s.rewritten bound front (spelled rest), (front ++ s.chars).length) := by
  rw [spelled_cons]
  cases s with
  | word w => exact turn?_word h.1 front
  | quoted q =>
    have hspan := quotedSpan_of_isClosed q.mark_ne.2 q.closed (spelled rest)
    rw [List.append_cons] at hspan
    rw [Segment.chars, Quoted.chars]
    exact turn?_quote q.isMark q.mark_ne.2 hspan front
  | unclosed q =>
    obtain rfl : rest = [] := h
    have hspan := quotedSpan_of_isOpen q.isOpen
    rw [spelled, List.flatMap_nil]
    exact turn?_quote q.isMark q.mark_ne (by rw [List.append_nil, hspan]) front
  | single c hc =>
    have hfirst : (front ++ ([c] ++ spelled rest))[front.length]? = some c := by simp
    rw [isSingle, Bool.and_eq_true, Bool.not_eq_true', Bool.not_eq_true'] at hc
    rw [Segment.chars, turn?, hfirst, Option.bind_eq_bind, Option.bind_some, hc.1, hc.2]
    simp [Segment.rewritten, Segment.chars]

/-- The run rewrites all segments from its position on. -/
theorem scan?_spelled (h : Cut segments) (front : List Char) :
    scan? bound (front ++ spelled segments) front.length =
      some (rewritten bound front segments) := by
  induction segments generalizing front with
  | nil =>
    rw [scan?, if_neg, rewritten]
    simp [spelled]
  | cons s rest ih =>
    have hlt : front.length < (front ++ spelled (s :: rest)).length := by
      have hpos := List.length_pos_of_ne_nil s.chars_ne_nil
      simp only [spelled_cons, List.length_append]
      omega
    have hrest := ih h.tail (front ++ s.chars)
    rw [List.append_assoc, ← spelled_cons] at hrest
    rw [scan?_of_turn? hlt (turn?_segment h front), hrest]
    rfl

/-- Where no word is bound nothing changes. -/
theorem rewritten_of_unbound (h : ∀ w, .word w ∈ segments → bound w.text = none)
    (before : List Char) : rewritten bound before segments = spelled segments := by
  induction segments generalizing before with
  | nil => rfl
  | cons s rest ih =>
    have hs : s.rewritten bound before (spelled rest) = s.chars := by
      cases s with
      | word w => rw [Segment.rewritten, h w List.mem_cons_self, Segment.chars]
      | quoted | unclosed | single => rfl
    rw [rewritten, spelled_cons, hs, ih fun w hw => h w (List.mem_cons_of_mem _ hw)]

/-- Substitution is one pass over any text, well formed or not. The text is cut into segments in
exactly one way; the run by positions reads nothing outside of the text and ends; and what it ends
with are the segments one behind the other, where the texts that words are bound to stand for the
words that are neither members nor keys, and every other segment stands for itself. So a text is
left alone if no word in it is bound. -/
theorem substitute_rewrites_segments (bound : String → Option String) (text : String) :
    ∃ segments, Cut segments ∧ spelled segments = text.toList ∧
      (∀ other, Cut other → spelled other = text.toList → other = segments) ∧
      scan? bound text.toList 0 = some (substitute bound text).toList ∧
      (substitute bound text).toList = rewritten bound [] segments ∧
      ((∀ w, .word w ∈ segments → bound w.text = none) → substitute bound text = text) := by
  obtain ⟨segments, ⟨hcut, hspelled⟩, hunique⟩ := existsUnique_segments text.toList
  have hsubstitute : (substitute bound text).toList = rewritten bound [] segments := by
    rw [substitute, String.toList_ofList, ← hspelled, ← substituteChars_spelled hcut]
    rfl
  have hscan : scan? bound ([] ++ spelled segments) 0 = some (rewritten bound [] segments) :=
    scan?_spelled hcut []
  rw [List.nil_append, hspelled, ← hsubstitute] at hscan
  refine ⟨segments, hcut, hspelled, fun other h hother => hunique other ⟨h, hother⟩, hscan,
    hsubstitute, fun hbound => ?_⟩
  rw [← String.toList_inj, hsubstitute, rewritten_of_unbound hbound, hspelled]

/-- A key, a member and words in quotes, closed or not, stay; a parameter is put in parentheses, and
the name it is bound to itself is not replaced again. -/
theorem substitute_rewrites_segments_unclosed :
    substitute (fun name => if name == "T" then some "A | T" else none)
        "\x7b T : x.T & T, 'T' \"T\\" =
      "\x7b T : x.T & (A | T), 'T' \"T\\" := by
  obtain ⟨segments, hcut, hspelled, hunique, hscan, hsubstitute, hleft⟩ :=
    substitute_rewrites_segments (fun name => if name == "T" then some "A | T" else none)
      "\x7b T : x.T & T, 'T' \"T\\"
  let t : Segment := .word ⟨'T', [], by decide, rfl⟩
  let x : Segment := .word ⟨'x', [], by decide, rfl⟩
  let space : Segment := .single ' ' (by decide)
  have hsegments := hunique [.single '\x7b' (by decide), space, t, space, .single ':' (by decide),
    space, x, .single '.' (by decide), t, space, .single '&' (by decide), space, t,
    .single ',' (by decide), space, .quoted ⟨'\'', ['T'], by decide, by decide⟩, space,
    .unclosed ⟨'"', ['T', '\\'], by decide, by decide⟩] (by decide +kernel) (by decide +kernel)
  rw [← String.toList_inj, hsubstitute, ← hsegments]
  decide +kernel

end

end IpcWiring.TypeText
