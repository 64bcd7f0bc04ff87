import IpcWiring.Proofs.TypeText.Exposed

/-!
# Segments of a text

Any text, well formed or not, falls into segments in exactly one way (`existsUnique_segments`):
texts in quotes, identifiers as long as they go, and single characters. Only the last segment can be
a text in quotes that are not closed. Substitution puts the texts that names are bound to in the
places of identifiers, but for members and keys, and copies all other segments
(`substituteChars_spelled`).
-/

namespace IpcWiring.TypeText

open IpcWiring.Text (isBlank startsIdentifier continuesIdentifier)

/-! ## Segments -/

/-- The mark occurs behind a backslash only. -/
def isOpen (mark : Char) : List Char → Bool
  | [] => true
  | '\\' :: _ :: rest => isOpen mark rest
  | c :: rest => c != mark && isOpen mark rest

/-- A text in quotes that are not closed. -/
structure OpenQuoted where
  mark : Char
  body : List Char
  isMark : (mark == '\'' || mark == '"' || mark == '`') = true
  isOpen : isOpen mark body = true

/-- The character is no quote and starts no identifier. -/
def isSingle (c : Char) : Bool := !(c == '\'' || c == '"' || c == '`') && !startsIdentifier c

/-- A segment of a text. Where no identifier goes on, a character that can only go on with one, such
as a digit, is a segment of its own, and an identifier can follow it. -/
inductive Segment where
  | word (w : Word)
  | quoted (q : Quoted)
  | unclosed (q : OpenQuoted)
  | single (c : Char) (h : isSingle c = true)

namespace Segment

/-- The characters of a segment. -/
def chars : Segment → List Char
  | word w => w.chars
  | quoted q => q.chars
  | unclosed q => q.mark :: q.body
  | single c _ => [c]

/-- The text of segments. -/
def spelled (segments : List Segment) : List Char := segments.flatMap chars

/-- A text is cut into the segments: behind an identifier the text does not go on with it, and
nothing stands behind quotes that are not closed. -/
def Cut : List Segment → Prop
  | [] => True
  | .word _ :: rest => (∀ c ∈ (spelled rest).head?, continuesIdentifier c = false) ∧ Cut rest
  | .unclosed _ :: rest => rest = []
  | .quoted _ :: rest => Cut rest
  | .single _ _ :: rest => Cut rest

instance decidableCut : DecidablePred Cut
  | [] => .isTrue trivial
  | .word _ :: rest =>
    have := decidableCut rest
    decidable_of_iff ((spelled rest).head?.all (!continuesIdentifier ·) = true ∧ Cut rest)
      (and_congr_left fun _ => by simp [Option.all_eq_true])
  | .unclosed _ :: rest => decidable_of_iff (rest.isEmpty = true) List.isEmpty_iff
  | .quoted _ :: rest => decidableCut rest
  | .single _ _ :: rest => decidableCut rest

/-- The text of one more segment. -/
theorem spelled_cons (s : Segment) (rest : List Segment) :
    spelled (s :: rest) = s.chars ++ spelled rest := List.flatMap_cons

end Segment

open Segment

/-! ## Quotes -/

section

variable {mark : Char} {body rest cs : List Char}

/-- Behind an opening mark the text is closed somewhere, or open to its end. -/
theorem exists_closed_or_isOpen (mark : Char) (cs : List Char) :
    (∃ body rest, isClosed mark body = true ∧ cs = body ++ mark :: rest) ∨
      isOpen mark cs = true := by
  fun_induction isOpen mark cs with
  | case1 => exact .inr rfl
  | case2 c cs ih =>
    refine ih.imp_left ?_
    rintro ⟨body, rest, hbody, rfl⟩
    exact ⟨'\\' :: c :: body, rest, hbody, rfl⟩
  | case3 c cs hpair ih =>
    by_cases hmark : c = mark
    · exact .inl ⟨[], cs, rfl, by rw [hmark, List.nil_append]⟩
    refine ih.imp ?_ fun hopen => ?_
    · rintro ⟨body, rest, hbody, rfl⟩
      refine ⟨c :: body, rest, ?_, rfl⟩
      rw [isClosed, hbody, Bool.and_true, bne_iff_ne]
      · exact hmark
      · rintro x xs rfl rfl
        exact hpair _ _ rfl rfl
      · rintro rfl rfl
        exact hpair _ _ rfl rfl
    · rw [hopen, Bool.and_true, bne_iff_ne]
      exact hmark

/-- A text that is open to its end is all that stands in quotes. -/
theorem quotedSpan_of_isOpen (h : isOpen mark cs = true) : quotedSpan mark cs = (cs, []) := by
  fun_induction isOpen mark cs with
  | case1 => rfl
  | case2 c cs ih =>
    rw [quotedSpan, ih h]
  | case3 c cs hpair ih =>
    rw [Bool.and_eq_true, bne_iff_ne] at h
    rw [quotedSpan, ih h.2, beq_eq_false_iff_ne.2 h.1]
    · rfl
    · exact hpair

/-- What is closed is not open to its end. -/
theorem isOpen_of_isClosed (hmark : mark ≠ '\\') (hbody : isClosed mark body = true)
    (rest : List Char) : isOpen mark (body ++ mark :: rest) = false := by
  fun_induction isClosed mark body with
  | case1 =>
    rw [List.nil_append, isOpen, bne_self_eq_false, Bool.false_and]
    exact fun _ _ heq => absurd heq hmark
  | case2 c body ih => exact ih hbody
  | case3 => cases hbody
  | case4 c body hpair hlast ih =>
    rw [Bool.and_eq_true] at hbody
    rw [List.cons_append, isOpen, ih hbody.2, Bool.and_false]
    rintro x xs rfl heq
    cases body with
    | nil => exact hlast rfl rfl
    | cons y ys => exact hpair y ys rfl rfl

end

/-! ## The one way to cut a text -/

section

variable {s s' : Segment} {segments segments' rest rest' : List Segment}

/-- No mark of quotes is a backslash. -/
theorem OpenQuoted.mark_ne (q : OpenQuoted) : q.mark ≠ '\\' := by
  intro heq
  have hmark := q.isMark
  rw [heq] at hmark
  revert hmark
  decide

/-- A segment is not empty. -/
theorem Segment.chars_ne_nil (s : Segment) : s.chars ≠ [] := by
  cases s <;> exact List.cons_ne_nil _ _

/-- No segments have no text. -/
theorem Segment.eq_nil_of_spelled (h : spelled segments = []) : segments = [] := by
  cases segments with
  | nil => rfl
  | cons s segments =>
    rw [spelled_cons, List.append_eq_nil_iff] at h
    exact (s.chars_ne_nil h.1).elim

/-- A text that is not empty starts with a segment. -/
theorem exists_segment (c : Char) (cs : List Char) : ∃ s rest, c :: cs = s.chars ++ rest ∧
    rest.length < (c :: cs).length ∧ ∀ segments, spelled segments = rest → Cut segments →
      Cut (s :: segments) := by
  by_cases hmark : (c == '\'' || c == '"' || c == '`') = true
  · rcases exists_closed_or_isOpen c cs with ⟨body, rest, hbody, rfl⟩ | hopen
    · refine ⟨.quoted ⟨c, body, hmark, hbody⟩, rest, ?_, ?_, fun _ _ hcut => hcut⟩
      · simp [Segment.chars, Quoted.chars]
      · simp only [List.length_cons, List.length_append]
        omega
    · refine ⟨.unclosed ⟨c, cs, hmark, hopen⟩, [], (List.append_nil _).symm, Nat.succ_pos _, ?_⟩
      exact fun segments hspelled _ => eq_nil_of_spelled hspelled
  · by_cases hstarts : startsIdentifier c = true
    · refine ⟨.word ⟨c, cs.takeWhile continuesIdentifier, hstarts, List.all_takeWhile⟩,
        cs.dropWhile continuesIdentifier, ?_, ?_, ?_⟩
      · rw [Segment.chars, Word.chars, List.cons_append, List.takeWhile_append_dropWhile]
      · exact Nat.lt_succ_of_le (List.dropWhile_suffix _).length_le
      · rintro segments hspelled hcut
        refine ⟨fun d hd => ?_, hcut⟩
        have hnot := List.head?_dropWhile_not continuesIdentifier cs
        rw [hspelled] at hd
        rwa [Option.mem_def.1 hd] at hnot
    · have hsingle : isSingle c = true := by
        rw [isSingle, Bool.eq_false_iff.2 hmark, Bool.eq_false_iff.2 hstarts]
        rfl
      exact ⟨.single c hsingle, cs, rfl, Nat.lt_succ_self _, fun _ _ hcut => hcut⟩

/-- Every text can be cut into segments. -/
theorem exists_segments (cs : List Char) : ∃ segments, Cut segments ∧ spelled segments = cs := by
  induction hlength : cs.length using Nat.strongRecOn generalizing cs with
  | ind n ih =>
    subst hlength
    cases cs with
    | nil => exact ⟨[], trivial, rfl⟩
    | cons c cs =>
      obtain ⟨s, rest, hchars, hshorter, hcut⟩ := exists_segment c cs
      obtain ⟨segments, hsegments, hspelled⟩ := ih _ hshorter rest rfl
      refine ⟨s :: segments, hcut segments hspelled hsegments, ?_⟩
      rw [spelled_cons, hspelled, hchars]

/-- What a segment is, by its first character. -/
def firstKind (c : Char) : Nat :=
  if c == '\'' || c == '"' || c == '`' then 0 else if startsIdentifier c then 1 else 2

/-- The kind of a segment. -/
def Segment.kind : Segment → Nat
  | .quoted _ | .unclosed _ => 0
  | .word _ => 1
  | .single _ _ => 2

/-- The first character tells the kind of a segment. -/
theorem Segment.kind_eq (s : Segment) (cs : List Char) :
    (s.chars ++ cs).head?.map firstKind = some s.kind := by
  cases s with
  | word w => exact congrArg some (by rw [firstKind, w.first_ne, w.starts]; rfl)
  | quoted q => exact congrArg some (if_pos q.isMark)
  | unclosed q => exact congrArg some (if_pos q.isMark)
  | single c h =>
    rw [isSingle, Bool.and_eq_true, Bool.not_eq_true', Bool.not_eq_true'] at h
    exact congrArg some (by rw [firstKind, h.1, h.2]; rfl)

/-- Text behind quotes that are closed. -/
theorem Quoted.chars_append (q : Quoted) (cs : List Char) :
    q.chars ++ cs = q.mark :: (q.body ++ q.mark :: cs) := by
  simp [Quoted.chars]

/-- The text tells where quotes are closed. -/
theorem Quoted.append_inj {q q' : Quoted} {cs cs' : List Char}
    (h : q.chars ++ cs = q'.chars ++ cs') : q = q' ∧ cs = cs' := by
  rw [q.chars_append, q'.chars_append] at h
  obtain ⟨hmark, hbody⟩ := List.cons.inj h
  have hclosed := quotedSpan_of_isClosed q.mark_ne.2 q.closed cs
  have hclosed' := quotedSpan_of_isClosed q'.mark_ne.2 q'.closed cs'
  rw [hbody, hmark, hclosed', Prod.mk.injEq, List.append_left_inj] at hclosed
  refine ⟨?_, hclosed.2.symm⟩
  cases q
  cases q'
  cases hmark
  cases hclosed.1
  rfl

/-- The text tells the quotes that are not closed. -/
theorem OpenQuoted.ext {q q' : OpenQuoted} (h : q.mark :: q.body = q'.mark :: q'.body) :
    q = q' := by
  obtain ⟨hmark, hbody⟩ := List.cons.inj h
  cases q
  cases q'
  cases hmark
  cases hbody
  rfl

/-- What is not closed does not start with a text in quotes that are. -/
theorem OpenQuoted.ne_append (q : OpenQuoted) (q' : Quoted) (cs : List Char) :
    q.mark :: q.body ≠ q'.chars ++ cs := by
  intro heq
  rw [q'.chars_append] at heq
  obtain ⟨hmark, hbody⟩ := List.cons.inj heq
  have hopen := isOpen_of_isClosed q'.mark_ne.2 q'.closed cs
  rw [← hbody, ← hmark, q.isOpen] at hopen
  cases hopen

/-- No text in quotes that are closed stands where others are not. -/
theorem not_quoted_of_unclosed {q : OpenQuoted} {q' : Quoted} {cs : List Char}
    (h : Cut (.unclosed q :: rest)) (heq : (unclosed q).chars ++ spelled rest = q'.chars ++ cs) :
    False := by
  obtain rfl : rest = [] := h
  rw [spelled, List.flatMap_nil, List.append_nil] at heq
  exact q.ne_append q' cs heq

/-- The text tells its first segment. -/
theorem head_unique (h : Cut (s :: rest)) (h' : Cut (s' :: rest'))
    (heq : s.chars ++ spelled rest = s'.chars ++ spelled rest') :
    s = s' ∧ spelled rest = spelled rest' := by
  have hkind : s.kind = s'.kind := by
    have hfirst := s.kind_eq (spelled rest)
    rw [heq, s'.kind_eq] at hfirst
    exact (Option.some.inj hfirst).symm
  cases s with
  | word w =>
    cases s' with
    | word w' =>
      obtain ⟨hw, hrest⟩ := w.span_rest h.1
      obtain ⟨hw', hrest'⟩ := w'.span_rest h'.1
      have hfirst : w.first = w'.first := (List.cons.inj heq).1
      have hothers : w.rest ++ spelled rest = w'.rest ++ spelled rest' := (List.cons.inj heq).2
      rw [hothers] at hw hrest
      have hchars : w.chars = w'.chars := by
        rw [Word.chars, Word.chars, hfirst, hw.symm.trans hw']
      exact ⟨congrArg Segment.word (Word.chars_inj.1 hchars), hrest.symm.trans hrest'⟩
    | quoted | unclosed | single => cases hkind
  | quoted q =>
    cases s' with
    | quoted q' =>
      obtain ⟨rfl, hrest⟩ := Quoted.append_inj heq
      exact ⟨rfl, hrest⟩
    | unclosed q' => exact (not_quoted_of_unclosed h' heq.symm).elim
    | word | single => cases hkind
  | unclosed q =>
    cases s' with
    | quoted q' => exact (not_quoted_of_unclosed h heq).elim
    | unclosed q' =>
      obtain rfl : rest = [] := h
      obtain rfl : rest' = [] := h'
      obtain rfl := OpenQuoted.ext (List.append_cancel_right heq)
      exact ⟨rfl, rfl⟩
    | word | single => cases hkind
  | single c hc =>
    cases s' with
    | single c' hc' =>
      obtain ⟨rfl, hrest⟩ := List.cons.inj heq
      exact ⟨rfl, hrest⟩
    | word | quoted | unclosed => cases hkind

/-- What stands behind a segment is cut as well. -/
theorem Segment.Cut.tail (h : Cut (s :: rest)) : Cut rest := by
  cases s with
  | word => exact h.2
  | quoted | single => exact h
  | unclosed =>
    obtain rfl : rest = [] := h
    trivial

/-- The text tells all its segments. -/
theorem Segment.Cut.unique (h : Cut segments) (h' : Cut segments')
    (heq : spelled segments = spelled segments') : segments = segments' := by
  induction segments generalizing segments' with
  | nil => exact (eq_nil_of_spelled heq.symm).symm
  | cons s rest ih =>
    cases segments' with
    | nil => exact eq_nil_of_spelled heq
    | cons s' rest' =>
      rw [spelled_cons, spelled_cons] at heq
      obtain ⟨rfl, hrest⟩ := head_unique h h' heq
      rw [ih h.tail h'.tail hrest]

/-- A text is cut into segments in exactly one way. -/
theorem existsUnique_segments (cs : List Char) :
    ∃! segments, Cut segments ∧ spelled segments = cs := by
  obtain ⟨segments, hcut, hspelled⟩ := exists_segments cs
  refine ⟨segments, ⟨hcut, hspelled⟩, fun segments' h => ?_⟩
  exact h.1.unique hcut (h.2.trans hspelled.symm)

end

/-! ## Places of words -/

/-- The last character that is not blank. -/
def previous? (cs : List Char) : Option Char := cs.reverse.find? (!isBlank ·)

/-- Behind this text a word is the member of something. -/
def IsMember (before : List Char) : Prop := previous? before = some '.'

/-- Between these texts a word is a key: blanks aside, it stands behind `{`, `;`, `,` or `(` and
before `:` or `?`. -/
def IsKey (before after : List Char) : Prop :=
  (∃ c ∈ previous? before, c ∈ ['\x7b', ';', ',', '(']) ∧ ∃ c ∈ next? after, c ∈ [':', '?']

instance (before : List Char) : Decidable (IsMember before) :=
  inferInstanceAs (Decidable (_ = _))

instance (before after : List Char) : Decidable (IsKey before after) :=
  decidable_of_iff ((previous? before).any (· ∈ ['\x7b', ';', ',', '(']) = true ∧
    (next? after).any (· ∈ [':', '?']) = true) (by simp only [IsKey, Option.any_eq_true,
      decide_eq_true_eq, Option.mem_def])

/-- What stands for a segment between two texts: for a word that is bound, neither a member nor a
key, the text it is bound to, in parentheses if that is compound, and else the segment itself. -/
def Segment.rewritten (bound : String → Option String) (before after : List Char) :
    Segment → List Char
  | .word w =>
    match bound w.text with
    | some value =>
      if IsMember before ∨ IsKey before after then w.chars
      else if isCompound value.toList then '(' :: value.toList ++ [')'] else value.toList
    | none => w.chars
  | s => s.chars

/-- What stands for segments behind a text, one behind the other. -/
def rewritten (bound : String → Option String) : List Char → List Segment → List Char
  | _, [] => []
  | before, s :: rest =>
    s.rewritten bound before (spelled rest) ++ rewritten bound (before ++ s.chars) rest

/-- A word can be a parameter where it is neither a member nor a key. -/
theorem isParameterPlace_eq (before after : List Char) :
    isParameterPlace (previous? before) (next? after) =
      !decide (IsMember before ∨ IsKey before after) := by
  rw [Bool.eq_iff_iff, Bool.not_eq_true', decide_eq_false_iff_not]
  unfold isParameterPlace IsMember IsKey
  cases previous? before with
  | none => simp
  | some c =>
    cases next? after with
    | none => simp
    | some d =>
      have hbehind : (∃ x ∈ some c, x ∈ ['\x7b', ';', ',', '(']) ↔
          "\x7b;,(".toList.contains c = true := by simp
      have hbefore : (∃ x ∈ some d, x ∈ [':', '?']) ↔
          (some d == some ':' || some d == some '?') = true := by simp
      rw [hbehind, hbefore]
      simp [imp_iff_not_or]

/-- A word is rewritten as one pass does. -/
theorem Segment.rewritten_word (bound : String → Option String) (before after : List Char)
    (w : Word) : (Segment.word w).rewritten bound before after =
      match bound w.text with
      | some value =>
        if isParameterPlace (previous? before) (next? after) then grouped value.toList else w.chars
      | none => w.chars := by
  rw [Segment.rewritten, isParameterPlace_eq]
  cases bound w.text with
  | none => rfl
  | some value =>
    by_cases hplace : IsMember before ∨ IsKey before after <;> simp [hplace, grouped]

section

variable {before cs : List Char}

/-- The last character that is not blank behind one more character. -/
theorem previous?_snoc (before : List Char) (c : Char) :
    previous? (before ++ [c]) = if isBlank c then previous? before else some c := by
  rw [previous?, List.reverse_append, List.reverse_singleton, List.singleton_append,
    List.find?_cons]
  cases isBlank c <;> rfl

/-- The last character that is not blank is found in the text that ends in one. -/
theorem previous?_append (hne : cs ≠ []) (h : ∀ c ∈ cs.getLast?, isBlank c = false) :
    previous? (before ++ cs) = cs.getLast? := by
  obtain ⟨init, c, rfl⟩ := (List.eq_nil_or_concat cs).resolve_left hne
  rw [List.concat_eq_append, List.getLast?_concat] at h ⊢
  rw [← List.append_assoc, previous?_snoc, h c rfl]
  rfl

end

/-! ## Rewriting -/

section

variable {bound : String → Option String} {segments : List Segment}

/-- A single character is left alone. -/
theorem substituteChars_single {c : Char} (h : isSingle c = true) (before : Option Char)
    (rest : List Char) : substituteChars bound before (c :: rest) =
      c :: substituteChars bound (if isBlank c then before else some c) rest := by
  rw [isSingle, Bool.and_eq_true, Bool.not_eq_true', Bool.not_eq_true'] at h
  rw [substituteChars, h.1, h.2]
  rfl

/-- What is not closed is left alone. -/
theorem substituteChars_unclosed (q : OpenQuoted) (before : Option Char) :
    substituteChars bound before (q.mark :: q.body) = q.mark :: q.body := by
  have hspan := quotedSpan_of_isOpen q.isOpen
  rw [substituteChars, if_pos q.isMark]
  simp only [hspan]
  rw [substituteChars, List.append_nil]

/-- Substitution rewrites each segment of a text. -/
theorem substituteChars_spelled (h : Cut segments) (before : List Char) :
    substituteChars bound (previous? before) (spelled segments) =
      rewritten bound before segments := by
  induction segments generalizing before with
  | nil => rw [spelled, List.flatMap_nil, substituteChars, rewritten]
  | cons s rest ih =>
    have hrest := ih h.tail (before ++ s.chars)
    rw [spelled_cons, rewritten, ← hrest]
    cases s with
    | word w =>
      have hlast : previous? (before ++ w.chars) = w.chars.getLast? :=
        previous?_append (List.cons_ne_nil _ _) fun c hc =>
          (w.not_blank c (List.mem_of_mem_getLast? hc)).2
      rw [Segment.chars, hlast, Segment.rewritten_word]
      exact substituteChars_word w h.1
    | quoted q =>
      have hlast : previous? (before ++ q.chars) = some q.mark := by
        have hend : q.chars.getLast? = some q.mark := List.getLast?_concat
        have hne : q.chars ≠ [] := List.cons_ne_nil _ _
        rw [previous?_append hne, hend]
        rw [hend]
        intro c hc
        rw [← Option.some.inj hc]
        exact q.mark_ne.1
      rw [Segment.chars, substituteChars_quoted, hlast]
      rfl
    | unclosed q =>
      obtain rfl : rest = [] := h
      rw [spelled, List.flatMap_nil, List.append_nil, substituteChars, List.append_nil]
      exact substituteChars_unclosed q _
    | single c hc =>
      rw [Segment.chars, List.singleton_append, substituteChars_single hc, previous?_snoc]
      rfl

end

end IpcWiring.TypeText
