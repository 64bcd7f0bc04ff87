import IpcWiring.Proofs.Script.Layout
import IpcWiring.Proofs.TypeText.Segments

/-!
# Stretches of a text

Any text, closed or not, falls into stretches in exactly one way (`existsUnique_stretches`): texts
in quotes, comments, blanks, and single characters. Quotes and block comments that are not closed
reach to the end of the text, so they are last.
-/

namespace IpcWiring.Script

open Text (isBlank)

/-- The character is kept by itself: it is no quote and not blank. -/
def isSingle (c : Char) : Bool := !isQuote c && !isBlank c

/-- What is kept by itself. -/
theorem isSingle_iff {c : Char} : isSingle c = true ↔ isQuote c = false ∧ isBlank c = false := by
  rw [isSingle, Bool.and_eq_true, Bool.not_eq_true', Bool.not_eq_true']

/-- A stretch of a text. A comment up to the end of its line stops before that end. -/
inductive Stretch where
  | quoted (q : TypeText.Quoted)
  | unclosed (q : TypeText.OpenQuoted)
  | line (text : List Char) (h : '\n' ∉ text)
  | block (text : List Char) (h : blockCommentLength? text = none) (closed : Bool)
  | blank (c : Char) (h : isBlank c = true)
  | single (c : Char) (h : isSingle c = true)

namespace Stretch

/-- The characters of a stretch. -/
def chars : Stretch → List Char
  | quoted q => q.chars
  | unclosed q => q.mark :: q.body
  | line text _ => '/' :: '/' :: text
  | block text _ closed => '/' :: '*' :: (text ++ if closed then ['*', '/'] else [])
  | blank c _ => [c]
  | single c _ => [c]

/-- The text of stretches. -/
def spelled (stretches : List Stretch) : List Char := stretches.flatMap chars

/-- This character, or the end of the text, can stand behind the stretch. -/
def Admits : Stretch → Option Char → Prop
  | quoted _, _ => True
  | unclosed _, next => next = none
  | line _ _, next => ∀ c ∈ next, c = '\n'
  | block _ _ closed, next => closed = false → next = none
  | blank _ _, _ => True
  | single c _, next => c = '/' → ∀ d ∈ next, d ≠ '/' ∧ d ≠ '*'

/-- A text is cut into the stretches: behind each one stands what can stand there. So a slash that
is a single character starts no comment. -/
def Cut : List Stretch → Prop
  | [] => True
  | s :: rest => s.Admits (spelled rest).head? ∧ Cut rest

/-- The text of one more stretch. -/
theorem spelled_cons (s : Stretch) (rest : List Stretch) :
    spelled (s :: rest) = s.chars ++ spelled rest := List.flatMap_cons

/-- A stretch is not empty. -/
theorem chars_ne_nil (s : Stretch) : s.chars ≠ [] := by
  cases s <;> exact List.cons_ne_nil _ _

/-- No stretches have no text. -/
theorem spelled_eq_nil_iff {stretches : List Stretch} :
    spelled stretches = [] ↔ stretches = [] := by
  cases stretches with
  | nil => exact iff_of_true rfl rfl
  | cons s rest =>
    rw [spelled_cons, List.append_eq_nil_iff]
    exact iff_of_false (fun h => s.chars_ne_nil h.1) (List.cons_ne_nil _ _)

/-- A text starts with the first character of its first stretch. -/
theorem head?_spelled_cons (s : Stretch) (rest : List Stretch) :
    (spelled (s :: rest)).head? = s.chars.head? := by
  rw [spelled_cons, List.head?_append_of_ne_nil _ s.chars_ne_nil]

end Stretch

open Stretch

/-! ## Cutting a text -/

/-- A text is closed somewhere as a comment, or nowhere. -/
theorem exists_comment (cs : List Char) : ∃ text closed rest, blockCommentLength? text = none ∧
    cs = text ++ (if closed then ['*', '/'] else []) ++ rest ∧ (closed = false → rest = []) := by
  fun_induction blockCommentLength? cs with
  | case1 rest => exact ⟨[], true, rest, rfl, rfl, nofun⟩
  | case2 c cs hclose ih =>
    obtain ⟨text, closed, rest, htext, rfl, hrest⟩ := ih
    refine ⟨c :: text, closed, rest, ?_, by simp, hrest⟩
    rw [blockCommentLength?, htext]
    · rfl
    · rintro more rfl rfl
      exact hclose _ rfl rfl
  | case3 => exact ⟨[], false, [], rfl, rfl, fun _ => rfl⟩

/-- A text that is not empty starts with a stretch. -/
theorem exists_stretch (c : Char) (cs : List Char) :
    ∃ (s : Stretch) (rest : List Char), c :: cs = s.chars ++ rest ∧ s.Admits rest.head? := by
  by_cases hquote : isQuote c = true
  · rcases TypeText.exists_closed_or_isOpen c cs with ⟨body, rest, hbody, rfl⟩ | hopen
    · exact ⟨.quoted ⟨c, body, hquote, hbody⟩, rest,
        (TypeText.Quoted.chars_append ⟨c, body, hquote, hbody⟩ rest).symm, trivial⟩
    · exact ⟨.unclosed ⟨c, cs, hquote, hopen⟩, [], (List.append_nil _).symm, rfl⟩
  by_cases hblank : isBlank c = true
  · exact ⟨.blank c hblank, cs, rfl, trivial⟩
  have hsingle := isSingle_iff.2 ⟨Bool.eq_false_iff.2 hquote, Bool.eq_false_iff.2 hblank⟩
  by_cases hline : c = '/' ∧ cs.head? = some '/'
  · obtain ⟨rfl, hcs⟩ := hline
    obtain ⟨inner, rfl⟩ := List.head?_eq_some_iff.1 hcs
    have hend : '\n' ∉ inner.takeWhile (· ≠ '\n') := by
      intro hmem
      have hnot := List.all_eq_true.1 List.all_takeWhile _ hmem
      exact of_decide_eq_true hnot rfl
    refine ⟨.line (inner.takeWhile (· ≠ '\n')) hend, inner.dropWhile (· ≠ '\n'), ?_, ?_⟩
    · rw [Stretch.chars, List.cons_append, List.cons_append, List.takeWhile_append_dropWhile]
    · intro d hd
      have hnot := List.head?_dropWhile_not (· ≠ '\n') inner
      rw [Option.mem_def.1 hd] at hnot
      simpa using hnot
  by_cases hblock : c = '/' ∧ cs.head? = some '*'
  · obtain ⟨rfl, hcs⟩ := hblock
    obtain ⟨inner, rfl⟩ := List.head?_eq_some_iff.1 hcs
    obtain ⟨text, closed, rest, htext, rfl, hrest⟩ := exists_comment inner
    exact ⟨.block text htext closed, rest, rfl, fun hclosed => by rw [hrest hclosed]; rfl⟩
  · refine ⟨.single c hsingle, cs, rfl, fun hc d hd => ⟨?_, ?_⟩⟩
    · rintro rfl
      exact hline ⟨hc, hd⟩
    · rintro rfl
      exact hblock ⟨hc, hd⟩

/-- Every text can be cut into stretches. -/
theorem exists_stretches (cs : List Char) :
    ∃ stretches, Cut stretches ∧ spelled stretches = cs := by
  induction hlength : cs.length using Nat.strongRecOn generalizing cs with
  | ind n ih =>
    subst hlength
    cases cs with
    | nil => exact ⟨[], trivial, rfl⟩
    | cons c cs =>
      obtain ⟨s, rest, hchars, hadmits⟩ := exists_stretch c cs
      have hshorter : rest.length < (c :: cs).length := by
        have hpos := List.length_pos_of_ne_nil s.chars_ne_nil
        rw [hchars, List.length_append]
        omega
      obtain ⟨stretches, hcut, rfl⟩ := ih _ hshorter rest rfl
      exact ⟨s :: stretches, ⟨hadmits, hcut⟩, by rw [spelled_cons, hchars]⟩

/-! ## The one way to cut a text -/

/-- What a text can start with. -/
inductive Stretch.Kind where
  | quotes
  | blank
  | line
  | block
  | single

/-- What a text starts with, by its first two characters. -/
def kindAt : List Char → Option Stretch.Kind
  | [] => none
  | c :: rest =>
    if isQuote c then some .quotes
    else if isBlank c then some .blank
    else if c = '/' ∧ rest.head? = some '/' then some .line
    else if c = '/' ∧ rest.head? = some '*' then some .block
    else some .single

/-- What a stretch starts with. -/
def Stretch.kind : Stretch → Stretch.Kind
  | quoted _ | unclosed _ => .quotes
  | line _ _ => .line
  | block _ _ _ => .block
  | blank _ _ => .blank
  | single _ _ => .single

section

variable {s s' : Stretch} {stretches stretches' rest rest' : List Stretch} {cs : List Char}

/-- The first two characters of a text tell what its first stretch is. -/
theorem Stretch.Admits.kindAt_eq (h : s.Admits cs.head?) :
    kindAt (s.chars ++ cs) = some s.kind := by
  cases s with
  | quoted q => exact if_pos q.isMark
  | unclosed q => exact if_pos q.isMark
  | line | block => rfl
  | blank c hc =>
    rw [Stretch.chars, List.singleton_append, kindAt, isQuote_of_isBlank hc, hc]
    rfl
  | single c hc =>
    rw [isSingle_iff] at hc
    have hline : ¬(c = '/' ∧ cs.head? = some '/') := fun hnext => (h hnext.1 _ hnext.2).1 rfl
    have hblock : ¬(c = '/' ∧ cs.head? = some '*') := fun hnext => (h hnext.1 _ hnext.2).2 rfl
    rw [Stretch.chars, List.singleton_append, kindAt, hc.1, hc.2, if_neg Bool.false_ne_true,
      if_neg Bool.false_ne_true, if_neg hline, if_neg hblock]
    rfl

/-- The text of a comment goes as far as its line. -/
theorem takeWhile_line {text : List Char} (htext : '\n' ∉ text) (h : ∀ c ∈ cs.head?, c = '\n') :
    (text ++ cs).takeWhile (· ≠ '\n') = text := by
  have hall : ∀ c ∈ text, decide (c ≠ '\n') = true := fun c hc =>
    decide_eq_true (ne_of_mem_of_not_mem hc htext)
  have hstop : cs.takeWhile (· ≠ '\n') = [] := by
    cases cs with
    | nil => rfl
    | cons c cs => exact List.takeWhile_cons_of_neg (by rw [h c rfl]; decide)
  rw [List.takeWhile_append_of_pos hall, hstop, List.append_nil]

/-- The text tells where a comment is closed. -/
theorem comment_unique {text text' cs' : List Char} {closed closed' : Bool}
    (htext : blockCommentLength? text = none) (htext' : blockCommentLength? text' = none)
    (hrest : closed = false → cs = []) (hrest' : closed' = false → cs' = [])
    (heq : text ++ (if closed then ['*', '/'] else []) ++ cs =
      text' ++ (if closed' then ['*', '/'] else []) ++ cs') :
    text = text' ∧ closed = closed' ∧ cs = cs' := by
  have hlength : ∀ {text cs : List Char} {closed : Bool}, blockCommentLength? text = none →
      (closed = false → cs = []) →
      blockCommentLength? (text ++ (if closed then ['*', '/'] else []) ++ cs) =
        if closed then some (text.length + 2) else none := by
    intro text cs closed htext hrest
    cases closed with
    | true => simpa using blockCommentLength?_append htext cs
    | false => simpa [hrest rfl] using htext
  have hsame := hlength htext hrest
  rw [heq, hlength htext' hrest'] at hsame
  cases closed with
  | true =>
    cases closed' with
    | true =>
      have htexts : text'.length = text.length := by simpa using hsame
      rw [List.append_assoc, List.append_assoc] at heq
      obtain ⟨rfl, hbehind⟩ := List.append_inj heq htexts.symm
      exact ⟨rfl, rfl, List.append_cancel_left hbehind⟩
    | false => cases hsame
  | false =>
    cases closed' with
    | true => cases hsame
    | false =>
      obtain rfl := hrest rfl
      obtain rfl := hrest' rfl
      exact ⟨by simpa using heq, rfl, rfl⟩

/-- The text tells its first stretch. -/
theorem Stretch.head_unique (h : Cut (s :: rest)) (h' : Cut (s' :: rest'))
    (heq : spelled (s :: rest) = spelled (s' :: rest')) :
    s = s' ∧ spelled rest = spelled rest' := by
  rw [spelled_cons, spelled_cons] at heq
  have hkind : s.kind = s'.kind := by
    have hfirst := h.1.kindAt_eq
    rw [heq, h'.1.kindAt_eq] at hfirst
    exact (Option.some.inj hfirst).symm
  cases s with
  | quoted q =>
    cases s' with
    | quoted q' =>
      obtain ⟨rfl, hrest⟩ := TypeText.Quoted.append_inj heq
      exact ⟨rfl, hrest⟩
    | unclosed q' =>
      obtain rfl := spelled_eq_nil_iff.1 (List.head?_eq_none_iff.1 h'.1)
      exact (q'.ne_append q _ (by simpa [Stretch.chars, spelled] using heq.symm)).elim
    | line | block | blank | single => cases hkind
  | unclosed q =>
    obtain rfl := spelled_eq_nil_iff.1 (List.head?_eq_none_iff.1 h.1)
    cases s' with
    | quoted q' => exact (q.ne_append q' _ (by simpa [Stretch.chars, spelled] using heq)).elim
    | unclosed q' =>
      obtain rfl := spelled_eq_nil_iff.1 (List.head?_eq_none_iff.1 h'.1)
      obtain rfl := TypeText.OpenQuoted.ext (List.append_cancel_right heq)
      exact ⟨rfl, rfl⟩
    | line | block | blank | single => cases hkind
  | line text htext =>
    cases s' with
    | line text' htext' =>
      have hinner : text ++ spelled rest = text' ++ spelled rest' :=
        (List.cons.inj (List.cons.inj heq).2).2
      have htake := takeWhile_line htext h.1
      rw [hinner, takeWhile_line htext' h'.1] at htake
      obtain rfl := htake
      exact ⟨rfl, List.append_cancel_left hinner⟩
    | quoted | unclosed | block | blank | single => cases hkind
  | block text htext closed =>
    cases s' with
    | block text' htext' closed' =>
      obtain ⟨rfl, rfl, hrest⟩ := comment_unique htext htext'
        (fun hclosed => List.head?_eq_none_iff.1 (h.1 hclosed))
        (fun hclosed => List.head?_eq_none_iff.1 (h'.1 hclosed))
        (List.cons.inj (List.cons.inj heq).2).2
      exact ⟨rfl, hrest⟩
    | quoted | unclosed | line | blank | single => cases hkind
  | blank c hc =>
    cases s' with
    | blank c' hc' =>
      obtain ⟨rfl, hrest⟩ := List.cons.inj heq
      exact ⟨rfl, hrest⟩
    | quoted | unclosed | line | block | single => cases hkind
  | single c hc =>
    cases s' with
    | single c' hc' =>
      obtain ⟨rfl, hrest⟩ := List.cons.inj heq
      exact ⟨rfl, hrest⟩
    | quoted | unclosed | line | block | blank => cases hkind

/-- The text tells all its stretches. -/
theorem Stretch.Cut.unique (h : Cut stretches) (h' : Cut stretches')
    (heq : spelled stretches = spelled stretches') : stretches = stretches' := by
  induction stretches generalizing stretches' with
  | nil => exact (spelled_eq_nil_iff.1 heq.symm).symm
  | cons s rest ih =>
    cases stretches' with
    | nil => exact spelled_eq_nil_iff.1 heq
    | cons s' rest' =>
      obtain ⟨rfl, hrest⟩ := head_unique h h' heq
      rw [ih h.2 h'.2 hrest]

/-- A text is cut into stretches in exactly one way. -/
theorem existsUnique_stretches (cs : List Char) :
    ∃! stretches, Cut stretches ∧ spelled stretches = cs := by
  obtain ⟨stretches, hcut, hspelled⟩ := exists_stretches cs
  refine ⟨stretches, ⟨hcut, hspelled⟩, fun stretches' h => ?_⟩
  exact h.1.unique hcut (h.2.trans hspelled.symm)

end

end IpcWiring.Script
