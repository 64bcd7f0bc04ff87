import Mathlib.Algebra.GroupWithZero.Nat
import IpcWiring.Proofs.Blank
import IpcWiring.Script.Reader

/-!
# Tokens and the gaps between them

A text is read as a token if the token's characters come first and what comes behind does not go on
with it (`scanToken_word`, `scanToken_quoted`, `scanToken_mark`), and the next token is found behind any
blanks and comments (`nextLexeme_gaps`). A comment up to the end of its line takes that end with it,
so every gap is one for whoever squeezes the text as well.
-/

namespace IpcWiring.Script

open Text (isBlank)

/-- What is in a list is in none that is found to have nothing in common with it. -/
theorem not_mem_of_all_not {α : Type} [DecidableEq α] {a : α} {as bs : List α}
    (h : as.all (fun b => !bs.contains b) = true) (ha : a ∈ as) : a ∉ bs := by
  have hnot := List.all_eq_true.1 h a ha
  rwa [Bool.not_eq_true', ← Bool.not_eq_true, List.contains_iff_mem] at hnot

/-! ## Cursors -/

/-- The number of bytes of some characters. -/
def byteSize (cs : List Char) : Nat := (cs.map Char.utf8Size).sum

/-- The bytes of texts one after the other. -/
theorem byteSize_append (a b : List Char) : byteSize (a ++ b) = byteSize a + byteSize b := by
  rw [byteSize, List.map_append, List.sum_append_nat]
  rfl

/-- The bytes of one more character. -/
theorem byteSize_cons (c : Char) (a : List Char) : byteSize (c :: a) = c.utf8Size + byteSize a :=
  rfl

/-- A cursor goes past the characters that it stands before. -/
theorem Cursor.skip_append (a b : List Char) (pos : Nat) :
    (⟨a ++ b, pos⟩ : Cursor).skip a.length = ⟨b, pos + byteSize a⟩ := by
  induction a generalizing pos with
  | nil => rfl
  | cons c a ih =>
    change (⟨a ++ b, pos + c.utf8Size⟩ : Cursor).skip a.length = _
    rw [ih, byteSize_cons, Nat.add_assoc]

/-! ## Gaps -/

/-- A blank is a gap. -/
theorem isGap_of_isBlank {c : Char} (h : isBlank c = true) : isGap c = true := by
  rw [isGap, h, Bool.true_or, Bool.true_or, Bool.true_or]

/-- A blank or a comment. A comment up to the end of its line has that end in it. -/
inductive Gap where
  | blank (c : Char) (h : isBlank c = true)
  | line (text : List Char) (h : ∀ c ∈ text, endsLine c = false) (carriageReturn : Bool)
  | block (text : List Char) (h : blockCommentLength? text = none)

namespace Gap

/-- How a gap is written. -/
def chars : Gap → List Char
  | blank c _ => [c]
  | line text _ carriageReturn =>
    '/' :: '/' :: (text ++ if carriageReturn then ['\r', '\n'] else ['\n'])
  | block text _ => '/' :: '*' :: (text ++ ['*', '/'])

/-- A line ends in the gap. -/
def breaks : Gap → Bool
  | blank c _ => endsLine c
  | line .. => true
  | block text _ => text.any endsLine

/-- A gap is not empty. -/
theorem length_pos (g : Gap) : 0 < g.chars.length := by
  cases g <;> exact Nat.succ_pos _

end Gap

/-- Blanks and comments, as they stand one after the other. -/
abbrev Gaps := List Gap

namespace Gaps

/-- How gaps are written. -/
def chars (gaps : Gaps) : List Char := gaps.flatMap Gap.chars

/-- A line ends in the gaps. -/
def breaks (gaps : Gaps) : Bool := gaps.any Gap.breaks

end Gaps

/-- The text starts with a token. -/
def Solid (cs : List Char) : Prop := ∃ c rest, cs = c :: rest ∧ isGap c = false ∧ c ≠ '/'

/-- A comment is closed where its text ends. -/
theorem blockCommentLength?_append {text : List Char} (h : blockCommentLength? text = none)
    (rest : List Char) :
    blockCommentLength? (text ++ '*' :: '/' :: rest) = some (text.length + 2) := by
  induction text with
  | nil => rfl
  | cons c text ih =>
    have hopen : ∀ more, text ++ '*' :: '/' :: rest = '/' :: more → c ≠ '*' := by
      rintro more hmore rfl
      cases text with
      | nil => cases hmore
      | cons d text =>
        obtain rfl := (List.cons.inj hmore).1
        cases h
    have htext : blockCommentLength? text = none := by
      rw [blockCommentLength?.eq_def] at h
      split at h
      · cases h
      · next heq =>
        obtain ⟨-, rfl⟩ := List.cons.inj heq
        exact Option.map_eq_none_iff.1 h
      · next heq => cases heq
    rw [List.cons_append, blockCommentLength?, ih htext]
    · rfl
    · exact fun _ hc hmore => hopen _ hmore hc

/-- A character that starts no comment is read by itself. -/
theorem skipGaps_cons {c : Char} (hc : c ≠ '/') (rest : List Char) (fuel pos : Nat) (seen : Bool) :
    skipGaps (fuel + 1) ⟨c :: rest, pos⟩ seen =
      if isGap c then skipGaps fuel ⟨rest, pos + c.utf8Size⟩ (seen || endsLine c)
      else (⟨c :: rest, pos⟩, seen) := by
  rw [skipGaps.eq_def]
  split
  · next h => cases h
  · next fuel' heq =>
    cases heq
    split
    · next h => exact (hc (List.cons.inj h).1).elim
    · next h => exact (hc (List.cons.inj h).1).elim
    · next h =>
      cases h
      rfl
    · next h => cases h

/-- A character is found up to which others satisfy a condition. -/
theorem takeWhile_append_cons {p : Char → Bool} {a : List Char} (ha : ∀ c ∈ a, p c = true)
    {c : Char} (hc : p c = false) (rest : List Char) :
    (a ++ c :: rest).takeWhile p = a := by
  rw [List.takeWhile_append_of_pos ha,
    List.takeWhile_cons_of_neg (by rw [hc]; exact Bool.noConfusion), List.append_nil]

/-- A comment up to the end of its line is skipped up to that end. -/
theorem skipGaps_line {text : List Char} (h : ∀ c ∈ text, endsLine c = false) {stop : Char}
    (hstop : endsLine stop = true) (rest : List Char) (fuel pos : Nat) (seen : Bool) :
    skipGaps (fuel + 1) ⟨'/' :: '/' :: (text ++ stop :: rest), pos⟩ seen =
      skipGaps fuel ⟨stop :: rest, pos + byteSize ('/' :: '/' :: text)⟩ seen := by
  have htext : ∀ c ∈ '/' :: '/' :: text, (!endsLine c) = true :=
    List.forall_mem_cons.2 ⟨rfl, List.forall_mem_cons.2 ⟨rfl, fun c hc => by rw [h c hc]; rfl⟩⟩
  have htake := takeWhile_append_cons htext (c := stop) (by rw [hstop]; rfl) rest
  rw [List.cons_append, List.cons_append] at htake
  change skipGaps fuel (Cursor.skip _ (List.takeWhile _ _).length) seen = _
  rw [htake]
  have hskip := Cursor.skip_append ('/' :: '/' :: text) (stop :: rest) pos
  rw [List.cons_append, List.cons_append] at hskip
  rw [hskip]

/-- A closed comment is skipped. -/
theorem skipGaps_block {text : List Char} (h : blockCommentLength? text = none)
    (rest : List Char) (fuel pos : Nat) (seen : Bool) :
    skipGaps (fuel + 1) ⟨(Gap.block text h).chars ++ rest, pos⟩ seen =
      skipGaps fuel ⟨rest, pos + byteSize (Gap.block text h).chars⟩
        (seen || text.any endsLine) := by
  have hinner : (Gap.block text h).chars ++ rest = '/' :: '*' :: (text ++ '*' :: '/' :: rest) := by
    simp only [Gap.chars, List.cons_append, List.append_assoc, List.nil_append]
  have hskip := Cursor.skip_append (Gap.block text h).chars rest pos
  rw [hinner] at hskip ⊢
  have hlength : (Gap.block text h).chars.length = text.length + 2 + 2 := by
    simp only [Gap.chars, List.length_cons, List.length_append, List.length_nil]
  have htake : (text ++ '*' :: '/' :: rest).take (text.length + 2) = text ++ ['*', '/'] := by
    rw [List.take_length_add_append]
    rfl
  rw [hlength] at hskip
  have hcomment := blockCommentLength?_append h rest
  change skipGaps fuel (Cursor.skip _ (Option.getD _ _ + 2))
    (seen || (List.take (Option.getD _ _) _).any endsLine) = _
  rw [hcomment, Option.getD_some, hskip, htake, List.any_append]
  congr 2
  exact Bool.or_false _

/-- A blank is skipped. -/
theorem skipGaps_blank {c : Char} (h : isBlank c = true) (rest : List Char) (fuel pos : Nat)
    (seen : Bool) :
    skipGaps (fuel + 1) ⟨c :: rest, pos⟩ seen =
      skipGaps fuel ⟨rest, pos + c.utf8Size⟩ (seen || endsLine c) := by
  have hslash : c ≠ '/' := by
    rintro rfl
    cases h
  rw [skipGaps_cons hslash, if_pos (isGap_of_isBlank h)]

/-- The fuel that a gap needs. -/
def Gap.steps : Gap → Nat
  | blank .. => 1
  | line _ _ carriageReturn => if carriageReturn then 3 else 2
  | block .. => 1

/-- A gap needs no more fuel than it has characters. -/
theorem Gap.steps_le (g : Gap) : g.steps ≤ g.chars.length := by
  cases g with
  | blank c h => exact Nat.le_refl 1
  | line text h carriageReturn => cases carriageReturn <;> simp [steps, chars]
  | block text h => simp [steps, chars]

/-- A gap is skipped. -/
theorem skipGaps_gap (g : Gap) (rest : List Char) (fuel pos : Nat) (seen : Bool) :
    skipGaps (fuel + g.steps) ⟨g.chars ++ rest, pos⟩ seen =
      skipGaps fuel ⟨rest, pos + byteSize g.chars⟩ (seen || g.breaks) := by
  cases g with
  | blank c h => exact skipGaps_blank h rest fuel pos seen
  | block text h => exact skipGaps_block h rest fuel pos seen
  | line text h carriageReturn =>
    cases carriageReturn with
    | false =>
      have hchars : (Gap.line text h false).chars = ('/' :: '/' :: text) ++ ['\n'] := rfl
      rw [hchars, byteSize_append, List.append_assoc, ← Nat.add_assoc]
      refine (skipGaps_line h rfl rest (fuel + 1) pos seen).trans ?_
      exact skipGaps_blank rfl rest fuel _ seen
    | true =>
      have hchars : (Gap.line text h true).chars = ('/' :: '/' :: text) ++ ['\r', '\n'] := rfl
      rw [hchars, byteSize_append, List.append_assoc, ← Nat.add_assoc]
      refine (skipGaps_line h rfl ('\n' :: rest) (fuel + 2) pos seen).trans ?_
      refine (skipGaps_blank rfl ('\n' :: rest) (fuel + 1) _ seen).trans ?_
      refine (skipGaps_blank rfl rest fuel _ _).trans ?_
      rw [Bool.or_assoc]
      rfl

/-- Gaps are skipped up to the token behind them. -/
theorem skipGaps_gaps {rest : List Char} (hrest : Solid rest) (gaps : Gaps) {fuel : Nat}
    (hfuel : gaps.chars.length < fuel) (pos : Nat) (seen : Bool) :
    skipGaps fuel ⟨gaps.chars ++ rest, pos⟩ seen =
      (⟨rest, pos + byteSize gaps.chars⟩, seen || gaps.breaks) := by
  induction gaps generalizing fuel pos seen with
  | nil =>
    obtain ⟨c, rest, rfl, hgap, hslash⟩ := hrest
    obtain ⟨fuel, rfl⟩ := Nat.exists_eq_succ_of_ne_zero (Nat.ne_zero_of_lt hfuel)
    refine (skipGaps_cons hslash rest fuel pos seen).trans ?_
    rw [hgap, if_neg Bool.false_ne_true]
    exact congrArg _ (Bool.or_false seen).symm
  | cons g gaps ih =>
    have hchars : Gaps.chars (g :: gaps) = g.chars ++ Gaps.chars gaps := List.flatMap_cons
    have hbreaks : Gaps.breaks (g :: gaps) = (g.breaks || Gaps.breaks gaps) := List.any_cons
    have hsteps := g.steps_le
    rw [hchars, List.length_append] at hfuel
    obtain ⟨fuel, rfl⟩ := Nat.exists_eq_add_of_le' (show g.steps ≤ fuel by omega)
    rw [hchars, hbreaks, List.append_assoc, byteSize_append, ← Nat.add_assoc, ← Bool.or_assoc,
      skipGaps_gap, ih (by omega)]

/-! ## Tokens in their places -/

/-- The token that starts where a cursor stands. -/
def lexemeAt (c : Cursor) (onNewLine : Bool) : Lexeme :=
  let (token, n) := scanToken c.rest
  ⟨token, c, c.skip n, onNewLine⟩

/-- The next token stands behind the gaps. -/
theorem nextLexeme_gaps (gaps : Gaps) {rest : List Char} (hrest : Solid rest) (pos : Nat) :
    nextLexeme ⟨gaps.chars ++ rest, pos⟩ =
      lexemeAt ⟨rest, pos + byteSize gaps.chars⟩ gaps.breaks := by
  have hfuel : gaps.chars.length < (gaps.chars ++ rest).length + 1 := by
    rw [List.length_append]
    omega
  have hskip := skipGaps_gaps hrest gaps hfuel pos false
  rw [nextLexeme, hskip]
  rfl

/-! ## Words -/

/-- A name or keyword without escapes. -/
structure Word where
  first : Char
  others : List Char
  starts : startsName first = true
  continues : others.all continuesName = true

namespace Word

/-- The characters of a word. -/
def chars (w : Word) : List Char := w.first :: w.others

/-- The text of a word. -/
def text (w : Word) : String := String.ofList w.chars

end Word

/-- A character that starts a name may also go on with one. -/
theorem continuesName_of_startsName {c : Char} (h : startsName c = true) :
    continuesName c = true := by
  rw [continuesName, h, Bool.true_or, Bool.true_or]

/-- All characters of a word go on with names. -/
theorem Word.continuesName_of_mem (w : Word) : ∀ c ∈ w.chars, continuesName c = true :=
  List.forall_mem_cons.2 ⟨continuesName_of_startsName w.starts, List.all_eq_true.1 w.continues⟩

/-- A blank is in no name. -/
theorem continuesName_of_isBlank {c : Char} (h : isBlank c = true) : continuesName c = false := by
  have hnone := Text.all_of_isBlank (p := fun c => !continuesName c) (by decide +kernel) h
  rwa [Bool.not_eq_true'] at hnone

/-- A character of a name is no gap. -/
theorem isGap_of_continuesName {c : Char} (h : continuesName c = true) : isGap c = false := by
  have hblank : isBlank c = false := by
    rw [← Bool.not_eq_true]
    intro hblank
    rw [continuesName_of_isBlank hblank] at h
    cases h
  have hchar : ∀ d, continuesName d = false → (c == d) = false := by
    intro d hd
    rw [beq_eq_false_iff_ne]
    rintro rfl
    rw [h] at hd
    cases hd
  have hcode : ∀ n, continuesName (Char.ofNat n) = false → (c.toNat == n) = false := by
    intro n hn
    have hne := hchar _ hn
    rw [beq_eq_false_iff_ne] at hne ⊢
    rintro rfl
    exact hne (Char.ofNat_toNat c).symm
  rw [isGap, hblank, endsLine, hchar '\n' (by decide), hchar '\r' (by decide),
    hcode 0x2028 (by decide +kernel), hcode 0x2029 (by decide +kernel),
    hcode 0x200B (by decide +kernel), hcode 0xFEFF (by decide +kernel)]
  rfl

/-- The text does not go on with a word before it. -/
def Apart (rest : List Char) : Prop := ∀ c ∈ rest.head?, continuesName c = false ∧ c ≠ '\\'

/-- A name ends where no character goes on with it. -/
theorem nameBody_append {name : List Char} (hname : ∀ c ∈ name, continuesName c = true)
    {rest : List Char} (hrest : Apart rest) :
    nameBody 0 (name ++ rest) = (name, name.length, false) := by
  induction name with
  | nil =>
    cases rest with
    | nil => rfl
    | cons c rest =>
      obtain ⟨hc, hslash⟩ := hrest c rfl
      rw [List.nil_append, nameBody.eq_def]
      simp only [hc, Bool.false_eq_true, if_false]
      split
      · exact (hslash rfl).elim
      · rfl
  | cons c name ih =>
    obtain ⟨hc, hname⟩ := List.forall_mem_cons.1 hname
    rw [List.cons_append, nameBody.eq_def]
    simp only [hc, if_true, ih hname]
    rfl

/-- A word is read whole. -/
theorem scanToken_word (w : Word) {rest : List Char} (hrest : Apart rest) :
    scanToken (w.chars ++ rest) = (.word w.text, w.chars.length) := by
  have hbody := nameBody_append w.continuesName_of_mem hrest
  have hstart : (startsName w.first || w.first == '\\') = true := by rw [w.starts, Bool.true_or]
  rw [Word.chars, List.cons_append, scanToken, if_pos hstart]
  rw [Word.chars, List.cons_append] at hbody
  rw [hbody]
  rfl

/-! ## Texts in quotes -/

/-- A text in single or double quotes, without escapes. -/
structure Quoted where
  double : Bool
  body : List Char
  closed : ∀ c ∈ body, c ≠ (if double then '"' else '\'') ∧ c ≠ '\\' ∧ c ≠ '\n' ∧ c ≠ '\r'

namespace Quoted

/-- The quotes. -/
def mark (q : Quoted) : Char := if q.double then '"' else '\''

/-- How the text is written. -/
def chars (q : Quoted) : List Char := q.mark :: (q.body ++ [q.mark])

/-- The text that is quoted. -/
def text (q : Quoted) : String := String.ofList q.body

/-- There are two quotes. -/
theorem mark_cases (q : Quoted) : q.mark = '"' ∨ q.mark = '\'' := by
  rw [mark]
  cases q.double with
  | true => exact .inl rfl
  | false => exact .inr rfl

end Quoted

/-- A string goes to its closing quote. -/
theorem stringBody?_append {mark : Char} {body : List Char}
    (h : ∀ c ∈ body, c ≠ mark ∧ c ≠ '\\' ∧ c ≠ '\n' ∧ c ≠ '\r') (rest : List Char) :
    stringBody? mark 0 (body ++ mark :: rest) = some (body, body.length + 1) := by
  induction body with
  | nil => simp [stringBody?]
  | cons c body ih =>
    obtain ⟨⟨hmark, hslash, hnewline, hreturn⟩, hbody⟩ := List.forall_mem_cons.1 h
    simp [stringBody?, hmark, hslash, hnewline, hreturn, ih hbody]

/-- A quoted text is read whole. -/
theorem scanToken_quoted (q : Quoted) (rest : List Char) :
    scanToken (q.chars ++ rest) = (.string q.text, q.chars.length) := by
  have hbody := stringBody?_append q.closed rest
  have hchars : q.chars ++ rest = q.mark :: (q.body ++ q.mark :: rest) := by
    simp [Quoted.chars]
  have hstart : (startsName q.mark || q.mark == '\\') = false := by
    rcases q.mark_cases with h | h <;> rw [h] <;> decide
  have hquote : (q.mark == '"' || q.mark == '\'') = true := by
    rcases q.mark_cases with h | h <;> rw [h] <;> rfl
  have hlength : q.chars.length = q.body.length + 1 + 1 := by simp [Quoted.chars]
  change stringBody? q.mark 0 (q.body ++ q.mark :: rest) = _ at hbody
  rw [hchars, hlength, scanToken, hstart, if_neg Bool.false_ne_true, if_pos hquote, hbody]
  rfl

/-! ## Marks -/

/-- The two characters start a mark of more than one. -/
def fuses (c d : Char) : Bool := longMarks.any (·.toList.take 2 == [c, d])

/-- The text does not go on with a mark before it. -/
def Lone (c : Char) (rest : List Char) : Prop := ∀ d ∈ rest.head?, fuses c d = false

/-- No mark of more than one character is next. -/
theorem find?_longMarks {c : Char} {rest : List Char} (h : Lone c rest) (q : String → Bool) :
    longMarks.find? (fun m => m.toList.isPrefixOf (c :: rest) && q m) = none := by
  rw [List.find?_eq_none]
  intro m hm hfound
  have hlong : 2 ≤ m.toList.length := by
    have hall : longMarks.all (2 ≤ ·.toList.length) = true := by decide
    exact of_decide_eq_true (List.all_eq_true.1 hall m hm)
  obtain ⟨hfront, -⟩ := Bool.and_eq_true_iff.1 hfound
  obtain ⟨more, hmore⟩ := List.isPrefixOf_iff_prefix.1 hfront
  have htwo : m.toList.take 2 = (c :: rest).take 2 := by
    rw [← hmore, List.take_append_of_le_length hlong]
  cases rest with
  | nil =>
    have hlength := congrArg List.length htwo
    rw [List.length_take, Nat.min_eq_left hlong] at hlength
    cases hlength
  | cons d rest =>
    have hnone := h d rfl
    rw [fuses, List.any_eq_false] at hnone
    exact hnone m hm (beq_iff_eq.2 htwo)

/-- A mark of one character is read alone. -/
theorem markOf?_lone {c : Char} {rest : List Char} (hc : markChars.contains c = true)
    (h : Lone c rest) : markOf? (c :: rest) = some (String.ofList [c]) := by
  have hlong := find?_longMarks h
    fun m => !(m == "?." && (((c :: rest)[2]?.map Char.isDigit).getD false))
  rw [markOf?.eq_def]
  simp only [hlong]
  exact if_pos hc

/-- The marks that are read here. -/
def typeMarkChars : List Char := ['\x7b', '\x7d', '[', ']', '<', '>', ',', ';', ':', '?', '|', '=']

/-- A mark is read alone. -/
theorem scanToken_mark {c : Char} {rest : List Char} (hc : c ∈ typeMarkChars) (h : Lone c rest) :
    scanToken (c :: rest) = (.mark (String.ofList [c]), 1) := by
  have hall : typeMarkChars.all (fun c => !startsName c && c != '\\' && c != '"' && c != '\'' &&
      c != '`' && !c.isDigit && c != '.' && c != '#' && markChars.contains c) = true := by
    decide
  have hkind := List.all_eq_true.1 hall c hc
  simp only [Bool.and_eq_true, Bool.not_eq_true', bne_iff_ne] at hkind
  obtain ⟨⟨⟨⟨⟨⟨⟨⟨hstart, hslash⟩, hdouble⟩, hsingle⟩, hback⟩, hdigit⟩, hdot⟩, hhash⟩, hmark⟩ :=
    hkind
  simp [scanToken, hstart, hslash, hdouble, hsingle, hback, hdigit, hdot, hhash,
    markOf?_lone hmark h]

/-- The characters that stand second in a mark of more than one. -/
def secondChars : List Char := ['.', '=', '*', '<', '>', '&', '|', '?', '+', '-']

/-- The text goes on with no mark, whichever stands before it. -/
def Calm (rest : List Char) : Prop := ∀ d ∈ rest.head?, d ∉ secondChars

/-- Nothing goes on with a mark where no mark goes on. -/
theorem Calm.lone {rest : List Char} (h : Calm rest) (c : Char) : Lone c rest := by
  intro d hd
  rw [fuses, List.any_eq_false]
  intro m hm htwo
  have hall : longMarks.all (fun m => (m.toList.take 2).tail.all secondChars.contains) = true := by
    decide
  have hsecond := List.all_eq_true.1 hall m hm
  rw [beq_iff_eq.1 htwo, List.tail_cons, List.all_cons, List.all_nil, Bool.and_true] at hsecond
  exact h d hd (List.contains_iff_mem.1 hsecond)

/-- Marks that stand first in no mark of more than one character. -/
def loneChars : List Char := ['\x7b', '\x7d', '[', ']', '>', ',', ';', ':']

/-- Nothing goes on with these marks. -/
theorem lone_of_mem {c : Char} (hc : c ∈ loneChars) (rest : List Char) : Lone c rest := by
  intro d _
  rw [fuses, List.any_eq_false]
  intro m hm htwo
  have hone : m.toList.take 1 = [c] := by
    rw [show 1 = min 1 2 from rfl, ← List.take_take, beq_iff_eq.1 htwo]
    rfl
  have hfirst : c ∈ longMarks.flatMap (·.toList.take 1) :=
    List.mem_flatMap.2 ⟨m, hm, hone ▸ List.mem_cons_self⟩
  exact not_mem_of_all_not (by decide) hfirst hc

/-- Such a mark is read alone, whatever follows. -/
theorem scanToken_lone {c : Char} (hc : c ∈ loneChars) (rest : List Char) :
    scanToken (c :: rest) = (.mark (String.ofList [c]), 1) := by
  have hall : loneChars.all typeMarkChars.contains = true := by decide
  have hmark := List.contains_iff_mem.1 (List.all_eq_true.1 hall c hc)
  exact scanToken_mark hmark (lone_of_mem hc rest)

/-! ## Behind gaps -/

/-- The first character of a text behind gaps is a blank, a slash, or that of the text. -/
theorem head?_gaps {P : Char → Prop} (hblank : ∀ c, isBlank c = true → P c) (hslash : P '/')
    {gaps : Gaps} {rest : List Char} (hrest : gaps = [] → ∀ c ∈ rest.head?, P c) :
    ∀ c ∈ (gaps.chars ++ rest).head?, P c := by
  cases gaps with
  | nil => exact hrest rfl
  | cons g gaps =>
    intro c hc
    cases g with
    | blank d h =>
      obtain rfl := Option.some.inj hc
      exact hblank d h
    | line =>
      obtain rfl := Option.some.inj hc
      exact hslash
    | block =>
      obtain rfl := Option.some.inj hc
      exact hslash

/-- Gaps do not go on with a word. -/
theorem Apart.gaps (gaps : Gaps) {rest : List Char} (h : gaps = [] → Apart rest) :
    Apart (gaps.chars ++ rest) := by
  refine head?_gaps (fun c hc => ⟨continuesName_of_isBlank hc, ?_⟩) ⟨by decide, by decide⟩ h
  rintro rfl
  cases hc

/-- Gaps do not go on with a mark. -/
theorem Calm.gaps (gaps : Gaps) {rest : List Char} (h : gaps = [] → Calm rest) :
    Calm (gaps.chars ++ rest) := by
  refine head?_gaps (fun c hc hmem => ?_) (by decide) h
  have hnone := Text.all_of_isBlank (p := fun c => !secondChars.contains c) (by decide) hc
  rw [List.contains_iff_mem.2 hmem] at hnone
  cases hnone

/-! ## Lexemes -/

/-- The characters are read as a token before the rest. -/
def Scans (cs rest : List Char) (token : Token) : Prop :=
  scanToken (cs ++ rest) = (token, cs.length)

/-- A token in its place. -/
theorem lexemeAt_of_scans {cs rest : List Char} {token : Token} (h : Scans cs rest token)
    (pos : Nat) (onNewLine : Bool) :
    lexemeAt ⟨cs ++ rest, pos⟩ onNewLine =
      ⟨token, ⟨cs ++ rest, pos⟩, ⟨rest, pos + byteSize cs⟩, onNewLine⟩ := by
  rw [lexemeAt, h]
  simp only [Cursor.skip_append]

end IpcWiring.Script
