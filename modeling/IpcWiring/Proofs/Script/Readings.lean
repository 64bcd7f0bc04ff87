import IpcWiring.Proofs.Script.Reaching
import IpcWiring.Proofs.Script.Written

/-!
# Places where a type is read

A type can be read where something ends it (`Followed`), and it is read as it is written if its
names are no words of the grammar and its line breaks end nothing (`Written.Fits`). What a reader of
types does then is `Reads`: it goes past the characters, notes what splices them to those that are
recorded, and gives a type of that text.
-/

namespace IpcWiring.Script

open Reader Grammar

/-! ## What follows a type -/

/-- A mark of one character is scanned where nothing goes on with it. -/
theorem scans_mark {c : Char} {rest : List Char} (hc : c ∈ typeMarkChars) (h : Lone c rest) :
    Scans [c] rest (.mark (String.ofList [c])) := scanToken_mark hc h

/-- A type ends before the text: one of the marks is next, or the end, or no mark on a new line. -/
structure Followed (marks : List String) (rest : List Char) : Prop where
  apart : Apart rest
  next : ∀ pos, (∃ m ∈ marks, (nextLexeme ⟨rest, pos⟩).token = .mark m) ∨
    (nextLexeme ⟨rest, pos⟩).token = .stop ∨
    (nextLexeme ⟨rest, pos⟩).onNewLine = true ∧ ∀ m, (nextLexeme ⟨rest, pos⟩).token ≠ .mark m

/-- The marks behind a type. -/
def typeEnds : List String := [",", ";", "\x7d", ">"]

/-- The marks behind a part of a union. -/
def partEnds : List String := "|" :: typeEnds

/-- The marks behind a type that brackets may follow. -/
def itemEnds : List String := "[" :: partEnds

namespace Followed

variable {marks : List String} {rest : List Char}

/-- No other mark is next. -/
theorem ne_mark (h : Followed marks rest) {m : String} (hm : m ∉ marks) (pos : Nat) :
    (nextLexeme ⟨rest, pos⟩).token ≠ .mark m := by
  intro htoken
  rcases h.next pos with ⟨m', hm', heq⟩ | hstop | ⟨-, hne⟩
  · obtain rfl := Token.mark.inj (heq.symm.trans htoken)
    exact hm hm'
  · cases hstop.symm.trans htoken
  · exact hne m htoken

/-- A word is next on a new line only. -/
theorem onNewLine_of_word (h : Followed marks rest) {pos : Nat} {w : String}
    (hw : (nextLexeme ⟨rest, pos⟩).token = .word w) :
    (nextLexeme ⟨rest, pos⟩).onNewLine = true := by
  rcases h.next pos with ⟨m, -, heq⟩ | hstop | ⟨hline, -⟩
  · cases heq.symm.trans hw
  · cases hstop.symm.trans hw
  · exact hline

/-- More marks may follow. -/
theorem mono (h : Followed marks rest) {marks' : List String} (hsub : marks ⊆ marks') :
    Followed marks' rest where
  apart := h.apart
  next := fun pos => (h.next pos).imp_left fun ⟨m, hm, htoken⟩ => ⟨m, hsub hm, htoken⟩

/-- The end is next. -/
theorem stop (marks : List String) : Followed marks [] where
  apart := fun c hc => (Option.not_mem_none c hc).elim
  next := fun _ => .inr (.inl rfl)

end Followed

/-- A mark is no gap and goes on with no word. -/
theorem solid_mark {c : Char} (hc : c ∈ typeMarkChars) (rest : List Char) :
    Solid (c :: rest) ∧ Apart (c :: rest) := by
  have hall : typeMarkChars.all (fun c => !isGap c && c != '/' && !continuesName c && c != '\\') =
      true := by decide
  have h := List.all_eq_true.1 hall c hc
  simp only [Bool.and_eq_true, Bool.not_eq_true', bne_iff_ne] at h
  refine ⟨⟨c, rest, rfl, h.1.1.1, h.1.1.2⟩, fun d hd => ?_⟩
  obtain rfl := Option.some.inj hd
  exact ⟨h.1.2, h.2⟩

/-- A mark is next behind gaps. -/
theorem nextLexeme_mark (gaps : Gaps) {c : Char} {rest : List Char} (hc : c ∈ typeMarkChars)
    (hlone : Lone c rest) (pos : Nat) :
    (nextLexeme ⟨gaps.chars ++ c :: rest, pos⟩).token = .mark (String.ofList [c]) := by
  rw [nextLexeme_gaps gaps (solid_mark hc rest).1]
  exact congrArg Lexeme.token (lexemeAt_of_scans (scans_mark hc hlone) _ _)

/-- A mark that ends a type is next behind gaps. -/
theorem Followed.mark {marks : List String} (gaps : Gaps) {c : Char} {rest : List Char}
    (hc : c ∈ typeMarkChars) (hlone : Lone c rest) (hmark : String.ofList [c] ∈ marks) :
    Followed marks (gaps.chars ++ c :: rest) where
  apart := Apart.gaps _ fun _ => (solid_mark hc rest).2
  next := fun pos => .inl ⟨_, hmark, nextLexeme_mark gaps hc hlone pos⟩

/-- What is no mark is next on a new line. -/
theorem Followed.line {marks : List String} {gaps : Gaps} {rest : List Char}
    (hbreaks : gaps.breaks = true) (hsolid : Solid rest)
    (hmark : ∀ m, (scanToken rest).1 ≠ .mark m) : Followed marks (gaps.chars ++ rest) where
  apart := by
    refine Apart.gaps _ fun hnil => ?_
    subst hnil
    cases hbreaks
  next := by
    intro pos
    rw [nextLexeme_gaps gaps hsolid]
    exact .inr (.inr ⟨hbreaks, hmark⟩)

/-! ## Types that are read as they are written -/

/-- The words that start a type of another form. -/
def otherWords : List String :=
  ["infer", "keyof", "unique", "readonly", "this", "typeof", "import", "asserts", "new", "abstract"]

/-- The words that are types without type arguments. -/
def plainWords : List String := ["null", "void", "true", "false"] ++ keywordTypes

/-- The type is no union. -/
def Written.IsPart : Written → Prop
  | .union .. => False
  | _ => True

/-- The type is no union and has no brackets behind it. -/
def Written.IsItem : Written → Prop
  | .union .. | .array .. => False
  | _ => True

/-- A condition on all of the types. -/
def More.All (holds : Written → Prop) : More → Prop
  | .nil => True
  | .cons _ _ next more => holds next ∧ more.All holds

/-- A condition on all of the types is weakened. -/
theorem More.All.imp {holds holds' : Written → Prop} (h : ∀ w, holds w → holds' w) :
    ∀ {more : More}, more.All holds → more.All holds'
  | .nil, _ => trivial
  | .cons _ _ next _, ⟨hnext, hmore⟩ => ⟨h next hnext, All.imp h hmore⟩

/-- Two conditions hold of all of the types if each one does. -/
theorem More.All.and {holds holds' : Written → Prop} :
    ∀ {more : More}, more.All holds → more.All holds' → more.All fun w => holds w ∧ holds' w
  | .nil, _, _ => trivial
  | .cons .., ⟨hnext, hmore⟩, ⟨hnext', hmore'⟩ => ⟨⟨hnext, hnext'⟩, hmore.and hmore'⟩

/-- A key is told from a modifier where nothing stands behind it on its line. -/
def Head.StandsAlone (h : Head) : Prop :=
  h.optional? ≠ none ∨ h.name.text ∉ ["static", "get", "set"]

/-- A property starts on a new line, if there is one. -/
def Fields.StartsLine : Fields → Prop
  | .nil => True
  | .typed lead .. => lead.breaks = true
  | .bare lead .. => lead.breaks = true

/-- The word `readonly` is behind no line break of its own. -/
def Head.Fits (h : Head) : Prop :=
  ∀ behind ∈ h.readonly?, behind ≠ [] ∧ behind.breaks = false

mutual

/-- The reader of types takes the type for what it is: names are no words of the grammar, brackets
and type arguments start on the line of what they belong to, a part of a union is no union, and a
property ends with a separator or its line. -/
def Written.Fits : Written → Prop
  | .word name => name.text ∉ otherWords
  | .quoted _ => True
  | .applied name before _ first more _ =>
    name.text ∉ otherWords ∧ name.text ∉ plainWords ∧ before.breaks = false ∧ first.Fits ∧
      more.Fits
  | .array item suffixes =>
    item.IsItem ∧ (∀ s ∈ suffixes, s.before.breaks = false) ∧ suffixes ≠ [] ∧ item.Fits
  | .union first more => first.IsPart ∧ more.All Written.IsPart ∧ first.Fits ∧ more.Fits
  | .literal fields _ => fields.Fits

/-- All of the types fit. -/
def More.Fits : More → Prop
  | .nil => True
  | .cons _ _ next more => next.Fits ∧ more.Fits

/-- All of the properties fit. -/
def Fields.Fits : Fields → Prop
  | .nil => True
  | .typed _ head _ _ _ type stop? rest =>
    head.Fits ∧ (stop? = none → rest.StartsLine) ∧ type.Fits ∧ rest.Fits
  | .bare _ head stop? rest =>
    head.Fits ∧ (stop? = none → rest.StartsLine ∧ (rest = .nil ∨ head.StandsAlone)) ∧ rest.Fits

end

/-- A token that starts a type which is no function type. -/
inductive StartsPlainType : Token → Prop
  | word {name : String} (h : name ∉ otherWords) : StartsPlainType (.word name)
  | string (value : String) : StartsPlainType (.string value)
  | brace : StartsPlainType (.mark "\x7b")

/-- Another mark starts no type. -/
theorem StartsPlainType.ne_mark {t : Token} (h : StartsPlainType t) {m : String}
    (hm : m ≠ "\x7b") : t ≠ .mark m := by
  rintro rfl
  cases h
  exact hm rfl

section

variable {rest : List Char}

/-- Brackets do not go on with a word. -/
theorem apart_suffixChars (h : Apart rest) (suffixes : List Suffix) :
    Apart (suffixChars suffixes ++ rest) := by
  cases suffixes with
  | nil => exact h
  | cons s suffixes =>
    have hmark := (solid_mark (c := '[') (by decide)
      (s.inside.chars ++ [']'] ++ suffixChars suffixes ++ rest)).2
    simpa [suffixChars, Suffix.chars] using Apart.gaps s.before fun _ => hmark

/-- Further types do not go on with a word. -/
theorem apart_more (h : Apart rest) {mark : Char} (hmark : mark ∈ typeMarkChars) (more : More) :
    Apart (more.chars mark ++ rest) := by
  cases more with
  | nil => exact h
  | cons before behind next more =>
    have hmark := (solid_mark hmark
      (behind.chars ++ (next.chars ++ more.chars mark) ++ rest)).2
    simpa [More.chars] using Apart.gaps before fun _ => hmark

/-- A type starts with a token that starts no function. -/
theorem Written.startsPlainType : ∀ w : Written, w.Fits → ∀ {rest : List Char}, Apart rest →
    StartsPlainType (scanToken (w.chars ++ rest)).1
  | .word name, hw, rest, h => by
    rw [chars, scanToken_word name h]
    exact .word hw
  | .quoted q, _, rest, _ => by
    rw [chars, scanToken_quoted]
    exact .string _
  | .applied name before inside first more last, hw, rest, _ => by
    have hname := scanToken_word name <| Apart.gaps before fun _ => (solid_mark
      (c := '<') (by decide) (inside.chars ++ (first.chars ++ (more.chars ',' ++
        (last.chars ++ ['>']))) ++ rest)).2
    have hchars : (Written.applied name before inside first more last).chars ++ rest =
        name.chars ++ (before.chars ++ '<' :: (inside.chars ++ (first.chars ++ (more.chars ',' ++
          (last.chars ++ ['>']))) ++ rest)) := by
      simp only [chars, List.append_assoc, List.cons_append]
    rw [hchars, hname]
    exact .word hw.1
  | .array item suffixes, hw, rest, h => by
    rw [chars, List.append_assoc]
    exact item.startsPlainType hw.2.2.2 (apart_suffixChars h suffixes)
  | .union first more, hw, rest, h => by
    rw [chars, List.append_assoc]
    exact first.startsPlainType hw.2.2.1 (apart_more h (by decide) more)
  | .literal fields last, _, rest, _ => by
    rw [chars, List.cons_append, scanToken_mark (by decide) (lone_of_mem (by decide) _)]
    exact .brace

end

/-! ## Readings -/

/-- What is told of a member: its name, whether it is optional, and the text of its type. -/
def Member.view (m : Member) : String × Bool × String := (m.name, m.optional, m.type.text)

/-- What is told of the properties. -/
def Fields.view : Fields → List (String × Bool × String)
  | .nil => []
  | .typed _ head _ _ _ type _ rest =>
    (head.name.text, head.optional?.isSome, type.text) :: rest.view
  | .bare _ head _ rest => (head.name.text, head.optional?.isSome, "any") :: rest.view

/-- The type expression has the text that is recorded of the type, and that of a literal has its
properties as members. -/
structure Written.Describes (w : Written) (t : TypeExpr) : Prop where
  text : t.text = w.text
  members : ∀ fields last, w = .literal fields last →
    ∃ members, t.form = .object members false ∧ members.map Member.view = fields.view

/-- The reader reads the type wherever one of the marks follows. -/
structure Reads (r : Reader TypeExpr) (w : Written) (marks : List String) : Prop where
  run : ∀ {s : Setting} {p : Progress} {rest : List Char} {pos : Nat}, s.typed = true →
    p.StandsAt (w.chars ++ rest) pos → Followed marks rest →
    ∃ t q, r s p = some (t, q) ∧ Reaches p q pos w.chars w.spliced rest ∧ w.Describes t

/-- A type starts behind gaps. -/
theorem Written.solid (w : Written) (rest : List Char) : Solid (w.chars ++ rest) := by
  obtain ⟨c, cs, hchars, hc⟩ := w.exists_start
  refine ⟨c, cs ++ rest, by rw [hchars, List.cons_append], ?_⟩
  rcases hc with hstart | rfl | rfl | rfl
  · exact ⟨isGap_of_continuesName (continuesName_of_startsName hstart),
      (isKept_of_continuesName (continuesName_of_startsName hstart)).2.1⟩
  all_goals exact ⟨by decide, by decide⟩

/-- A type goes on with no mark. -/
theorem Written.calm (w : Written) (rest : List Char) : Calm (w.chars ++ rest) := by
  obtain ⟨c, cs, hchars, hc⟩ := w.exists_start
  intro d hd
  rw [hchars, List.cons_append] at hd
  obtain rfl := Option.some.inj hd
  intro hsecond
  have hall : secondChars.all (fun c => !startsName c && c != '"' && c != '\'' && c != '\x7b') =
      true := by decide
  have h := List.all_eq_true.1 hall c hsecond
  simp only [Bool.and_eq_true, Bool.not_eq_true', bne_iff_ne] at h
  rcases hc with hstart | rfl | rfl | rfl
  · rw [h.1.1.1] at hstart
    cases hstart
  · exact h.1.1.2 rfl
  · exact h.1.2 rfl
  · exact h.2 rfl

section

variable {p q : Progress} {pos : Nat} {cs out rest : List Char} {gaps : Gaps}

/-- A token behind gaps is next, and is read. -/
theorem Reaches.then_token {cs' : List Char} {t : Token}
    (h : Reaches p q pos cs out (gaps.chars ++ (cs' ++ rest))) (hsolid : Solid (cs' ++ rest))
    (hscans : Scans cs' rest t) :
    q.current.token = t ∧
      Reaches p q.advanced pos (cs ++ (gaps.chars ++ cs')) (out ++ (gaps.chars ++ cs')) rest := by
  have hat := (h.standsAt hsolid).at hscans
  refine ⟨hat.token, Reaches.trans ?_ ((Reaches.token hat).gaps gaps)⟩
  rwa [List.append_assoc]

/-- A mark behind gaps is next, and is read. -/
theorem Reaches.then_mark {c : Char} (h : Reaches p q pos cs out (gaps.chars ++ c :: rest))
    (hc : c ∈ typeMarkChars) (hlone : Lone c rest) :
    q.current.token = .mark (String.ofList [c]) ∧
      Reaches p q.advanced pos (cs ++ (gaps.chars ++ [c])) (out ++ (gaps.chars ++ [c])) rest :=
  h.then_token (solid_mark hc rest).1 (scans_mark hc hlone)

/-- A type behind gaps starts with a token of its own. -/
theorem Reaches.startsPlainType {w : Written}
    (h : Reaches p q pos cs out (gaps.chars ++ (w.chars ++ rest))) (hw : w.Fits)
    (hrest : Apart rest) : StartsPlainType q.current.token := by
  rw [(h.standsAt (w.solid rest)).token]
  exact w.startsPlainType hw hrest

/-- A type behind gaps is read. -/
theorem Reaches.then_type {w : Written} {r : Reader TypeExpr} {marks : List String} {s : Setting}
    (h : Reaches p q pos cs out (gaps.chars ++ (w.chars ++ rest))) (hr : Reads r w marks)
    (hs : s.typed = true) (hrest : Followed marks rest) :
    ∃ t q', r s q = some (t, q') ∧ w.Describes t ∧
      Reaches p q' pos (cs ++ (gaps.chars ++ w.chars)) (out ++ (gaps.chars ++ w.spliced)) rest := by
  obtain ⟨t, q', hread, hreaches, htext⟩ := hr.run hs (h.standsAt (w.solid rest)) hrest
  refine ⟨t, q', hread, htext, Reaches.trans ?_ (hreaches.gaps gaps)⟩
  rwa [List.append_assoc]

end

/-- The reader reads the type, behind a bar if there is one, wherever a mark that ends a type
follows. -/
structure ReadsBarred (r : Reader TypeExpr) (w : Written) : Prop where
  run : ∀ {s : Setting} {p : Progress} {bar? : Option Gaps} {rest : List Char} {pos : Nat},
    s.typed = true → p.StandsAt (barChars bar? ++ (w.chars ++ rest)) pos →
    Followed typeEnds rest →
    ∃ t q, r s p = some (t, q) ∧
      Reaches p q pos (barChars bar? ++ w.chars) (barChars bar? ++ w.spliced) rest ∧
      t.text = w.text ∧ (bar? = none → w.Describes t)

/-- A type behind gaps, and perhaps a bar, is read. -/
theorem Reaches.then_barred {p q : Progress} {pos : Nat} {cs out rest : List Char} {gaps : Gaps}
    {bar? : Option Gaps} {w : Written} {r : Reader TypeExpr} {s : Setting}
    (h : Reaches p q pos cs out (gaps.chars ++ (barChars bar? ++ (w.chars ++ rest))))
    (hr : ReadsBarred r w) (hs : s.typed = true) (hrest : Followed typeEnds rest) :
    ∃ t q', r s q = some (t, q') ∧ t.text = w.text ∧
      Reaches p q' pos (cs ++ (gaps.chars ++ (barChars bar? ++ w.chars)))
        (out ++ (gaps.chars ++ (barChars bar? ++ w.spliced))) rest := by
  have hsolid : Solid (barChars bar? ++ (w.chars ++ rest)) := by
    cases bar? with
    | none => exact w.solid rest
    | some behind => exact (solid_mark (c := '|') (by decide) _).1
  obtain ⟨t, q', hread, hreaches, htext, -⟩ := hr.run hs (h.standsAt hsolid) hrest
  refine ⟨t, q', hread, htext, Reaches.trans ?_ (hreaches.gaps gaps)⟩
  simpa using h

/-- A type is read where no bar is in front of it. -/
theorem ReadsBarred.reads {r : Reader TypeExpr} {w : Written} (h : ReadsBarred r w) :
    Reads r w typeEnds := by
  constructor
  intro s p rest pos hs hp hrest
  have hbar : p.StandsAt (barChars none ++ (w.chars ++ rest)) pos := hp
  obtain ⟨t, q, hread, hreaches, -, hdescribes⟩ := h.run hs hbar hrest
  exact ⟨t, q, hread, hreaches, hdescribes rfl⟩

/-- A type that is finished has the text that is recorded of it. -/
theorem Reaches.text_written {p q : Progress} {pos : Nat} {w : Written} {rest : List Char}
    (h : Reaches p q pos w.chars w.spliced rest) (hp : p.StandsAt (w.chars ++ rest) pos)
    (form : TypeForm) : (finished p.mark form q).text = w.text := by
  have htext := w.normalizeChars_spliced none
  rw [barChars, List.nil_append] at htext
  rw [h.text_finished hp.here, htext, Written.text]

end IpcWiring.Script
