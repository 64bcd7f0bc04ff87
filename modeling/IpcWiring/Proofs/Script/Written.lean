import IpcWiring.Proofs.Script.Layout
import IpcWiring.Script.Grammar.Types

/-!
# Types as they are written

A tree for a type with all the gaps between its tokens (`Written.chars`). The text that is recorded of
the type has one space for gaps outside of literals, and prints literals anew from their properties
(`Written.tidy`). It comes about in two steps: the literals in the source are replaced by their texts
(`Written.spliced`), and the outcome is put on one line (`Written.normalizeChars_spliced`).
-/

namespace IpcWiring.Script

open Text (isBlank)

/-! ## Trees -/

/-- Brackets behind a type, with the gaps in front of each. -/
structure Suffix where
  before : Gaps
  inside : Gaps

/-- A property up to its colon. -/
structure Head where
  /-- The gaps behind `readonly`, if it is there. -/
  readonly? : Option Gaps
  name : Word
  /-- The name stands in quotes, and they are double ones. -/
  quotes? : Option Bool
  /-- The gaps in front of a question mark, if there is one. -/
  optional? : Option Gaps

/-- A separator behind a member, with the gaps in front of it. -/
structure Stop where
  before : Gaps
  comma : Bool

mutual

/-- A type as it is written in a source, from its first token to its last one. -/
inductive Written where
  | word (name : Word)
  | quoted (q : Quoted)
  /-- A name with type arguments. -/
  | applied (name : Word) (before inside : Gaps) (first : Written) (more : More) (last : Gaps)
  | array (item : Written) (suffixes : List Suffix)
  | union (first : Written) (more : More)
  | literal (fields : Fields) (last : Gaps)

/-- Further types, each one behind a mark with gaps around it. -/
inductive More where
  | nil
  | cons (before behind : Gaps) (next : Written) (more : More)

/-- The properties of a type literal. -/
inductive Fields where
  | nil
  /-- A property with a type, which may have a bar with gaps in front. -/
  | typed (lead : Gaps) (head : Head) (colon behind : Gaps) (bar? : Option Gaps) (type : Written)
    (stop? : Option Stop) (rest : Fields)
  | bare (lead : Gaps) (head : Head) (stop? : Option Stop) (rest : Fields)

end

/-! ## Characters -/

/-- How the brackets are written. -/
def Suffix.chars (s : Suffix) : List Char := s.before.chars ++ '[' :: (s.inside.chars ++ [']'])

/-- How brackets are written one after the other. -/
def suffixChars (suffixes : List Suffix) : List Char := suffixes.flatMap Suffix.chars

/-- The word `readonly`. -/
def Word.readonly : Word := ⟨'r', ['e', 'a', 'd', 'o', 'n', 'l', 'y'], rfl, rfl⟩

namespace Head

/-- The name in quotes. -/
def quotedName (name : Word) (double : Bool) : Quoted where
  double := double
  body := name.chars
  closed := by
    intro c hc
    have h := name.continuesName_of_mem c hc
    refine ⟨?_, ?_, ?_, ?_⟩
    · rintro rfl
      cases double <;> revert h <;> decide
    all_goals
      rintro rfl
      revert h
      decide

/-- How the key is written. -/
def keyChars (h : Head) : List Char :=
  match h.quotes? with
  | none => h.name.chars
  | some double => (quotedName h.name double).chars

/-- How `readonly` is written, with what follows it. -/
def readonlyChars : Option Gaps → List Char
  | none => []
  | some behind => Word.readonly.chars ++ behind.chars

/-- How a question mark is written, with what stands before it. -/
def optionalChars : Option Gaps → List Char
  | none => []
  | some before => before.chars ++ ['?']

/-- How the head is written. -/
def chars (h : Head) : List Char :=
  readonlyChars h.readonly? ++ (h.keyChars ++ optionalChars h.optional?)

end Head

/-- How a separator is written. -/
def stopChars : Option Stop → List Char
  | none => []
  | some stop => stop.before.chars ++ [if stop.comma then ',' else ';']

/-- How a bar in front of a type is written. -/
def barChars : Option Gaps → List Char
  | none => []
  | some behind => '|' :: behind.chars

mutual

/-- How the type is written. -/
def Written.chars : Written → List Char
  | .word name => name.chars
  | .quoted q => q.chars
  | .applied name before inside first more last =>
    name.chars ++ (before.chars ++ '<' :: (inside.chars ++
      (first.chars ++ (more.chars ',' ++ (last.chars ++ ['>'])))))
  | .array item suffixes => item.chars ++ suffixChars suffixes
  | .union first more => first.chars ++ more.chars '|'
  | .literal fields last => '\x7b' :: (fields.chars ++ (last.chars ++ ['\x7d']))

/-- How further types are written, each one behind the mark. -/
def More.chars (mark : Char) : More → List Char
  | .nil => []
  | .cons before behind next more =>
    before.chars ++ mark :: (behind.chars ++ (next.chars ++ more.chars mark))

/-- How the properties are written. -/
def Fields.chars : Fields → List Char
  | .nil => []
  | .typed lead head colon behind bar? type stop? rest =>
    lead.chars ++ (head.chars ++ (colon.chars ++ ':' :: (behind.chars ++
      (barChars bar? ++ (type.chars ++ (stopChars stop? ++ rest.chars))))))
  | .bare lead head stop? rest =>
    lead.chars ++ (head.chars ++ (stopChars stop? ++ rest.chars))

end

/-! ## Tidy types -/

/-- One space. -/
def Gaps.space : Gaps := [.blank ' ' isBlank_space]

/-- No gaps are written as nothing. -/
theorem Gaps.chars_nil : Gaps.chars [] = [] := rfl

/-- One space is written as such. -/
theorem Gaps.chars_space : Gaps.space.chars = [' '] := rfl

/-- Brackets with tidy gaps. -/
def Suffix.tidy (s : Suffix) : Suffix := ⟨s.before.tidy, s.inside.tidy⟩

/-- The head as it is printed. -/
def Head.tidy (h : Head) : Head where
  readonly? := h.readonly?.map fun _ => Gaps.space
  name := h.name
  quotes? := none
  optional? := h.optional?.map fun _ => []

/-- There are no properties. -/
def Fields.isNil : Fields → Bool
  | .nil => true
  | _ => false

/-- The separator that is printed before the rest. -/
def Fields.stop? (rest : Fields) : Option Stop := if rest.isNil then none else some ⟨[], false⟩

/-- The word `any`. -/
def Word.any : Word := ⟨'a', ['n', 'y'], rfl, rfl⟩

mutual

/-- The type as it is recorded: on one line, and with its literals printed anew. -/
def Written.tidy : Written → Written
  | .word name => .word name
  | .quoted q => .quoted q
  | .applied name before inside first more last =>
    .applied name before.tidy inside.tidy first.tidy more.tidy last.tidy
  | .array item suffixes => .array item.tidy (suffixes.map Suffix.tidy)
  | .union first more => .union first.tidy more.tidy
  | .literal fields _ => .literal fields.tidy (if fields.isNil then [] else .space)

/-- Further types as they are recorded. -/
def More.tidy : More → More
  | .nil => .nil
  | .cons before behind next more => .cons before.tidy behind.tidy next.tidy more.tidy

/-- Properties as they are printed. -/
def Fields.tidy : Fields → Fields
  | .nil => .nil
  | .typed _ head _ _ _ type _ rest =>
    .typed .space head.tidy [] .space none type.tidy rest.stop? rest.tidy
  | .bare _ head _ rest =>
    .typed .space head.tidy [] .space none (.word Word.any) rest.stop? rest.tidy

end

/-- Tidy brackets stay as they are. -/
theorem Suffix.tidy_comp_tidy : Suffix.tidy ∘ Suffix.tidy = Suffix.tidy := by
  funext s
  simp only [Function.comp_apply, tidy, Gaps.tidy_tidy]

/-- A tidy head stays as it is. -/
theorem Head.tidy_tidy (h : Head) : h.tidy.tidy = h.tidy := by
  simp only [tidy, Option.map_map]
  rfl

/-- Printing drops no property. -/
theorem Fields.isNil_tidy (fields : Fields) : fields.tidy.isNil = fields.isNil := by
  cases fields <;> rfl

/-- Printing keeps the separators that are printed. -/
theorem Fields.stop?_tidy (rest : Fields) : rest.tidy.stop? = rest.stop? := by
  rw [stop?, isNil_tidy, stop?]

mutual

/-- Tidy types stay as they are. -/
theorem Written.tidy_tidy : ∀ w : Written, w.tidy.tidy = w.tidy
  | .word name => rfl
  | .quoted q => rfl
  | .applied name before inside first more last => by
    simp only [Written.tidy, Gaps.tidy_tidy, first.tidy_tidy, more.tidy_tidy]
  | .array item suffixes => by
    simp only [Written.tidy, item.tidy_tidy, List.map_map, Suffix.tidy_comp_tidy]
  | .union first more => by
    simp only [Written.tidy, first.tidy_tidy, more.tidy_tidy]
  | .literal fields last => by
    simp only [Written.tidy, fields.tidy_tidy, fields.isNil_tidy]

/-- Tidy types stay as they are. -/
theorem More.tidy_tidy : ∀ more : More, more.tidy.tidy = more.tidy
  | .nil => rfl
  | .cons before behind next more => by
    simp only [More.tidy, Gaps.tidy_tidy, next.tidy_tidy, more.tidy_tidy]

/-- Tidy properties stay as they are. -/
theorem Fields.tidy_tidy : ∀ fields : Fields, fields.tidy.tidy = fields.tidy
  | .nil => rfl
  | .typed lead head colon behind bar? type stop? rest => by
    simp only [Fields.tidy, Head.tidy_tidy, type.tidy_tidy, rest.stop?_tidy, rest.tidy_tidy]
  | .bare lead head stop? rest => by
    simp only [Fields.tidy, Written.tidy, Head.tidy_tidy, rest.stop?_tidy, rest.tidy_tidy]

end

/-! ## Spliced types -/

mutual

/-- The type with its literals printed anew. -/
def Written.spliced : Written → List Char
  | .word name => name.chars
  | .quoted q => q.chars
  | .applied name before inside first more last =>
    name.chars ++ (before.chars ++ '<' :: (inside.chars ++
      (first.spliced ++ (more.spliced ',' ++ (last.chars ++ ['>'])))))
  | .array item suffixes => item.spliced ++ suffixChars suffixes
  | .union first more => first.spliced ++ more.spliced '|'
  | .literal fields last => (Written.literal fields last).tidy.chars

/-- Further types with their literals printed anew. -/
def More.spliced (mark : Char) : More → List Char
  | .nil => []
  | .cons before behind next more =>
    before.chars ++ mark :: (behind.chars ++ (next.spliced ++ more.spliced mark))

end

/-- A mark is kept. -/
theorem isKept_mark {c : Char} (h : c ∈ typeMarkChars) : IsKept c := by
  have hall : typeMarkChars.all (fun c => !isQuote c && c != '/' && !isBlank c) = true := by decide
  have hc := List.all_eq_true.1 hall c h
  simp only [Bool.and_eq_true, Bool.not_eq_true', bne_iff_ne] at hc
  exact ⟨hc.1.1, hc.1.2, hc.2⟩

section

variable {a a' b b' : List Char} {c : Char}

/-- A mark is tidy. -/
theorem isTidy_mark (hc : c ∈ typeMarkChars) : IsTidy [c] := .char (isKept_mark hc)

/-- A mark with gaps on both sides. -/
theorem Squeezes.mark (ha : Squeezes a a') (before : Gaps) (hc : c ∈ typeMarkChars)
    (behind : Gaps) (hb : Squeezes b b') :
    Squeezes (a ++ (before.chars ++ c :: (behind.chars ++ b)))
      (a' ++ (before.tidy.chars ++ c :: (behind.tidy.chars ++ b'))) :=
  ha.gaps before (Squeezes.gaps (isTidy_mark hc) behind hb)

/-- Brackets behind a text. -/
theorem Squeezes.suffixes (ha : Squeezes a a') (suffixes : List Suffix) :
    Squeezes (a ++ suffixChars suffixes) (a' ++ suffixChars (suffixes.map Suffix.tidy)) := by
  induction suffixes generalizing a a' with
  | nil =>
    rw [List.map_nil, show suffixChars [] = [] from rfl, List.append_nil, List.append_nil]
    exact ha
  | cons s suffixes ih =>
    have hfirst : Squeezes (a ++ s.chars) (a' ++ s.tidy.chars) :=
      ha.mark s.before (by decide) s.inside (isTidy_mark (by decide))
    rw [List.map_cons, suffixChars, List.flatMap_cons, suffixChars, List.flatMap_cons,
      ← List.append_assoc, ← List.append_assoc]
    exact ih hfirst

/-- A mark with tidy gaps on both sides. -/
theorem IsTidy.mark (ha : IsTidy a) (before : Gaps) (hc : c ∈ typeMarkChars) (behind : Gaps)
    (hb : IsTidy b) :
    IsTidy (a ++ (before.tidy.chars ++ c :: (behind.tidy.chars ++ b))) :=
  ha.gaps before ((isTidy_mark hc).gaps behind hb)

end

/-- A tidy head is kept. -/
theorem Head.isTidy (h : Head) : IsTidy h.tidy.chars := by
  have hkey : IsTidy h.tidy.keyChars := h.name.isTidy
  have hname : IsTidy (h.tidy.keyChars ++ optionalChars h.tidy.optional?) := by
    cases hoptional : h.tidy.optional? with
    | none =>
      rw [optionalChars, List.append_nil]
      exact hkey
    | some before =>
      have hbefore : before = [] := by
        rw [tidy, Option.map_eq_some_iff] at hoptional
        obtain ⟨_, _, rfl⟩ := hoptional
        rfl
      subst hbefore
      exact hkey.append (isTidy_mark (by decide))
  cases hreadonly : h.tidy.readonly? with
  | none =>
    rw [chars, hreadonly]
    exact hname
  | some behind =>
    have hbehind : behind = .space := by
      rw [tidy, Option.map_eq_some_iff] at hreadonly
      obtain ⟨_, _, rfl⟩ := hreadonly
      rfl
    rw [chars, hreadonly, readonlyChars, List.append_assoc, hbehind]
    exact Word.readonly.isTidy.space hname

/-- A property that is printed is kept. -/
theorem isTidy_field {a : List Char} (ha : IsTidy a) (head : Head) {type : List Char}
    (htype : IsTidy type) (rest : Fields) :
    IsTidy (a ++ ' ' :: (head.tidy.chars ++ ':' :: ' ' :: (type ++ stopChars rest.stop?))) := by
  have hcolon := (head.isTidy.append (isTidy_mark (c := ':') (by decide))).space htype
  have hstop : IsTidy (head.tidy.chars ++ [':'] ++ ' ' :: type ++ stopChars rest.stop?) := by
    rw [Fields.stop?]
    cases rest.isNil with
    | true =>
      rw [if_pos rfl, stopChars, List.append_nil]
      exact hcolon
    | false => exact hcolon.append (isTidy_mark (by decide))
  simpa using ha.space hstop

mutual

/-- What is recorded of a type is kept. -/
theorem Written.isTidy : ∀ w : Written, IsTidy w.tidy.chars
  | .word name => name.isTidy
  | .quoted q => q.isTidy
  | .applied name before inside first more last => by
    have hmore := more.isTidy (c := ',') (by decide) first.isTidy
    have hclose := hmore.gaps last (isTidy_mark (c := '>') (by decide))
    have hall := name.isTidy.mark before (c := '<') (by decide) inside hclose
    simpa [Written.tidy, Written.chars] using hall
  | .array item suffixes => by
    have hall := Squeezes.suffixes item.isTidy (suffixes.map Suffix.tidy)
    rwa [List.map_map, Suffix.tidy_comp_tidy] at hall
  | .union first more => more.isTidy (by decide) first.isTidy
  | .literal fields last => by
    have hfields := fields.isTidy (isTidy_mark (c := '\x7b') (by decide))
    have hclose : IsTidy ['\x7d'] := isTidy_mark (by decide)
    simp only [Written.tidy, Written.chars]
    cases fields.isNil with
    | true => exact hfields.append hclose
    | false => exact hfields.space hclose

/-- What is recorded of further types is kept. -/
theorem More.isTidy {a : List Char} {c : Char} (hc : c ∈ typeMarkChars) :
    ∀ more : More, IsTidy a → IsTidy (a ++ more.tidy.chars c)
  | .nil, ha => by
    simpa [More.tidy, More.chars] using ha
  | .cons before behind next more, ha => by
    have hnext := ha.mark before hc behind next.isTidy
    have hall := more.isTidy hc hnext
    simpa [More.tidy, More.chars] using hall

/-- What is printed of properties is kept. -/
theorem Fields.isTidy {a : List Char} :
    ∀ fields : Fields, IsTidy a → IsTidy (a ++ fields.tidy.chars)
  | .nil, ha => by
    simpa [Fields.tidy, Fields.chars] using ha
  | .typed lead head colon behind bar? type stop? rest, ha => by
    have hall := rest.isTidy (isTidy_field ha head type.isTidy rest)
    simpa [Fields.tidy, Fields.chars, barChars, Gaps.chars_space, Gaps.chars_nil] using hall
  | .bare lead head stop? rest, ha => by
    have hall := rest.isTidy (isTidy_field ha head Word.any.isTidy rest)
    simpa [Fields.tidy, Fields.chars, Written.chars, barChars, Gaps.chars_space,
      Gaps.chars_nil] using hall

end

mutual

/-- What is recorded of a type is what its spliced text is squeezed to. -/
theorem Written.squeezes : ∀ w : Written, Squeezes w.spliced w.tidy.chars
  | .word name => name.isTidy
  | .quoted q => q.isTidy
  | .applied name before inside first more last => by
    have hmore := more.squeezes (c := ',') (by decide) first.squeezes
    have hclose := hmore.gaps last (isTidy_mark (c := '>') (by decide))
    have hall := Squeezes.mark name.isTidy before (c := '<') (by decide) inside hclose
    simpa [Written.tidy, Written.chars, Written.spliced] using hall
  | .array item suffixes => item.squeezes.suffixes suffixes
  | .union first more => more.squeezes (by decide) first.squeezes
  | .literal fields last => (Written.literal fields last).isTidy

/-- What is recorded of further types is what their spliced text is squeezed to. -/
theorem More.squeezes {a a' : List Char} {c : Char} (hc : c ∈ typeMarkChars) :
    ∀ more : More, Squeezes a a' → Squeezes (a ++ more.spliced c) (a' ++ more.tidy.chars c)
  | .nil, ha => by
    simpa [More.tidy, More.chars, More.spliced] using ha
  | .cons before behind next more, ha => by
    have hnext := ha.mark before hc behind next.squeezes
    have hall := more.squeezes hc hnext
    simpa [More.tidy, More.chars, More.spliced] using hall

end

/-! ## Recorded texts -/

/-- A character that a type may start with. -/
def StartsType (c : Char) : Prop := startsName c = true ∨ c = '"' ∨ c = '\'' ∨ c = '\x7b'

/-- A type starts with a word, a quote or a brace. -/
theorem Written.exists_start : ∀ w : Written, ∃ c cs, w.chars = c :: cs ∧ StartsType c
  | .word name => ⟨_, _, rfl, .inl name.starts⟩
  | .quoted q => ⟨_, _, rfl, .inr (q.mark_cases.imp_right .inl)⟩
  | .applied name .. => ⟨_, _, rfl, .inl name.starts⟩
  | .array item suffixes => by
    obtain ⟨c, cs, hchars, hc⟩ := item.exists_start
    exact ⟨c, cs ++ suffixChars suffixes, by rw [Written.chars, hchars, List.cons_append], hc⟩
  | .union first more => by
    obtain ⟨c, cs, hchars, hc⟩ := first.exists_start
    exact ⟨c, cs ++ more.chars '|', by rw [Written.chars, hchars, List.cons_append], hc⟩
  | .literal .. => ⟨_, _, rfl, .inr (.inr (.inr rfl))⟩

/-- The text ends with no blank. -/
def EndsSolid (cs : List Char) : Prop := ∀ c ∈ cs.getLast?, isBlank c = false

namespace EndsSolid

variable {a b : List Char}

/-- Texts one after the other. -/
theorem append (ha : EndsSolid a) (hb : EndsSolid b) : EndsSolid (a ++ b) := by
  intro c hc
  rw [List.getLast?_append] at hc
  cases hlast : b.getLast? with
  | none =>
    rw [hlast] at hc
    exact ha c hc
  | some d =>
    rw [hlast] at hc
    exact hb c (hlast ▸ hc)

/-- Only the last characters count. -/
theorem behind (hb : EndsSolid b) (hne : b ≠ []) (a : List Char) : EndsSolid (a ++ b) := by
  intro c hc
  rw [List.getLast?_append, List.getLast?_eq_some_getLast hne] at hc
  exact hb c (List.getLast?_eq_some_getLast hne ▸ hc)

/-- A text that ends with a mark. -/
theorem mark {c : Char} (hc : c ∈ typeMarkChars) (a : List Char) : EndsSolid (a ++ [c]) := by
  refine behind (fun d hd => ?_) (List.cons_ne_nil c []) a
  obtain rfl := Option.some.inj hd
  exact (isKept_mark hc).2.2

/-- Characters that are not blank. -/
theorem of_forall (h : ∀ c ∈ a, isBlank c = false) : EndsSolid a :=
  fun c hc => h c (List.mem_of_mem_getLast? hc)

end EndsSolid

/-- A word has no blank. -/
theorem Word.endsSolid (w : Word) : EndsSolid w.chars :=
  .of_forall fun c hc => (isKept_of_continuesName (w.continuesName_of_mem c hc)).2.2

/-- Brackets end with no blank. -/
theorem endsSolid_suffixChars (suffixes : List Suffix) : EndsSolid (suffixChars suffixes) := by
  induction suffixes with
  | nil => exact fun c hc => (Option.not_mem_none c hc).elim
  | cons s suffixes ih =>
    have hs : EndsSolid s.chars := by
      have h := EndsSolid.mark (c := ']') (by decide) (s.before.chars ++ '[' :: s.inside.chars)
      simpa [Suffix.chars] using h
    exact hs.append ih

mutual

/-- A type ends with no blank. -/
theorem Written.endsSolid : ∀ w : Written, EndsSolid w.chars
  | .word name => name.endsSolid
  | .quoted q => by
    intro c hc
    have hlast : q.chars.getLast? = some q.mark := by simp [Quoted.chars, List.getLast?_cons]
    obtain rfl := Option.some.inj (hlast.symm.trans hc)
    rcases q.mark_cases with h | h <;> rw [h] <;> decide
  | .applied name before inside first more last => by
    have h := EndsSolid.mark (c := '>') (by decide) (name.chars ++ (before.chars ++ '<' ::
      (inside.chars ++ (first.chars ++ (more.chars ',' ++ last.chars)))))
    simpa [Written.chars] using h
  | .array item suffixes => item.endsSolid.append (endsSolid_suffixChars suffixes)
  | .union first more => first.endsSolid.append (more.endsSolid '|')
  | .literal fields last => by
    have h := EndsSolid.mark (c := '\x7d') (by decide)
      ('\x7b' :: (fields.chars ++ last.chars))
    simpa [Written.chars] using h

/-- Further types end with no blank. -/
theorem More.endsSolid (mark : Char) : ∀ more : More, EndsSolid (more.chars mark)
  | .nil => fun c hc => (Option.not_mem_none c hc).elim
  | .cons before behind next more => by
    obtain ⟨c, cs, hchars, -⟩ := next.exists_start
    have hlast := (next.endsSolid.append (more.endsSolid mark)).behind
      (by rw [hchars]; exact List.cons_ne_nil _ _) (before.chars ++ mark :: behind.chars)
    simpa [More.chars] using hlast

end

/-- A type starts with no blank and no operator. -/
theorem StartsType.ne {c : Char} (h : StartsType c) :
    isBlank c = false ∧ c ≠ '|' ∧ c ≠ '&' := by
  rcases h with h | rfl | rfl | rfl
  · refine ⟨(isKept_of_continuesName (continuesName_of_startsName h)).2.2, ?_, ?_⟩ <;>
      rintro rfl <;> revert h <;> decide
  all_goals decide

/-- The characters of a type lose nothing at their ends. -/
theorem Written.trimChars_chars (w : Written) : Text.trimChars w.chars = w.chars := by
  obtain ⟨c, cs, hchars, hc⟩ := w.exists_start
  refine Text.trimChars_eq (fun d hd => ?_) w.endsSolid
  rw [hchars] at hd
  obtain rfl := Option.some.inj hd
  exact hc.ne.1

/-- The spliced text of a type behind a bar or none is recorded as that of the type. -/
theorem Written.normalizeChars_spliced (w : Written) (bar? : Option Gaps) :
    normalizeChars (barChars bar? ++ w.spliced) = w.tidy.chars := by
  obtain ⟨c, cs, hchars, hc⟩ := w.tidy.exists_start
  have htrim := w.tidy.trimChars_chars
  have hraw : ∀ raw out, Squeezes raw out → squeeze (.plain false) false raw = out := by
    intro raw out h
    simpa [gapText, squeeze] using h false false []
  cases bar? with
  | none =>
    rw [barChars, List.nil_append, normalizeChars, hraw _ _ w.squeezes, htrim, hchars,
      dropLeadingOperator, if_neg]
    simp [hc.ne.2.1, hc.ne.2.2]
  | some behind =>
    have hbar : Squeezes (barChars (some behind) ++ w.spliced)
        ('|' :: (behind.tidy.chars ++ w.tidy.chars)) :=
      Squeezes.gaps (isTidy_mark (c := '|') (by decide)) behind w.squeezes
    have hends : EndsSolid ('|' :: (behind.tidy.chars ++ w.tidy.chars)) := by
      rw [← List.cons_append]
      exact w.tidy.endsSolid.behind (by rw [hchars]; exact List.cons_ne_nil _ _) _
    have hstart : Text.trimStartChars w.tidy.chars = w.tidy.chars := by
      rw [hchars]
      exact List.dropWhile_cons_of_neg (by rw [hc.ne.1]; exact Bool.false_ne_true)
    rw [normalizeChars, hraw _ _ hbar, Text.trimChars_eq (fun d hd => ?_) hends,
      dropLeadingOperator]
    · refine (if_pos rfl).trans ?_
      cases behind with
      | nil => exact hstart
      | cons => exact hstart
    · obtain rfl := Option.some.inj hd
      decide

/-! ## Printed literals -/

/-- What is recorded of a type. -/
def Written.text (w : Written) : String := String.ofList w.tidy.chars

/-- The text of a property with a type of this text. -/
def Head.part (h : Head) (type : String) : String :=
  (if h.readonly?.isSome then "readonly " else "") ++ h.name.text ++
    (if h.optional?.isSome then "?" else "") ++ ": " ++ type

/-- The texts of the properties. -/
def Fields.parts : Fields → List String
  | .nil => []
  | .typed _ head _ _ _ type _ rest => head.part type.text :: rest.parts
  | .bare _ head _ rest => head.part "any" :: rest.parts

/-- A property is printed as its head with its type behind a colon. -/
theorem Head.toList_part (h : Head) (type : String) :
    (h.part type).toList = h.tidy.chars ++ ':' :: ' ' :: type.toList := by
  obtain ⟨readonly?, name, quotes?, optional?⟩ := h
  cases readonly? <;> cases optional? <;>
    simp [part, tidy, chars, keyChars, readonlyChars, optionalChars, Word.readonly, Word.text,
      Word.chars, Gaps.chars_space, Gaps.chars_nil]

/-- A joined list is its first item with the rest behind it. -/
theorem toList_joinWith_cons (sep s : String) (ss : List String) :
    (Text.joinWith sep (s :: ss)).toList =
      s.toList ++ if ss.isEmpty then [] else sep.toList ++ (Text.joinWith sep ss).toList := by
  cases ss with
  | nil => simp [Text.joinWith]
  | cons t ss => simp [Text.joinWith]

/-- There are no texts if there are no properties. -/
theorem Fields.isEmpty_parts (fields : Fields) : fields.parts.isEmpty = fields.isNil := by
  cases fields <;> rfl

/-- A printed property with what is printed behind it. -/
theorem toList_joinWith_part (head : Head) (type : List Char) {rest : Fields}
    (hrest : rest.isNil = false → rest.tidy.chars = ' ' :: (Text.joinWith "; " rest.parts).toList) :
    (Text.joinWith "; " (head.part (String.ofList type) :: rest.parts)).toList =
      head.tidy.chars ++ ':' :: ' ' :: (type ++ (stopChars rest.stop? ++ rest.tidy.chars)) := by
  rw [toList_joinWith_cons, Head.toList_part, Fields.isEmpty_parts, Fields.stop?]
  cases hnil : rest.isNil with
  | true =>
    have hchars : rest.tidy.chars = [] := by
      cases rest with
      | nil => rfl
      | typed | bare => cases hnil
    simp [stopChars, hchars]
  | false => simp [stopChars, hrest hnil, Gaps.chars_nil]

/-- The printed properties are their texts with separators between them. -/
theorem Fields.chars_tidy : ∀ fields : Fields, fields.isNil = false →
    fields.tidy.chars = ' ' :: (Text.joinWith "; " fields.parts).toList
  | .nil, h => by cases h
  | .typed lead head colon behind bar? type stop? rest, _ => by
    have hpart := toList_joinWith_part head type.tidy.chars rest.chars_tidy
    rw [parts, Written.text, hpart]
    simp [tidy, chars, barChars, Gaps.chars_space, Gaps.chars_nil]
  | .bare lead head stop? rest, _ => by
    have hpart := toList_joinWith_part head Word.any.chars rest.chars_tidy
    rw [parts, show "any" = String.ofList Word.any.chars from rfl, hpart]
    simp [tidy, chars, Written.chars, barChars, Gaps.chars_space, Gaps.chars_nil]

/-- A literal is recorded as its properties in braces. -/
theorem Written.text_literal (fields : Fields) (last : Gaps) :
    (Written.literal fields last).text = Text.braced fields.parts := by
  rw [text, tidy, chars, Text.braced, Fields.isEmpty_parts]
  cases hnil : fields.isNil with
  | true =>
    cases fields with
    | nil => rfl
    | typed | bare => cases hnil
  | false =>
    rw [fields.chars_tidy hnil, ← String.toList_inj]
    simp [Gaps.chars_space]

end IpcWiring.Script
