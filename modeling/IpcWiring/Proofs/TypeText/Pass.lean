import IpcWiring.Proofs.TypeText.Grouping

/-!
# One pass over a text

`substituteChars` goes over the characters of a text and decides by the characters around a word
whether it is a type parameter. Where that tells each atom for what it is (`Placed`), the bound type
names are replaced and nothing else (`substituteChars_spell`).
-/

namespace IpcWiring.TypeText

open IpcWiring.Text (isBlank startsIdentifier continuesIdentifier)

/-! ## One atom -/

/-- The next character that is not blank. -/
def next? (cs : List Char) : Option Char := cs.find? (!isBlank ·)

/-- The character stands for itself: it is no quote, and in no identifier. -/
def isMark (c : Char) : Bool :=
  !(c == '\'' || c == '"' || c == '`' || startsIdentifier c || continuesIdentifier c)

/-- A mark continues no identifier. -/
theorem continues_of_isMark {c : Char} (h : isMark c = true) : continuesIdentifier c = false := by
  simp only [isMark, Bool.not_eq_true', Bool.or_eq_false_iff] at h
  exact h.2

section

variable {bound : String → Option String} {before : Option Char} {rest : List Char}

/-- A mark is left alone. -/
theorem substituteChars_mark {c : Char} (h : isMark c = true) :
    substituteChars bound before (c :: rest) =
      c :: substituteChars bound (if isBlank c then before else some c) rest := by
  simp only [isMark, Bool.not_eq_true', Bool.or_eq_false_iff] at h
  obtain ⟨⟨⟨⟨hsingle, hdouble⟩, hback⟩, hstarts⟩, -⟩ := h
  rw [substituteChars, hsingle, hdouble, hback, hstarts]
  rfl

/-- A closed text is what stands in quotes. -/
theorem quotedSpan_of_isClosed {mark : Char} (hmark : mark ≠ '\\') {body : List Char}
    (h : isClosed mark body = true) (rest : List Char) :
    quotedSpan mark (body ++ mark :: rest) = (body ++ [mark], rest) := by
  fun_induction isClosed mark body with
  | case1 =>
    rw [List.nil_append, List.nil_append, quotedSpan, beq_self_eq_true]
    · rfl
    · exact fun _ _ heq => absurd heq hmark
  | case2 c body ih =>
    rw [List.cons_append, List.cons_append, quotedSpan, ih h]
    rfl
  | case3 => cases h
  | case4 c body hpair hlast ih =>
    rw [Bool.and_eq_true, bne_iff_ne] at h
    rw [List.cons_append, quotedSpan, ih h.2, beq_eq_false_iff_ne.2 h.1]
    · rfl
    · intro d left hc heq
      cases body with
      | nil => exact hlast hc rfl
      | cons x xs => exact hpair x xs hc rfl

/-- No quote is blank, and none is a backslash. -/
theorem Quoted.mark_ne (q : Quoted) : isBlank q.mark = false ∧ q.mark ≠ '\\' := by
  rcases q.mark_cases with heq | heq | heq <;> rw [heq] <;> decide

/-- A text in quotes is left alone. -/
theorem substituteChars_quoted (q : Quoted) :
    substituteChars bound before (q.chars ++ rest) =
      q.chars ++ substituteChars bound (some q.mark) rest := by
  have hspan := quotedSpan_of_isClosed q.mark_ne.2 q.closed rest
  have hchars : q.chars ++ rest = q.mark :: (q.body ++ q.mark :: rest) := by simp [Quoted.chars]
  have hlast : (q.mark :: (q.body ++ [q.mark])).reverse.find? (!isBlank ·) = some q.mark := by
    simp [q.mark_ne.1]
  rw [hchars, substituteChars, if_pos q.isMark, hspan]
  dsimp only
  rw [hlast]
  rfl

/-- No identifier starts with a quote. -/
theorem Word.first_ne (w : Word) :
    (w.first == '\'' || w.first == '"' || w.first == '`') = false := by
  cases h : (w.first == '\'' || w.first == '"' || w.first == '`') with
  | false => rfl
  | true =>
    have hstarts := w.starts
    simp only [Bool.or_eq_true, beq_iff_eq] at h
    rcases h with (heq | heq) | heq <;> rw [heq] at hstarts <;> revert hstarts <;> decide

/-- What holds of the first character of a text holds of what the text starts with. -/
theorem forall_head?_cons {P : Char → Prop} {c : Char} {cs : List Char} (h : P c) :
    ∀ d ∈ (c :: cs).head?, P d := by
  intro d hd
  obtain rfl : c = d := Option.some.inj hd
  exact h

/-- A word ends where the text does not go on with an identifier. -/
theorem Word.span_rest (w : Word) (h : ∀ c ∈ rest.head?, continuesIdentifier c = false) :
    (w.rest ++ rest).takeWhile continuesIdentifier = w.rest ∧
      (w.rest ++ rest).dropWhile continuesIdentifier = rest := by
  have hrest : rest.takeWhile continuesIdentifier = [] ∧
      rest.dropWhile continuesIdentifier = rest := by
    cases rest with
    | nil => exact ⟨rfl, rfl⟩
    | cons c rest =>
      have hc := h c rfl
      exact ⟨List.takeWhile_cons_of_neg (by simp [hc]), List.dropWhile_cons_of_neg (by simp [hc])⟩
  have hall : ∀ c ∈ w.rest, continuesIdentifier c = true := List.all_eq_true.1 w.continues
  rw [List.takeWhile_append_of_pos hall, List.dropWhile_append_of_pos hall, hrest.1, hrest.2,
    List.append_nil]
  exact ⟨rfl, rfl⟩

/-- A word is replaced if it is bound and can be a type parameter where it stands. -/
theorem substituteChars_word (w : Word) (h : ∀ c ∈ rest.head?, continuesIdentifier c = false) :
    substituteChars bound before (w.chars ++ rest) =
      (match bound w.text with
        | some value =>
          if isParameterPlace before (next? rest) then grouped value.toList else w.chars
        | none => w.chars) ++ substituteChars bound w.chars.getLast? rest := by
  obtain ⟨htake, hdrop⟩ := w.span_rest h
  rw [Word.chars, List.cons_append, substituteChars, w.first_ne, w.starts, htake, hdrop]
  rfl

end

/-! ## Atoms in their places -/

namespace Arguments

/-- The texts that type parameters are bound to. -/
def texts (σ : Arguments) (name : String) : Option String := (σ.lookup name).map Phrase.text

end Arguments

/-- A text does not go on with an identifier. -/
def Apart (as : List Atom) : Prop := ∀ c ∈ (spell as).head?, continuesIdentifier c = false

/-- The last character that is not blank behind an atom. -/
def Atom.last? (before : Option Char) : Atom → Option Char
  | word _ w => w.chars.getLast?
  | mark c => if isBlank c then before else some c
  | quoted q => some q.mark

/-- An atom stands where it is told for what it is: a word that is bound can be a type parameter
there just if it is one. -/
def Atom.PlacedAt (σ : Arguments) (before : Option Char) (rest : List Atom) : Atom → Prop
  | word role w => Apart rest ∧
    ((σ.lookup w.text).isSome → isParameterPlace before (next? (spell rest)) = (role == .use))
  | mark c => isMark c
  | quoted _ => True

/-- All atoms stand where they are told for what they are. -/
def Placed (σ : Arguments) : Option Char → List Atom → Prop
  | _, [] => True
  | before, a :: rest => a.PlacedAt σ before rest ∧ Placed σ (a.last? before) rest

/-- What becomes of an atom. -/
def Atom.replaced (σ : Arguments) : Atom → List Char
  | word .use w => ((σ.lookup w.text).map fun t => grouped t.chars).getD w.chars
  | a => a.chars

/-- Where all atoms stand where they are told, each bound type name is replaced and nothing else. -/
theorem substituteChars_spell {σ : Arguments} {before : Option Char} {as : List Atom}
    (h : Placed σ before as) :
    substituteChars σ.texts before (spell as) = as.flatMap (Atom.replaced σ) := by
  induction as generalizing before with
  | nil => rw [spell, List.flatMap_nil, List.flatMap_nil, substituteChars]
  | cons a rest ih =>
    obtain ⟨ha, hrest⟩ := h
    rw [spell, List.flatMap_cons, List.flatMap_cons, ← spell, ← ih hrest]
    cases a with
    | mark c => exact substituteChars_mark ha
    | quoted q => exact substituteChars_quoted q
    | word role w =>
      obtain ⟨hapart, hplace⟩ := ha
      rw [Atom.chars, substituteChars_word w hapart, Arguments.texts]
      refine congrArg (· ++ _) ?_
      cases hlookup : σ.lookup w.text with
      | none => cases role <;> simp [Atom.replaced, Atom.chars, hlookup]
      | some t =>
        rw [hlookup] at hplace
        have htext : t.text.toList = t.chars := String.toList_ofList
        cases role <;> simp_all [Atom.replaced, Atom.chars]

end IpcWiring.TypeText
