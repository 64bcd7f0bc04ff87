import IpcWiring.Proofs.TypeText.Closing

/-!
# Readers

What each reader makes of the text of a phrase whose parts are read back (`Phrase.ReadBack`). The
left of an operator is read before the operator is seen, so a phrase is read back if what is read
goes on from it.
-/

namespace IpcWiring.TypeText

open IpcWiring.Text (startsIdentifier continuesIdentifier)

/-! ## First characters -/

/-- A text starts with something else than a closing bracket. -/
def Opens (cs : List Char) : Prop := ∃ c ∈ cs.head?, c ∉ [')', ']', '>', '\x7d']

/-- What follows makes no difference. -/
theorem Opens.append {cs ds : List Char} (h : Opens cs) : Opens (cs ++ ds) := by
  obtain ⟨c, hc, hopens⟩ := h
  refine ⟨c, ?_, hopens⟩
  rw [Option.mem_def] at hc ⊢
  rw [List.head?_append, hc, Option.some_or]

/-- A word starts with a character that starts an identifier. -/
theorem Word.first_ne_of_starts (w : Word) {c : Char} (h : startsIdentifier c = false) :
    w.first ≠ c := by
  rintro rfl
  rw [w.starts] at h
  cases h

/-- A word opens. -/
theorem Word.opens (w : Word) : Opens w.chars := by
  refine ⟨w.first, rfl, ?_⟩
  simp only [List.mem_cons, List.not_mem_nil, or_false, not_or]
  exact ⟨w.first_ne_of_starts (by decide), w.first_ne_of_starts (by decide),
    w.first_ne_of_starts (by decide), w.first_ne_of_starts (by decide)⟩

/-- A text in quotes opens. -/
theorem Quoted.opens (q : Quoted) : Opens q.chars := by
  refine ⟨q.mark, rfl, ?_⟩
  rcases q.mark_cases with heq | heq | heq <;> rw [heq] <;> decide

/-- A key opens. -/
theorem Key.opens (k : Key) : Opens k.atom.chars := by
  cases k with
  | word w => exact w.opens
  | quoted q => exact q.opens

/-- A phrase starts with something else than a closing bracket. -/
theorem Phrase.opens (t : Phrase) : Opens t.chars := by
  have happend : ∀ {as bs}, Opens (spell as) → Opens (spell (as ++ bs)) := fun {as bs} h => by
    rw [spell_append]
    exact h.append
  have hcons : ∀ {a as}, Opens a.chars → Opens (spell (a :: as)) := fun h => h.append
  have hmark : ∀ {c as}, c ∉ [')', ']', '>', '\x7d'] → Opens (spell (.mark c :: as)) :=
    fun {c as} h => ⟨c, rfl, h⟩
  induction t using Phrase.induct with
  | use name | generic name | bounded name => exact hcons name.opens
  | applied head => exact happend (hcons (a := .word .head head) head.opens)
  | quoted q => exact hcons q.opens
  | paren | tuple | function => exact happend (hmark (by decide))
  | spread => exact hmark (by decide)
  | array _ ih | optional _ ih => exact happend ih
  | union _ _ ih | intersection _ _ ih => exact happend (happend ih)
  | conditional _ _ _ _ ih => exact happend (happend (happend (happend (happend ih))))
  | operator op => exact hcons op.word.opens
  | parameter modifier name =>
    cases modifier with
    | plain | optional => exact happend (happend (hcons name.opens))
    | rest => exact hmark (by decide)
  | object members =>
    rw [chars, atoms, atomsEach_eq_map]
    cases members <;> exact hmark (by decide)
  | property isReadonly key =>
    cases isReadonly with
    | true => exact hcons Keyword.readonly.word.opens
    | false => exact happend (happend (hcons key.opens))
  | method key => exact happend (happend (happend (happend (hcons key.opens))))

/-! ## Reading back -/

/-- A phrase is read back from its text: where it may stand on the left, what is read goes on from
the phrase. -/
structure Phrase.ReadBack (t : Phrase) : Prop where
  reads : ∀ {p q rest x}, Fits q t → p.StartsWith q → Closes q.bar rest → GoesOn p t rest x →
    Reads p (t.chars ++ rest) x

namespace Phrase

variable {read : Place → Reader} {each : Place → Char → ListReader}
  {p q : Place} {t : Phrase} {ts : List Phrase} {rest : List Char} {n : Nat}

/-! ### Lists -/

/-- A phrase that is read back is read from its whole text. -/
theorem ReadBack.whole (h : t.ReadBack) (hfits : Fits p t) (hrest : Closes p.weakest rest) :
    Reads p (t.chars ++ rest) (t, rest) :=
  h.reads hfits (.inl rfl) (hrest.mono p.weakest_le_bar) (goesOn_of_closes hrest)

/-- Phrases that are read back are read one after the other. -/
theorem readsEach {sep : Char} (hweakest : p.weakest = 0)
    (hsep : isMark sep = true ∧ sep ∉ ['.', '<', '[', '?', ' ']) {first : Phrase}
    (h : ∀ t ∈ first :: ts, t.ReadBack ∧ Fits p t) (hrest : Closes 0 rest)
    (hstop : rest.dropPrefix? [sep, ' '] = none) :
    ReadsEach p sep (spell (separated [sep, ' '] ((first :: ts).map atoms)) ++ rest)
      (first :: ts, rest) := by
  induction ts generalizing first with
  | nil =>
    have hchars : spell (separated [sep, ' '] ([first].map atoms)) = first.chars := by
      rw [chars, List.map_singleton, separated, List.flatMap_nil, List.append_nil]
    rw [hchars]
    intro fuel hfuel
    obtain ⟨fuel, rfl⟩ := Nat.exists_eq_add_one.2 (show 0 < fuel by omega)
    obtain ⟨hback, hfits⟩ := h first List.mem_cons_self
    have hfirst := hback.whole hfits (by rwa [hweakest]) fuel (by omega)
    simp only [readEach, hfirst, Option.bind_eq_bind, Option.bind_some, hstop]
  | cons next ts ih =>
    have hchars : spell (separated [sep, ' '] ((first :: next :: ts).map atoms)) ++ rest =
        first.chars ++ (sep :: ' ' ::
          (spell (separated [sep, ' '] ((next :: ts).map atoms)) ++ rest)) := by
      simp [separated, spell, marks, Atom.chars, chars]
    have hmore := ih fun t ht => h t (List.mem_cons_of_mem _ ht)
    rw [hchars]
    generalize spell (separated [sep, ' '] ((next :: ts).map atoms)) ++ rest = cs at hmore
    intro fuel hfuel
    obtain ⟨fuel, rfl⟩ := Nat.exists_eq_add_one.2 (show 0 < fuel by omega)
    rw [List.length_append, List.length_cons, List.length_cons] at hfuel
    obtain ⟨hback, hfits⟩ := h first List.mem_cons_self
    have hends : Closes p.weakest (sep :: ' ' :: cs) := .mark hsep.1 hsep.2
    have hfirst := hback.whole hfits hends fuel (by
      rw [List.length_append, List.length_cons, List.length_cons]
      omega)
    have hdrop : (sep :: ' ' :: cs).dropPrefix? [sep, ' '] = some cs :=
      dropPrefix?_append [sep, ' '] cs
    simp only [readEach, hfirst, Option.bind_eq_bind, Option.bind_some, hdrop,
      hmore fuel (by omega)]

/-- Phrases between brackets are read back. -/
theorem readBracketed_separated (opening : Char) {closing : Char} (hweakest : p.weakest = 0)
    (hclosing : closing ∈ [')', ']', '>', '\x7d']) (h : ∀ t ∈ ts, t.ReadBack ∧ Fits p t)
    (hread : Handles n read each)
    (hn : (spell (separated [',', ' '] (ts.map atoms)) ++ closing :: rest).length < n) :
    readBracketed opening closing (each p ',')
      (opening :: (spell (separated [',', ' '] (ts.map atoms)) ++ closing :: rest)) =
        some (ts, rest) := by
  have hopening : ∀ cs, (opening :: cs).dropPrefix? [opening] = some cs :=
    dropPrefix?_append [opening]
  have hclose : (closing :: rest).dropPrefix? [closing] = some rest :=
    dropPrefix?_append [closing] rest
  cases ts with
  | nil =>
    have hnil : spell (separated [',', ' '] (([] : List Phrase).map atoms)) = [] := rfl
    simp only [readBracketed, hopening, hnil, List.nil_append, hclose, Option.bind_eq_bind,
      Option.bind_some]
  | cons first ts =>
    have hends : Closes 0 (closing :: rest) ∧ (closing :: rest).dropPrefix? [',', ' '] = none := by
      simp only [List.mem_cons, List.not_mem_nil, or_false] at hclosing
      rcases hclosing with rfl | rfl | rfl | rfl <;>
        exact ⟨.mark (by decide) (by decide), rfl⟩
    have heach := hread.each (readsEach hweakest (by decide) h hends.1 hends.2) hn
    have hstart : (spell (separated [',', ' '] ((first :: ts).map atoms)) ++
        closing :: rest).dropPrefix? [closing] = none := by
      have hopens : Opens (spell (separated [',', ' '] ((first :: ts).map atoms)) ++
          closing :: rest) := by
        rw [List.map_cons, separated, spell_append]
        exact first.opens.append.append
      obtain ⟨c, hc, hne⟩ := hopens
      generalize spell (separated [',', ' '] ((first :: ts).map atoms)) ++ closing :: rest = cs
        at hc
      cases cs with
      | nil => cases hc
      | cons d cs =>
        obtain rfl : d = c := Option.some.inj hc
        have hdc : (d == closing) = false := by
          rw [beq_eq_false_iff_ne]
          rintro rfl
          exact hne hclosing
        rw [List.dropPrefix?, hdc]
        rfl
    simp only [readBracketed, hopening, hstart, heach, hclose, Option.bind_eq_bind,
      Option.bind_some]

/-- Type arguments and type parameters are read back. -/
theorem readAngled_angled (hweakest : p.weakest = 0) (h : ∀ t ∈ ts, t.ReadBack ∧ Fits p t)
    (hread : Handles n read each) (hrest : rest.head? ≠ some '<')
    (hn : (spell (angled (ts.map atoms)) ++ rest).length ≤ n) :
    readAngled (each p ',') (spell (angled (ts.map atoms)) ++ rest) = some (ts, rest) := by
  cases ts with
  | nil => exact if_neg hrest
  | cons first ts =>
    have hchars : spell (angled ((first :: ts).map atoms)) ++ rest =
        '<' :: (spell (separated [',', ' '] ((first :: ts).map atoms)) ++ '>' :: rest) := by
      simp [angled, spell, Atom.chars]
    rw [hchars] at hn ⊢
    rw [readAngled, if_pos (by rfl)]
    exact readBracketed_separated '<' hweakest (by decide) h hread hn

/-- Parameters are read back. -/
theorem readBracketed_listed (h : ∀ t ∈ ts, t.ReadBack ∧ Fits .parameter t)
    (hread : Handles n read each) (hn : (spell (listed (ts.map atoms)) ++ rest).length ≤ n) :
    readBracketed '(' ')' (each .parameter ',') (spell (listed (ts.map atoms)) ++ rest) =
      some (ts, rest) := by
  have hchars : spell (listed (ts.map atoms)) ++ rest =
      '(' :: (spell (separated [',', ' '] (ts.map atoms)) ++ ')' :: rest) := by
    simp [listed, spell, Atom.chars]
  rw [hchars] at hn ⊢
  exact readBracketed_separated '(' rfl (by decide) h hread hn

/-- A qualified name is read back. -/
theorem readPath_path {path : List Word} {fuel : Nat} (hfuel : path.length ≤ fuel)
    (hapart : ∀ c ∈ rest.head?, continuesIdentifier c = false) (hdot : rest.head? ≠ some '.') :
    readPath fuel (spell (path.flatMap fun w => [.mark '.', .word .fixed w]) ++ rest) =
      (path, rest) := by
  induction path generalizing fuel with
  | nil =>
    rw [List.flatMap_nil, spell, List.flatMap_nil, List.nil_append]
    cases fuel with
    | zero => rfl
    | succ fuel =>
      cases rest with
      | nil => rfl
      | cons c rest =>
        rw [readPath]
        intro fuel' rest' _ heq
        exact hdot (congrArg List.head? heq)
  | cons w path ih =>
    obtain ⟨fuel, rfl⟩ := Nat.exists_eq_add_one.2 (show 0 < fuel by
      rw [List.length_cons] at hfuel; omega)
    have hchars : spell ((w :: path).flatMap fun w => [.mark '.', .word .fixed w]) ++ rest =
        '.' :: (w.chars ++
          (spell (path.flatMap fun w => [.mark '.', .word .fixed w]) ++ rest)) := by
      simp [spell, Atom.chars]
    have hnext : ∀ c ∈ (spell (path.flatMap fun w => [.mark '.', .word .fixed w]) ++ rest).head?,
        continuesIdentifier c = false := by
      cases path with
      | nil => exact hapart
      | cons w path => exact forall_head?_cons (by decide)
    rw [hchars, readPath, readWord_chars w hnext]
    simp only [ih (Nat.le_of_succ_le_succ hfuel)]

/-! ### Types -/

/-- Where a type may stand, a type is read. -/
theorem readFirst_of_takes {cs : List Char} (h : p.takes 5 = true) :
    readFirst read each p cs = readType read each p cs := by
  cases p with
  | member | parameter | generic => cases h
  | _ => rfl

/-- A type that starts with a word is read as one. -/
theorem readType_word (w : Word) (p : Place) (cs : List Char) :
    readType read each p (w.chars ++ cs) = readNamed read each (w.chars ++ cs) := by
  have hhead : (w.chars ++ cs).head? = some w.first := rfl
  have hne : ∀ c, startsIdentifier c = false → ¬ some w.first = some c :=
    fun c hc heq => w.first_ne_of_starts hc (Option.some.inj heq)
  rw [readType, hhead, if_neg (hne '(' (by decide)), if_neg (hne '[' (by decide)),
    if_neg (hne '\x7b' (by decide)), if_neg (hne '.' (by decide)), readQuoted_word]

/-- A text in quotes is read as a type. -/
theorem readType_quoted (q : Quoted) (p : Place) :
    readType read each p (q.chars ++ rest) = some (.quoted q, rest) := by
  have hhead : (q.chars ++ rest).head? = some q.mark := rfl
  have hne : ∀ c, ¬ (c = '\'' ∨ c = '"' ∨ c = '`') → ¬ some q.mark = some c := by
    rintro c hc heq
    obtain rfl := Option.some.inj heq
    exact hc q.mark_cases
  rw [readType, hhead, if_neg (hne '(' (by decide)), if_neg (hne '[' (by decide)),
    if_neg (hne '\x7b' (by decide)), if_neg (hne '.' (by decide)), readQuoted_chars]

/-- A name of a type is none of the type operators. -/
theorem find?_operators {w : Word} (h : w.IsName) : operators.find? (·.word = w) = none := by
  refine List.find?_eq_none.2 fun op hop heq => h ?_
  obtain rfl : op.word = w := of_decide_eq_true heq
  exact List.mem_map_of_mem hop

/-- A type operator is found by its word. -/
theorem find?_operator {op : Keyword} (h : op ∈ operators) :
    operators.find? (·.word = op.word) = some op := by
  revert h
  cases op <;> decide

/-- A type by its name is read back. -/
theorem readNamed_use {name : Word} (hname : name.IsName)
    (hapart : ∀ c ∈ rest.head?, continuesIdentifier c = false) (hdot : rest.head? ≠ some '.')
    (hangle : rest.head? ≠ some '<') :
    readNamed read each (name.chars ++ rest) = some (.use name, rest) := by
  have hpath : readPath rest.length rest = ([], rest) :=
    @readPath_path rest [] rest.length (Nat.zero_le _) hapart hdot
  have hangled : readAngled (each .type ',') rest = some ([], rest) := if_neg hangle
  simp only [readNamed, readWord_chars name hapart, find?_operators hname, hpath, hangled,
    Option.bind_eq_bind, Option.bind_some]
  rfl

/-- What starts parameters behind a word is the mark behind it. -/
theorem startsParameters_word {w : Word}
    (hapart : ∀ c ∈ rest.head?, continuesIdentifier c = false) :
    startsParameters (w.chars ++ rest) =
      (rest.head? == some ':' || rest.head? == some '?') := by
  have hhead : (w.chars ++ rest).head? = some w.first := rfl
  have hne : ∀ c, startsIdentifier c = false → (some w.first == some c) = false := fun c hc => by
    rw [beq_eq_false_iff_ne]
    exact fun heq => w.first_ne_of_starts hc (Option.some.inj heq)
  rw [startsParameters, hhead, hne ')' (by decide), hne '.' (by decide),
    readWord_chars w hapart]
  rfl

/-- No parameters start where no word starts, unless there are none or a rest parameter. -/
theorem startsParameters_eq_false {c : Char} {cs : List Char} (hc : startsIdentifier c = false)
    (hparen : c ≠ ')') (hdot : c ≠ '.') : startsParameters (c :: cs) = false := by
  have hword : readWord (c :: cs) = none := readWord_eq_none (forall_head?_cons hc)
  rw [startsParameters, hword]
  simp [hparen, hdot]

/-- No parameters start where a type starts, if neither an identifier nor the sign of a parameter
follows it. -/
theorem not_startsParameters (hq : q.takes 5 = true) (hne : q ≠ .element) (hfits : Fits q t)
    (hrest : ∀ c ∈ rest.head?, continuesIdentifier c = false ∧ c ≠ ':' ∧ c ≠ '?') :
    startsParameters (t.chars ++ rest) = false := by
  have hword : ∀ {w : Word} {cs : List Char},
      (∀ c ∈ cs.head?, continuesIdentifier c = false ∧ c ≠ ':' ∧ c ≠ '?') →
        startsParameters (w.chars ++ cs) = false := fun {w cs} h => by
    rw [startsParameters_word fun c hc => (h c hc).1]
    cases cs with
    | nil => rfl
    | cons c cs => simp [h c rfl]
  -- The first word decides, so the induction goes down the left of each operator.
  induction t using Phrase.induct generalizing q rest with
  | use name =>
    rw [chars_use]
    exact hword hrest
  | applied head path args ih =>
    have hchars : (applied head path args).chars ++ rest = head.chars ++
        (spell (path.flatMap fun w => [.mark '.', .word .fixed w]) ++
          (spell (angled (args.map atoms)) ++ rest)) := by
      simp [chars, atoms, atomsEach_eq_map, spell, Atom.chars]
    obtain ⟨-, -, hsome, -⟩ := hfits
    rw [hchars]
    refine hword ?_
    cases path with
    | cons w path => exact forall_head?_cons (by decide)
    | nil =>
      cases args with
      | nil => simp at hsome
      | cons first args => exact forall_head?_cons (by decide)
  | quoted quote =>
    have hmark : startsIdentifier quote.mark = false ∧ quote.mark ≠ ')' ∧ quote.mark ≠ '.' := by
      rcases quote.mark_cases with heq | heq | heq <;> rw [heq] <;> decide
    exact startsParameters_eq_false hmark.1 hmark.2.1 hmark.2.2
  | paren | tuple | function =>
    exact startsParameters_eq_false (by decide) (by decide) (by decide)
  | object members =>
    rw [chars, atoms, atomsEach_eq_map]
    cases members <;> exact startsParameters_eq_false (by decide) (by decide) (by decide)
  | array element ih =>
    rw [chars, atoms, spell_append, List.append_assoc]
    exact ih rfl (by decide) hfits.2 (forall_head?_cons (by decide))
  | union left right ihl ihr =>
    rw [chars, atoms, List.append_assoc, spell_append, List.append_assoc]
    exact ihl rfl (by decide) hfits.2.1 (forall_head?_cons (by decide))
  | intersection left right ihl ihr =>
    rw [chars, atoms, List.append_assoc, spell_append, List.append_assoc]
    exact ihl rfl (by decide) hfits.2.1 (forall_head?_cons (by decide))
  | conditional check extended positive negative ihc =>
    simp only [chars, atoms, spell_append, List.append_assoc]
    exact ihc rfl (by decide) hfits.2.1 (forall_head?_cons (by decide))
  | operator op operand =>
    have hchars : (operator op operand).chars ++ rest =
        op.word.chars ++ (' ' :: (operand.chars ++ rest)) := by
      simp [chars, atoms, spell, Atom.chars]
    rw [hchars]
    exact hword (forall_head?_cons (by decide))
  | optional | spread => exact (hne hfits.1).elim
  | parameter | property | method | bounded =>
    obtain ⟨rfl, -⟩ := hfits
    cases hq
  | generic =>
    obtain rfl := hfits
    cases hq

/-! ### Members and parameters -/

/-- A key is read back. -/
theorem readKey_chars (key : Key) (h : ∀ c ∈ rest.head?, continuesIdentifier c = false) :
    readKey (key.atom.chars ++ rest) = some (key, rest) := by
  cases key with
  | word w =>
    have hword : readWord ((Key.word w).atom.chars ++ rest) = some (w, rest) := readWord_chars w h
    rw [readKey, hword]
  | quoted q =>
    have hquoted : readQuoted ((Key.quoted q).atom.chars ++ rest) = some (q, rest) :=
      readQuoted_chars q rest
    have hword : readWord ((Key.quoted q).atom.chars ++ rest) = none := by
      refine readWord_eq_none (forall_head?_cons ?_)
      rcases q.mark_cases with heq | heq | heq <;> rw [heq] <;> decide
    rw [readKey, hword, hquoted]
    rfl

/-- A question mark is read back. -/
theorem readQuestion_questionIf (isOptional : Bool) (h : rest.head? ≠ some '?') :
    readQuestion (spell (questionIf isOptional) ++ rest) = (isOptional, rest) := by
  cases isOptional with
  | true =>
    have hsome : (['?'] ++ rest).dropPrefix? ['?'] = some rest := dropPrefix?_append ['?'] rest
    change readQuestion (['?'] ++ rest) = _
    rw [readQuestion, hsome]
  | false =>
    have hnone : rest.dropPrefix? ['?'] = none := by
      cases rest with
      | nil => rfl
      | cons c rest => simpa [List.dropPrefix?] using h
    rw [questionIf, if_neg (by decide), spell, List.flatMap_nil, List.nil_append, readQuestion,
      hnone]

/-- A type parameter of a method is read back. -/
theorem readGeneric_generic {name : Word} (h : Closes 0 rest) :
    readGeneric read (name.chars ++ rest) = some (.generic name, rest) := by
  have hnone : rest.dropPrefix? Suffix.conditional.mark = none := h.suffix .conditional Nat.le.refl
  simp only [readGeneric, readWord_chars name h.apart, hnone, Option.bind_eq_bind,
    Option.bind_some]

/-- A type parameter of a method is read back with its constraint. -/
theorem readGeneric_bounded {name : Word} {cs : List Char} (h : read .type cs = some (t, rest)) :
    readGeneric read (name.chars ++ (Suffix.conditional.mark ++ cs)) =
      some (.bounded name t, rest) := by
  have hname : readWord (name.chars ++ (Suffix.conditional.mark ++ cs)) =
      some (name, Suffix.conditional.mark ++ cs) :=
    readWord_chars name (forall_head?_cons (by decide))
  simp only [readGeneric, hname, dropPrefix?_append, h, Option.bind_eq_bind, Option.bind_some]

/-- The name of a parameter is read back. -/
theorem readParameterName_chars (modifier : Modifier) (name : Word) :
    readParameterName (spell (parameterName name modifier) ++ (':' :: ' ' :: rest)) =
      some ((modifier, name), rest) := by
  have hcolon : (':' :: ' ' :: rest).dropPrefix? [':', ' '] = some rest :=
    dropPrefix?_append [':', ' '] rest
  have hplain : ∀ {c cs}, c = ':' ∨ c = '?' →
      readWord (name.chars ++ c :: cs) = some (name, c :: cs) := fun {c cs} hc => by
    refine readWord_chars name (forall_head?_cons ?_)
    rcases hc with rfl | rfl <;> decide
  have hdots : ∀ cs, (name.chars ++ cs).dropPrefix? ['.', '.', '.'] = none := fun cs => by
    have hne := beq_eq_false_iff_ne.2 (name.first_ne_of_starts (c := '.') (by decide))
    rw [Word.chars, List.cons_append, List.dropPrefix?, hne]
    rfl
  cases modifier with
  | plain =>
    have hchars : spell (parameterName name .plain) = name.chars := List.append_nil _
    have hnone : (':' :: ' ' :: rest).dropPrefix? ['?', ':', ' '] = none := rfl
    rw [hchars]
    simp only [readParameterName, hdots, hplain (.inl rfl), hnone, hcolon, Option.bind_eq_bind,
      Option.bind_some]
  | optional =>
    have hchars : spell (parameterName name .optional) ++ (':' :: ' ' :: rest) =
        name.chars ++ ('?' :: ':' :: ' ' :: rest) := by simp [parameterName, spell, Atom.chars]
    have hquestion : ('?' :: ':' :: ' ' :: rest).dropPrefix? ['?', ':', ' '] = some rest :=
      dropPrefix?_append ['?', ':', ' '] rest
    rw [hchars]
    simp only [readParameterName, hdots, hplain (.inr rfl), hquestion, Option.bind_eq_bind,
      Option.bind_some]
  | rest =>
    have hchars : spell (parameterName name .rest) ++ (':' :: ' ' :: rest) =
        ['.', '.', '.'] ++ (name.chars ++ (':' :: ' ' :: rest)) := by
      simp [parameterName, spell, marks, Atom.chars]
    rw [hchars]
    simp only [readParameterName, dropPrefix?_append, hplain (.inl rfl), hcolon,
      Option.bind_eq_bind, Option.bind_some]

/-- Parameters start behind the parenthesis of a function. -/
theorem startsParameters_separated (h : ∀ t ∈ ts, Fits .parameter t) :
    startsParameters (spell (separated [',', ' '] (ts.map atoms)) ++ ')' :: rest) = true := by
  cases ts with
  | nil => rfl
  | cons first ts =>
    have hfirst := h first List.mem_cons_self
    cases first with
    | parameter modifier name type =>
      rw [List.map_cons, separated, spell_append, List.append_assoc]
      generalize spell (List.flatMap _ _) ++ ')' :: rest = cs
      cases modifier with
      | rest => rfl
      | plain =>
        have hchars : spell (parameter .plain name type).atoms ++ cs =
            name.chars ++ (':' :: ' ' :: (type.chars ++ cs)) := by
          simp [atoms, parameterName, spell, marks, Atom.chars, chars]
        rw [hchars, startsParameters_word (forall_head?_cons (by decide))]
        rfl
      | optional =>
        have hchars : spell (parameter .optional name type).atoms ++ cs =
            name.chars ++ ('?' :: ':' :: ' ' :: (type.chars ++ cs)) := by
          simp [atoms, parameterName, spell, marks, Atom.chars, chars]
        rw [hchars, startsParameters_word (forall_head?_cons (by decide))]
        rfl
    | generic | quoted => cases hfirst
    | _ => cases hfirst.1

/-- What is behind the key of a member with a question mark ends the key. -/
theorem head?_behindKey {isOptional : Bool} {c : Char} {cs : List Char}
    (hc : c ∈ [':', '<', '(']) :
    ∀ d ∈ (spell (questionIf isOptional) ++ c :: cs).head?,
      continuesIdentifier d = false ∧ d ≠ ' ' := by
  simp only [List.mem_cons, List.not_mem_nil, or_false] at hc
  cases isOptional with
  | true => exact forall_head?_cons (by decide)
  | false =>
    refine forall_head?_cons ?_
    rcases hc with rfl | rfl | rfl <;> decide

/-- What is behind a key that is not `readonly` is read by what comes behind the question mark. -/
theorem readMember_key (key : Key) (isOptional : Bool) {c : Char} {cs : List Char}
    (hc : c ∈ [':', '<', '(']) :
    readMember read each (key.atom.chars ++ (spell (questionIf isOptional) ++ c :: cs)) =
      if c = ':' then readProperty read false key (spell (questionIf isOptional) ++ c :: cs)
      else readMethod read each key (spell (questionIf isOptional) ++ c :: cs) := by
  have hnext := @head?_behindKey isOptional c cs hc
  have hkey := readKey_chars key fun d hd => (hnext d hd).1
  have hblank : ¬ ((spell (questionIf isOptional) ++ c :: cs).head? = some ' ' ∧
      key = .word Keyword.readonly.word) := fun h => (hnext ' ' h.1).2 rfl
  have hquestion := readQuestion_questionIf isOptional
    (show (c :: cs).head? ≠ some '?' by rintro ⟨⟩; revert hc; decide)
  simp only [readMember, hkey, Option.bind_eq_bind, Option.bind_some, if_neg hblank, hquestion,
    List.head?_cons, Option.some.injEq]

/-- What is behind the key of a readonly property is read as one. -/
theorem readMember_readonly (key : Key) (isOptional : Bool) {cs : List Char} :
    readMember read each (Keyword.readonly.word.chars ++ (' ' :: (key.atom.chars ++
      (spell (questionIf isOptional) ++ ':' :: cs)))) =
      readProperty read true key (spell (questionIf isOptional) ++ ':' :: cs) := by
  have hreadonly : ∀ cs, readKey (Keyword.readonly.word.chars ++ (' ' :: cs)) =
      some (.word Keyword.readonly.word, ' ' :: cs) := fun cs =>
    readKey_chars (.word Keyword.readonly.word) (forall_head?_cons (by decide))
  have hkey := readKey_chars key fun d hd =>
    (@head?_behindKey isOptional ':' cs (by decide) d hd).1
  simp only [readMember, hreadonly, Option.bind_eq_bind, Option.bind_some, List.head?_cons,
    and_self, if_true, List.tail_cons, hkey]

/-- A property is read back behind its key. -/
theorem readProperty_chars (isReadonly : Bool) (key : Key) (isOptional : Bool) {cs : List Char}
    (h : read .type cs = some (t, rest)) :
    readProperty read isReadonly key (spell (questionIf isOptional) ++ (':' :: ' ' :: cs)) =
      some (.property isReadonly key isOptional t, rest) := by
  have hquestion := readQuestion_questionIf isOptional
    (show (':' :: ' ' :: cs).head? ≠ some '?' by simp)
  have hcolon : (':' :: ' ' :: cs).dropPrefix? [':', ' '] = some cs :=
    dropPrefix?_append [':', ' '] cs
  simp only [readProperty, hquestion, hcolon, h, Option.bind_eq_bind, Option.bind_some]

end Phrase

end IpcWiring.TypeText
