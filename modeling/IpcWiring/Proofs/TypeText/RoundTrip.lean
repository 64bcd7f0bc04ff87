import IpcWiring.Proofs.TypeText.Readers

/-!
# Types are read back

A type that fits is what is read from its text (`Phrase.parse_text`), so no two types have the same
text.
-/

namespace IpcWiring.TypeText

open IpcWiring.Text (continuesIdentifier)

namespace Phrase

/-! ## One case for each form -/

/-- A phrase has characters. -/
theorem length_lt (t : Phrase) (rest : List Char) : rest.length < (t.chars ++ rest).length := by
  obtain ⟨c, hc, -⟩ := t.opens
  cases hchars : t.chars with
  | nil =>
    rw [hchars] at hc
    cases hc
  | cons d cs =>
    rw [List.length_append, List.length_cons]
    omega

/-- A phrase that has no part on its left is read back if it is read as a first part. -/
theorem ReadBack.of_first (h : ∀ {p q rest read each}, Fits q t → p.StartsWith q →
      Closes q.bar rest → Handles (t.chars ++ rest).length read each →
        readFirst read each p (t.chars ++ rest) = some (t, rest)) : t.ReadBack :=
  ⟨fun hfits hp hrest hon => reads_of_first (h hfits hp hrest) (t.length_lt _) hon⟩

/-- A type by its name is read back. -/
theorem readBack_use (name : Word) : (use name).ReadBack := .of_first fun hfits hp hrest _ => by
  rw [chars_use, readFirst_of_takes (hp.takes hfits.1), readType_word]
  exact readNamed_use hfits.2 hrest.apart hrest.unqualified hrest.unapplied

/-- A text in quotes is read back. -/
theorem readBack_quoted (q : Quoted) : (quoted q).ReadBack := .of_first fun hfits hp _ _ => by
  rw [chars_quoted, readFirst_of_takes (hp.takes hfits)]
  exact readType_quoted q _

/-- A qualified name has at least as many characters as words. -/
theorem length_path_le (path : List Word) (cs : List Char) : path.length ≤
    (spell (path.flatMap fun w => [.mark '.', .word .fixed w]) ++ cs).length := by
  induction path with
  | nil => exact Nat.zero_le _
  | cons w path ih =>
    simp only [List.flatMap_cons, spell_append, List.append_assoc, List.length_append,
      List.length_cons] at ih ⊢
    have hone : 0 < (spell [.mark '.', .word .fixed w]).length := Nat.succ_pos _
    omega

/-- A type with a qualified name or with type arguments is read back. -/
theorem readBack_applied {head : Word} {path : List Word} {args : List Phrase}
    (h : ∀ t ∈ args, t.ReadBack) : (applied head path args).ReadBack :=
  .of_first fun {p q rest read each} hfits hp hrest hread => by
    obtain ⟨htakes, hname, hsome, hargs⟩ := hfits
    have hangled : ∀ c ∈ (spell (angled (args.map atoms)) ++ rest).head?,
        continuesIdentifier c = false ∧ c ≠ '.' := by
      cases args with
      | nil => exact fun c hc => ⟨hrest.apart c hc, fun heq => hrest.unqualified (heq ▸ hc)⟩
      | cons first args => exact forall_head?_cons (by decide)
    have hpath : ∀ c ∈ (spell (path.flatMap fun w => [.mark '.', .word .fixed w]) ++
        (spell (angled (args.map atoms)) ++ rest)).head?, continuesIdentifier c = false := by
      cases path with
      | nil => exact fun c hc => (hangled c hc).1
      | cons w path => exact forall_head?_cons (by decide)
    have hchars : (applied head path args).chars ++ rest = head.chars ++
        (spell (path.flatMap fun w => [.mark '.', .word .fixed w]) ++
          (spell (angled (args.map atoms)) ++ rest)) := by
      simp [chars, atoms, atomsEach_eq_map, spell, Atom.chars]
    rw [hchars] at hread ⊢
    have hreadPath := readPath_path
      (length_path_le path (spell (angled (args.map atoms)) ++ rest)) (fun c hc => (hangled c hc).1)
      fun heq => (hangled '.' heq).2 rfl
    have hreadArgs := readAngled_angled rfl (fun t ht => ⟨h t ht, fitsEach_iff.1 hargs t ht⟩) hread
      hrest.unapplied (by simp only [List.length_append]; omega)
    have happlied : ¬ (path = [] ∧ args.isEmpty = true) := by
      rw [List.isEmpty_iff]
      exact fun hnone => hsome.elim (· hnone.1) (· hnone.2)
    rw [readFirst_of_takes (hp.takes htakes), readType_word]
    simp only [readNamed, readWord_chars head hpath, find?_operators hname, hreadPath, hreadArgs,
      Option.bind_eq_bind, Option.bind_some, if_neg happlied]

/-- A type in parentheses is read back. -/
theorem readBack_paren {inner : Phrase} (h : inner.ReadBack) : (paren inner).ReadBack :=
  .of_first fun {p q rest read each} hfits hp _ hread => by
    have hchars : (paren inner).chars ++ rest = '(' :: (inner.chars ++ ')' :: rest) := by
      simp [chars, atoms, spell, Atom.chars]
    rw [hchars] at hread ⊢
    have hinner := hread.read (h.whole hfits.2 (.mark (by decide) (by decide)))
      (Nat.lt_succ_self (inner.chars ++ ')' :: rest).length)
    have hstart : startsParameters (inner.chars ++ ')' :: rest) = false :=
      not_startsParameters rfl (by decide) hfits.2 (forall_head?_cons (by decide))
    have hclose : (')' :: rest).dropPrefix? [')'] = some rest := dropPrefix?_append [')'] rest
    rw [readFirst_of_takes (hp.takes hfits.1), readType, if_pos (by rfl)]
    simp only [readGroup, List.tail_cons, hstart, hinner, hclose, Option.bind_eq_bind,
      Option.bind_some, Bool.false_eq_true, if_false]

/-- An array is read back. -/
theorem readBack_array {element : Phrase} (h : element.ReadBack) : (array element).ReadBack where
  reads {p q rest x} hfits hp _ hon := by
    have hchars : (array element).chars ++ rest =
        element.chars ++ (Suffix.array.mark ++ rest) := by
      simp [chars, atoms, spell, marks, Atom.chars, Suffix.mark]
    have htakes := hp.takes hfits.1
    rw [hchars]
    exact h.reads hfits.2 (Place.startsWith_of_takes htakes rfl (by decide) (by decide))
      (.mark_append .array) (goesOn_of_suffix htakes (fun _ => rfl) (Nat.le_refl _) hon)

/-- A tuple is read back. -/
theorem readBack_tuple {elements : List Phrase} (h : ∀ t ∈ elements, t.ReadBack) :
    (tuple elements).ReadBack :=
  .of_first fun {p q rest read each} hfits hp _ hread => by
    have hchars : (tuple elements).chars ++ rest =
        '[' :: (spell (separated [',', ' '] (elements.map atoms)) ++ ']' :: rest) := by
      simp [chars, atoms, atomsEach_eq_map, spell, Atom.chars]
    rw [hchars] at hread ⊢
    have helements := readBracketed_separated '[' rfl (by decide)
      (fun t ht => ⟨h t ht, fitsEach_iff.1 hfits.2 t ht⟩) hread (Nat.lt_succ_self _)
    rw [readFirst_of_takes (hp.takes hfits.1), readType, if_neg (by simp), if_pos (by rfl),
      helements]
    rfl

/-- An optional element is read back. -/
theorem readBack_optional {element : Phrase} (h : element.ReadBack) :
    (optional element).ReadBack where
  reads {p q rest x} hfits hp _ hon := by
    have hchars : (optional element).chars ++ rest =
        element.chars ++ (Suffix.optional.mark ++ rest) := by
      simp [chars, atoms, spell, Atom.chars, Suffix.mark]
    obtain ⟨rfl, helement⟩ := hfits
    obtain rfl := hp.eq rfl
    rw [hchars]
    have hstarts : Place.element.StartsWith .tight :=
      Place.startsWith_of_takes (show Place.element.takes 5 = true from rfl) rfl (by decide)
        (by decide)
    exact h.reads helement hstarts (.mark_append .optional)
      (goesOn_of_suffix rfl (fun _ => rfl) (Nat.le_refl _) hon)

/-- The rest of a tuple is read back. -/
theorem readBack_spread {elements : Phrase} (h : elements.ReadBack) : (spread elements).ReadBack :=
  .of_first fun {p q rest read each} hfits hp hrest hread => by
    have hchars : (spread elements).chars ++ rest =
        ['.', '.', '.'] ++ (elements.chars ++ rest) := by
      simp [chars, atoms, spell, marks, Atom.chars]
    obtain ⟨rfl, helements⟩ := hfits
    obtain rfl := hp.eq rfl
    rw [hchars] at hread ⊢
    have hinner := hread.read (h.whole helements hrest)
      (by simp only [List.length_append, List.length_cons]; omega)
    rw [readFirst_of_takes rfl, readType, if_neg (by simp), if_neg (by simp), if_neg (by simp),
      if_pos (by rfl)]
    simp only [readSpread, dropPrefix?_append, hinner, Option.bind_eq_bind, Option.bind_some]

/-- A union is read back. -/
theorem readBack_union {left right : Phrase} (hl : left.ReadBack) (hr : right.ReadBack) :
    (union left right).ReadBack where
  reads {p q rest x} hfits hp hrest hon := by
    have hchars : (union left right).chars ++ rest =
        left.chars ++ (Suffix.union.mark ++ (right.chars ++ rest)) := by
      simp [chars, atoms, spell, marks, Atom.chars, Suffix.mark]
    obtain ⟨htakes, hleft, hright⟩ := hfits
    have hp2 := hp.takes htakes
    have hread : Reads .intersection (right.chars ++ rest) (right, rest) :=
      hr.whole hright (hrest.mono (Place.bar_le htakes (by decide)))
    rw [hchars]
    refine hl.reads hleft (Place.startsWith_of_takes hp2 rfl (by decide) (by decide))
      (.mark_append .union) (goesOn_of_suffix hp2 (fun hhandles => ?_)
        (Nat.le_of_lt (right.length_lt rest)) hon)
    rw [readBehind, hhandles.read hread (Nat.lt_succ_self _)]
    rfl

/-- An intersection is read back. -/
theorem readBack_intersection {left right : Phrase} (hl : left.ReadBack) (hr : right.ReadBack) :
    (intersection left right).ReadBack where
  reads {p q rest x} hfits hp hrest hon := by
    have hchars : (intersection left right).chars ++ rest =
        left.chars ++ (Suffix.intersection.mark ++ (right.chars ++ rest)) := by
      simp [chars, atoms, spell, marks, Atom.chars, Suffix.mark]
    obtain ⟨htakes, hleft, hright⟩ := hfits
    have hp3 := hp.takes htakes
    have hread : Reads .operand (right.chars ++ rest) (right, rest) :=
      hr.whole hright (hrest.mono (Place.bar_le htakes (by decide)))
    rw [hchars]
    refine hl.reads hleft (Place.startsWith_of_takes hp3 rfl (by decide) (by decide))
      (.mark_append .intersection)
      (goesOn_of_suffix hp3 (fun hhandles => ?_) (Nat.le_of_lt (right.length_lt rest)) hon)
    rw [readBehind, hhandles.read hread (Nat.lt_succ_self _)]
    rfl

/-- A type behind a type operator is read back. -/
theorem readBack_operator {op : Keyword} {operand : Phrase} (h : operand.ReadBack) :
    (operator op operand).ReadBack :=
  .of_first fun {p q rest read each} hfits hp hrest hread => by
    have hchars : (operator op operand).chars ++ rest =
        op.word.chars ++ (' ' :: (operand.chars ++ rest)) := by
      simp [chars, atoms, spell, Atom.chars]
    obtain ⟨htakes, hop, hoperand⟩ := hfits
    rw [hchars] at hread ⊢
    have hword : readWord (op.word.chars ++ (' ' :: (operand.chars ++ rest))) =
        some (op.word, ' ' :: (operand.chars ++ rest)) :=
      readWord_chars _ (forall_head?_cons (by decide))
    have hinner := hread.read (h.whole hoperand (hrest.mono (Place.bar_le htakes (by decide))))
      (by simp only [List.length_append, List.length_cons]; omega)
    rw [readFirst_of_takes (Place.takes_of_le (hp.takes htakes) (by decide)), readType_word]
    simp only [readNamed, hword, find?_operator hop, List.head?_cons, List.tail_cons, hinner,
      Option.bind_eq_bind, Option.bind_some, if_true]

/-- A conditional type is read back. -/
theorem readBack_conditional {check extended positive negative : Phrase} (hc : check.ReadBack)
    (he : extended.ReadBack) (hp : positive.ReadBack) (hn : negative.ReadBack) :
    (conditional check extended positive negative).ReadBack where
  reads {p q rest x} hfits hstart hrest hon := by
    have hchars : (conditional check extended positive negative).chars ++ rest =
        check.chars ++ (Suffix.conditional.mark ++ (extended.chars ++ ([' ', '?', ' '] ++
          (positive.chars ++ ([' ', ':', ' '] ++ (negative.chars ++ rest)))))) := by
      simp [chars, atoms, spell, marks, Atom.chars, Suffix.mark]
    obtain ⟨htakes, hcheck, hextended, hpositive, hnegative⟩ := hfits
    have hp0 := hstart.takes htakes
    have hp2 := Place.takes_of_le hp0 (show 0 ≤ 2 by decide)
    have hreadNegative := hn.whole hnegative (hrest.mono (Place.bar_le htakes (by decide)))
    have hcolon : ∀ cs, Closes 0 ([' ', ':', ' '] ++ cs) := fun _ => .blank (by decide)
    have hquestion : ∀ cs, Closes 1 ([' ', '?', ' '] ++ cs) := fun _ => .blank (by decide)
    have hreadPositive := hp.whole hpositive (hcolon (negative.chars ++ rest))
    have hreadExtended := he.whole hextended
      (hquestion (positive.chars ++ ([' ', ':', ' '] ++ (negative.chars ++ rest))))
    rw [hchars]
    refine hc.reads hcheck (Place.startsWith_of_takes hp2 rfl (by decide) (by decide))
      ((Closes.mark_append .conditional).mono (by decide))
      (goesOn_of_suffix hp0 (fun hhandles => ?_) ?_ hon)
    · have hone := hhandles.read hreadExtended (by omega)
      have htwo := hhandles.read hreadPositive (by simp only [List.length_append]; omega)
      have hthree := hhandles.read hreadNegative (by simp only [List.length_append]; omega)
      simp only [readBehind, hone, htwo, hthree, dropPrefix?_append, Option.bind_eq_bind,
        Option.bind_some]
    · simp only [List.length_append]
      omega

/-- A function type is read back. -/
theorem readBack_function {parameters : List Phrase} {result : Phrase}
    (hp : ∀ t ∈ parameters, t.ReadBack) (hr : result.ReadBack) :
    (function parameters result).ReadBack :=
  .of_first fun {p q rest read each} hfits hstart hrest hread => by
    have hchars : (function parameters result).chars ++ rest =
        '(' :: (spell (separated [',', ' '] (parameters.map atoms)) ++
          ')' :: ([' ', '=', '>', ' '] ++ (result.chars ++ rest))) := by
      simp [chars, atoms, listed, atomsEach_eq_map, spell, marks, Atom.chars]
    obtain ⟨htakes, hparameters, hresult⟩ := hfits
    obtain rfl := hstart.eq htakes
    have hparameters := fitsEach_iff.1 hparameters
    rw [hchars] at hread ⊢
    have hreadParameters := readBracketed_separated '(' rfl (by decide)
      (fun t ht => ⟨hp t ht, hparameters t ht⟩) hread (Nat.lt_succ_self _)
    have hreadResult := hread.read (hr.whole hresult (hrest.mono (Place.bar_le_result htakes)))
      (by simp only [List.length_append, List.length_cons]; omega)
    rw [readFirst_of_takes (Place.takes_of_le htakes (by decide)), readType, if_pos (by rfl)]
    simp only [readGroup, List.tail_cons, startsParameters_separated hparameters, hreadParameters,
      hreadResult, dropPrefix?_append, Option.bind_eq_bind, Option.bind_some, if_true]

/-- A parameter is read back. -/
theorem readBack_parameter {modifier : Modifier} {name : Word} {type : Phrase}
    (h : type.ReadBack) : (parameter modifier name type).ReadBack :=
  .of_first fun {p q rest read each} hfits hp hrest hread => by
    have hchars : (parameter modifier name type).chars ++ rest =
        spell (parameterName name modifier) ++ (':' :: ' ' :: (type.chars ++ rest)) := by
      simp [chars, atoms, spell, marks, Atom.chars]
    obtain ⟨rfl, htype⟩ := hfits
    obtain rfl := hp.eq_of_not_takes rfl
    rw [hchars] at hread ⊢
    have hinner := hread.read (h.whole htype hrest)
      (by simp only [List.length_append, List.length_cons]; omega)
    simp only [readFirst, readParameter, readParameterName_chars, hinner, Option.bind_eq_bind,
      Option.bind_some]

/-- An object type is read back. -/
theorem readBack_object {members : List Phrase} (h : ∀ t ∈ members, t.ReadBack) :
    (object members).ReadBack :=
  .of_first fun {p q rest read each} hfits hp _ hread => by
    rw [readFirst_of_takes (hp.takes hfits.1)]
    cases members with
    | nil =>
      have hchars : (object []).chars ++ rest = ['\x7b', '\x7d'] ++ rest := rfl
      rw [hchars, readType, if_neg (by simp), if_neg (by simp), if_pos (by rfl)]
      simp only [readObject, dropPrefix?_append]
    | cons first members =>
      have hchars : (object (first :: members)).chars ++ rest = ['\x7b', ' '] ++
          (spell (separated [';', ' '] ((first :: members).map atoms)) ++
            ([' ', '\x7d'] ++ rest)) := by
        simp [chars, atoms, braced, atomsEach_eq_map, spell, marks, Atom.chars]
      rw [hchars] at hread ⊢
      have hclosed : Closes 0 ([' ', '\x7d'] ++ rest) := .blank (by decide)
      have hreads : ReadsEach .member ';' _ _ := readsEach rfl (by decide)
        (fun t ht => ⟨h t ht, fitsEach_iff.1 hfits.2 t ht⟩) hclosed rfl
      have heach := hread.each hreads (by
        simp only [List.length_append, List.length_cons]
        omega)
      have hnone : ∀ cs, (['\x7b', ' '] ++ cs).dropPrefix? ['\x7b', '\x7d'] = none := fun _ => rfl
      rw [readType, if_neg (by simp), if_neg (by simp), if_pos (by rfl)]
      simp only [readObject, hnone, dropPrefix?_append, heach, Option.bind_eq_bind,
        Option.bind_some]

/-- A property is read back. -/
theorem readBack_property {isReadonly : Bool} {key : Key} {isOptional : Bool} {type : Phrase}
    (h : type.ReadBack) : (property isReadonly key isOptional type).ReadBack :=
  .of_first fun {p q rest read each} hfits hp hrest hread => by
    obtain ⟨rfl, htype⟩ := hfits
    obtain rfl := hp.eq_of_not_takes rfl
    cases isReadonly with
    | false =>
      have hchars : (property false key isOptional type).chars ++ rest = key.atom.chars ++
          (spell (questionIf isOptional) ++ ':' :: ' ' :: (type.chars ++ rest)) := by
        simp [chars, atoms, propertyKey, spell, marks, Atom.chars]
      rw [hchars] at hread ⊢
      have hinner := hread.read (h.whole htype hrest)
        (by simp only [List.length_append, List.length_cons]; omega)
      rw [readFirst, readMember_key key isOptional (by decide), if_pos rfl]
      exact readProperty_chars false key isOptional hinner
    | true =>
      have hchars : (property true key isOptional type).chars ++ rest =
          Keyword.readonly.word.chars ++ (' ' :: (key.atom.chars ++
            (spell (questionIf isOptional) ++ ':' :: ' ' :: (type.chars ++ rest)))) := by
        simp [chars, atoms, propertyKey, spell, marks, Atom.chars]
      rw [hchars] at hread ⊢
      have hinner := hread.read (h.whole htype hrest)
        (by simp only [List.length_append, List.length_cons]; omega)
      rw [readFirst, readMember_readonly]
      exact readProperty_chars true key isOptional hinner

/-- A method is read back. -/
theorem readBack_method {key : Key} {isOptional : Bool} {generics parameters : List Phrase}
    {result : Phrase} (hg : ∀ t ∈ generics, t.ReadBack) (hp : ∀ t ∈ parameters, t.ReadBack)
    (hr : result.ReadBack) : (method key isOptional generics parameters result).ReadBack :=
  .of_first fun {p q rest read each} hfits hstart hrest hread => by
    obtain ⟨rfl, hgenerics, hparameters, hresult⟩ := hfits
    obtain rfl := hstart.eq_of_not_takes rfl
    have hchars : (method key isOptional generics parameters result).chars ++ rest =
        key.atom.chars ++ (spell (questionIf isOptional) ++ (spell (angled (generics.map atoms)) ++
          (spell (listed (parameters.map atoms)) ++ ([':', ' '] ++ (result.chars ++ rest))))) := by
      simp [chars, atoms, atomsEach_eq_map, spell, marks, Atom.chars]
    rw [hchars] at hread ⊢
    have hreadResult := hread.read (hr.whole hresult hrest)
      (by simp only [List.length_append, List.length_cons]; omega)
    obtain ⟨rest', hlisted⟩ : ∃ cs, spell (listed (parameters.map atoms)) ++
        ([':', ' '] ++ (result.chars ++ rest)) = '(' :: cs := ⟨_, rfl⟩
    have hreadParameters := readBracketed_listed
      (fun t ht => ⟨hp t ht, fitsEach_iff.1 hparameters t ht⟩) hread
      (show (spell (listed (parameters.map atoms)) ++
        ([':', ' '] ++ (result.chars ++ rest))).length ≤ _ by
          simp only [List.length_append]
          omega)
    rw [hlisted] at hread hreadParameters ⊢
    have hreadGenerics := readAngled_angled rfl
      (fun t ht => ⟨hg t ht, fitsEach_iff.1 hgenerics t ht⟩) hread
      (show ('(' :: rest').head? ≠ some '<' by simp) (by simp only [List.length_append]; omega)
    obtain ⟨c, cs, hbehind, hc⟩ : ∃ c cs, spell (angled (generics.map atoms)) ++ '(' :: rest' =
        c :: cs ∧ c ∈ ['<', '('] := by
      cases generics with
      | nil => exact ⟨'(', rest', rfl, by decide⟩
      | cons => exact ⟨'<', _, rfl, by decide⟩
    rw [hbehind] at hreadGenerics ⊢
    have hmark : c ∈ [':', '<', '('] := List.mem_cons_of_mem _ hc
    have hcolon : ¬ c = ':' := by rintro rfl; revert hc; decide
    have hquestion := readQuestion_questionIf isOptional
      (show (c :: cs).head? ≠ some '?' by rintro ⟨⟩; revert hc; decide)
    rw [readFirst, readMember_key key isOptional hmark, if_neg hcolon]
    simp only [readMethod, hquestion, hreadGenerics, hreadParameters, hreadResult,
      dropPrefix?_append, Option.bind_eq_bind, Option.bind_some]

/-- A type parameter of a method is read back. -/
theorem readBack_generic (name : Word) : (generic name).ReadBack :=
  .of_first fun hfits hp hrest _ => by
    obtain rfl := hfits
    obtain rfl := hp.eq_of_not_takes rfl
    rw [chars_generic]
    exact readGeneric_generic hrest

/-- A type parameter of a method is read back with its constraint. -/
theorem readBack_bounded {name : Word} {constraint : Phrase} (h : constraint.ReadBack) :
    (bounded name constraint).ReadBack :=
  .of_first fun {p q rest read each} hfits hp hrest hread => by
    have hchars : (bounded name constraint).chars ++ rest =
        name.chars ++ (Suffix.conditional.mark ++ (constraint.chars ++ rest)) := by
      simp [chars, atoms, spell, Atom.chars, Suffix.mark]
    obtain ⟨rfl, hconstraint⟩ := hfits
    obtain rfl := hp.eq_of_not_takes rfl
    rw [hchars] at hread ⊢
    exact readGeneric_bounded (hread.read (h.whole hconstraint hrest) (by
      simp only [List.length_append, Word.chars, List.length_cons]
      omega))

/-- Every phrase is read back from its text. -/
theorem readBack (t : Phrase) : t.ReadBack := by
  induction t using Phrase.induct with
  | use name => exact readBack_use name
  | applied head path args ih => exact readBack_applied ih
  | quoted q => exact readBack_quoted q
  | paren inner ih => exact readBack_paren ih
  | array element ih => exact readBack_array ih
  | tuple elements ih => exact readBack_tuple ih
  | optional element ih => exact readBack_optional ih
  | spread elements ih => exact readBack_spread ih
  | union left right ihl ihr => exact readBack_union ihl ihr
  | intersection left right ihl ihr => exact readBack_intersection ihl ihr
  | operator op operand ih => exact readBack_operator ih
  | conditional check extended positive negative ihc ihe ihp ihn =>
    exact readBack_conditional ihc ihe ihp ihn
  | function parameters result ihp ihr => exact readBack_function ihp ihr
  | parameter modifier name type ih => exact readBack_parameter ih
  | object members ih => exact readBack_object ih
  | property isReadonly key isOptional type ih => exact readBack_property ih
  | method key isOptional generics parameters result ihg ihp ihr =>
    exact readBack_method ihg ihp ihr
  | generic name => exact readBack_generic name
  | bounded name constraint ih => exact readBack_bounded ih

/-- A type that fits is what is read from its text. -/
theorem parse_text {t : Phrase} (h : Fits .type t) : parse t.text = some t := by
  have hread := t.readBack.whole h Closes.nil
  rw [List.append_nil] at hread
  have htext : t.text.toList = t.chars := String.toList_ofList
  have hlength : t.text.length = t.chars.length := by rw [← htext, String.length_toList]
  rw [parse, htext, hread _ (Nat.le_of_eq (by rw [hlength]))]

end Phrase

end IpcWiring.TypeText
