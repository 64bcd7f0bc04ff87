import IpcWiring.Proofs.TypeText.Closing
import IpcWiring.Proofs.TypeText.Exposed

/-!
# What bars in a phrase expose

The bars of a type text are those of its unions and those in quotes. A phrase exposes what its parts
expose (`Phrase.exposed_chars_iff`), and a union what stands in its middle besides, as the first and
the last alternative have no bar on one side. So `Phrase.Exposes` tells by the phrase where
`undefined` is found inside of it (`Phrase.exposed_iff`), and bars around the text add its
alternatives (`Phrase.exposed_alternatives`). All of this holds as a type that binds more strongly
than a union starts and ends with characters that set it apart, unless it is a name
(`Phrase.isSealed`).
-/

namespace IpcWiring.TypeText

open IpcWiring.Text (isBlank)

/-- The texts in quotes that are a key. -/
def Key.quotes : Key → List Quoted
  | word _ => []
  | quoted q => [q]

/-- A key exposes what stands in quotes. -/
theorem Key.exposed_chars {k : Key} : Exposed k.atom.chars ↔ ∃ q ∈ k.quotes, Exposed q.body := by
  cases k with
  | word w => exact iff_of_false (not_exposed w.bar_not_mem) nofun
  | quoted q => exact exposed_quoted.trans (by simp [quotes])

namespace Phrase

/-! ## Parts -/

/-- The type `undefined`. -/
def undefined : Phrase := .use undefinedWord

/-- The phrases that a phrase is put together from. -/
def parts : Phrase → List Phrase
  | use _ | quoted _ | generic _ => []
  | applied _ _ ts | tuple ts | object ts => ts
  | paren t | array t | optional t | spread t | operator _ t | parameter _ _ t | property _ _ _ t
  | bounded _ t => [t]
  | union left right | intersection left right => [left, right]
  | conditional check extended positive negative => [check, extended, positive, negative]
  | function parameters result => parameters ++ [result]
  | method _ _ generics parameters result => generics ++ parameters ++ [result]

/-- The texts in quotes that a phrase is or has for its key. -/
def quotes : Phrase → List Quoted
  | quoted q => [q]
  | property _ key _ _ | method key .. => key.quotes
  | _ => []

/-- The phrase is a union. -/
def IsUnion (t : Phrase) : Prop := ∃ left right, t = union left right

/-- What a phrase exposes by its parts and by what it has in quotes. -/
def ExposedWithin (t : Phrase) : Prop :=
  (∃ q ∈ t.quotes, Exposed q.body) ∨ ∃ s ∈ t.parts, Exposed s.chars

/-- Phrases expose what each of them exposes. -/
theorem exists_mem_atomsEach {ts : List Phrase} :
    (∃ i ∈ atomsEach ts, Exposed (spell i)) ↔ ∃ t ∈ ts, Exposed t.chars := by
  rw [atomsEach_eq_map]
  simp only [List.mem_map, exists_exists_and_eq_and]
  rfl

section

variable {t : Phrase}

/-- A phrase without quotes exposes what its parts expose. -/
theorem exposedWithin_iff (h : t.quotes = []) :
    t.ExposedWithin ↔ ∃ s ∈ t.parts, Exposed s.chars := by
  rw [ExposedWithin, h]
  exact or_iff_right nofun

/-- A text without bars is that of a phrase that exposes nothing. -/
theorem exposed_of_no_parts (h : '|' ∉ t.chars) (hq : t.quotes = []) (hs : t.parts = []) :
    Exposed t.chars ↔ t.ExposedWithin := by
  rw [exposedWithin_iff hq, hs]
  exact iff_of_false (not_exposed h) nofun

/-- A phrase with one part exposes what that exposes. -/
theorem exposed_of_one_part {s : Phrase} {a b : List Char} (h : t.chars = a ++ s.chars ++ b)
    (ha : '|' ∉ a) (hb : '|' ∉ b) (hq : t.quotes = []) (hs : t.parts = [s]) :
    Exposed t.chars ↔ t.ExposedWithin := by
  rw [exposedWithin_iff hq, hs, h, exposed_append_right hb, exposed_append_left ha]
  exact ⟨fun hexposed => ⟨s, List.mem_singleton_self s, hexposed⟩,
    fun ⟨_, hmem, hexposed⟩ => List.mem_singleton.1 hmem ▸ hexposed⟩

end

/-- A qualified name has no bar. -/
theorem bar_not_mem_path (path : List Word) :
    '|' ∉ spell (path.flatMap fun w => [.mark '.', .word .fixed w]) := by
  induction path with
  | nil => exact List.not_mem_nil
  | cons w path ih =>
    have hspell : spell [.mark '.', .word .fixed w] = '.' :: w.chars := by simp [spell, Atom.chars]
    rw [List.flatMap_cons, spell_append, hspell, List.mem_append, List.mem_cons]
    rintro ((hc | hc) | hc)
    · cases hc
    · exact w.bar_not_mem hc
    · exact ih hc

/-- A question mark is no bar. -/
theorem bar_not_mem_questionIf (isOptional : Bool) : '|' ∉ spell (questionIf isOptional) := by
  cases isOptional <;> decide

/-- Type parameters and parameters keep apart what stands around them. -/
theorem exposed_append_angled {a b : List Char} {items : List (List Atom)} :
    Exposed (a ++ (spell (angled items) ++ '(' :: b)) ↔
      Exposed a ∨ (∃ i ∈ items, Exposed (spell i)) ∨ Exposed b := by
  cases items with
  | nil =>
    have hglue : Exposed (a ++ (['('] ++ b)) ↔ Exposed a ∨ Exposed b :=
      exposed_append_glue (by decide)
    rw [or_iff_right not_exists_exposed]
    exact hglue
  | cons first rest =>
    have hchars : spell (angled (first :: rest)) ++ '(' :: b =
        ['<'] ++ (spell (separated [',', ' '] (first :: rest)) ++ (['>', '('] ++ b)) := by
      simp [angled, spell, Atom.chars]
    rw [hchars, exposed_append_glue (by decide),
      exposed_append_glue (by decide), exposed_separated isGlue_comma]

/-- A phrase that is no union exposes what its parts expose. -/
theorem exposed_chars_iff {t : Phrase} (h : ¬ t.IsUnion) : Exposed t.chars ↔ t.ExposedWithin := by
  cases t with
  | use name => exact exposed_of_no_parts (chars_use name ▸ name.bar_not_mem) rfl rfl
  | generic name => exact exposed_of_no_parts (chars_generic name ▸ name.bar_not_mem) rfl rfl
  | quoted q =>
    rw [chars_quoted, exposed_quoted, ExposedWithin, quotes, parts]
    simp
  | union left right => exact (h ⟨_, _, rfl⟩).elim
  | applied head path args =>
    have hchars : (applied head path args).chars =
        head.chars ++ (spell (path.flatMap fun w => [.mark '.', .word .fixed w]) ++
          spell (angled (atomsEach args))) := by
      simp [chars, atoms, spell, Atom.chars]
    rw [exposedWithin_iff rfl, hchars, exposed_append_left head.bar_not_mem,
      exposed_append_left (bar_not_mem_path path), exposed_angled, exists_mem_atomsEach]
    rfl
  | paren inner =>
    refine exposed_of_one_part (a := ['(']) (b := [')']) ?_ (by decide) (by decide) rfl rfl
    simp [chars, atoms, spell, Atom.chars]
  | array element =>
    refine exposed_of_one_part (a := []) (b := ['[', ']']) ?_ (by decide) (by decide) rfl rfl
    simp [chars, atoms, spell, marks, Atom.chars]
  | tuple elements =>
    have hchars : (tuple elements).chars =
        ['['] ++ spell (separated [',', ' '] (atomsEach elements)) ++ [']'] := by
      simp [chars, atoms, spell, Atom.chars]
    rw [exposedWithin_iff rfl, hchars, exposed_bracketed isGlue_comma (by decide) (by decide),
      exists_mem_atomsEach]
    rfl
  | optional element =>
    refine exposed_of_one_part (a := []) (b := ['?']) ?_ (by decide) (by decide) rfl rfl
    simp [chars, atoms, spell, Atom.chars]
  | spread elements =>
    refine exposed_of_one_part (a := ['.', '.', '.']) (b := []) ?_ (by decide) (by decide) rfl rfl
    simp [chars, atoms, spell, marks, Atom.chars]
  | intersection left right =>
    have hchars : (intersection left right).chars =
        left.chars ++ ([' ', '&', ' '] ++ right.chars) := by
      simp [chars, atoms, spell, marks, Atom.chars]
    rw [exposedWithin_iff rfl, hchars, exposed_append_glue (by decide)]
    simp [parts]
  | operator op operand =>
    refine exposed_of_one_part (a := op.word.chars ++ [' ']) (b := []) ?_ ?_ (by decide) rfl rfl
    · simp [chars, atoms, spell, Atom.chars]
    · cases op <;> decide
  | conditional check extended positive negative =>
    have hchars : (conditional check extended positive negative).chars =
        check.chars ++ (Suffix.conditional.mark ++ (extended.chars ++ ([' ', '?', ' '] ++
          (positive.chars ++ ([' ', ':', ' '] ++ negative.chars))))) := by
      simp [chars, atoms, spell, marks, Atom.chars, Suffix.mark]
    rw [exposedWithin_iff rfl, hchars, exposed_append_glue (by decide),
      exposed_append_glue (by decide), exposed_append_glue (by decide)]
    simp [parts]
  | function parameters result =>
    have hchars : (function parameters result).chars =
        spell (listed (atomsEach parameters)) ++ ([' ', '=', '>', ' '] ++ result.chars) := by
      simp [chars, atoms, spell, marks, Atom.chars]
    rw [exposedWithin_iff rfl, hchars, exposed_append_glue (by decide), exposed_listed,
      exists_mem_atomsEach]
    simp [parts, or_and_right, exists_or]
  | parameter modifier name type =>
    refine exposed_of_one_part (a := spell (parameterName name modifier) ++ [':', ' ']) (b := [])
      ?_ ?_ (by decide) rfl rfl
    · simp [chars, atoms, spell, marks, Atom.chars]
    · have hname := name.bar_not_mem
      cases modifier <;> simp [parameterName, spell, marks, Atom.chars, hname]
  | object members =>
    rw [exposedWithin_iff rfl, chars, atoms, exposed_braced, exists_mem_atomsEach]
    rfl
  | property isReadonly key isOptional type =>
    have hchars : (property isReadonly key isOptional type).chars =
        spell (if isReadonly then [.word .fixed Keyword.readonly.word, .mark ' '] else []) ++
          (key.atom.chars ++ (spell (questionIf isOptional) ++ [':', ' '] ++ type.chars)) := by
      simp [chars, atoms, propertyKey, spell, marks, Atom.chars]
    have hreadonly : '|' ∉ spell
        (if isReadonly then [.word .fixed Keyword.readonly.word, .mark ' '] else []) := by
      cases isReadonly <;> decide
    have hglue : IsGlue (spell (questionIf isOptional) ++ [':', ' ']) := by
      cases isOptional <;> decide
    rw [hchars, exposed_append_left hreadonly, exposed_append_glue hglue, Key.exposed_chars,
      ExposedWithin]
    simp [quotes, parts]
  | method key isOptional generics parameters result =>
    have hchars : (method key isOptional generics parameters result).chars =
        key.atom.chars ++ spell (questionIf isOptional) ++ (spell (angled (atomsEach generics)) ++
          '(' :: (spell (separated [',', ' '] (atomsEach parameters)) ++
            ([')', ':', ' '] ++ result.chars))) := by
      simp [chars, atoms, listed, spell, marks, Atom.chars]
    rw [hchars, exposed_append_angled, exposed_append_right (bar_not_mem_questionIf isOptional),
      Key.exposed_chars, exposed_append_glue (by decide),
      exposed_separated isGlue_comma, exists_mem_atomsEach, exists_mem_atomsEach, ExposedWithin]
    simp [quotes, parts, or_and_right, exists_or]
  | bounded name constraint =>
    refine exposed_of_one_part (a := name.chars ++ Suffix.conditional.mark) (b := [])
      ?_ ?_ (by decide) rfl rfl
    · simp [chars, atoms, spell, Atom.chars, Suffix.mark]
    · have hname := name.bar_not_mem
      simp [Suffix.mark, hname]
      decide

/-! ## Ends -/

/-- The text is sealed at both ends, unless it is a name. -/
def IsSealed (t : Phrase) : Prop :=
  (∃ name, t = use name) ∨ StartsSealed t.chars ∧ EndsSealed t.chars

/-- The start of a sealed text. -/
theorem IsSealed.starts {t : Phrase} (h : t.IsSealed) : '|' ∉ t.chars ∨ StartsSealed t.chars := by
  rcases h with ⟨name, rfl⟩ | h
  · exact .inl (chars_use name ▸ name.bar_not_mem)
  · exact .inr h.1

/-- The end of a sealed text. -/
theorem IsSealed.ends {t : Phrase} (h : t.IsSealed) : '|' ∉ t.chars ∨ EndsSealed t.chars := by
  rcases h with ⟨name, rfl⟩ | h
  · exact .inl (chars_use name ▸ name.bar_not_mem)
  · exact .inr h.2

/-- A text between glue is sealed. -/
theorem isSealed_enclosed {t : Phrase} {a m b : List Char} (h : t.chars = a ++ m ++ b)
    (ha : IsGlue a) (hb : IsGlue b) : t.IsSealed :=
  .inr ⟨⟨a, m ++ b, ha, by rw [h, List.append_assoc]⟩, ⟨a ++ m, b, hb, h⟩⟩

/-- A type with a qualified name or with type arguments is sealed. -/
theorem isSealed_applied {head : Word} {path : List Word} {args : List Phrase}
    (h : path ≠ [] ∨ args ≠ []) : (applied head path args).IsSealed := by
  have hchars : (applied head path args).chars =
      head.chars ++ spell (path.flatMap fun w => [.mark '.', .word .fixed w]) ++
        spell (angled (args.map atoms)) := by
    simp [chars, atoms, atomsEach_eq_map, spell, Atom.chars]
  have hbar : '|' ∉ head.chars ++ spell (path.flatMap fun w => [.mark '.', .word .fixed w]) :=
    fun hc => (List.mem_append.1 hc).elim head.bar_not_mem (bar_not_mem_path path)
  rw [IsSealed, hchars]
  refine .inr ?_
  cases args with
  | nil =>
    cases path with
    | nil => exact (h.elim (· rfl) (· rfl)).elim
    | cons w path =>
      have hglue : IsGlue (head.chars ++
          spell ((w :: path).flatMap fun w => [.mark '.', .word .fixed w])) :=
        ⟨hbar, List.any_eq_true.2 ⟨'.', List.mem_append_right _ List.mem_cons_self, rfl⟩⟩
      exact ⟨⟨_, _, hglue, rfl⟩, ⟨[], _, hglue, List.append_nil _⟩⟩
  | cons first args =>
    have hangled : spell (angled ((first :: args).map atoms)) =
        ['<'] ++ (spell (separated [',', ' '] ((first :: args).map atoms)) ++ ['>']) := by
      simp [angled, spell, Atom.chars]
    have hclosing : IsGlue ['>'] := by decide
    rw [hangled]
    refine ⟨startsSealed_append (.inl hbar) (by decide), ?_⟩
    rw [← List.append_assoc ['<'], ← List.append_assoc]
    exact ⟨_, ['>'], hclosing, rfl⟩

/-- A type that binds more strongly than a union is sealed. -/
theorem isSealed {p : Place} {t : Phrase} (hp : p.takes 2 = false) (hq : p.takes 5 = true)
    (h : Fits p t) : t.IsSealed := by
  have hnot : ∀ {p : Place} {strength}, strength ≤ 2 → p.takes 2 = false →
      ¬ p.takes strength = true := fun hle hp htakes => by
    rw [Place.takes_of_le htakes hle] at hp
    cases hp
  induction t using Phrase.induct generalizing p with
  | use name => exact .inl ⟨name, rfl⟩
  | applied head path args => exact isSealed_applied h.2.2.1
  | quoted q => exact isSealed_enclosed (chars_quoted q) q.isGlue_mark q.isGlue_mark
  | paren inner =>
    refine isSealed_enclosed (a := ['(']) (m := inner.chars) (b := [')']) ?_ (by decide)
      (by decide)
    simp [chars, atoms, spell, Atom.chars]
  | array element ih =>
    have helement := ih rfl rfl h.2
    have hchars : (array element).chars = element.chars ++ (['[', ']'] ++ []) := by
      simp [chars, atoms, spell, marks, Atom.chars]
    have hglue : IsGlue ['[', ']'] := by decide
    rw [IsSealed, hchars]
    exact .inr ⟨startsSealed_append helement.starts hglue,
      endsSealed_append (.inl List.not_mem_nil) hglue⟩
  | tuple elements =>
    refine isSealed_enclosed (a := ['['])
      (m := spell (separated [',', ' '] (atomsEach elements))) (b := [']']) ?_ (by decide)
      (by decide)
    simp [chars, atoms, spell, Atom.chars]
  | intersection left right ihl ihr =>
    have hleft := ihl rfl rfl h.2.1
    have hright := ihr rfl rfl h.2.2
    have hchars : (intersection left right).chars =
        left.chars ++ ([' ', '&', ' '] ++ right.chars) := by
      simp [chars, atoms, spell, marks, Atom.chars]
    have hglue : IsGlue [' ', '&', ' '] := by decide
    rw [IsSealed, hchars]
    exact .inr ⟨startsSealed_append hleft.starts hglue, endsSealed_append hright.ends hglue⟩
  | operator op operand ih =>
    have hoperand := ih rfl rfl h.2.2
    have hchars : (operator op operand).chars =
        [] ++ (op.word.chars ++ [' '] ++ operand.chars) := by
      simp [chars, atoms, spell, Atom.chars]
    have hglue : IsGlue (op.word.chars ++ [' ']) := by
      cases op <;> decide
    rw [IsSealed, hchars]
    exact .inr ⟨startsSealed_append (.inl List.not_mem_nil) hglue,
      endsSealed_append hoperand.ends hglue⟩
  | object members =>
    cases members with
    | nil =>
      exact isSealed_enclosed (a := ['\x7b']) (m := []) (b := ['\x7d']) rfl (by decide)
        (by decide)
    | cons first members =>
      refine isSealed_enclosed (a := ['\x7b'])
        (m := ' ' :: spell (separated [';', ' '] (atomsEach (first :: members))) ++ [' '])
        (b := ['\x7d']) ?_ (by decide) (by decide)
      simp [chars, atoms, braced, atomsEach, spell, marks, Atom.chars]
  | union | conditional | function => exact (hnot (by decide) hp h.1).elim
  | optional | spread =>
    obtain ⟨rfl, -⟩ := h
    cases hp
  | parameter | property | method | bounded =>
    obtain ⟨rfl, -⟩ := h
    cases hq
  | generic name =>
    obtain rfl := h
    cases hq

/-- Each part of a phrase that may stand somewhere may stand where it is. -/
theorem fits_of_mem_parts {p : Place} {t : Phrase} (h : Fits p t) :
    ∀ s ∈ t.parts, ∃ q, Fits q s := by
  have heach : ∀ {q : Place} {ts : List Phrase}, FitsEach q ts → ∀ s ∈ ts, ∃ q, Fits q s :=
    fun hts s hs => ⟨_, fitsEach_iff.1 hts s hs⟩
  have hone : ∀ {q : Place} {t : Phrase}, Fits q t → ∀ s ∈ [t], ∃ q, Fits q s :=
    fun ht => List.forall_mem_singleton.2 ⟨_, ht⟩
  cases t with
  | use | quoted | generic => exact nofun
  | applied => exact heach h.2.2.2
  | tuple | object => exact heach h.2
  | paren | array | optional | spread | parameter | property | bounded => exact hone h.2
  | operator => exact hone h.2.2
  | union | intersection => exact List.forall_mem_cons.2 ⟨⟨_, h.2.1⟩, hone h.2.2⟩
  | conditional =>
    exact List.forall_mem_cons.2 ⟨⟨_, h.2.1⟩, List.forall_mem_cons.2 ⟨⟨_, h.2.2.1⟩,
      List.forall_mem_cons.2 ⟨⟨_, h.2.2.2.1⟩, hone h.2.2.2.2⟩⟩⟩
  | function => exact List.forall_mem_append.2 ⟨heach h.2.1, hone h.2.2⟩
  | method =>
    exact List.forall_mem_append.2 ⟨List.forall_mem_append.2 ⟨heach h.2.1, heach h.2.2.1⟩,
      hone h.2.2.2⟩

/-- What holds of a phrase whenever it holds of its parts holds of every phrase. -/
theorem induct_parts {P : Phrase → Prop} (h : ∀ t : Phrase, (∀ s ∈ t.parts, P s) → P t)
    (t : Phrase) : P t := by
  have hone : ∀ {t : Phrase}, P t → ∀ s ∈ [t], P s := List.forall_mem_singleton.2
  have htwo : ∀ {t : Phrase} {ts : List Phrase}, P t → (∀ s ∈ ts, P s) → ∀ s ∈ t :: ts, P s :=
    fun ht hts => List.forall_mem_cons.2 ⟨ht, hts⟩
  induction t using Phrase.induct with
  | use | quoted | generic => exact h _ nofun
  | applied _ _ _ ih | tuple _ ih | object _ ih => exact h _ ih
  | paren _ ih | array _ ih | optional _ ih | spread _ ih | operator _ _ ih | parameter _ _ _ ih
  | property _ _ _ _ ih | bounded _ _ ih => exact h _ (hone ih)
  | union _ _ ihl ihr | intersection _ _ ihl ihr => exact h _ (htwo ihl (hone ihr))
  | conditional _ _ _ _ ihc ihe ihp ihn => exact h _ (htwo ihc (htwo ihe (htwo ihp (hone ihn))))
  | function _ _ ihp ihr => exact h _ (List.forall_mem_append.2 ⟨ihp, hone ihr⟩)
  | method _ _ _ _ _ ihg ihp ihr =>
    exact h _ (List.forall_mem_append.2 ⟨List.forall_mem_append.2 ⟨ihg, ihp⟩, hone ihr⟩)

/-! ## Alternatives -/

/-- The alternatives of a type. -/
def alternatives : Phrase → List Phrase
  | union left right => alternatives left ++ [right]
  | t => [t]

/-- A type that is no union is its only alternative. -/
theorem alternatives_of_not_isUnion {t : Phrase} (h : ¬ t.IsUnion) : t.alternatives = [t] := by
  cases t with
  | union => exact (h ⟨_, _, rfl⟩).elim
  | _ => rfl

/-- Somewhere in the phrase two bars have nothing but `undefined` between them: it stands in the
middle of a union, or in quotes. -/
inductive Exposes : Phrase → Prop
  | middle (left right : Phrase) : Exposes (union (union left undefined) right)
  | quoted {t : Phrase} {q : Quoted} : q ∈ t.quotes → Exposed q.body → Exposes t
  | part {t s : Phrase} : s ∈ t.parts → Exposes s → Exposes t

section

variable {t left right : Phrase} {s e : List Char}

/-- How a union is written. -/
theorem chars_union : (union left right).chars =
    left.chars ++ [' '] ++ '|' :: ([' '] ++ right.chars) := by
  simp [chars, atoms, spell, marks, Atom.chars]

/-- The type `undefined` is a name and not sealed. -/
theorem not_startsSealed_undefined : ¬ StartsSealed undefined.chars := by
  rintro ⟨g, rest, ⟨-, hany⟩, heq⟩
  obtain ⟨c, hc, hother⟩ := List.any_eq_true.1 hany
  have hmem : c ∈ undefinedWord.chars := by
    rw [← chars_use]
    exact heq ▸ List.mem_append_left rest hc
  rw [isUndefinedChar, List.contains_iff_mem.2 hmem, Bool.or_true] at hother
  cases hother

/-- A bar before a sealed type exposes nothing. -/
theorem IsSealed.exposed_behind_bar (h : t.IsSealed) (hs : '|' ∉ s) :
    Exposed ('|' :: (s ++ t.chars)) ↔ Exposed t.chars := by
  have hbar : ∀ {cs}, '|' ∉ cs → ¬ Exposed ('|' :: cs) := not_exposed_bar List.not_mem_nil
  rcases h with ⟨name, rfl⟩ | ⟨hstart, hend⟩
  · have hname : '|' ∉ s ++ (use name).chars := fun hc =>
      (List.mem_append.1 hc).elim hs (chars_use name ▸ name.bar_not_mem)
    exact iff_of_false (hbar hname) (not_exposed (chars_use name ▸ name.bar_not_mem))
  · have hsealed := exposed_append_sealed (a := '|' :: s) (b := []) hstart hend
    rw [List.append_nil, or_iff_right (hbar hs), or_iff_left (not_exposed List.not_mem_nil)]
      at hsealed
    exact hsealed

/-- A bar behind a sealed type exposes nothing. -/
theorem IsSealed.exposed_before_bar (h : t.IsSealed) (he : '|' ∉ e) :
    Exposed (t.chars ++ e ++ ['|']) ↔ Exposed t.chars := by
  have hbar : ∀ {cs}, '|' ∉ cs → ¬ Exposed (cs ++ ['|']) := fun hcs =>
    not_exposed_bar hcs List.not_mem_nil
  rcases h with ⟨name, rfl⟩ | ⟨hstart, hend⟩
  · have hname : '|' ∉ (use name).chars ++ e := fun hc =>
      (List.mem_append.1 hc).elim (chars_use name ▸ name.bar_not_mem) he
    exact iff_of_false (hbar hname) (not_exposed (chars_use name ▸ name.bar_not_mem))
  · have hsealed := exposed_append_sealed (a := []) (b := e ++ ['|']) hstart hend
    rw [or_iff_right (not_exposed List.not_mem_nil), or_iff_left (hbar he)] at hsealed
    rwa [List.append_assoc]

/-- Bars around a sealed type expose it if it is `undefined`. -/
theorem IsSealed.exposed_between_bars (h : t.IsSealed) (hs : ∀ c ∈ s, isBlank c = true)
    (he : ∀ c ∈ e, isBlank c = true) :
    Exposed ('|' :: (s ++ t.chars ++ e ++ ['|'])) ↔ t = undefined ∨ Exposed t.chars := by
  have hbars := bar_not_mem_of_isBlank hs
  have hbare := bar_not_mem_of_isBlank he
  rcases h with ⟨name, rfl⟩ | ⟨hstart, hend⟩
  · have hname : '|' ∉ s ++ name.chars ++ e := fun hc => by
      rcases List.mem_append.1 hc with hc | hc
      · exact (List.mem_append.1 hc).elim hbars name.bar_not_mem
      · exact hbare hc
    rw [chars_use, exposed_iff_isUndefined hname, Word.isUndefined_iff hs he,
      or_iff_left (not_exposed name.bar_not_mem), undefined, use.injEq]
  · have hsealed := exposed_append_sealed (a := '|' :: s) (b := e ++ ['|']) hstart hend
    have hne : t ≠ undefined := fun heq => not_startsSealed_undefined (heq ▸ hstart)
    have hbefore : ¬ Exposed ('|' :: s) := not_exposed_bar List.not_mem_nil hbars
    rw [or_iff_right hbefore, or_iff_left (not_exposed_bar hbare List.not_mem_nil)] at hsealed
    rw [or_iff_right hne, ← hsealed]
    simp only [List.append_assoc, List.cons_append]

/-- A type before the bar of a union that is no union could also stand in an intersection. -/
theorem fits_intersection (h : Fits .union t) (hunion : ¬ t.IsUnion) : Fits .intersection t := by
  cases t with
  | union => exact (hunion ⟨_, _, rfl⟩).elim
  | function | conditional | optional | spread | parameter | property | method | bounded =>
    cases h.1
  | generic => cases h
  | quoted => exact h
  | use | applied | paren | array | tuple | intersection | operator | object => exact ⟨rfl, h.2⟩

/-- A type before or behind the bar of a union that is no union is sealed. -/
theorem isSealed_of_fits (h : Fits .union t) (hunion : ¬ t.IsUnion) : t.IsSealed :=
  isSealed rfl rfl (fits_intersection h hunion)

/-- Bars around a type show which of its alternatives are `undefined`. -/
theorem exposed_alternatives (h : Fits .union t) (hs : ∀ c ∈ s, isBlank c = true)
    (he : ∀ c ∈ e, isBlank c = true) : Exposed ('|' :: (s ++ t.chars ++ e ++ ['|'])) ↔
      ∃ a ∈ t.alternatives, a = undefined ∨ Exposed a.chars := by
  induction t using alternatives.induct generalizing e with
  | case1 left right ih =>
    obtain ⟨-, hleft, hright⟩ := h
    have hblank : ∀ c ∈ [' '], isBlank c = true := List.forall_mem_singleton.2 rfl
    have hchars : '|' :: (s ++ (union left right).chars ++ e ++ ['|']) =
        ('|' :: (s ++ left.chars ++ [' '])) ++ '|' :: ([' '] ++ right.chars ++ e ++ ['|']) := by
      simp [chars_union]
    have hl := ih hleft hblank
    have hr := (isSealed rfl rfl hright).exposed_between_bars hblank he
    rw [hchars, exposed_append_bar, List.cons_append, hl, hr, alternatives]
    simp only [List.mem_append, List.mem_singleton, or_and_right, exists_or, exists_eq_left]
  | case2 t hunion =>
    have hnot : ¬ t.IsUnion := fun ⟨left, right, heq⟩ => hunion left right heq
    rw [(isSealed_of_fits h hnot).exposed_between_bars hs he, alternatives_of_not_isUnion hnot]
    simp only [List.mem_singleton, exists_eq_left]

/-- The bar of a union shows what stands before it. -/
theorem exposed_union (h : Fits .intersection right) : Exposed (union left right).chars ↔
    Exposed (left.chars ++ [' '] ++ ['|']) ∨ Exposed right.chars := by
  rw [chars_union, exposed_append_bar, (isSealed rfl rfl h).exposed_behind_bar (by decide)]

/-- A bar behind a type shows whether its last alternative is `undefined`, if there are more. -/
theorem exposed_before_bar (h : Fits .union t) : Exposed (t.chars ++ [' '] ++ ['|']) ↔
    (∃ left, t = union left undefined) ∨ Exposed t.chars := by
  by_cases hunion : t.IsUnion
  · obtain ⟨left, right, rfl⟩ := hunion
    have hright : right.IsSealed := isSealed rfl rfl h.2.2
    have hblank : ∀ c ∈ [' '], isBlank c = true := List.forall_mem_singleton.2 rfl
    have hchars : (union left right).chars ++ [' '] ++ ['|'] =
        left.chars ++ [' '] ++ '|' :: ([' '] ++ right.chars ++ [' '] ++ ['|']) := by
      simp [chars_union]
    rw [hchars, exposed_append_bar, hright.exposed_between_bars hblank hblank, exposed_union h.2.2,
      or_left_comm]
    simp only [union.injEq, exists_eq_left']
  · rw [(isSealed_of_fits h hunion).exposed_before_bar (by decide), or_iff_right]
    rintro ⟨left, rfl⟩
    exact hunion ⟨_, _, rfl⟩

/-- What the bars in a phrase expose. -/
theorem exposed_iff {p : Place} {t : Phrase} (h : Fits p t) : Exposed t.chars ↔ t.Exposes := by
  induction t using induct_parts generalizing p with
  | h t ih =>
    have hparts : ∀ s ∈ t.parts, (Exposed s.chars ↔ s.Exposes) := fun s hs =>
      (fits_of_mem_parts h s hs).elim fun _ => ih s hs
    by_cases hunion : t.IsUnion
    · obtain ⟨left, right, rfl⟩ := hunion
      have hleft : left ∈ (union left right).parts := List.mem_cons_self
      have hright : right ∈ (union left right).parts := List.mem_cons_of_mem _ List.mem_cons_self
      rw [exposed_union h.2.2, exposed_before_bar h.2.1, hparts left hleft, hparts right hright]
      constructor
      · rintro ((⟨first, rfl⟩ | hexposes) | hexposes)
        · exact .middle first right
        · exact .part hleft hexposes
        · exact .part hright hexposes
      · intro hexposes
        cases hexposes with
        | middle first => exact .inl (.inl ⟨first, rfl⟩)
        | quoted hq => cases hq
        | part hs hexposes =>
          rcases List.mem_pair.1 hs with rfl | rfl
          · exact .inl (.inr hexposes)
          · exact .inr hexposes
    · rw [exposed_chars_iff hunion, ExposedWithin]
      constructor
      · rintro (⟨q, hq, hexposed⟩ | ⟨s, hs, hexposed⟩)
        · exact .quoted hq hexposed
        · exact .part hs ((hparts s hs).1 hexposed)
      · intro hexposes
        cases hexposes with
        | middle => exact (hunion ⟨_, _, rfl⟩).elim
        | quoted hq hexposed => exact .inl ⟨_, hq, hexposed⟩
        | part hs hexposes => exact .inr ⟨_, hs, (hparts _ hs).2 hexposes⟩

/-- Each alternative of a type could also stand in an intersection. -/
theorem fits_of_mem_alternatives (h : Fits .union t) :
    ∀ a ∈ t.alternatives, Fits .intersection a := by
  induction t using alternatives.induct with
  | case1 left right ih =>
    exact List.forall_mem_append.2 ⟨ih h.2.1, List.forall_mem_singleton.2 h.2.2⟩
  | case2 t hunion =>
    have hnot : ¬ t.IsUnion := fun ⟨left, right, heq⟩ => hunion left right heq
    rw [alternatives_of_not_isUnion hnot]
    exact List.forall_mem_singleton.2 (fits_intersection h hnot)

end

end Phrase

end IpcWiring.TypeText
