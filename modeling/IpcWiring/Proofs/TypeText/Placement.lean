import IpcWiring.Proofs.TypeText.Plain

/-!
# Where atoms stand

In the text of a plain phrase every atom is told from its place (`Phrase.placed`): behind most
characters a name is a type, and behind the others a type name is followed by no sign of a key.
-/

namespace IpcWiring.TypeText

open IpcWiring.Text (isBlank)

/-! ## Places and what is around them -/

/-- What follows is no sign of a key. -/
def Ends (as : List Atom) : Prop :=
  next? (spell as) ≠ some ':' ∧ next? (spell as) ≠ some '?'

/-- What follows a phrase: it does not go on with an identifier, and its atoms stand where they are
told, whatever character the phrase ends in. -/
structure Follows (σ : Arguments) (as : List Atom) : Prop where
  apart : Apart as
  placed : ∀ before, Placed σ before as

/-- If a type name comes first and is bound, it is told for one behind a character. -/
def StartsTold (σ : Arguments) (before : Option Char) (as : List Atom) : Prop :=
  ∀ w rest, as = .word .use w :: rest → (σ.lookup w.text).isSome →
    isParameterPlace before (next? (spell rest)) = true

/-- What stands at a place can be told behind a character. -/
def Place.Admits (σ : Arguments) (before : Option Char) (as : List Atom) : Place → Prop
  | member => before = some '\x7b' ∨ before = some ';'
  | parameter => before = some '(' ∨ before = some ','
  | generic => True
  | _ => StartsTold σ before as

section

variable {σ : Arguments} {before : Option Char} {rest : List Atom} {c : Char}

/-- The next character is a mark that is not blank. -/
theorem next?_mark (h : isBlank c = false) : next? (spell (.mark c :: rest)) = some c := by
  rw [next?, spell, List.flatMap_cons]
  exact List.find?_cons_of_pos (by rw [h]; rfl)

/-- A blank is passed over. -/
theorem next?_blank : next? (spell (.mark ' ' :: rest)) = next? (spell rest) :=
  List.find?_cons_of_neg (by decide)

/-- Most marks are no sign of a key. -/
theorem ends_mark (h : isBlank c = false ∧ c ≠ ':' ∧ c ≠ '?') : Ends (.mark c :: rest) := by
  rw [Ends, next?_mark h.1]
  exact ⟨fun heq => h.2.1 (Option.some.inj heq), fun heq => h.2.2 (Option.some.inj heq)⟩

/-- A blank is passed over. -/
theorem ends_blank (h : Ends rest) : Ends (.mark ' ' :: rest) := by
  rwa [Ends, next?_blank]

/-- A keyword is no sign of a key. -/
theorem ends_extends : Ends (.word .fixed Keyword.extends.word :: rest) := by
  have hnext : next? (spell (.word .fixed Keyword.extends.word :: rest)) = some 'e' :=
    List.find?_cons_of_pos (by decide)
  rw [Ends, hnext]
  decide

/-- Behind most characters every word can be a type parameter. -/
theorem isParameterPlace_of_before {after : Option Char}
    (h : c ∉ ['.', '\x7b', ';', ',', '(']) : isParameterPlace (some c) after = true := by
  simp only [List.mem_cons, List.not_mem_nil, or_false, not_or] at h
  simp [isParameterPlace, h]

/-- A word that no sign of a key follows can be a type parameter, unless it is a member. -/
theorem isParameterPlace_of_ends {as : List Atom} (hbefore : before ≠ some '.') (h : Ends as) :
    isParameterPlace before (next? (spell as)) = true := by
  obtain ⟨hcolon, hquestion⟩ := h
  simp [isParameterPlace, hbefore, hcolon, hquestion]

/-- Behind most characters a type name is told. -/
theorem startsTold_of_before {as : List Atom} (h : c ∉ ['.', '\x7b', ';', ',', '(']) :
    StartsTold σ (some c) as := fun _ _ _ _ => isParameterPlace_of_before h

/-- A mark is told behind anything. -/
theorem placed_mark (hc : isMark c = true ∧ isBlank c = false) (h : Placed σ (some c) rest) :
    Placed σ before (.mark c :: rest) := by
  refine ⟨hc.1, ?_⟩
  rwa [Atom.last?, hc.2]

/-- A blank makes no difference. -/
theorem placed_blank (h : Placed σ before rest) : Placed σ before (.mark ' ' :: rest) :=
  ⟨(by decide : isMark ' ' = true), h⟩

/-- A word that is no type is told if it is not bound. -/
theorem placed_fixed {w : Word} (hw : w.IsFree σ) (h : Follows σ rest) :
    Placed σ before (.word .fixed w :: rest) := by
  refine ⟨⟨h.apart, fun hsome => ?_⟩, h.placed _⟩
  rw [hw] at hsome
  cases hsome

/-- A key is told behind the mark of a key and before one. -/
theorem placed_key {w : Word} (hbefore : before = some '\x7b' ∨ before = some ';' ∨
      before = some '(' ∨ before = some ',')
    (hnext : next? (spell rest) = some ':' ∨ next? (spell rest) = some '?')
    (h : Follows σ rest) : Placed σ before (.word .fixed w :: rest) := by
  refine ⟨⟨h.apart, fun _ => ?_⟩, h.placed _⟩
  rcases hnext with hnext | hnext <;> rw [hnext] <;>
    rcases hbefore with rfl | rfl | rfl | rfl <;> rfl

/-- A member of a namespace is told behind the dot. -/
theorem placed_member {w : Word} (h : Follows σ rest) :
    Placed σ (some '.') (.word .fixed w :: rest) :=
  ⟨⟨h.apart, fun _ => rfl⟩, h.placed _⟩

/-- A keyword is told if it is not bound; behind it every type name is told. -/
theorem placed_keyword {k : Keyword} (hk : k.word.IsFree σ)
    (h : ∀ c, c ∉ ['.', '\x7b', ';', ',', '('] → Placed σ (some c) rest) :
    Placed σ before (.word .fixed k.word :: .mark ' ' :: rest) := by
  refine ⟨⟨forall_head?_cons (by decide), fun hsome => ?_⟩, placed_blank ?_⟩
  · rw [hk] at hsome
    cases hsome
  · cases k <;> exact h _ (by decide)

namespace Follows

/-- Nothing follows. -/
theorem nil : Follows σ [] := ⟨nofun, fun _ => trivial⟩

/-- A mark follows. -/
theorem mark (hc : isMark c = true ∧ isBlank c = false) (h : Placed σ (some c) rest) :
    Follows σ (.mark c :: rest) :=
  ⟨forall_head?_cons (continues_of_isMark hc.1), fun _ => placed_mark hc h⟩

/-- A blank follows. -/
theorem blank (h : ∀ before, Placed σ before rest) : Follows σ (.mark ' ' :: rest) :=
  ⟨forall_head?_cons (by decide), fun before => placed_blank (h before)⟩

end Follows

end

namespace Phrase

variable {σ : Arguments} {p : Place} {t : Phrase} {rest tail : List Atom} {w : Word}

/-- A phrase that starts with a type name is that name, or the name as an optional element, or goes
on with something that is no sign of a key. -/
theorem start_cases (hfits : Fits p t) (h : t.atoms ++ rest = .word .use w :: tail) :
    (t = use w ∧ tail = rest) ∨ t = optional (use w) ∨ Ends tail := by
  -- The left of an operator: behind it stands the operator, and that is no sign of a key.
  have hstep : ∀ {q left more}, (∀ {rest}, left.atoms ++ rest = .word .use w :: tail →
      (left = use w ∧ tail = rest) ∨ left = optional (use w) ∨ Ends tail) →
      Fits q left → q ≠ .element → left.atoms ++ more = .word .use w :: tail → Ends more →
        Ends tail := fun {q left more} ih hleft hq heq hmore => by
    rcases ih heq with ⟨-, rfl⟩ | rfl | hends
    · exact hmore
    · exact (hq hleft.1).elim
    · exact hends
  induction t using Phrase.induct generalizing p rest with
  | use name =>
    obtain ⟨hname, rfl⟩ := List.cons.inj h
    cases hname
    exact .inl ⟨rfl, rfl⟩
  | array element ih =>
    rw [atoms, List.append_assoc] at h
    exact .inr (.inr (hstep (ih hfits.2) hfits.2 (by decide) h (ends_mark (by decide))))
  | union left right ihl ihr =>
    simp only [atoms, List.append_assoc] at h
    have hends : ∀ as, Ends (.mark ' ' :: .mark '|' :: as) :=
      fun _ => ends_blank (ends_mark (by decide))
    exact .inr (.inr (hstep (ihl hfits.2.1) hfits.2.1 (by decide) h (hends _)))
  | intersection left right ihl ihr =>
    simp only [atoms, List.append_assoc] at h
    have hends : ∀ as, Ends (.mark ' ' :: .mark '&' :: as) :=
      fun _ => ends_blank (ends_mark (by decide))
    exact .inr (.inr (hstep (ihl hfits.2.1) hfits.2.1 (by decide) h (hends _)))
  | conditional check extended positive negative ihc ihe ihp ihn =>
    simp only [atoms, List.append_assoc, List.cons_append] at h
    exact .inr (.inr (hstep (ihc hfits.2.1) hfits.2.1 (by decide) h (ends_blank ends_extends)))
  | optional element ih =>
    rw [atoms, List.append_assoc] at h
    rcases ih hfits.2 h with ⟨rfl, -⟩ | rfl | hends
    · exact .inr (.inl rfl)
    · cases hfits.2.1
    · exact .inr (.inr hends)
  | object members ih =>
    rw [atoms, atomsEach_eq_map] at h
    cases members <;> cases h
  | parameter modifier name type ih => cases modifier <;> cases h
  | property isReadonly key isOptional type ih => cases isReadonly <;> cases key <;> cases h
  | method key isOptional generics parameters result ihg ihp ihr => cases key <;> cases h
  | _ => cases h

/-- An element, argument or operand that is followed by no sign of a key starts so that it is told,
unless it is a bound name as an optional element. -/
theorem startsTold {before : Option Char} (hfits : Fits p t) (hbefore : before ≠ some '.')
    (hoptional : ∀ w, t = optional (use w) → w.IsFree σ) (hends : Ends rest) :
    StartsTold σ before (t.atoms ++ rest) := by
  intro w tail heq hsome
  rcases start_cases hfits heq with ⟨-, rfl⟩ | rfl | htail
  · exact isParameterPlace_of_ends hbefore hends
  · rw [hoptional w rfl] at hsome
    cases hsome
  · exact isParameterPlace_of_ends hbefore htail

/-- A phrase stands behind a character where all its atoms are told, if it is followed by no sign of
a key. -/
def ToldBehind (σ : Arguments) (before : Option Char) (t : Phrase) : Prop :=
  ∀ rest, Follows σ rest → Ends rest → Placed σ before (t.atoms ++ rest)

/-- Phrases with marks between them. -/
theorem placed_separated {sep : Char} {before : Option Char} {first : Phrase} {more : List Phrase}
    (hsep : (isMark sep = true ∧ isBlank sep = false) ∧ sep ≠ ':' ∧ sep ≠ '?')
    (hfirst : first.ToldBehind σ before) (hmore : ∀ t ∈ more, t.ToldBehind σ (some sep))
    (hrest : Follows σ rest) (hends : Ends rest) :
    Placed σ before (separated [sep, ' '] ((first :: more).map atoms) ++ rest) := by
  induction more generalizing before first with
  | nil =>
    have hsingle : separated [sep, ' '] ([first].map atoms) = first.atoms := List.append_nil _
    rw [hsingle]
    exact hfirst rest hrest hends
  | cons next more ih =>
    obtain ⟨hnext, hmore⟩ := List.forall_mem_cons.1 hmore
    have hcons : separated [sep, ' '] ((first :: next :: more).map atoms) ++ rest =
        first.atoms ++ (.mark sep :: .mark ' ' ::
          (separated [sep, ' '] ((next :: more).map atoms) ++ rest)) := by
      simp [separated, marks]
    rw [hcons]
    exact hfirst _ (.mark hsep.1 (placed_blank (ih hnext hmore)))
      (ends_mark ⟨hsep.1.2, hsep.2⟩)

/-- Phrases between brackets, with commas between them. -/
theorem follows_bracketed {opening closing : Char} {ts : List Phrase}
    (hopening : isMark opening = true ∧ isBlank opening = false)
    (hclosing : (isMark closing = true ∧ isBlank closing = false) ∧ closing ≠ ':' ∧ closing ≠ '?')
    (hts : ∀ t ∈ ts, t.ToldBehind σ (some opening))
    (hmore : ∀ t ∈ ts.tail, t.ToldBehind σ (some ','))
    (hrest : Follows σ rest) :
    Follows σ
      (.mark opening :: separated [',', ' '] (ts.map atoms) ++ [.mark closing] ++ rest) := by
  have hclose : Follows σ (.mark closing :: rest) := .mark hclosing.1 (hrest.placed _)
  have hends : Ends (.mark closing :: rest) := ends_mark ⟨hclosing.1.2, hclosing.2⟩
  rw [List.append_assoc, List.cons_append]
  refine .mark hopening ?_
  cases ts with
  | nil => exact hclose.placed _
  | cons first more =>
    exact placed_separated (by decide) (hts first List.mem_cons_self) hmore hclose hends

/-- Type arguments or type parameters. -/
theorem follows_angled {ts : List Phrase}
    (hts : ∀ t ∈ ts, t.ToldBehind σ (some '<')) (hmore : ∀ t ∈ ts, t.ToldBehind σ (some ','))
    (hrest : Follows σ rest) : Follows σ (angled (ts.map atoms) ++ rest) := by
  cases ts with
  | nil => exact hrest
  | cons first more =>
    exact follows_bracketed (by decide) (by decide) hts
      (fun t ht => hmore t (List.mem_of_mem_tail ht)) hrest

/-- Parameters. -/
theorem follows_listed {ts : List Phrase} (hts : ∀ t ∈ ts, t.ToldBehind σ (some '('))
    (hmore : ∀ t ∈ ts, t.ToldBehind σ (some ',')) (hrest : Follows σ rest) :
    Follows σ (listed (ts.map atoms) ++ rest) :=
  follows_bracketed (by decide) (by decide) hts
    (fun t ht => hmore t (List.mem_of_mem_tail ht)) hrest

/-- Members. -/
theorem placed_braced {before : Option Char} {ts : List Phrase}
    (hts : ∀ t ∈ ts, t.ToldBehind σ (some '\x7b')) (hmore : ∀ t ∈ ts, t.ToldBehind σ (some ';'))
    (hrest : Follows σ rest) : Placed σ before (braced (ts.map atoms) ++ rest) := by
  have hclose : Placed σ (some '\x7d') rest := hrest.placed _
  cases ts with
  | nil => exact placed_mark (by decide) (placed_mark (by decide) hclose)
  | cons first more =>
    have hbraced : braced ((first :: more).map atoms) ++ rest = .mark '\x7b' :: .mark ' ' ::
        (separated [';', ' '] ((first :: more).map atoms) ++
          (.mark ' ' :: .mark '\x7d' :: rest)) := by
      simp [braced, marks]
    rw [hbraced]
    have hrest' : Follows σ (.mark ' ' :: .mark '\x7d' :: rest) :=
      .blank fun _ => placed_mark (by decide) hclose
    exact placed_mark (by decide) (placed_blank (placed_separated (by decide)
      (hts first List.mem_cons_self) (fun t ht => hmore t (List.mem_cons_of_mem _ ht)) hrest'
      (ends_blank (ends_mark (by decide)))))

/-- A qualified name. -/
theorem follows_path (path : List Word) (hrest : Follows σ rest) :
    Follows σ (path.flatMap (fun w => [.mark '.', .word .fixed w]) ++ rest) := by
  induction path with
  | nil => exact hrest
  | cons w path ih => exact .mark (by decide) (placed_member ih)

/-- What follows a key: perhaps a question mark, then a type behind a colon. -/
theorem follows_key (isOptional : Bool) (h : Placed σ (some ':') rest) :
    Follows σ (questionIf isOptional ++ (.mark ':' :: .mark ' ' :: rest)) ∧
      (next? (spell (questionIf isOptional ++ (.mark ':' :: .mark ' ' :: rest))) = some ':' ∨
        next? (spell (questionIf isOptional ++ (.mark ':' :: .mark ' ' :: rest))) = some '?') := by
  have hcolon : Follows σ (.mark ':' :: .mark ' ' :: rest) := .mark (by decide) (placed_blank h)
  cases isOptional with
  | false => exact ⟨hcolon, .inl (next?_mark (by decide))⟩
  | true => exact ⟨.mark (by decide) (hcolon.placed _), .inr (next?_mark (by decide))⟩

/-- Where a type may stand, what the place admits starts so that it is told. -/
theorem startsTold_of_admits {before : Option Char} {as : List Atom} {strength : Nat}
    (hp : p.takes strength) (h : p.Admits σ before as) : StartsTold σ before as := by
  cases p with
  | member | parameter | generic => cases hp
  | _ => exact h

/-- A phrase behind a dot starts so that it is told, if it starts with no bound type name. -/
theorem startsTold_of_free {before : Option Char} (h : ∀ name ∈ t.start?, name.IsFree σ)
    (hrest : Apart rest) : StartsTold σ before (t.atoms ++ rest) := by
  intro w tail heq hsome
  have hnone : σ.lookup w.text = none := by
    cases hatoms : t.atoms with
    | nil =>
      rw [hatoms, List.nil_append] at heq
      have hfirst := hrest w.first (by rw [heq]; rfl)
      rw [continues_of_starts w.starts] at hfirst
      cases hfirst
    | cons a as =>
      rw [hatoms, List.cons_append] at heq
      obtain ⟨rfl, -⟩ := List.cons.inj heq
      exact h w (by rw [start?, hatoms]; rfl)
  rw [hnone] at hsome
  cases hsome

/-- A key is told if it is in the place of one or not bound. -/
theorem placed_keyAtom {before : Option Char} {key : Key}
    (h : ((before = some '\x7b' ∨ before = some ';') ∧
      (next? (spell rest) = some ':' ∨ next? (spell rest) = some '?')) ∨ key.IsFree σ)
    (hrest : Follows σ rest) : Placed σ before (key.atom :: rest) := by
  cases key with
  | quoted q => exact ⟨trivial, hrest.placed _⟩
  | word w =>
    rcases h with ⟨hbefore, hnext⟩ | hfree
    · exact placed_key (hbefore.elim .inl (.inr ∘ .inl)) hnext hrest
    · exact placed_fixed hfree hrest

/-- The atoms of a plain phrase stand where they are told. -/
theorem placed (hkeys : ∀ k : Keyword, k.word.IsFree σ) {before : Option Char} (hfits : Fits p t)
    (h : Plain σ p t) (hat : p.Admits σ before (t.atoms ++ rest)) (hrest : Follows σ rest) :
    Placed σ before (t.atoms ++ rest) := by
  -- Where the first atom stands is what the place admits; each other part stands behind a mark or a
  -- keyword of the phrase itself.
  induction t using Phrase.induct generalizing p before rest with
  | use name =>
    have hstart := startsTold_of_admits hfits.1 hat
    exact ⟨⟨hrest.apart, fun hsome => hstart name rest rfl hsome⟩, hrest.placed _⟩
  | applied head path args ih =>
    obtain ⟨hp, -, -, hargs⟩ := hfits
    have htold : ∀ c, c ≠ '.' → ∀ t ∈ args, t.ToldBehind σ (some c) := by
      intro c hc t ht rest hr hends
      have ht' := fitsEach_iff.1 hargs t ht
      exact ih t ht ht' (plainEach_iff.1 h.2 t ht)
        (startsTold ht' (by simpa using hc) (by rintro w rfl; cases ht'.1) hends) hr
    rw [atoms, atomsEach_eq_map, List.cons_append, List.cons_append, List.append_assoc]
    have hfollows := follows_path path (follows_angled (htold '<' (by decide))
      (htold ',' (by decide)) hrest)
    refine ⟨⟨hfollows.apart, fun hsome => ?_⟩, hfollows.placed _⟩
    rw [h.1] at hsome
    cases hsome
  | quoted q => exact ⟨trivial, hrest.placed _⟩
  | paren inner ih =>
    rw [atoms, List.append_assoc, List.cons_append]
    refine placed_mark (by decide) (ih hfits.2 h ?_ (.mark (by decide) (hrest.placed _)))
    exact startsTold hfits.2 (by decide) (by rintro w rfl; cases hfits.2.1) (ends_mark (by decide))
  | array element ih =>
    rw [atoms, List.append_assoc] at hat ⊢
    exact ih hfits.2 h (startsTold_of_admits hfits.1 hat)
      (.mark (by decide) (placed_mark (by decide) (hrest.placed _)))
  | tuple elements ih =>
    obtain ⟨hp, helements⟩ := hfits
    rw [atoms, atomsEach_eq_map]
    refine (follows_bracketed (by decide) (by decide) (fun t ht rest hr _ => ?_)
      (fun t ht rest hr hends => ?_) hrest).placed before
    · exact ih t ht (fitsEach_iff.1 helements t ht) (plainEach_iff.1 h.2 t ht)
        (startsTold_of_before (by decide)) hr
    · have ht' := List.mem_of_mem_tail ht
      have hfits := fitsEach_iff.1 helements t ht'
      exact ih t ht' hfits (plainEach_iff.1 h.2 t ht')
        (startsTold hfits (by decide) (h.1 t ht) hends) hr
  | optional element ih =>
    obtain ⟨rfl, hfits⟩ := hfits
    rw [atoms, List.append_assoc] at hat ⊢
    exact ih hfits h hat (.mark (by decide) (hrest.placed _))
  | spread elements ih =>
    refine placed_mark (by decide) (placed_mark (by decide) (placed_mark (by decide) ?_))
    exact ih hfits.2 h.2 (startsTold_of_free h.1 hrest.apart) hrest
  | union left right ihl ihr =>
    simp only [atoms, List.append_assoc] at hat ⊢
    have hright : Placed σ (some '|') (right.atoms ++ rest) :=
      ihr hfits.2.2 h.2 (startsTold_of_before (by decide)) hrest
    exact ihl hfits.2.1 h.1 (startsTold_of_admits hfits.1 hat)
      (.blank fun _ => placed_mark (by decide) (placed_blank hright))
  | intersection left right ihl ihr =>
    simp only [atoms, List.append_assoc] at hat ⊢
    have hright : Placed σ (some '&') (right.atoms ++ rest) :=
      ihr hfits.2.2 h.2 (startsTold_of_before (by decide)) hrest
    exact ihl hfits.2.1 h.1 (startsTold_of_admits hfits.1 hat)
      (.blank fun _ => placed_mark (by decide) (placed_blank hright))
  | operator op operand ih =>
    exact placed_keyword (hkeys op) fun c hc =>
      ih hfits.2.2 h (startsTold_of_before hc) hrest
  | conditional check extended positive negative ihc ihe ihp ihn =>
    obtain ⟨hp, hcheck, hextended, hpositive, hnegative⟩ := hfits
    obtain ⟨hc, he, hpos, hneg⟩ := h
    simp only [atoms, List.append_assoc, List.cons_append] at hat ⊢
    have hnegative : Placed σ (some ':') (negative.atoms ++ rest) :=
      ihn hnegative hneg (startsTold_of_before (by decide)) hrest
    have hpositive : Placed σ (some '?')
        (positive.atoms ++ (marks [' ', ':', ' '] ++ (negative.atoms ++ rest))) :=
      ihp hpositive hpos (startsTold_of_before (by decide))
        (.blank fun _ => placed_mark (by decide) (placed_blank hnegative))
    exact ihc hcheck hc (startsTold_of_admits hp hat) (.blank fun _ =>
      placed_keyword (hkeys .extends) fun c hbefore =>
        ihe hextended he (startsTold_of_before hbefore)
          (.blank fun _ => placed_mark (by decide) (placed_blank hpositive)))
  | function parameters result ihp ihr =>
    obtain ⟨-, hparameters, hresult⟩ := hfits
    have htold : ∀ c, c = '(' ∨ c = ',' → ∀ t ∈ parameters, t.ToldBehind σ (some c) :=
      fun c hc t ht rest hr _ => ihp t ht (fitsEach_iff.1 hparameters t ht)
        (plainEach_iff.1 h.1 t ht) (by simpa [Place.Admits] using hc) hr
    have hresult : Placed σ (some '>') (result.atoms ++ rest) := by
      refine ihr hresult h.2 ?_ hrest
      cases p <;> exact startsTold_of_before (by decide)
    rw [atoms, atomsEach_eq_map, List.append_assoc, List.append_assoc]
    refine (follows_listed (htold '(' (.inl rfl)) (htold ',' (.inr rfl)) ?_).placed before
    exact .blank fun _ => placed_mark (by decide) (placed_mark (by decide) (placed_blank hresult))
  | parameter modifier name type ih =>
    obtain ⟨rfl, hfits⟩ := hfits
    have htype : Placed σ (some ':') (type.atoms ++ rest) :=
      ih hfits h (startsTold_of_before (by decide)) hrest
    have hcolon : Follows σ (.mark ':' :: .mark ' ' :: (type.atoms ++ rest)) :=
      .mark (by decide) (placed_blank htype)
    have hbefore : before = some '\x7b' ∨ before = some ';' ∨ before = some '(' ∨
        before = some ',' := .inr (.inr hat)
    cases modifier with
    | plain => exact placed_key hbefore (.inl (next?_mark (by decide))) hcolon
    | optional =>
      exact placed_key hbefore (.inr (next?_mark (by decide)))
        (.mark (by decide) (hcolon.placed _))
    | rest =>
      exact placed_mark (by decide) (placed_mark (by decide) (placed_mark (by decide)
        (placed_member hcolon)))
  | object members ih =>
    have htold : ∀ c, c = '\x7b' ∨ c = ';' → ∀ t ∈ members, t.ToldBehind σ (some c) :=
      fun c hc t ht rest hr _ => ih t ht (fitsEach_iff.1 hfits.2 t ht)
        (plainEach_iff.1 h t ht) (by simpa [Place.Admits] using hc) hr
    rw [atoms, atomsEach_eq_map]
    exact placed_braced (htold '\x7b' (.inl rfl)) (htold ';' (.inr rfl)) hrest
  | property isReadonly key isOptional type ih =>
    obtain ⟨rfl, hfits⟩ := hfits
    have htype : Placed σ (some ':') (type.atoms ++ rest) :=
      ih hfits h.2 (startsTold_of_before (by decide)) hrest
    obtain ⟨hfollows, hnext⟩ := follows_key isOptional htype
    simp only [atoms, propertyKey, List.append_assoc, List.cons_append]
    cases isReadonly with
    | false => exact placed_keyAtom (.inl ⟨hat, hnext⟩) hfollows
    | true =>
      exact placed_keyword (hkeys .readonly) fun c _ => placed_keyAtom (.inr (h.1 rfl)) hfollows
  | method key isOptional generics parameters result ihg ihp ihr =>
    obtain ⟨rfl, hgenerics, hparameters, hresult⟩ := hfits
    obtain ⟨hkey, -, hg, hps, hr⟩ := h
    have htype : Placed σ (some ':') (result.atoms ++ rest) :=
      ihr hresult hr (startsTold_of_before (by decide)) hrest
    have hcolon : Follows σ (.mark ':' :: .mark ' ' :: (result.atoms ++ rest)) :=
      .mark (by decide) (placed_blank htype)
    have hgeneric : ∀ c, ∀ t ∈ generics, t.ToldBehind σ (some c) := fun c t ht rest hrest _ =>
      ihg t ht (fitsEach_iff.1 hgenerics t ht) (plainEach_iff.1 hg t ht) trivial hrest
    have hparameter : ∀ c, c = '(' ∨ c = ',' → ∀ t ∈ parameters, t.ToldBehind σ (some c) :=
      fun c hc t ht rest hrest _ => ihp t ht (fitsEach_iff.1 hparameters t ht)
        (plainEach_iff.1 hps t ht) (by simpa [Place.Admits] using hc) hrest
    have hfollows := follows_angled (hgeneric '<') (hgeneric ',')
      (follows_listed (hparameter '(' (.inl rfl)) (hparameter ',' (.inr rfl)) hcolon)
    simp only [atoms, atomsEach_eq_map, List.append_assoc, List.cons_append]
    cases isOptional with
    | false => exact placed_keyAtom (.inr (hkey rfl)) hfollows
    | true =>
      exact placed_keyAtom (.inl ⟨hat, .inr (next?_mark (by decide))⟩)
        (.mark (by decide) (hfollows.placed _))
  | generic name => exact placed_fixed h hrest
  | bounded name constraint ih =>
    exact placed_fixed h.1 (.blank fun _ => placed_keyword (hkeys .extends) fun c hc =>
      ih hfits.2 h.2 (startsTold_of_before hc) hrest)

end Phrase

end IpcWiring.TypeText
