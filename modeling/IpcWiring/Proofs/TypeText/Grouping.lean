import IpcWiring.Proofs.TypeText.Phrase

/-!
# Grouping

A bound text is put in parentheses if a scan meets an operator outside of all brackets
(`isCompound`). The brackets of a phrase are balanced (`Phrase.balanced`), so the scan meets the
operator of a union, an intersection or a function (`Phrase.isCompound_of_isOperation`).
-/

namespace IpcWiring.TypeText

open IpcWiring.Text (startsIdentifier continuesIdentifier)

/-- A character that the scan counts. -/
def isBracket (c : Char) : Bool := "<([\x7b>)]\x7d".toList.contains c

/-- A character that the scan does not count and that starts no arrow. -/
def isInert (c : Char) : Bool := !isBracket c && c != '='

/-- An inert character is no bracket and no part of an arrow. -/
theorem isInert_iff {c : Char} : isInert c = true ↔ isBracket c = false ∧ c ≠ '=' := by
  rw [isInert, Bool.and_eq_true, Bool.not_eq_true', bne_iff_ne]

/-- A character that continues an identifier is inert. -/
theorem isInert_of_continues {c : Char} (h : continuesIdentifier c = true) : isInert c = true := by
  have hmarks : ("=<([\x7b>)]\x7d".toList.all fun c => !continuesIdentifier c) = true := by decide
  have hmark : ∀ d ∈ "=<([\x7b>)]\x7d".toList, c ≠ d := by
    rintro d hd rfl
    have hd := List.all_eq_true.1 hmarks c hd
    rw [h] at hd
    cases hd
  refine isInert_iff.2 ⟨?_, hmark '=' (by decide)⟩
  cases hc : isBracket c with
  | false => rfl
  | true => exact (hmark c (List.mem_cons_of_mem _ (List.contains_iff_mem.1 hc)) rfl).elim

/-- A character that starts an identifier continues one. -/
theorem continues_of_starts {c : Char} (h : startsIdentifier c = true) :
    continuesIdentifier c = true := by
  simp only [startsIdentifier, continuesIdentifier, Text.isAlphanumeric, Bool.or_eq_true] at h ⊢
  exact h.imp_left (·.imp_left .inl)

namespace Nesting

/-- Goes past a text. -/
def scan (s : Nesting) (cs : List Char) : Nesting := cs.foldl step s

/-- A text is scanned part by part. -/
theorem scan_append (s : Nesting) (cs ds : List Char) : s.scan (cs ++ ds) = (s.scan cs).scan ds :=
  List.foldl_append

/-- A text is scanned from its first character on. -/
theorem scan_cons (s : Nesting) (c : Char) (cs : List Char) :
    s.scan (c :: cs) = (s.step c).scan cs := rfl

/-- Another character than a bracket opens and closes nothing. -/
theorem depth_step {c : Char} (h : isBracket c = false) (s : Nesting) :
    (s.step c).depth = s.depth := by
  simp [isBracket] at h
  simp [step, h]

/-- An operator that was met stays met. -/
theorem compound_scan {s : Nesting} (h : s.compound = true) (cs : List Char) :
    (s.scan cs).compound = true := by
  induction cs generalizing s with
  | nil => exact h
  | cons c cs ih => exact ih (by simp [step, h])

end Nesting

/-- Every bracket in a text is closed in it, and no arrow is open at its end. -/
structure Balanced (cs : List Char) : Prop where
  depth : ∀ s : Nesting, (s.scan cs).depth = s.depth
  closes : ∀ s : Nesting, s.before ≠ '=' → (s.scan cs).before ≠ '='

namespace Balanced

variable {cs ds : List Char} {c : Char}

/-- The empty text is balanced. -/
theorem nil : Balanced [] := ⟨fun _ => rfl, fun _ h => h⟩

/-- Balanced texts one after the other are balanced. -/
theorem append (hc : Balanced cs) (hd : Balanced ds) : Balanced (cs ++ ds) := by
  constructor
  · intro s
    rw [Nesting.scan_append, hd.depth, hc.depth]
  · intro s h
    rw [Nesting.scan_append]
    exact hd.closes _ (hc.closes s h)

/-- A character that the scan does not count is balanced. -/
theorem single (h : isInert c = true) : Balanced [c] :=
  ⟨fun s => Nesting.depth_step (isInert_iff.1 h).1 s, fun _ _ => (isInert_iff.1 h).2⟩

/-- Characters that the scan does not count are balanced. -/
theorem of_all (h : cs.all isInert = true) : Balanced cs := by
  induction cs with
  | nil => exact nil
  | cons c cs ih =>
    rw [List.all_cons, Bool.and_eq_true] at h
    exact (single h.1).append (ih h.2)

/-- An arrow is balanced. -/
theorem arrow : Balanced ['=', '>'] :=
  ⟨fun s => by simp [Nesting.scan, Nesting.step], fun _ _ => by simp [Nesting.scan, Nesting.step]⟩

/-- A balanced text in brackets is balanced. -/
theorem bracketed {opening closing : Char} (h : Balanced cs)
    (hpair : (opening, closing) ∈ [('(', ')'), ('[', ']'), ('<', '>'), ('\x7b', '\x7d')]) :
    Balanced (opening :: cs ++ [closing]) := by
  have hopening : opening ≠ '=' ∧ ∀ s : Nesting, (s.step opening).depth = s.depth + 1 := by
    simp only [List.mem_cons, Prod.mk.injEq, List.not_mem_nil, or_false] at hpair
    rcases hpair with ⟨rfl, -⟩ | ⟨rfl, -⟩ | ⟨rfl, -⟩ | ⟨rfl, -⟩ <;> simp [Nesting.step]
  have hclosing : closing ≠ '=' ∧
      ∀ s : Nesting, s.before ≠ '=' → (s.step closing).depth = s.depth - 1 := by
    simp only [List.mem_cons, Prod.mk.injEq, List.not_mem_nil, or_false] at hpair
    rcases hpair with ⟨-, rfl⟩ | ⟨-, rfl⟩ | ⟨-, rfl⟩ | ⟨-, rfl⟩ <;> simp +contextual [Nesting.step]
  constructor
  · intro s
    rw [List.cons_append, Nesting.scan_cons, Nesting.scan_append]
    change ((Nesting.scan _ cs).step closing).depth = s.depth
    rw [hclosing.2 _ (h.closes _ hopening.1), h.depth, hopening.2, Int.add_sub_cancel]
  · intro s _
    rw [List.cons_append, Nesting.scan_cons, Nesting.scan_append]
    exact hclosing.1

end Balanced

/-! ## Phrases are balanced -/

/-- The text in quotes has no brackets. -/
def Quoted.IsQuiet (q : Quoted) : Prop := ∀ c ∈ q.body, isBracket c = false

/-- A text in quotes without brackets is balanced. -/
theorem Quoted.balanced {q : Quoted} (h : q.IsQuiet) : Balanced q.chars := by
  have hmark : isBracket q.mark = false ∧ q.mark ≠ '=' := by
    rcases q.mark_cases with heq | heq | heq <;> rw [heq] <;> decide
  have hbody : ∀ s : Nesting, (s.scan q.body).depth = s.depth := by
    have h : ∀ c ∈ q.body, isBracket c = false := h
    generalize q.body = body at h
    induction body with
    | nil => exact fun s => rfl
    | cons c body ih =>
      obtain ⟨hc, hbody⟩ := List.forall_mem_cons.1 h
      intro s
      rw [Nesting.scan_cons, ih hbody, Nesting.depth_step hc]
  constructor
  · intro s
    rw [Quoted.chars, Nesting.scan_append, Nesting.scan_cons]
    change ((Nesting.scan _ q.body).step q.mark).depth = s.depth
    rw [Nesting.depth_step hmark.1, hbody, Nesting.depth_step hmark.1]
  · intro s _
    rw [Quoted.chars, Nesting.scan_append]
    exact hmark.2

/-- A word is balanced. -/
theorem Word.balanced (w : Word) : Balanced w.chars := by
  have hfirst : continuesIdentifier w.first = true := continues_of_starts w.starts
  refine .of_all (List.all_eq_true.2 (List.forall_mem_cons.2
    ⟨isInert_of_continues hfirst, fun c hc => ?_⟩))
  exact isInert_of_continues (List.all_eq_true.1 w.continues c hc)

/-- No text in quotes has brackets. -/
def IsQuiet (as : List Atom) : Prop := ∀ q, .quoted q ∈ as → q.IsQuiet

/-- The text is balanced, unless there are brackets in quotes. -/
def IsBalanced (as : List Atom) : Prop := IsQuiet as → Balanced (spell as)

namespace IsBalanced

variable {as bs : List Atom}

/-- Balanced texts one after the other are balanced. -/
theorem append (ha : IsBalanced as) (hb : IsBalanced bs) : IsBalanced (as ++ bs) := fun h => by
  rw [spell, List.flatMap_append]
  exact (ha fun q hq => h q (List.mem_append_left _ hq)).append
    (hb fun q hq => h q (List.mem_append_right _ hq))

/-- A word is balanced. -/
theorem word (role : Role) (w : Word) : IsBalanced [.word role w] := fun _ => by
  rw [spell, List.flatMap_singleton]
  exact w.balanced

/-- Marks that the scan does not count are balanced. -/
theorem of_marks {cs : List Char} (h : cs.all isInert = true) : IsBalanced (marks cs) := fun _ => by
  rw [spell_marks]
  exact .of_all h

/-- A mark that the scan does not count is balanced. -/
theorem mark {c : Char} (h : isInert c = true) : IsBalanced [.mark c] := fun _ => .single h

/-- A text in quotes is balanced. -/
theorem quoted (q : Quoted) : IsBalanced [.quoted q] := fun h => by
  rw [spell, List.flatMap_singleton]
  exact Quoted.balanced (h q List.mem_cons_self)

/-- An arrow is balanced. -/
theorem arrow : IsBalanced (marks [' ', '=', '>', ' ']) := fun _ => by
  rw [spell_marks]
  exact .append (.single (by decide)) (.append .arrow (.single (by decide)))

/-- A balanced text in brackets is balanced. -/
theorem bracketed {opening closing : Char} (h : IsBalanced as)
    (hpair : (opening, closing) ∈ [('(', ')'), ('[', ']'), ('<', '>'), ('\x7b', '\x7d')]) :
    IsBalanced (.mark opening :: as ++ [.mark closing]) := fun hquiet => by
  have has : Balanced (spell as) := h fun q hq => hquiet q (by simp [hq])
  have hchars : spell (.mark opening :: as ++ [.mark closing]) =
      opening :: spell as ++ [closing] := by simp [spell, Atom.chars]
  rw [hchars]
  exact has.bracketed hpair

/-- Balanced texts with marks between them are balanced. -/
theorem separated {mark : List Char} (hmark : mark.all isInert = true)
    {items : List (List Atom)} (h : ∀ as ∈ items, IsBalanced as) :
    IsBalanced (separated mark items) := by
  cases items with
  | nil => exact fun _ => .nil
  | cons first rest =>
    obtain ⟨hfirst, hrest⟩ := List.forall_mem_cons.1 h
    refine hfirst.append ?_
    induction rest with
    | nil => exact fun _ => .nil
    | cons next rest ih =>
      obtain ⟨hnext, hrest⟩ := List.forall_mem_cons.1 hrest
      rw [List.flatMap_cons]
      exact ((of_marks hmark).append hnext).append
        (ih (List.forall_mem_cons.2 ⟨hfirst, hrest⟩) hrest)

/-- Parameters are balanced. -/
theorem listed {items : List (List Atom)} (h : ∀ as ∈ items, IsBalanced as) :
    IsBalanced (Phrase.listed items) := .bracketed (.separated (by decide) h) (by decide)

/-- Type arguments are balanced. -/
theorem angled {items : List (List Atom)} (h : ∀ as ∈ items, IsBalanced as) :
    IsBalanced (Phrase.angled items) := by
  cases items with
  | nil => exact fun _ => .nil
  | cons first rest => exact .bracketed (.separated (by decide) h) (by decide)

/-- Members are balanced. -/
theorem braced {items : List (List Atom)} (h : ∀ as ∈ items, IsBalanced as) :
    IsBalanced (Phrase.braced items) := by
  cases items with
  | nil =>
    have hempty : IsBalanced [] := fun _ => .nil
    exact hempty.bracketed (by decide)
  | cons first rest =>
    have hblank : IsBalanced [.mark ' '] := mark (by decide)
    have hinner : IsBalanced ([.mark ' '] ++ TypeText.separated [';', ' '] (first :: rest) ++
        [.mark ' ']) := (hblank.append (.separated (by decide) h)).append hblank
    have hbraced : Phrase.braced (first :: rest) = .mark '\x7b' :: ([.mark ' '] ++
        TypeText.separated [';', ' '] (first :: rest) ++ [.mark ' ']) ++ [.mark '\x7d'] := by
      simp [Phrase.braced, marks]
    rw [hbraced]
    exact hinner.bracketed (by decide)

/-- A key is balanced. -/
theorem key (k : Key) : IsBalanced [k.atom] := by
  cases k with
  | word w => exact word .fixed w
  | quoted q => exact quoted q

/-- A question mark is balanced. -/
theorem questionIf (isOptional : Bool) : IsBalanced (Phrase.questionIf isOptional) := by
  cases isOptional with
  | true => exact mark (by decide)
  | false => exact fun _ => .nil

end IsBalanced

namespace Phrase

/-- The text of a phrase is balanced, unless there are brackets in quotes. -/
theorem balanced (t : Phrase) : IsBalanced t.atoms := by
  have hcolon : IsBalanced (marks [':', ' ']) := .of_marks (by decide)
  have hblank : IsBalanced [.mark ' '] := .mark (by decide)
  induction t using Phrase.induct with
  | use name => exact .word .use name
  | applied head path args ih =>
    rw [atoms, atomsEach_eq_map]
    refine ((IsBalanced.word .head head).append ?_).append (.angled (List.forall_mem_map.2 ih))
    induction path with
    | nil => exact fun _ => .nil
    | cons w path ih => exact (IsBalanced.append (.mark (by decide)) (.word .fixed w)).append ih
  | quoted q => exact .quoted q
  | paren inner ih => exact ih.bracketed (by decide)
  | array element ih =>
    have hbrackets : IsBalanced ([.mark '['] ++ [] ++ [.mark ']']) :=
      .bracketed (fun _ => .nil) (by decide)
    exact ih.append hbrackets
  | tuple elements ih =>
    rw [atoms, atomsEach_eq_map]
    exact .bracketed (.separated (by decide) (List.forall_mem_map.2 ih)) (by decide)
  | optional element ih => exact ih.append (.mark (by decide))
  | spread elements ih => exact .append (.of_marks (by decide)) ih
  | union left right ihl ihr => exact (ihl.append (.of_marks (by decide))).append ihr
  | intersection left right ihl ihr => exact (ihl.append (.of_marks (by decide))).append ihr
  | operator op operand ih => exact (IsBalanced.word .fixed op.word).append (hblank.append ih)
  | conditional check extended positive negative ihc ihe ihp ihn =>
    have hextends := hblank.append ((IsBalanced.word .fixed Keyword.extends.word).append
      (hblank.append ihe))
    exact ((((ihc.append hextends).append (.of_marks (by decide))).append ihp).append
      (.of_marks (by decide))).append ihn
  | function parameters result ihp ihr =>
    rw [atoms, atomsEach_eq_map]
    exact ((IsBalanced.listed (List.forall_mem_map.2 ihp)).append .arrow).append ihr
  | parameter modifier name type ih =>
    have hname : IsBalanced [.word .fixed name] := .word .fixed name
    cases modifier with
    | plain => exact (hname.append hcolon).append ih
    | optional => exact ((hname.append (.mark (by decide))).append hcolon).append ih
    | rest => exact ((IsBalanced.append (.of_marks (by decide)) hname).append hcolon).append ih
  | object members ih =>
    rw [atoms, atomsEach_eq_map]
    exact .braced (List.forall_mem_map.2 ih)
  | property isReadonly key isOptional type ih =>
    have hkey := (IsBalanced.key key).append (.questionIf isOptional)
    cases isReadonly with
    | false => exact (hkey.append hcolon).append ih
    | true =>
      exact ((IsBalanced.append (.append (.word .fixed Keyword.readonly.word) hblank) hkey).append
        hcolon).append ih
  | method key isOptional generics parameters result ihg ihp ihr =>
    rw [atoms, atomsEach_eq_map, atomsEach_eq_map]
    have hkey := (IsBalanced.key key).append (.questionIf isOptional)
    exact (((hkey.append (.angled (List.forall_mem_map.2 ihg))).append
      (.listed (List.forall_mem_map.2 ihp))).append hcolon).append ihr
  | generic name => exact .word .fixed name
  | bounded name constraint ih =>
    exact (IsBalanced.word .fixed name).append (hblank.append
      ((IsBalanced.word .fixed Keyword.extends.word).append (hblank.append ih)))

/-! ## Grouped phrases -/

/-- The phrase as it is put in the place of a type parameter: in parentheses, if its text asks for
them. -/
def grouped (t : Phrase) : Phrase := if isCompound t.chars then .paren t else t

/-- A grouped phrase has the grouped text. -/
theorem chars_grouped (t : Phrase) : t.grouped.chars = TypeText.grouped t.chars := by
  rw [grouped, TypeText.grouped]
  split
  · rw [chars, atoms, spell, List.flatMap_append, List.flatMap_cons, List.flatMap_singleton]
    rfl
  · rfl

mutual

/-- The phrase without its parentheses. -/
def bare : Phrase → Phrase
  | use name => use name
  | applied head path args => applied head path (bareEach args)
  | quoted q => quoted q
  | paren inner => bare inner
  | array element => array (bare element)
  | tuple elements => tuple (bareEach elements)
  | optional element => optional (bare element)
  | spread elements => spread (bare elements)
  | union left right => union (bare left) (bare right)
  | intersection left right => intersection (bare left) (bare right)
  | operator op operand => operator op (bare operand)
  | conditional check extended positive negative =>
    conditional (bare check) (bare extended) (bare positive) (bare negative)
  | function parameters result => function (bareEach parameters) (bare result)
  | parameter modifier name type => parameter modifier name (bare type)
  | object members => object (bareEach members)
  | property isReadonly key isOptional type => property isReadonly key isOptional (bare type)
  | method key isOptional generics parameters result =>
    method key isOptional (bareEach generics) (bareEach parameters) (bare result)
  | generic name => generic name
  | bounded name constraint => bounded name (bare constraint)

/-- Some phrases without their parentheses. -/
def bareEach : List Phrase → List Phrase
  | [] => []
  | t :: ts => bare t :: bareEach ts

end

/-- Parentheses are left out one by one. -/
theorem bareEach_eq_map (ts : List Phrase) : bareEach ts = ts.map bare := by
  induction ts with
  | nil => rfl
  | cons t ts ih => rw [bareEach, ih, List.map_cons]

/-- A grouped phrase is the same but for parentheses. -/
theorem bare_grouped (t : Phrase) : t.grouped.bare = t.bare := by
  rw [grouped]
  split
  · rw [bare]
  · rfl

/-- The outermost operation of a phrase is a union, an intersection or a function. -/
def IsOperation : Phrase → Prop
  | union .. | intersection .. | function .. => True
  | _ => False

/-- An operator behind a balanced text is met. -/
theorem isCompound_of_operator {cs ds : List Char} {c : Char} (h : Balanced cs)
    (hc : c = '|' ∨ c = '&') : isCompound (cs ++ ' ' :: c :: ds) = true := by
  change (Nesting.scan .start (cs ++ ' ' :: c :: ds)).compound = true
  rw [Nesting.scan_append, Nesting.scan_cons, Nesting.scan_cons]
  have hdepth : ((Nesting.scan .start cs).step ' ').depth = 0 := by
    rw [Nesting.depth_step (by decide), h.depth]
    rfl
  generalize (Nesting.scan .start cs).step ' ' = s at hdepth
  refine Nesting.compound_scan ?_ ds
  rcases hc with rfl | rfl <;> simp [Nesting.step, hdepth]

/-- An arrow behind a balanced text is met. -/
theorem isCompound_of_arrow {cs ds : List Char} (h : Balanced cs) :
    isCompound (cs ++ ' ' :: '=' :: '>' :: ds) = true := by
  change (Nesting.scan .start (cs ++ ' ' :: '=' :: '>' :: ds)).compound = true
  rw [Nesting.scan_append, Nesting.scan_cons, Nesting.scan_cons, Nesting.scan_cons]
  have hdepth : (((Nesting.scan .start cs).step ' ').step '=').depth = 0 := by
    rw [Nesting.depth_step (by decide), Nesting.depth_step (by decide), h.depth]
    rfl
  have hbefore : (((Nesting.scan .start cs).step ' ').step '=').before = '=' := rfl
  generalize ((Nesting.scan .start cs).step ' ').step '=' = s at hdepth hbefore
  refine Nesting.compound_scan ?_ ds
  simp [Nesting.step, hdepth, hbefore]

/-- The scan meets the operator of an operation, unless there are brackets in quotes. -/
theorem isCompound_of_isOperation {t : Phrase} (h : t.IsOperation) (hquiet : IsQuiet t.atoms) :
    isCompound t.chars = true := by
  have hleft : ∀ {as bs cs}, t.atoms = as ++ marks cs ++ bs → IsBalanced as →
      Balanced (spell as) ∧ t.chars = spell as ++ cs ++ spell bs := fun heq has => by
    refine ⟨has fun q hq => hquiet q ?_, ?_⟩
    · rw [heq]
      exact List.mem_append_left _ (List.mem_append_left _ hq)
    · rw [chars, heq, spell_append, spell_append, spell_marks]
  cases t with
  | union left right =>
    obtain ⟨hbalanced, hchars⟩ := hleft rfl left.balanced
    rw [hchars, List.append_assoc]
    exact isCompound_of_operator hbalanced (.inl rfl)
  | intersection left right =>
    obtain ⟨hbalanced, hchars⟩ := hleft rfl left.balanced
    rw [hchars, List.append_assoc]
    exact isCompound_of_operator hbalanced (.inr rfl)
  | function parameters result =>
    have hparameters : IsBalanced (listed (atomsEach parameters)) := by
      rw [atomsEach_eq_map]
      exact .listed (List.forall_mem_map.2 fun t _ => t.balanced)
    obtain ⟨hbalanced, hchars⟩ := hleft rfl hparameters
    rw [hchars, List.append_assoc]
    exact isCompound_of_arrow hbalanced
  | _ => exact h.elim

/-- A type that is not grouped binds strongly enough at a place: a conditional type stands only
where any type may stand, and a type operator not where the strongest types have to. -/
def Sits (p : Place) : Phrase → Prop
  | conditional .. => p.takes 0
  | operator .. => p.takes 4
  | _ => True

/-- A grouped type may stand wherever a name may, if it sits there. -/
theorem fits_grouped {p : Place} {t : Phrase} (hp : p.takes 5) (ht : Fits .type t)
    (hquiet : IsQuiet t.atoms) (hsits : t.grouped.Sits p) : Fits p t.grouped := by
  rw [grouped] at hsits ⊢
  split
  · exact ⟨hp, ht⟩
  · next hcompound =>
    rw [if_neg hcompound] at hsits
    have hoperation : ¬ t.IsOperation := fun h => hcompound (isCompound_of_isOperation h hquiet)
    cases t with
    | union | intersection | function => exact (hoperation trivial).elim
    | quoted => exact hp
    | use | applied | paren | array | tuple | object => exact ⟨hp, ht.2⟩
    | operator | conditional => exact ⟨hsits, ht.2⟩
    | optional | spread | parameter | property | method | bounded => cases ht.1
    | generic => cases ht

end Phrase

end IpcWiring.TypeText
