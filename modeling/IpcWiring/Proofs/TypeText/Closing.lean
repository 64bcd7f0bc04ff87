import IpcWiring.Proofs.TypeText.Reading

/-!
# What ends a phrase

A phrase that was read ends where nothing follows that belongs to it (`Closes`). Which suffixes may
follow depends on the place, and two steps for each character are enough (`Reads`).
-/

namespace IpcWiring.TypeText

open IpcWiring.Text (startsIdentifier continuesIdentifier)

/-! ## Pieces of a text -/

section

variable {rest : List Char}

/-- A mark in front is read. -/
theorem dropPrefix?_append (mark rest : List Char) : (mark ++ rest).dropPrefix? mark = some rest :=
  List.dropPrefix?_append_of_beq rest (beq_self_eq_true mark)

/-- A word is read back if the text does not go on with an identifier. -/
theorem readWord_chars (w : Word) (h : ∀ c ∈ rest.head?, continuesIdentifier c = false) :
    readWord (w.chars ++ rest) = some (w, rest) := by
  obtain ⟨htake, hdrop⟩ := w.span_rest h
  rw [Word.chars, List.cons_append, readWord, dif_pos w.starts]
  simp only [htake, hdrop]

/-- No word is read where none starts. -/
theorem readWord_eq_none {cs : List Char} (h : ∀ c ∈ cs.head?, startsIdentifier c = false) :
    readWord cs = none := by
  cases cs with
  | nil => rfl
  | cons c cs => rw [readWord, dif_neg (by simp [h c rfl])]

/-- A text in quotes is read back. -/
theorem readQuoted_chars (q : Quoted) (rest : List Char) :
    readQuoted (q.chars ++ rest) = some (q, rest) := by
  have hspan := quotedSpan_of_isClosed q.mark_ne.2 q.closed rest
  have hchars : q.chars ++ rest = q.mark :: (q.body ++ q.mark :: rest) := by simp [Quoted.chars]
  have hbody : (q.body ++ [q.mark]).dropLast = q.body := List.dropLast_concat
  rw [hchars, readQuoted]
  simp only [hspan, hbody, q.isMark, q.closed, and_self, dif_pos]

/-- Where a word starts, no quotes are read. -/
theorem readQuoted_word (w : Word) : readQuoted (w.chars ++ rest) = none := by
  rw [Word.chars, List.cons_append, readQuoted, dif_neg]
  rw [w.first_ne]
  exact fun h => Bool.false_ne_true h.1

end

/-! ## What ends a phrase -/

/-- What follows a phrase does not belong to it: it goes on neither with a word nor with a qualified
name or type arguments, nor with a suffix that binds as strongly as given. -/
structure Closes (strength : Nat) (cs : List Char) : Prop where
  apart : ∀ c ∈ cs.head?, continuesIdentifier c = false
  unqualified : cs.head? ≠ some '.'
  unapplied : cs.head? ≠ some '<'
  suffix : ∀ s : Suffix, strength ≤ s.strength → cs.dropPrefix? s.mark = none

namespace Closes

variable {k l : Nat} {c : Char} {cs : List Char}

/-- Weaker suffixes matter less. -/
theorem mono (h : Closes k cs) (hle : k ≤ l) : Closes l cs :=
  { h with suffix := fun s hs => h.suffix s (Nat.le_trans hle hs) }

/-- Nothing follows. -/
theorem nil : Closes k [] where
  apart := nofun
  unqualified := nofun
  unapplied := nofun
  suffix s _ := by cases s <;> rfl

/-- Most marks end a phrase. -/
theorem mark (hc : isMark c = true) (h : c ∉ ['.', '<', '[', '?', ' ']) : Closes k (c :: cs) where
  apart := forall_head?_cons (continues_of_isMark hc)
  unqualified heq := h (by simp [Option.some.inj heq])
  unapplied heq := h (by simp [Option.some.inj heq])
  suffix s _ := by
    simp only [List.mem_cons, List.not_mem_nil, or_false, not_or] at h
    cases s <;> simp [Suffix.mark, List.dropPrefix?, h]

/-- A blank ends a phrase, unless it belongs to a suffix. -/
theorem blank (h : c ∉ ['|', '&', 'e']) : Closes k (' ' :: c :: cs) where
  apart := forall_head?_cons (by decide)
  unqualified := nofun
  unapplied := nofun
  suffix s _ := by
    simp only [List.mem_cons, List.not_mem_nil, or_false, not_or] at h
    cases s <;> simp [Suffix.mark, List.dropPrefix?, h, Word.chars, Keyword.word]

/-- A suffix ends what binds more strongly. -/
theorem mark_append (s : Suffix) : Closes (s.strength + 1) (s.mark ++ cs) := by
  refine ⟨fun c hc => ?_, ?_, ?_, fun s' hs => ?_⟩
  · cases s <;> obtain rfl := Option.some.inj hc <;> decide
  · cases s <;> nofun
  · cases s <;> nofun
  · cases s <;> cases s' <;> first | rfl | exact absurd hs (by decide)

end Closes

namespace Place

/-- The weakest suffix that a phrase at a place goes on with. -/
def weakest (p : Place) : Nat := p.strength?.getD 0

/-- How strongly a suffix has to bind to belong to a phrase that was read at a place; what stands on
the left of an operator can be followed by the operator. -/
def bar : Place → Nat
  | union => 3
  | intersection => 4
  | tight => 6
  | p => p.weakest

/-- A place is no stronger than what follows it. -/
theorem weakest_le_bar (p : Place) : p.weakest ≤ p.bar := by cases p <;> decide

/-- A place takes what binds as strongly as it asks. -/
theorem takes_iff {p : Place} {strength : Nat} :
    p.takes strength = true ↔ ∃ least, p.strength? = some least ∧ least ≤ strength := by
  rw [takes, Option.any_eq_true]
  simp

/-- What follows a type is weaker than what stands at the end of the type. -/
theorem bar_le {p : Place} {strength least : Nat} (h : p.takes strength = true)
    (hmem : (strength, least) ∈ [(0, 0), (2, 3), (3, 4), (4, 4)]) : p.bar ≤ least := by
  simp only [List.mem_cons, Prod.mk.injEq, List.not_mem_nil, or_false] at hmem
  rcases hmem with ⟨rfl, rfl⟩ | ⟨rfl, rfl⟩ | ⟨rfl, rfl⟩ | ⟨rfl, rfl⟩ <;>
    cases p <;> first | decide | cases h

/-- The result of a function ends where the function does. -/
theorem bar_le_result {p : Place} (h : p.takes 1 = true) : p.bar ≤ p.result.weakest := by
  cases p <;> first | decide | cases h

/-- A suffix at a place binds strongly enough. -/
theorem weakest_le {p : Place} {s : Suffix} (h : s.isAt p = true) : p.weakest ≤ s.strength := by
  cases p <;> cases s <;> first | decide | cases h

/-- Where a type may stand, a stronger one may stand. -/
theorem takes_of_le {p : Place} {strength strength' : Nat} (h : p.takes strength = true)
    (hle : strength ≤ strength') : p.takes strength' = true := by
  obtain ⟨least, hleast, hle'⟩ := takes_iff.1 h
  exact takes_iff.2 ⟨least, hleast, Nat.le_trans hle' hle⟩

/-- What is read at a place `p` can start with what may stand at a place `q`: they are the same, or
`q` is the left of an operator that may stand at `p`. -/
def StartsWith (p q : Place) : Prop :=
  p = q ∨ (q.takes 1 = false ∧ q.takes 5 = true ∧ ∀ s, q.takes s = true → p.takes s = true)

/-- What starts a phrase may stand where the phrase is read. -/
theorem StartsWith.takes {p q : Place} {strength : Nat} (h : p.StartsWith q)
    (hq : q.takes strength = true) : p.takes strength = true := by
  rcases h with rfl | ⟨-, -, h⟩
  · exact hq
  · exact h strength hq

/-- No weak type stands on the left of an operator. -/
theorem StartsWith.eq {p q : Place} (h : p.StartsWith q) (hq : q.takes 1 = true) : p = q := by
  rcases h with rfl | ⟨hone, -⟩
  · rfl
  · rw [hq] at hone
    cases hone

/-- No part of a type stands on the left of an operator. -/
theorem StartsWith.eq_of_not_takes {p q : Place} (h : p.StartsWith q) (hq : q.takes 5 = false) :
    p = q := by
  rcases h with rfl | ⟨-, hfive, -⟩
  · rfl
  · rw [hq] at hfive
    cases hfive

/-- The left of an operator stands where the operator may stand. -/
theorem startsWith_of_takes {p q : Place} {strength : Nat} (hp : p.takes strength = true)
    (hq : q.strength? = some strength) (hone : 1 < strength) (hfive : strength ≤ 5) :
    p.StartsWith q := by
  refine .inr ⟨?_, ?_, fun s hs => takes_of_le hp ?_⟩
  · rw [takes, hq]
    exact decide_eq_false (by omega)
  · rw [takes, hq]
    exact decide_eq_true hfive
  · rw [takes, hq] at hs
    exact of_decide_eq_true hs

end Place

/-! ## Enough steps -/

/-- A phrase is read if there are enough steps. -/
def Reads (p : Place) (cs : List Char) (x : Phrase × List Char) : Prop :=
  ∀ fuel, 2 * cs.length + 1 ≤ fuel → readAt fuel p cs = some x

/-- A phrase goes on to what is read if there are enough steps. -/
def GoesOn (p : Place) (t : Phrase) (cs : List Char) (x : Phrase × List Char) : Prop :=
  ∀ fuel, 2 * cs.length + 1 ≤ fuel → readOn fuel p t cs = some x

/-- Phrases are read if there are enough steps. -/
def ReadsEach (p : Place) (sep : Char) (cs : List Char) (x : List Phrase × List Char) : Prop :=
  ∀ fuel, 2 * cs.length + 2 ≤ fuel → readEach fuel p sep cs = some x

/-- Readers read what can be read from each text that is shorter than `n`. -/
structure Handles (n : Nat) (read : Place → Reader)
    (each : Place → Char → ListReader) : Prop where
  read : ∀ {p cs x}, Reads p cs x → cs.length < n → read p cs = some x
  each : ∀ {p sep cs x}, ReadsEach p sep cs x → cs.length < n → each p sep cs = some x

section

variable {p : Place} {t t' : Phrase} {cs rest : List Char} {x : Phrase × List Char}

/-- Two steps for each character are enough. -/
theorem handles_of_le {n fuel : Nat} (h : 2 * n ≤ fuel) :
    Handles n (readAt fuel) (readEach fuel) where
  read hread hlt := hread fuel (by omega)
  each heach hlt := heach fuel (by omega)

/-- A phrase is read from its first part on. -/
theorem reads_of_first (hfirst : ∀ {read each}, Handles cs.length read each →
      readFirst read each p cs = some (t, rest))
    (hlt : rest.length < cs.length) (hon : GoesOn p t rest x) : Reads p cs x := by
  intro fuel hfuel
  obtain ⟨fuel, rfl⟩ := Nat.exists_eq_add_one.2 (show 0 < fuel by omega)
  have hread := hfirst (handles_of_le (show 2 * cs.length ≤ fuel by omega))
  simp only [readAt, hread, Option.bind_eq_bind, Option.bind_some]
  exact hon fuel (by omega)

/-- What ends a phrase is left. -/
theorem goesOn_of_closes (h : Closes p.weakest rest) : GoesOn p t rest (t, rest) := by
  intro fuel hfuel
  obtain ⟨fuel, rfl⟩ := Nat.exists_eq_add_one.2 (show 0 < fuel by omega)
  have hnone : readSuffix p rest = none := by
    refine List.findSome?_eq_none_iff.2 fun s _ => ?_
    split
    · next hs => rw [h.suffix s (Place.weakest_le hs)]; rfl
    · rfl
  rw [readOn, hnone]

/-- A suffix is read by its mark. -/
theorem readSuffix_mark {s : Suffix} (hs : s.isAt p = true) :
    readSuffix p (s.mark ++ rest) = some (s, rest) := by
  have hother : ∀ s', s' ≠ s → (s.mark ++ rest).dropPrefix? s'.mark = none := by
    intro s' hne
    cases s <;> cases s' <;> first | rfl | exact (hne rfl).elim
  have hown := dropPrefix?_append s.mark rest
  cases s <;> simp [readSuffix, hs, hown, hother]

/-- A phrase goes on with a suffix. -/
theorem goesOn_of_suffix {s : Suffix} (hs : s.isAt p = true)
    (hbehind : ∀ {read each}, Handles (rest.length + 1) read each →
      readBehind read t rest s = some (t', cs))
    (hle : cs.length ≤ rest.length) (hon : GoesOn p t' cs x) : GoesOn p t (s.mark ++ rest) x := by
  intro fuel hfuel
  have hpos : 0 < s.mark.length := by cases s <;> decide
  rw [List.length_append] at hfuel
  obtain ⟨fuel, rfl⟩ := Nat.exists_eq_add_one.2 (show 0 < fuel by omega)
  have hread := hbehind (handles_of_le (show 2 * (rest.length + 1) ≤ fuel by omega))
  simp only [readOn, readSuffix_mark hs, hread, Option.bind_eq_bind, Option.bind_some]
  exact hon fuel (by omega)

end

end IpcWiring.TypeText
