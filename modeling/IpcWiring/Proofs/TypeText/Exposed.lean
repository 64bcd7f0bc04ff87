import Mathlib.Data.List.Basic
import IpcWiring.Proofs.Blank
import IpcWiring.Proofs.Path.Resolved
import IpcWiring.Proofs.TypeText.Pass
import IpcWiring.WorkingSet.Entry

/-!
# Bars in a type text

`admitsUndefined` cuts a text at every bar, whatever stands around it, and looks for `undefined`
among the pieces. So it finds what two bars expose (`admitsUndefined_iff`), be they marks of the
type or part of a text in quotes. A piece with a character that `undefined` does not have is never
found, so such a character keeps what stands before it apart from what stands behind it
(`exposed_append_glue`).
-/

namespace IpcWiring.Text

/-! ## Pieces -/

section

variable {α : Type} {sep w : α} {s a b v : List α}

/-- A part in front that lacks an element ends before it. -/
theorem prefix_append_cons_iff (hw : w ∉ s) : s <+: a ++ w :: b ↔ s <+: a := by
  refine ⟨fun h => ?_, fun h => h.trans (List.prefix_append _ _)⟩
  induction a generalizing s with
  | nil =>
    cases s with
    | nil => exact List.nil_prefix
    | cons c s =>
      obtain rfl := (List.cons_prefix_cons.1 h).1
      exact (hw List.mem_cons_self).elim
  | cons d a ih =>
    cases s with
    | nil => exact List.nil_prefix
    | cons c s =>
      obtain ⟨rfl, htail⟩ := List.cons_prefix_cons.1 h
      exact List.cons_prefix_cons.2 ⟨rfl, ih (fun hs => hw (List.mem_cons_of_mem c hs)) htail⟩

/-- A part that lacks an element stands before it or behind it. -/
theorem infix_append_cons_iff (hw : w ∉ s) : s <:+: a ++ w :: b ↔ s <:+: a ∨ s <:+: b := by
  induction a with
  | nil =>
    have hfront : s <+: [] ++ w :: b ↔ s <+: [] := prefix_append_cons_iff hw
    rw [List.nil_append] at hfront ⊢
    rw [List.infix_cons_iff, hfront, List.prefix_nil, List.infix_nil]
  | cons d a ih =>
    have hfront : s <+: d :: a ++ w :: b ↔ s <+: d :: a := prefix_append_cons_iff hw
    rw [List.cons_append] at hfront ⊢
    rw [List.infix_cons_iff, List.infix_cons_iff, hfront, ih, or_assoc]

/-- A part in front that a separator ends, ends with the first one. -/
theorem prefix_append_sep_iff (hv : sep ∉ v) :
    v ++ [sep] <+: a ++ sep :: b ↔ v ++ [sep] <+: a ++ [sep] := by
  refine ⟨fun h => ?_, fun h => h.trans ⟨b, by rw [List.append_assoc, List.singleton_append]⟩⟩
  induction a generalizing v with
  | nil =>
    cases v with
    | nil => exact List.prefix_rfl
    | cons c v =>
      obtain rfl := (List.cons_prefix_cons.1 h).1
      exact (hv List.mem_cons_self).elim
  | cons d a ih =>
    cases v with
    | nil =>
      obtain rfl := (List.cons_prefix_cons.1 h).1
      exact List.cons_prefix_cons.2 ⟨rfl, List.nil_prefix⟩
    | cons c v =>
      obtain ⟨rfl, htail⟩ := List.cons_prefix_cons.1 h
      exact List.cons_prefix_cons.2 ⟨rfl, ih (fun hs => hv (List.mem_cons_of_mem c hs)) htail⟩

/-- What stands between two separators stands on one side of each separator. -/
theorem infix_append_sep_iff (hv : sep ∉ v) : sep :: (v ++ [sep]) <:+: a ++ sep :: b ↔
    sep :: (v ++ [sep]) <:+: a ++ [sep] ∨ sep :: (v ++ [sep]) <:+: sep :: b := by
  induction a with
  | nil =>
    refine (or_iff_right fun h => ?_).symm
    have hlength := h.length_le
    rw [List.nil_append, List.length_cons, List.length_append, List.length_singleton] at hlength
    omega
  | cons d a ih =>
    have hfront : sep :: (v ++ [sep]) <+: d :: (a ++ sep :: b) ↔
        sep :: (v ++ [sep]) <+: d :: (a ++ [sep]) := by
      rw [List.cons_prefix_cons, List.cons_prefix_cons, prefix_append_sep_iff hv]
    rw [List.cons_append, List.cons_append, List.infix_cons_iff, List.infix_cons_iff, hfront, ih,
      or_assoc]

/-- A part does not start in a text that lacks its first element. -/
theorem cons_infix_append_iff (h : w ∉ a) : w :: s <:+: a ++ b ↔ w :: s <:+: b := by
  induction a with
  | nil => rfl
  | cons d a ih =>
    have hd : ¬ w :: s <+: d :: (a ++ b) := fun hfront =>
      h ((List.cons_prefix_cons.1 hfront).1 ▸ List.mem_cons_self)
    rw [List.cons_append, List.infix_cons_iff, or_iff_right hd]
    exact ih fun ha => h (List.mem_cons_of_mem d ha)

/-- A part does not end in a text that lacks its last element. -/
theorem append_infix_append_iff (h : w ∉ b) : s ++ [w] <:+: a ++ b ↔ s ++ [w] <:+: a := by
  have hreverse := cons_infix_append_iff (s := s.reverse) (b := a.reverse)
    fun hb => h (List.mem_reverse.1 hb)
  rw [← List.reverse_infix, List.reverse_append, List.reverse_append, List.reverse_singleton,
    List.singleton_append, hreverse, ← List.reverse_infix, List.reverse_cons,
    List.reverse_reverse, List.reverse_reverse]

variable [DecidableEq α]

/-- One text stands between neighbouring separators. -/
theorem infix_sep_iff (hv : sep ∉ v) (ha : sep ∉ a) :
    sep :: (v ++ [sep]) <:+: sep :: (a ++ [sep]) ↔ v = a := by
  refine ⟨fun h => ?_, fun h => h ▸ List.infix_rfl⟩
  rcases List.infix_cons_iff.1 h with hfront | hpart
  · have htail := (List.cons_prefix_cons.1 hfront).2
    obtain ⟨t, rfl⟩ := (prefix_append_cons_iff hv).1 ((List.prefix_append v [sep]).trans htail)
    cases t with
    | nil => rw [List.append_nil]
    | cons c t =>
      rw [List.append_assoc, List.prefix_append_right_inj, List.cons_append,
        List.cons_prefix_cons] at htail
      obtain rfl := htail.1
      exact (ha (List.mem_append_right v List.mem_cons_self)).elim
  · have hcount := hpart.sublist.count_le sep
    simp only [List.count_cons_self, List.count_append, List.count_nil,
      List.count_eq_zero.2 ha] at hcount
    omega

/-- The pieces of a text stand between its separators, with one more at each end. -/
theorem mem_cutAt_iff : v ∈ cutAt sep s ↔
    sep ∉ v ∧ sep :: (v ++ [sep]) <:+: sep :: (s ++ [sep]) := by
  induction hn : s.length using Nat.strongRecOn generalizing s with
  | ind n ih =>
    by_cases hs : sep ∈ s
    · obtain ⟨a, rest, rfl, ha⟩ := List.eq_append_cons_of_mem hs
      have hrest := ih rest.length (by
        rw [← hn, List.length_append, List.length_cons]
        omega) rfl
      have hsplit : sep ∉ v → (sep :: (v ++ [sep]) <:+: sep :: (a ++ sep :: rest ++ [sep]) ↔
          v = a ∨ sep :: (v ++ [sep]) <:+: sep :: (rest ++ [sep])) := fun hv => by
        have hleft := infix_append_sep_iff (a := sep :: a) (b := rest ++ [sep]) hv
        rw [List.cons_append, List.cons_append, infix_sep_iff hv ha] at hleft
        rwa [List.append_assoc, List.cons_append]
      rw [cutAt_append_cons ha, List.mem_cons, hrest]
      constructor
      · rintro (rfl | ⟨hv, h⟩)
        · exact ⟨ha, (hsplit ha).2 (.inl rfl)⟩
        · exact ⟨hv, (hsplit hv).2 (.inr h)⟩
      · rintro ⟨hv, h⟩
        exact ((hsplit hv).1 h).imp_right fun hrest => ⟨hv, hrest⟩
    · rw [cutAt_of_not_mem hs, List.mem_singleton]
      refine ⟨?_, fun h => (infix_sep_iff h.1 hs).1 h.2⟩
      rintro rfl
      exact ⟨hs, List.infix_rfl⟩

end

/-- A blank character is in no identifier. -/
theorem continuesIdentifier_of_isBlank {c : Char} (h : isBlank c = true) :
    continuesIdentifier c = false := by
  have hnone := all_of_isBlank (p := fun c => !continuesIdentifier c) (by decide +kernel) h
  rwa [Bool.not_eq_true'] at hnone

end IpcWiring.Text

namespace IpcWiring.TypeText

open IpcWiring.Text (isBlank continuesIdentifier)

/-! ## Texts between bars -/

/-- The word that `admitsUndefined` looks for. -/
def undefinedWord : Word :=
  ⟨'u', ['n', 'd', 'e', 'f', 'i', 'n', 'e', 'd'], rfl, rfl⟩

/-- The text is `undefined`, but for blanks. -/
def IsUndefined (cs : List Char) : Prop := Text.trimChars cs = undefinedWord.chars

/-- Two bars of the text have nothing but `undefined` between them. -/
def Exposed (cs : List Char) : Prop := ∃ v, IsUndefined v ∧ '|' :: (v ++ ['|']) <:+: cs

/-- The characters that can be in a text that is `undefined`. -/
def isUndefinedChar (c : Char) : Bool := isBlank c || undefinedWord.chars.contains c

/-- A text that is `undefined` has no other characters. -/
theorem IsUndefined.isUndefinedChar {v : List Char} (h : IsUndefined v) {c : Char} (hc : c ∈ v) :
    isUndefinedChar c = true := by
  obtain ⟨s, e, hs, he, heq⟩ := Text.exists_eq_trimChars v
  rw [h] at heq
  rw [heq, List.mem_append, List.mem_append] at hc
  rw [TypeText.isUndefinedChar, Bool.or_eq_true, List.contains_iff_mem]
  rcases hc with (hc | hc) | hc
  · exact .inl (hs c hc)
  · exact .inr hc
  · exact .inl (he c hc)

/-- A text that is `undefined` has no bar. -/
theorem IsUndefined.bar_not_mem {v : List Char} (h : IsUndefined v) : '|' ∉ v := fun hc => by
  have hbar := h.isUndefinedChar hc
  revert hbar
  decide

/-- A text admits `undefined` if it is exposed by the bars of the text with one more at each end. -/
theorem admitsUndefined_iff {cs : List Char} :
    admitsUndefined (String.ofList cs) = true ↔ Exposed ('|' :: (cs ++ ['|'])) := by
  have htrim : ∀ v : List Char, (Text.trim (String.ofList v) == "undefined") = true ↔
      IsUndefined v := fun v => by
    have hword : "undefined" = String.ofList undefinedWord.chars := rfl
    rw [beq_iff_eq, Text.trim, String.toList_ofList, hword, String.ofList_inj, IsUndefined]
  rw [admitsUndefined, Text.splitOn, String.toList_ofList, List.any_map, List.any_eq_true]
  constructor
  · rintro ⟨v, hv, hundefined⟩
    exact ⟨v, (htrim v).1 hundefined, (Text.mem_cutAt_iff.1 hv).2⟩
  · rintro ⟨v, hundefined, hv⟩
    exact ⟨v, Text.mem_cutAt_iff.2 ⟨hundefined.bar_not_mem, hv⟩, (htrim v).2 hundefined⟩

section

variable {a b g : List Char}

/-- A text without bars exposes nothing. -/
theorem not_exposed (h : '|' ∉ a) : ¬ Exposed a := fun ⟨_, _, hpart⟩ =>
  h (hpart.subset List.mem_cons_self)

/-- Nothing is exposed by a text in front without bars. -/
theorem exposed_append_left (h : '|' ∉ a) : Exposed (a ++ b) ↔ Exposed b :=
  exists_congr fun _ => and_congr_right fun _ => Text.cons_infix_append_iff h

/-- Nothing is exposed by a text behind without bars. -/
theorem exposed_append_right (h : '|' ∉ b) : Exposed (a ++ b) ↔ Exposed a :=
  exists_congr fun v => and_congr_right fun _ => by
    rw [← List.cons_append, Text.append_infix_append_iff h]

/-- One bar exposes nothing. -/
theorem not_exposed_bar (ha : '|' ∉ a) (hb : '|' ∉ b) : ¬ Exposed (a ++ '|' :: b) := by
  have hbar : ¬ Exposed ['|'] := fun ⟨v, _, hpart⟩ => by
    have hlength := hpart.length_le
    rw [List.length_cons, List.length_append, List.length_singleton] at hlength
    omega
  rwa [exposed_append_left ha, ← List.singleton_append, exposed_append_right hb]

/-- A bar ends what stands before it and starts what stands behind it. -/
theorem exposed_append_bar :
    Exposed (a ++ '|' :: b) ↔ Exposed (a ++ ['|']) ∨ Exposed ('|' :: b) := by
  simp only [Exposed, ← exists_or, ← and_or_left]
  exact exists_congr fun v => and_congr_right fun hv => Text.infix_append_sep_iff hv.bar_not_mem

/-- One text stands between neighbouring bars. -/
theorem exposed_iff_isUndefined (h : '|' ∉ a) : Exposed ('|' :: (a ++ ['|'])) ↔ IsUndefined a := by
  constructor
  · rintro ⟨v, hv, hpart⟩
    rwa [← (Text.infix_sep_iff hv.bar_not_mem h).1 hpart]
  · exact fun ha => ⟨a, ha, List.infix_rfl⟩

/-- A text without bars that has a character that is not in `undefined`. -/
def IsGlue (g : List Char) : Prop := '|' ∉ g ∧ g.any (!isUndefinedChar ·) = true

instance (g : List Char) : Decidable (IsGlue g) := inferInstanceAs (Decidable (_ ∧ _))

/-- Glue has no bar. -/
theorem IsGlue.bar_not_mem (h : IsGlue g) : '|' ∉ g := h.1

/-- Glue keeps what stands before it apart from what stands behind it. -/
theorem exposed_append_glue (h : IsGlue g) : Exposed (a ++ (g ++ b)) ↔ Exposed a ∨ Exposed b := by
  obtain ⟨hbar, hany⟩ := h
  obtain ⟨c, hc, hother⟩ := List.any_eq_true.1 hany
  rw [Bool.not_eq_true'] at hother
  obtain ⟨left, right, rfl⟩ := List.append_of_mem hc
  have hleft : '|' ∉ left := fun hl => hbar (List.mem_append_left _ hl)
  have hright : '|' ∉ right := fun hr =>
    hbar (List.mem_append_right _ (List.mem_cons_of_mem c hr))
  have hsplit : Exposed ((a ++ left) ++ c :: (right ++ b)) ↔
      Exposed (a ++ left) ∨ Exposed (right ++ b) := by
    simp only [Exposed, ← exists_or, ← and_or_left]
    refine exists_congr fun v => and_congr_right fun hv => Text.infix_append_cons_iff fun hmem => ?_
    rw [List.mem_cons, List.mem_append, List.mem_singleton] at hmem
    rcases hmem with rfl | hmem | rfl
    · exact hbar hc
    · rw [hv.isUndefinedChar hmem] at hother
      cases hother
    · exact hbar hc
  rw [exposed_append_right hleft, exposed_append_left hright] at hsplit
  rw [← hsplit]
  simp only [List.append_assoc, List.cons_append]

end

/-! ## Sealed texts -/

/-- The text starts with glue. -/
def StartsSealed (cs : List Char) : Prop := ∃ g rest, IsGlue g ∧ cs = g ++ rest

/-- The text ends with glue. -/
def EndsSealed (cs : List Char) : Prop := ∃ rest g, IsGlue g ∧ cs = rest ++ g

section

variable {a b g cs : List Char}

/-- Glue with a text without bars before it is glue. -/
theorem IsGlue.append_left (h : IsGlue g) (ha : '|' ∉ a) : IsGlue (a ++ g) := by
  refine ⟨fun hc => (List.mem_append.1 hc).elim ha h.1, ?_⟩
  rw [List.any_append, h.2, Bool.or_true]

/-- Glue with a text without bars behind it is glue. -/
theorem IsGlue.append_right (h : IsGlue g) (hb : '|' ∉ b) : IsGlue (g ++ b) := by
  refine ⟨fun hc => (List.mem_append.1 hc).elim h.1 hb, ?_⟩
  rw [List.any_append, h.2, Bool.true_or]

/-- Glue behind a text seals its start, unless a bar comes first. -/
theorem startsSealed_append (h : '|' ∉ a ∨ StartsSealed a) (hg : IsGlue g) :
    StartsSealed (a ++ (g ++ b)) := by
  rcases h with ha | ⟨g', rest, hg', rfl⟩
  · exact ⟨a ++ g, b, hg.append_left ha, by rw [List.append_assoc]⟩
  · exact ⟨g', rest ++ (g ++ b), hg', by rw [List.append_assoc]⟩

/-- Glue before a text seals its end, unless a bar comes last. -/
theorem endsSealed_append (h : '|' ∉ b ∨ EndsSealed b) (hg : IsGlue g) :
    EndsSealed (a ++ (g ++ b)) := by
  rcases h with hb | ⟨rest, g', hg', rfl⟩
  · exact ⟨a, g ++ b, hg.append_right hb, rfl⟩
  · exact ⟨a ++ (g ++ rest), g', hg', by simp only [List.append_assoc]⟩

/-- A sealed text keeps what stands around it apart from what stands in it. -/
theorem exposed_append_sealed (hstart : StartsSealed cs) (hend : EndsSealed cs) :
    Exposed (a ++ (cs ++ b)) ↔ Exposed a ∨ Exposed cs ∨ Exposed b := by
  have hright : Exposed (cs ++ b) ↔ Exposed cs ∨ Exposed b := by
    obtain ⟨rest, g, hg, rfl⟩ := hend
    rw [List.append_assoc, exposed_append_glue hg, exposed_append_right hg.bar_not_mem]
  obtain ⟨g, rest, hg, rfl⟩ := hstart
  rw [← hright, List.append_assoc, exposed_append_glue hg, exposed_append_left hg.bar_not_mem]

end

/-! ## Atoms -/

/-- A character of an identifier is no bar and not blank. -/
theorem not_blank_of_continues {c : Char} (h : continuesIdentifier c = true) :
    c ≠ '|' ∧ isBlank c = false := by
  constructor
  · rintro rfl
    revert h
    decide
  · cases hblank : isBlank c with
    | false => rfl
    | true =>
      rw [Text.continuesIdentifier_of_isBlank hblank] at h
      cases h

/-- Blanks have no bar. -/
theorem bar_not_mem_of_isBlank {cs : List Char} (h : ∀ c ∈ cs, isBlank c = true) : '|' ∉ cs :=
  fun hbar => by
    have hblank := h '|' hbar
    revert hblank
    decide

namespace Word

/-- The characters of a word are no bars and not blank. -/
theorem not_blank (w : Word) : ∀ c ∈ w.chars, c ≠ '|' ∧ isBlank c = false := by
  intro c hc
  refine not_blank_of_continues ?_
  rcases List.mem_cons.1 hc with rfl | hc
  · exact continues_of_starts w.starts
  · exact List.all_eq_true.1 w.continues c hc

/-- A word has no bar. -/
theorem bar_not_mem (w : Word) : '|' ∉ w.chars := fun h => (w.not_blank _ h).1 rfl

/-- Words are the same if their characters are. -/
theorem chars_inj {w w' : Word} : w.chars = w'.chars ↔ w = w' := by
  refine ⟨fun h => ?_, congrArg chars⟩
  cases w
  cases w'
  obtain ⟨rfl, rfl⟩ := List.cons_eq_cons.1 h
  rfl

/-- A word with blanks around it is `undefined` if that is the word. -/
theorem isUndefined_iff {w : Word} {s e : List Char} (hs : ∀ c ∈ s, isBlank c = true)
    (he : ∀ c ∈ e, isBlank c = true) : IsUndefined (s ++ w.chars ++ e) ↔ w = undefinedWord := by
  rw [IsUndefined, Text.trimChars_append hs he fun c hc => (w.not_blank c hc).2, chars_inj]

end Word

/-- The mark of a quote sets it apart. -/
theorem Quoted.isGlue_mark (q : Quoted) : IsGlue [q.mark] := by
  rcases q.mark_cases with h | h | h <;> rw [h] <;> decide

/-- A text in quotes exposes what stands in the quotes. -/
theorem exposed_quoted {q : Quoted} : Exposed q.chars ↔ Exposed q.body := by
  have hmark := q.isGlue_mark.bar_not_mem
  rw [Quoted.chars, exposed_append_right hmark, ← List.singleton_append, exposed_append_left hmark]

section

variable {items : List (List Atom)}

/-- Without texts nothing is exposed. -/
theorem not_exists_exposed : ¬ ∃ i ∈ ([] : List (List Atom)), Exposed (spell i) := by
  rintro ⟨i, hi, -⟩
  cases hi

/-- Texts with glue between them expose what each of them exposes. -/
theorem exposed_separated {sep : List Char} (hsep : IsGlue sep) :
    Exposed (spell (separated sep items)) ↔ ∃ i ∈ items, Exposed (spell i) := by
  have hbehind : ∀ (cs : List Char) (rest : List (List Atom)),
      Exposed (cs ++ spell (rest.flatMap (marks sep ++ ·))) ↔
        Exposed cs ∨ ∃ i ∈ rest, Exposed (spell i) := fun cs rest => by
    induction rest generalizing cs with
    | nil => simp [spell]
    | cons i rest ih =>
      rw [List.flatMap_cons, spell_append, spell_append, spell_marks, List.append_assoc,
        exposed_append_glue hsep, ih, List.exists_mem_cons_iff]
  cases items with
  | nil => exact iff_of_false (not_exposed List.not_mem_nil) not_exists_exposed
  | cons first rest => rw [separated, spell_append, hbehind, List.exists_mem_cons_iff]

/-- A comma with a blank is glue. -/
theorem isGlue_comma : IsGlue [',', ' '] := by decide

/-- Texts in brackets expose what each of them exposes. -/
theorem exposed_bracketed {sep : List Char} (hsep : IsGlue sep) {opening closing : List Char}
    (hopening : '|' ∉ opening) (hclosing : '|' ∉ closing) :
    Exposed (opening ++ spell (separated sep items) ++ closing) ↔
      ∃ i ∈ items, Exposed (spell i) := by
  rw [exposed_append_right hclosing, exposed_append_left hopening, exposed_separated hsep]

/-- Parameters. -/
theorem exposed_listed :
    Exposed (spell (Phrase.listed items)) ↔ ∃ i ∈ items, Exposed (spell i) := by
  have hchars : spell (Phrase.listed items) =
      ['('] ++ spell (separated [',', ' '] items) ++ [')'] := by
    simp [Phrase.listed, spell, Atom.chars]
  rw [hchars, exposed_bracketed isGlue_comma (by decide) (by decide)]

/-- Type arguments. -/
theorem exposed_angled :
    Exposed (spell (Phrase.angled items)) ↔ ∃ i ∈ items, Exposed (spell i) := by
  cases items with
  | nil => exact iff_of_false (not_exposed List.not_mem_nil) not_exists_exposed
  | cons first rest =>
    have hchars : spell (Phrase.angled (first :: rest)) =
        ['<'] ++ spell (separated [',', ' '] (first :: rest)) ++ ['>'] := by
      simp [Phrase.angled, spell, Atom.chars]
    rw [hchars, exposed_bracketed isGlue_comma (by decide) (by decide)]

/-- Members. -/
theorem exposed_braced :
    Exposed (spell (Phrase.braced items)) ↔ ∃ i ∈ items, Exposed (spell i) := by
  cases items with
  | nil => exact iff_of_false (not_exposed (by decide)) not_exists_exposed
  | cons first rest =>
    have hchars : spell (Phrase.braced (first :: rest)) =
        ['\x7b', ' '] ++ spell (separated [';', ' '] (first :: rest)) ++ [' ', '\x7d'] := by
      simp [Phrase.braced, spell, marks, Atom.chars]
    rw [hchars, exposed_bracketed (by decide) (by decide) (by decide)]

end

end IpcWiring.TypeText
