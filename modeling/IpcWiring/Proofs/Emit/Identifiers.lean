import IpcWiring.Proofs.Emit.Numbering
import IpcWiring.Proofs.Text.Words

/-!
# Names of types as identifiers

The name of a type is made of the Pascal form of a function's name, a number if that form is taken,
and an ending. It starts with a digit if the form does, or if the form is empty and taken. As this
happens to functions whose names are identifiers, the names of types are identifiers just if no name
has a word that starts with a digit in front, and at most one has no words
(`aliasNames_identifiers`).
-/

namespace IpcWiring.Emit

open Script (startsName continuesName continuesName_of_startsName Word)
open Text (wordChars pascal pascal_cases continuesName_pascal startsName_of_isDigit)

/-- The text is a word. -/
def IsWord (text : String) : Prop := ∃ w : Word, w.text = text

/-- The name is an identifier: a word that is not reserved. -/
def IsIdentifier (name : String) : Prop := IsWord name ∧ name ∉ reservedWords

/-- The first character of the words of a name starts a name. -/
def LeadsWell (name : String) : Prop :=
  ∀ c ∈ (wordChars name.toList).head?, startsName c = true

/-- The name has no words. -/
def isWordless (name : String) : Bool := (wordChars name.toList).isEmpty

variable {name s : String} {taken names : List String}

/-! ## Words -/

/-- A text that starts with a character is a word just if that one starts names and the others
continue them. -/
theorem isWord_iff {c : Char} {rest : List Char} (h : s.toList = c :: rest) :
    IsWord s ↔ startsName c = true ∧ ∀ d ∈ rest, continuesName d = true := by
  constructor
  · rintro ⟨w, rfl⟩
    rw [Word.text, String.toList_ofList, Word.chars, List.cons.injEq] at h
    exact ⟨h.1 ▸ w.starts, h.2 ▸ List.all_eq_true.1 w.continues⟩
  · rintro ⟨hc, hrest⟩
    refine ⟨⟨c, rest, hc, List.all_eq_true.2 hrest⟩, ?_⟩
    rw [Word.text, Word.chars, ← h, String.ofList_toList]

/-- A text is a word just if its first character starts names and those behind it continue them. -/
theorem isWord_iff_head_tail : IsWord s ↔
    s.toList.head?.any startsName = true ∧ s.toList.tail.all continuesName = true := by
  cases h : s.toList with
  | nil =>
    refine iff_of_false (fun ⟨w, hw⟩ => ?_) (fun hstart => by cases hstart.1)
    rw [← hw, Word.text, String.toList_ofList] at h
    cases h
  | cons c rest =>
    rw [isWord_iff h, ← List.all_eq_true]
    rfl

instance (text : String) : Decidable (IsWord text) := decidable_of_iff _ isWord_iff_head_tail.symm

instance (name : String) : Decidable (IsIdentifier name) :=
  inferInstanceAs (Decidable (_ ∧ _))

instance (name : String) : Decidable (LeadsWell name) :=
  decidable_of_iff ((wordChars name.toList).head?.all startsName = true) (Option.all_eq_true _ _)

/-- An ending makes a word of a word and of nothing, and of no other text. -/
theorem isWord_append_ending (hs : s ∈ aliasEndings) :
    IsWord (name ++ s) ↔ name = "" ∨ IsWord name := by
  have hwords : ∀ s ∈ aliasEndings, IsWord s := by decide +kernel
  have hword := hwords s hs
  cases hname : name.toList with
  | nil =>
    obtain rfl := String.toList_eq_nil_iff.1 hname
    rw [String.empty_append]
    exact iff_of_true hword (.inl rfl)
  | cons c rest =>
    obtain ⟨w, rfl⟩ := hword
    have hcontinues : ∀ d ∈ w.text.toList, continuesName d = true := by
      rw [Word.text, String.toList_ofList]
      exact w.continuesName_of_mem
    have hchars : (name ++ w.text).toList = c :: (rest ++ w.text.toList) := by
      rw [String.toList_append, hname, List.cons_append]
    have hne : name ≠ "" := fun h => by simp [h] at hname
    rw [isWord_iff hchars, or_iff_right hne, isWord_iff hname, List.forall_mem_append]
    exact and_congr_right fun _ => and_iff_left hcontinues

/-- What has an ending is not reserved, as it has a capital. -/
theorem notMem_reservedWords (hs : s ∈ aliasEndings) : name ++ s ∉ reservedWords := by
  have hlower : (reservedWords.all fun word => word.toList.all Char.isLower) = true := by
    decide +kernel
  have hcapital : (aliasEndings.all fun s => !s.toList.all Char.isLower) = true := by
    decide +kernel
  intro h
  have hall := List.all_eq_true.1 hlower _ h
  rw [String.toList_append, List.all_append, Bool.and_eq_true] at hall
  have hs := List.all_eq_true.1 hcapital s hs
  rw [hall.2] at hs
  cases hs

/-! ## Fresh names -/

/-- A number is written in digits. -/
theorem isDigit_of_mem_toString {n : Nat} {c : Char} (h : c ∈ (toString n).toList) :
    c.isDigit = true := by
  rw [Nat.toString_eq_ofList_toDigits, String.toList_ofList] at h
  exact Nat.isDigit_of_mem_toDigits (by decide) (by decide) h

/-- A number is no word. -/
theorem not_isWord_toString (n : Nat) : ¬ IsWord (toString n) := by
  rintro ⟨w, hw⟩
  have hfirst : w.first ∈ (toString n).toList := by
    rw [← hw, Word.text, String.toList_ofList]
    exact List.mem_cons_self
  have hstart := startsName_of_isDigit (isDigit_of_mem_toString hfirst)
  rw [w.starts] at hstart
  cases hstart

/-- A fresh name for a name without words is empty, or if that is taken it is a number. -/
theorem freshName_of_isWordless (taken : List String) (hname : IsWord name)
    (h : isWordless name = true) :
    if "" ∈ taken then freshName taken name ≠ "" ∧ ¬ IsWord (freshName taken name)
    else freshName taken name = "" := by
  obtain ⟨w, rfl⟩ := hname
  have hpascal : pascal w.text = "" := by
    rw [isWordless, Word.text, String.toList_ofList, List.isEmpty_iff] at h
    obtain ⟨-, hempty⟩ | ⟨c, more, d, rest, hc, -⟩ := pascal_cases w
    · exact hempty
    · rw [h] at hc
      cases hc
  obtain ⟨k, -, hfresh, hbefore⟩ := exists_freshName_eq_candidate taken w.text
  rw [hpascal] at hfresh hbefore
  have hnew := freshName_notMem taken w.text
  cases k with
  | zero =>
    have hfree : "" ∉ taken := fun h => hnew (hfresh ▸ h)
    rw [if_neg hfree]
    exact hfresh
  | succ k =>
    have htaken : "" ∈ taken := hbefore 0 (Nat.succ_pos k)
    rw [candidate, String.empty_append] at hfresh
    rw [if_pos htaken]
    exact ⟨fun hempty => hnew (hempty ▸ htaken), hfresh ▸ not_isWord_toString _⟩

/-- A fresh name for a name with words is a word just if the words lead well. -/
theorem freshName_of_not_isWordless (taken : List String) (hname : IsWord name)
    (h : isWordless name = false) :
    freshName taken name ≠ "" ∧ (IsWord (freshName taken name) ↔ LeadsWell name) := by
  obtain ⟨w, rfl⟩ := hname
  rw [isWordless, Word.text, String.toList_ofList, List.isEmpty_eq_false_iff] at h
  obtain ⟨hnone, -⟩ | ⟨c, more, d, rest, hc, hpascal, hstarts⟩ := pascal_cases w
  · exact absurd hnone h
  obtain ⟨k, -, hfresh, -⟩ := exists_freshName_eq_candidate taken w.text
  -- a number does not change how the form starts, nor what it is made of
  obtain ⟨digits, hchars, hdigits⟩ : ∃ digits, (freshName taken w.text).toList =
      d :: (rest ++ digits) ∧ ∀ c ∈ digits, c.isDigit = true := by
    rw [hfresh]
    cases k with
    | zero => exact ⟨[], by rw [candidate, hpascal, List.append_nil], List.forall_mem_nil _⟩
    | succ k =>
      refine ⟨(toString (k + 2)).toList, ?_, fun c hc => isDigit_of_mem_toString hc⟩
      rw [candidate, String.toList_append, hpascal, List.cons_append]
  have hrest : ∀ x ∈ rest ++ digits, continuesName x = true := by
    refine List.forall_mem_append.2 ⟨fun x hx => ?_, fun x hx => ?_⟩
    · exact continuesName_pascal w x (hpascal ▸ List.mem_cons_of_mem d hx)
    · rw [continuesName, hdigits x hx, Bool.or_true, Bool.true_or]
  refine ⟨fun hempty => ?_, ?_⟩
  · rw [hempty] at hchars
    cases hchars
  · rw [isWord_iff hchars, and_iff_left hrest, hstarts, LeadsWell, Word.text,
      String.toList_ofList, hc]
    simp

/-- All fresh names are words or empty just if the words of all names lead well and no empty name
is taken when one without words comes. -/
theorem isWord_freshNames_iff (hnames : ∀ n ∈ names, IsWord n) :
    (∀ x ∈ freshNames taken names, x = "" ∨ IsWord x) ↔
      (∀ n ∈ names, LeadsWell n) ∧
        names.countP isWordless + (if "" ∈ taken then 1 else 0) ≤ 1 := by
  induction names generalizing taken with
  | nil =>
    simp [freshNames]
    split <;> omega
  | cons n names ih =>
    obtain ⟨hn, hnames⟩ := List.forall_mem_cons.1 hnames
    rw [freshNames, List.forall_mem_cons, ih hnames, List.forall_mem_cons, List.countP_cons]
    cases hwordless : isWordless n with
    | true =>
      have hleads : LeadsWell n := by
        rw [isWordless, List.isEmpty_iff] at hwordless
        intro c hc
        rw [hwordless] at hc
        cases hc
      have hfresh := freshName_of_isWordless taken hn hwordless
      split at hfresh
      · next htaken => simp [hfresh.1, hfresh.2, htaken]
      · next htaken => simp [hfresh, htaken, hleads]
    | false =>
      obtain ⟨hne, hword⟩ := freshName_of_not_isWordless taken hn hwordless
      have htaken : "" ∈ freshName taken n :: taken ↔ "" ∈ taken := by
        simp [Ne.symm hne]
      simp only [hne, hword, htaken, false_or, Bool.false_eq_true, if_false, Nat.add_zero,
        and_assoc]

/-! ## Names of types -/

/-- The names of types are identifiers just if what they start with is a word or nothing. -/
theorem isIdentifier_aliasNames_iff {functions : List ApiFunction} {typeNames : List String}
    (hlength : functions.length = typeNames.length) :
    (∀ x ∈ (functions.zipWith aliasNames typeNames).flatten, IsIdentifier x) ↔
      ∀ n ∈ typeNames, n = "" ∨ IsWord n := by
  constructor
  · intro h n hn
    obtain ⟨i, hi, rfl⟩ := List.getElem_of_mem hn
    have hdata : typeNames[i] ++ "Data" ∈ (functions.zipWith aliasNames typeNames).flatten := by
      refine List.mem_flatten.2 ⟨aliasNames functions[i] typeNames[i], ?_, by simp [aliasNames]⟩
      exact List.mem_iff_getElem.2 ⟨i, by simp [hlength, hi], by simp⟩
    exact (isWord_append_ending (by decide)).1 (h _ hdata).1
  · intro h x hx
    obtain ⟨n, hn, s, hs, rfl⟩ := exists_ending_of_mem_flatten hx
    exact ⟨(isWord_append_ending hs).2 (h n hn), notMem_reservedWords hs⟩

/-- **Names of types are identifiers just if names of functions lead well.** Of functions whose
names are identifiers, the service declares types whose names are identifiers just if the words of
no name start with a character that starts no name, such as a digit behind underscores, and at most
one name has no words at all. -/
theorem aliasNames_identifiers (dir : Path) (o : Options) (w : WorkingSet)
    (hnames : ∀ e ∈ Record.placed w.api, IsIdentifier e.2.name) :
    (∀ x ∈ (ServiceModule.of dir o w.api).methods.flatMap ServiceMethod.aliasNames,
        IsIdentifier x) ↔
      (∀ e ∈ Record.placed w.api, LeadsWell e.2.name) ∧
        (Record.placed w.api).countP (fun e => isWordless e.2.name) ≤ 1 := by
  have hwords : ∀ n ∈ (Record.placed w.api).map (·.2.name), IsWord n :=
    List.forall_mem_map.2 fun e he => (hnames e he).1
  have hmap : ((Record.placed w.api).map (·.2)).map (·.name) =
      (Record.placed w.api).map (·.2.name) := List.map_map ..
  rw [Artifact.flatMap_aliasNames_service, allAliasNames, hmap,
    isIdentifier_aliasNames_iff (by simp [length_freshNames]), isWord_freshNames_iff hwords,
    List.forall_mem_map, List.countP_map]
  rfl

/-- A working set of one file that has functions with some names. -/
def namedFunctions (names : List String) : WorkingSet :=
  ⟨[⟨⟨"/src/api.ts"⟩, names.map fun name => ⟨name, [], [], none, none⟩⟩], none⟩

/-- Underscores, dollar signs, digits and letters of any kind do no harm in the first names. A digit
right behind an underscore does, and so does a second name of underscores alone. -/
theorem aliasNames_identifiers_underscores :
    (∀ e ∈ Record.placed (namedFunctions ["_init", "$on", "get_2", "été", "_"]).api,
      IsIdentifier e.2.name) ∧
    (∀ x ∈ (ServiceModule.of ⟨"/out"⟩ default
        (namedFunctions ["_init", "$on", "get_2", "été", "_"]).api).methods.flatMap
          ServiceMethod.aliasNames, IsIdentifier x) ∧
    ∀ names ∈ [["_1"], ["_", "__"]],
      (∀ e ∈ Record.placed (namedFunctions names).api, IsIdentifier e.2.name) ∧
      ¬ ∀ x ∈ (ServiceModule.of ⟨"/out"⟩ default (namedFunctions names).api).methods.flatMap
        ServiceMethod.aliasNames, IsIdentifier x := by
  have hgood : ∀ e ∈ Record.placed (namedFunctions ["_init", "$on", "get_2", "été", "_"]).api,
      IsIdentifier e.2.name := by decide +kernel
  have hbad : ∀ names ∈ [["_1"], ["_", "__"]],
      ∀ e ∈ Record.placed (namedFunctions names).api, IsIdentifier e.2.name := by decide +kernel
  refine ⟨hgood, (aliasNames_identifiers _ _ _ hgood).2 (by decide +kernel),
    fun names hnames => ⟨hbad names hnames, ?_⟩⟩
  rw [aliasNames_identifiers _ _ _ (hbad names hnames)]
  revert names
  decide +kernel

end IpcWiring.Emit
