import IpcWiring.Proofs.Text.LetterCase
import IpcWiring.Text.Words

/-!
# The Pascal form of a name

The clusters of a text are its parts in order (`clustersAfter_flatten`), and its words have all
characters but those of separators (`flatten_words`). The Pascal form of a name is made of
characters of names (`continuesName_pascal`). It is empty if the name has no words, and else it
starts a name just if the first character of the words does (`pascal_cases`): for the one mark that
has a letter as its capital never stands there, as no cluster of a name starts with it
(`head_ne_combiningIota`).
-/

namespace IpcWiring.Text

open Script (startsName continuesName continuesName_of_startsName Word)

/-! ## Clusters -/

/-- The clusters of a text are its parts, none of them empty. -/
theorem clustersAfter_flatten (before current s : List Char) :
    (clustersAfter before current s).flatten = current.reverse ++ s ∧
      ∀ u ∈ clustersAfter before current s, u ≠ [] := by
  induction s generalizing before current with
  | nil => cases current <;> simp [clustersAfter]
  | cons c s ih =>
    rw [clustersAfter]
    split
    · next hbreak =>
      rw [Bool.and_eq_true, Bool.not_eq_true', List.isEmpty_eq_false_iff] at hbreak
      obtain ⟨hflatten, hne⟩ := ih (c :: before) [c]
      refine ⟨?_, List.forall_mem_cons.2 ⟨List.reverse_ne_nil_iff.2 hbreak.2, hne⟩⟩
      rw [List.flatten_cons, hflatten, List.reverse_singleton, List.singleton_append]
    · obtain ⟨hflatten, hne⟩ := ih (c :: before) (c :: current)
      exact ⟨by rw [hflatten, List.reverse_cons, List.append_assoc, List.singleton_append], hne⟩

/-- A cluster starts where the text does, or at a break behind one of its characters. -/
theorem head_clustersAfter {before current s : List Char} (hopen : before = [] → current = [])
    {u : List Char} {c : Char} (hu : u ∈ clustersAfter before current s) (hc : u.head? = some c) :
    (current.reverse ++ s).head? = some c ∨
      ∃ b ∈ before ++ s, ∃ more, breaksBetween (b :: more) c = true := by
  induction s generalizing before current with
  | nil =>
    rw [clustersAfter] at hu
    split at hu
    · cases hu
    · rw [List.mem_singleton.1 hu] at hc
      exact .inl (by rwa [List.append_nil])
  | cons d s ih =>
    rw [clustersAfter] at hu
    split at hu
    · next hbreak =>
      rw [Bool.and_eq_true, Bool.not_eq_true', List.isEmpty_eq_false_iff] at hbreak
      obtain rfl | hu := List.mem_cons.1 hu
      · exact .inl (by rw [List.head?_append, hc]; rfl)
      · obtain ⟨b, more, rfl⟩ := List.exists_cons_of_ne_nil fun h => hbreak.2 (hopen h)
        obtain h | ⟨b', hb', more', h⟩ := ih (fun h => by cases h) hu
        · obtain rfl : d = c := by simpa using h
          exact .inr ⟨b, List.mem_cons_self, more, hbreak.1⟩
        · exact .inr ⟨b', List.perm_middle.mem_iff.2 hb', more', h⟩
    · obtain h | ⟨b, hb, more, h⟩ := ih (fun h => by cases h) hu
      · exact .inl (by simpa using h)
      · exact .inr ⟨b, List.perm_middle.mem_iff.2 hb, more, h⟩

/-- The classes of controls. -/
def controlClasses : List ClusterClass := [.cr, .lf, .control]

/-- The controls are the ends of lines and the characters of a table. -/
theorem exists_range_of_control {c : Char}
    (h : controlClasses.contains (clusterClass c) = true) :
    ∃ r ∈ (0xD, 0xD) :: (0xA, 0xA) :: controlRanges, r.1 ≤ c.toNat ∧ c.toNat ≤ r.2 := by
  by_cases hcr : c.toNat = 0xD
  · exact ⟨(0xD, 0xD), by simp, Nat.le_of_eq hcr.symm, Nat.le_of_eq hcr⟩
  by_cases hlf : c.toNat = 0xA
  · exact ⟨(0xA, 0xA), by simp, Nat.le_of_eq hlf.symm, Nat.le_of_eq hlf⟩
  by_cases hcontrol : controlRanges.contains c = true
  · obtain ⟨r, hr, hn⟩ := CharRanges.exists_mem_of_containsCode hcontrol
    exact ⟨r, by simp [hr], hn⟩
  -- all classes that are left are others
  have hite : ∀ {p : Prop} [Decidable p] {a b : ClusterClass},
      controlClasses.contains a = false → controlClasses.contains b = false →
      controlClasses.contains (if p then a else b) = false := by
    intro p _ a b ha hb
    split <;> assumption
  have hnone : controlClasses.contains (clusterClass c) = false := by
    unfold clusterClass
    dsimp only
    rw [if_neg hcr, if_neg hlf, if_neg hcontrol]
    repeat' apply hite
    all_goals rfl
  rw [hnone] at h
  cases h

/-- No control is in a name. -/
theorem continuesName_of_control {c : Char} (h : controlClasses.contains (clusterClass c) = true) :
    continuesName c = false := by
  have hcodes : (((0xD, 0xD) :: (0xA, 0xA) :: controlRanges).all fun r => isOutside r.1 r.2) =
      true := by decide +kernel
  obtain ⟨r, hr, hlo, hhi⟩ := exists_range_of_control h
  exact continuesName_eq_false (List.all_eq_true.1 hcodes r hr) hlo hhi

/-- A mark has no break before it but behind a control. -/
theorem control_of_breaksBetween {b c : Char} {more : List Char} (hc : clusterClass c = .extend)
    (h : breaksBetween (b :: more) c = true) :
    controlClasses.contains (clusterClass b) = true := by
  rw [breaksBetween, hc] at h
  generalize clusterClass b = k at h
  cases k
  case cr | lf | control => rfl
  all_goals exact absurd h Bool.false_ne_true

/-- The combining iota does not start a cluster of a name. -/
theorem head_ne_combiningIota (w : Word) {u : List Char} {c : Char} (hu : u ∈ clusters w.chars)
    (hc : u.head? = some c) : c ≠ combiningIota := by
  rintro rfl
  obtain h | ⟨b, hb, more, h⟩ := head_clustersAfter (fun _ => rfl) hu hc
  · have hstart : startsName combiningIota = false := by decide +kernel
    have hfirst : w.first = combiningIota := Option.some.inj h
    rw [← hfirst, w.starts] at hstart
    cases hstart
  · have hclass : clusterClass combiningIota = .extend := by decide +kernel
    have hcontrol := continuesName_of_control (control_of_breaksBetween hclass h)
    rw [w.continuesName_of_mem b hb] at hcontrol
    cases hcontrol

/-! ## Words -/

/-- The characters of a text that belong to words. -/
def wordChars (s : List Char) : List Char :=
  ((clusters s).filter (!isSeparatorUnit ·)).flatten

/-- The words have all units but the separators. -/
theorem cutWords_flatten (current units : List (List Char)) :
    (cutWords current units).flatten = current.reverse ++ units.filter (!isSeparatorUnit ·) := by
  induction units generalizing current with
  | nil => simp [cutWords]
  | cons u units ih =>
    rw [cutWords]
    cases hsep : isSeparatorUnit u with
    | true => simp [ih, hsep]
    | false =>
      rw [if_neg Bool.false_ne_true]
      split <;> simp [ih, hsep]

/-- The words of a text have its characters but the separators. -/
theorem flatten_words (s : List Char) : (words s).flatten = wordChars s := by
  rw [words, List.flatten_filter_not_isEmpty, ← List.flatten_flatten, cutWords_flatten]
  rfl

/-! ## The Pascal form -/

/-- The characters of words are characters of the text. -/
theorem mem_of_mem_wordChars {s : List Char} {c : Char} (h : c ∈ wordChars s) : c ∈ s := by
  obtain ⟨u, hu, hc⟩ := List.mem_flatten.1 h
  have hs : (clusters s).flatten = s := (clustersAfter_flatten [] [] s).1
  exact hs ▸ List.mem_flatten.2 ⟨u, (List.mem_filter.1 hu).1, hc⟩

/-- A word of a name stays made of characters of names when it is capitalized. -/
theorem continuesName_capitalizeWord {s : List Char} (h : ∀ c ∈ s, continuesName c = true) :
    ∀ d ∈ capitalizeWord s, continuesName d = true := by
  cases s with
  | nil => nofun
  | cons c s =>
    obtain ⟨hc, hs⟩ := List.forall_mem_cons.1 h
    refine List.forall_mem_append.2 ⟨fun d hd => ?_, continuesName_toLower hs⟩
    obtain hself | ⟨-, w, hw⟩ := upperChar_cases hc
    · rw [hself] at hd
      exact List.mem_singleton.1 hd ▸ hc
    · exact w.continuesName_of_mem d (hw ▸ hd)

/-- The Pascal form of a name is made of characters of names. -/
theorem continuesName_pascal (w : Word) : ∀ d ∈ (pascal w.text).toList, continuesName d = true := by
  intro d hd
  rw [pascal, String.toList_ofList, Word.text, String.toList_ofList] at hd
  obtain ⟨s, hs, hd⟩ := List.mem_flatMap.1 hd
  refine continuesName_capitalizeWord (fun c hc => ?_) d hd
  refine w.continuesName_of_mem c (mem_of_mem_wordChars ?_)
  exact flatten_words w.chars ▸ List.mem_flatten.2 ⟨s, hs, hc⟩

/-- The first character of the words of a name is no combining iota. -/
theorem ne_combiningIota (w : Word) {c : Char} {more : List Char}
    (h : wordChars w.chars = c :: more) : c ≠ combiningIota := by
  rw [wordChars] at h
  cases hunits : (clusters w.chars).filter (!isSeparatorUnit ·) with
  | nil =>
    rw [hunits] at h
    cases h
  | cons u units =>
    have hu : u ∈ clusters w.chars :=
      (List.mem_filter.1 (hunits ▸ List.mem_cons_self : u ∈ (clusters w.chars).filter _)).1
    obtain ⟨d, rest, rfl⟩ :=
      List.exists_cons_of_ne_nil ((clustersAfter_flatten [] [] w.chars).2 u hu)
    rw [hunits, List.flatten_cons, List.cons_append, List.cons.injEq] at h
    exact h.1 ▸ head_ne_combiningIota w hu rfl

/-- The Pascal form of a name without words is empty. Any other starts a name just if the first
character of the words does. -/
theorem pascal_cases (w : Word) : (wordChars w.chars = [] ∧ pascal w.text = "") ∨
    ∃ c more d rest, wordChars w.chars = c :: more ∧ (pascal w.text).toList = d :: rest ∧
      startsName d = startsName c := by
  have hflatten := flatten_words w.chars
  rw [pascal, Word.text, String.toList_ofList]
  cases hwords : words w.chars with
  | nil =>
    rw [hwords] at hflatten
    exact .inl ⟨hflatten.symm, rfl⟩
  | cons v vs =>
    have hv : v ∈ words w.chars := hwords ▸ List.mem_cons_self
    rw [words, List.mem_filter, Bool.not_eq_true', List.isEmpty_eq_false_iff] at hv
    obtain ⟨c, rest, rfl⟩ := List.exists_cons_of_ne_nil hv.2
    rw [hwords, List.flatten_cons, List.cons_append] at hflatten
    have hc : continuesName c = true :=
      w.continuesName_of_mem c (mem_of_mem_wordChars (hflatten ▸ List.mem_cons_self))
    have hpascal : (String.ofList (((c :: rest) :: vs).flatMap capitalizeWord)).toList =
        upperChar c ++ (toLower rest ++ vs.flatMap capitalizeWord) := by
      rw [String.toList_ofList, List.flatMap_cons, capitalizeWord, List.append_assoc]
    obtain hself | ⟨hstart, v, hv⟩ := upperChar_cases hc
    · rw [hself] at hpascal
      exact .inr ⟨c, _, c, _, hflatten.symm, hpascal, rfl⟩
    · rw [← hv] at hpascal
      refine .inr ⟨c, _, v.first, _, hflatten.symm, hpascal, ?_⟩
      rw [v.starts, hstart.resolve_right (ne_combiningIota w hflatten.symm)]

end IpcWiring.Text
