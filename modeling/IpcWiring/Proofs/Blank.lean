import IpcWiring.Text.Basic

/-!
# Blank characters

There are few blank characters, so what holds of each of them is checked (`all_of_isBlank`), and
trimming takes off just the blank characters at the ends of a text.
-/

namespace IpcWiring.Text

/-- The code points of the blank characters. -/
def blankCodes : List Nat :=
  [0x9, 0xA, 0xB, 0xC, 0xD, 0x20, 0x85, 0xA0, 0x1680, 0x2000, 0x2001, 0x2002, 0x2003, 0x2004,
    0x2005, 0x2006, 0x2007, 0x2008, 0x2009, 0x200A, 0x2028, 0x2029, 0x202F, 0x205F, 0x3000]

/-- What holds of each blank code point holds of every blank character. -/
theorem all_of_isBlank {p : Char → Bool}
    (hp : blankCodes.all (fun n => p (Char.ofNat n)) = true) {c : Char} (h : isBlank c = true) :
    p c = true := by
  have hcode : c.toNat ∈ blankCodes := by
    simp [isBlank, CharRanges.contains, blankRanges, CharRanges.containsCode] at h
    simp only [blankCodes, List.mem_cons, List.not_mem_nil, or_false]
    omega
  have hc := List.all_eq_true.1 hp _ hcode
  rwa [Char.ofNat_toNat] at hc

/-- Only blank characters are trimmed. -/
theorem exists_eq_trimChars (cs : List Char) : ∃ s e, (∀ c ∈ s, isBlank c = true) ∧
    (∀ c ∈ e, isBlank c = true) ∧ cs = s ++ trimChars cs ++ e := by
  have hblank : ∀ ds : List Char, ∀ c ∈ ds.takeWhile isBlank, isBlank c = true :=
    fun ds => List.all_eq_true.1 List.all_takeWhile
  refine ⟨cs.takeWhile isBlank, ((cs.dropWhile isBlank).reverse.takeWhile isBlank).reverse,
    hblank cs, fun c hc => hblank _ c (List.mem_reverse.1 hc), ?_⟩
  rw [trimChars, trimEndChars, trimStartChars, List.append_assoc, ← List.reverse_append,
    List.takeWhile_append_dropWhile, List.reverse_reverse, List.takeWhile_append_dropWhile]

/-- Of a text that starts with no blank, none is dropped. -/
theorem dropWhile_isBlank {cs : List Char} (h : ∀ c ∈ cs.head?, isBlank c = false) :
    cs.dropWhile isBlank = cs := by
  cases cs with
  | nil => rfl
  | cons c cs => exact List.dropWhile_cons_of_neg (by rw [h c rfl]; exact Bool.false_ne_true)

/-- Blank characters around a text without any are trimmed. -/
theorem trimChars_append {s e cs : List Char} (hs : ∀ c ∈ s, isBlank c = true)
    (he : ∀ c ∈ e, isBlank c = true) (hcs : ∀ c ∈ cs, isBlank c = false) :
    trimChars (s ++ cs ++ e) = cs := by
  have hstart : trimStartChars (s ++ cs ++ e) = (cs ++ e).dropWhile isBlank := by
    rw [trimStartChars, List.append_assoc, List.dropWhile_append_of_pos hs]
  have hend : trimEndChars (cs ++ e) = cs := by
    rw [trimEndChars, List.reverse_append,
      List.dropWhile_append_of_pos (fun c hc => he c (List.mem_reverse.1 hc)),
      dropWhile_isBlank fun c hc => hcs c (List.mem_reverse.1 (List.mem_of_mem_head? hc)),
      List.reverse_reverse]
  rw [trimChars, hstart]
  cases cs with
  | nil =>
    have hnil : (e ++ []).dropWhile isBlank = [].dropWhile isBlank :=
      List.dropWhile_append_of_pos he
    rw [List.append_nil] at hnil
    rw [List.nil_append, hnil]
    rfl
  | cons c cs =>
    rw [List.cons_append, List.dropWhile_cons_of_neg (by simp [hcs c List.mem_cons_self]),
      ← List.cons_append, hend]

/-- A text that ends with no blank is not trimmed at its end. -/
theorem trimEndChars_eq {cs : List Char} (hend : ∀ c ∈ cs.getLast?, isBlank c = false) :
    trimEndChars cs = cs := by
  rw [trimEndChars, dropWhile_isBlank, List.reverse_reverse]
  rwa [List.head?_reverse]

/-- A text that starts and ends with no blank is not trimmed. -/
theorem trimChars_eq {cs : List Char} (hstart : ∀ c ∈ cs.head?, isBlank c = false)
    (hend : ∀ c ∈ cs.getLast?, isBlank c = false) : trimChars cs = cs := by
  rw [trimChars, trimStartChars, dropWhile_isBlank hstart, trimEndChars_eq hend]

/-- A text that was trimmed at its end does not end with a blank. -/
theorem getLast?_trimEndChars {cs : List Char} {c : Char}
    (h : c ∈ (trimEndChars cs).getLast?) : isBlank c = false := by
  have hnot := List.head?_dropWhile_not isBlank cs.reverse
  rw [trimEndChars, List.getLast?_reverse] at h
  rwa [Option.mem_def.1 h] at hnot

/-- A text is trimmed at its end in its last part, unless that is blank. -/
theorem trimEndChars_append (a : List Char) {b : List Char} (h : trimEndChars b ≠ []) :
    trimEndChars (a ++ b) = a ++ trimEndChars b := by
  have hb : (b.reverse.dropWhile isBlank).isEmpty = false :=
    List.isEmpty_eq_false_iff.2 (mt List.reverse_eq_nil_iff.2 h)
  rw [trimEndChars, List.reverse_append, List.dropWhile_append, hb, if_neg Bool.false_ne_true,
    List.reverse_append, List.reverse_reverse]
  rfl

/-- A character that is not blank is not trimmed at the end. -/
theorem trimEndChars_cons {c : Char} (h : isBlank c = false) (cs : List Char) :
    trimEndChars (c :: cs) = c :: trimEndChars cs := by
  by_cases hcs : trimEndChars cs = []
  · have hblank : cs.reverse.dropWhile isBlank = [] := List.reverse_eq_nil_iff.1 hcs
    rw [hcs, trimEndChars, List.reverse_cons, List.dropWhile_append, hblank,
      List.dropWhile_cons_of_neg (by rw [h]; exact Bool.false_ne_true)]
    rfl
  · exact trimEndChars_append [c] hcs

end IpcWiring.Text
