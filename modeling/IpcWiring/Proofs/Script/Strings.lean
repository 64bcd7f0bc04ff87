import Mathlib.Data.List.Basic
import Mathlib.Data.Nat.Digits.Defs
import IpcWiring.Proofs.Script.Tokens
import IpcWiring.Text.Key

/-!
# What words and strings are read from

A word without escapes is read from itself (`scanToken_eq_word`). A string may be read from many
texts; but an escape has fewer characters in the string than in the text, and a quote can stand in
the text only behind a backslash. So the characters of a string and the quotes in its text are no
more than the characters of the text, and as many only if no backslash stands before anything else
than a quote (`stringBody?_length`). A name in quotes, with a backslash before each quote and
backslash, is read as itself if it is on one line (`stringBody?_escapedChar`).
-/

namespace IpcWiring.Script

open Text (replaceChars)

variable {cs rest digits value : List Char} {n : Nat}

/-! ## Escapes -/

/-- No quote is among the digits that a text starts with. -/
theorem quote_notMem_take {p : Char → Bool} (hp : p '\'' = false) (hstart : digits <+: cs)
    (hdigits : digits.all p = true) : '\'' ∉ cs.take digits.length := by
  rw [← List.prefix_iff_eq_take.1 hstart]
  intro hmem
  have hquote := List.all_eq_true.1 hdigits _ hmem
  rw [hp] at hquote
  cases hquote

/-- There is no quote in a code unit. -/
theorem codeUnit?_spec {code : Nat} (h : codeUnit? cs = some code) : '\'' ∉ cs.take 4 := by
  rw [codeUnit?] at h
  split at h
  · next hlength =>
    rw [← beq_iff_eq.1 hlength]
    exact quote_notMem_take (by decide)
      ((List.takeWhile_prefix isHexDigit).trans (List.take_prefix 4 cs)) List.all_takeWhile
  · cases h

/-- A code point is one character, or half of a surrogate pair. -/
theorem length_codeText (code : Nat) :
    (codeText code).length ≤ 5 ∧ (code < 0xD800 → (codeText code).length = 1) := by
  rw [codeText]
  split
  · next h =>
    rw [Bool.and_eq_true, decide_eq_true_eq, decide_eq_true_eq] at h
    have hdigits := Nat.toDigits_length 16 code 4 (by decide) (by omega)
    simp only [hexFour, List.length_cons, List.length_append, List.length_replicate]
    omega
  · exact ⟨Nat.le_add_left 1 4, fun _ => rfl⟩

/-- A digit is one of at most sixteen. -/
theorem digitValue_lt (c : Char) : digitValue c < 16 := by
  rw [digitValue]
  split
  · next h =>
    obtain ⟨-, hhi⟩ : 0x30 ≤ c.toNat ∧ c.toNat ≤ 0x39 := Char.isDigit_iff_toNat.1 h
    change c.toNat - 0x30 < 16
    omega
  · split
    · next h =>
      simp only [Bool.and_eq_true, decide_eq_true_eq, Char.le_def, UInt32.le_iff_toNat_le] at h
      have hhi : c.toNat ≤ 0x66 := h.2
      change c.toNat - 0x61 + 10 < 16
      omega
    · split
      · next h =>
        simp only [Bool.and_eq_true, decide_eq_true_eq, Char.le_def, UInt32.le_iff_toNat_le] at h
        have hhi : c.toNat ≤ 0x46 := h.2
        change c.toNat - 0x41 + 10 < 16
        omega
      · decide

/-- A digit alone is no half of a surrogate pair. -/
theorem digitsValue_lt (h : digits.length ≤ 1) : digitsValue 16 digits < 0xD800 := by
  match digits with
  | [] => decide
  | [c] =>
    have hdigit := digitValue_lt c
    change 0 * 16 + digitValue c < 0xD800
    omega

/-- There is no quote in the escape for a code point, and the code point has no more characters than
the escape. -/
theorem unicodeEscape_spec (cs : List Char) :
    '\'' ∉ cs.take (unicodeEscape cs).2 ∧
      ∀ code ∈ (unicodeEscape cs).1, (codeText code).length ≤ (unicodeEscape cs).2 + 1 := by
  fun_cases unicodeEscape cs with
  | case1 rest digits tooLarge k hk =>
    have hlt : k < digits.length := List.mem_range.1 (List.mem_of_find?_eq_some hk)
    have hall : (digits.take (k + 1)).all isHexDigit = true :=
      List.all_eq_true.2 fun c hc =>
        List.all_eq_true.1 List.all_takeWhile c (List.mem_of_mem_take hc)
    have hnot := quote_notMem_take (by decide)
      ((List.take_prefix (k + 1) digits).trans (List.takeWhile_prefix isHexDigit)) hall
    rw [List.length_take, Nat.min_eq_left hlt] at hnot
    exact ⟨List.not_mem_cons_of_ne_of_not_mem (by decide) hnot, nofun⟩
  | case2 rest digits tooLarge hnone hclosed =>
    obtain ⟨hne, hclose⟩ := Bool.and_eq_true_iff.1 hclosed
    have hnot := quote_notMem_take (p := isHexDigit) (by decide) (List.takeWhile_prefix _)
      (List.all_takeWhile (l := rest))
    refine ⟨List.not_mem_cons_of_ne_of_not_mem (by decide) ?_, ?_⟩
    · rw [List.take_add_one, beq_iff_eq.1 hclose, List.mem_append, not_or]
      exact ⟨hnot, by decide⟩
    · rintro _ ⟨⟩
      have hcode := length_codeText (digitsValue 16 digits)
      by_cases hone : digits.length ≤ 1
      · rw [hcode.2 (digitsValue_lt hone)]
        omega
      · change _ ≤ digits.length + 2 + 1
        omega
  | case3 rest digits tooLarge hnone hclosed =>
    have hnot := quote_notMem_take (p := isHexDigit) (by decide) (List.takeWhile_prefix _)
      (List.all_takeWhile (l := rest))
    exact ⟨List.not_mem_cons_of_ne_of_not_mem (by decide) hnot, nofun⟩
  | case4 _ _ code hcode =>
    refine ⟨codeUnit?_spec hcode, ?_⟩
    rintro _ ⟨⟩
    exact (length_codeText code).1
  | case5 hbrace hcode =>
    exact ⟨quote_notMem_take (by decide)
      ((List.takeWhile_prefix isHexDigit).trans (List.take_prefix 4 cs)) List.all_takeWhile, nofun⟩

/-- The escape of a code point alone. -/
theorem unicodeEscape_alone {code : Nat} (h : unicodeEscape cs = (some code, n)) :
    (codeText code).length ≤ n + 1 ∧ '\'' ∉ ('u' :: cs).take (n + 1) := by
  obtain ⟨hnot, hlength⟩ := unicodeEscape_spec cs
  rw [h] at hnot hlength
  exact ⟨hlength code rfl, List.not_mem_cons_of_ne_of_not_mem (by decide) hnot⟩

/-- An escape stands for no more characters than it has behind the backslash; and there is no quote
in it, but for the one that it may stand for. -/
theorem escape_spec (cs : List Char) :
    (escape cs).1.length ≤ (escape cs).2 ∧
      ('\'' ∉ cs.take (escape cs).2 ∨ ∃ rest, cs = '\'' :: rest ∧ escape cs = (['\''], 1)) := by
  fun_cases escape cs with
  | case9 rest digits =>
    have hnot := quote_notMem_take (by decide)
      ((List.takeWhile_prefix isHexDigit).trans (List.take_prefix 2 rest)) List.all_takeWhile
    refine ⟨?_, .inl (List.not_mem_cons_of_ne_of_not_mem (by decide) hnot)⟩
    split
    · exact Nat.le_add_left 1 _
    · exact Nat.zero_le _
  | case10 rest n hescape =>
    have hnot := (unicodeEscape_spec rest).1
    rw [hescape] at hnot
    exact ⟨Nat.zero_le _, .inl (List.not_mem_cons_of_ne_of_not_mem (by decide) hnot)⟩
  | case11 rest high n hescape more hmore low hlow hpair =>
    have hnot := (unicodeEscape_spec rest).1
    have hn : n = 4 := by
      simp only [Bool.and_eq_true, beq_iff_eq] at hpair
      exact hpair.1.1.1.1
    rw [hescape, hn] at hnot
    rw [hn] at hmore
    have htake : rest.take 10 = rest.take 4 ++ '\\' :: 'u' :: more.take 4 := by
      rw [show 10 = 4 + 6 from rfl, List.take_add, hmore]
      rfl
    refine ⟨Nat.le_add_left 1 10, .inl (List.not_mem_cons_of_ne_of_not_mem (by decide) ?_)⟩
    rw [htake, List.mem_append, not_or]
    exact ⟨hnot, List.not_mem_cons_of_ne_of_not_mem (by decide)
      (List.not_mem_cons_of_ne_of_not_mem (by decide) (codeUnit?_spec hlow))⟩
  | case12 rest high n hescape => exact (unicodeEscape_alone hescape).imp_right .inl
  | case13 rest high n hescape => exact (unicodeEscape_alone hescape).imp_right .inl
  | case14 rest high n hescape => exact (unicodeEscape_alone hescape).imp_right .inl
  | case15 c rest =>
    next hline =>
    refine ⟨Nat.zero_le _, .inl (List.not_mem_cons_of_ne_of_not_mem ?_ List.not_mem_nil)⟩
    rintro rfl
    cases hline
  | case16 c rest =>
    next hoctal few digits =>
    have hfirst : digits.length ≠ 0 := by
      obtain ⟨k, hk⟩ : ∃ k, few = k + 1 :=
        Nat.exists_eq_add_one_of_ne_zero (by dsimp only [few]; split <;> decide)
      change ((List.take few (c :: rest)).takeWhile _).length ≠ 0
      rw [hk, List.take_succ_cons, List.takeWhile_cons, if_pos hoctal]
      exact Nat.succ_ne_zero _
    refine ⟨Nat.one_le_iff_ne_zero.2 hfirst, .inl ?_⟩
    exact quote_notMem_take (by decide)
      ((List.takeWhile_prefix _).trans (List.take_prefix few (c :: rest))) List.all_takeWhile
  | case17 c rest =>
    refine ⟨Nat.le_refl 1, ?_⟩
    by_cases hquote : c = '\''
    · exact .inr ⟨rest, by rw [hquote], by rw [hquote]⟩
    · exact .inl (List.not_mem_cons_of_ne_of_not_mem (Ne.symm hquote) List.not_mem_nil)
  | _ => exact ⟨by decide, .inl (by simp)⟩

/-! ## Strings -/

/-- What a string is read from behind characters that are skipped. -/
theorem stringBody?_skip {quote : Char} {k : Nat} (h : stringBody? quote k cs = some (value, n)) :
    k ≤ cs.length ∧ ∃ m, stringBody? quote 0 (cs.drop k) = some (value, m) ∧ n = k + m := by
  induction k generalizing cs n with
  | zero => exact ⟨Nat.zero_le _, n, h, (Nat.zero_add n).symm⟩
  | succ k ih =>
    cases cs with
    | nil => cases h
    | cons c cs =>
      obtain ⟨⟨v, m⟩, hrest, heq⟩ := Option.map_eq_some_iff.1 h
      cases heq
      obtain ⟨hlength, m', hvalue, rfl⟩ := ih hrest
      exact ⟨Nat.succ_le_succ hlength, m', hvalue, by omega⟩

/-- What a string is read from behind a backslash. -/
theorem stringBody?_backslash (h : stringBody? '\'' 0 ('\\' :: cs) = some (value, n)) :
    (escape cs).2 ≤ cs.length ∧ ∃ v m,
      stringBody? '\'' 0 (cs.drop (escape cs).2) = some (v, m) ∧
        value = (escape cs).1 ++ v ∧ n = (escape cs).2 + m + 1 := by
  have hmap : (stringBody? '\'' (escape cs).2 cs).map
      (fun x => ((escape cs).1 ++ x.1, x.2 + 1)) = some (value, n) := h
  obtain ⟨⟨v, k⟩, hrest, heq⟩ := Option.map_eq_some_iff.1 hmap
  cases heq
  obtain ⟨hlength, m, hvalue, rfl⟩ := stringBody?_skip hrest
  exact ⟨hlength, v, m, hvalue, rfl, rfl⟩

/-- The characters of a string and the quotes in its text are no more than the characters of the
text up to its closing quote, and as many only if there are no more backslashes than quotes. -/
theorem stringBody?_length (h : stringBody? '\'' 0 cs = some (value, n)) :
    ∃ body rest, cs = body ++ '\'' :: rest ∧ n = body.length + 1 ∧
      value.length + body.count '\'' ≤ body.length ∧
      (value.length + body.count '\'' = body.length → body.count '\\' = body.count '\'') := by
  induction hlength : cs.length using Nat.strongRecOn generalizing cs value n with
  | ind length ih =>
    subst hlength
    cases cs with
    | nil => cases h
    | cons c cs =>
      by_cases hquote : c = '\''
      · subst hquote
        cases h
        exact ⟨[], cs, rfl, rfl, Nat.le_refl 0, fun _ => rfl⟩
      by_cases hslash : c = '\\'
      · subst hslash
        obtain ⟨hk, v, m, hrest, rfl, rfl⟩ := stringBody?_backslash h
        have hshorter : (cs.drop (escape cs).2).length < ('\\' :: cs).length := by
          rw [List.length_drop, List.length_cons]
          omega
        obtain ⟨body, rest, hbody, rfl, hle, heq⟩ := ih _ hshorter hrest rfl
        have htaken : (cs.take (escape cs).2).length = (escape cs).2 := by
          rw [List.length_take, Nat.min_eq_left hk]
        refine ⟨'\\' :: (cs.take (escape cs).2 ++ body), rest, ?_, ?_, ?_⟩
        · rw [List.cons_append, List.append_assoc, ← hbody, List.take_append_drop]
        · rw [List.length_cons, List.length_append, htaken]
          omega
        · rw [List.count_cons_of_ne (by decide), List.count_cons_self, List.count_append,
            List.count_append, List.length_cons, List.length_append, List.length_append, htaken]
          obtain ⟨htext, hnone | ⟨left, rfl, hescape⟩⟩ := escape_spec cs
          · rw [List.count_eq_zero.2 hnone]
            omega
          · have hslashes : ['\''].count '\\' = 0 := rfl
            simp only [hescape, List.take_succ_cons, List.take_zero, List.count_singleton_self,
              List.length_singleton, hslashes]
            exact ⟨by omega, fun h => by have hrest := heq (by omega); omega⟩
      · rw [stringBody?, if_neg (mt beq_iff_eq.1 hquote)] at h
        split at h
        · cases h
        rw [if_neg (mt beq_iff_eq.1 hslash)] at h
        obtain ⟨⟨v, m⟩, hrest, heq⟩ := Option.map_eq_some_iff.1 h
        cases heq
        obtain ⟨body, rest, rfl, rfl, hle, heq⟩ := ih _ (Nat.lt_succ_self _) hrest rfl
        refine ⟨c :: body, rest, rfl, rfl, ?_⟩
        rw [List.count_cons_of_ne hquote, List.count_cons_of_ne hslash, List.length_cons,
          List.length_cons]
        exact ⟨by omega, fun h => heq (by omega)⟩

/-! ## Names in quotes -/

/-- A character with a backslash before a quote or a backslash. -/
def escapedChar (c : Char) : List Char := if c = '\'' ∨ c = '\\' then ['\\', c] else [c]

/-- A character with a backslash before a quote. -/
def quoteEscapedChar (c : Char) : List Char := if c = '\'' then ['\\', '\''] else [c]

/-- One character is replaced wherever it stands. -/
theorem replaceChars_singleton (a : Char) (replacement cs : List Char) :
    replaceChars [a] replacement 0 cs = cs.flatMap fun c => if c = a then replacement else [c] := by
  induction cs with
  | nil => rfl
  | cons c cs ih =>
    rw [List.flatMap_cons, ← ih, replaceChars]
    by_cases heq : c = a
    · simp [heq]
    · simp [heq, Ne.symm heq]

/-- The characters of a name in quotes. -/
theorem toList_quoteName (name : String) :
    (Text.quoteName name).toList = '\'' :: (name.toList.flatMap quoteEscapedChar ++ ['\'']) := by
  have hchars : replaceChars ['\''] ['\\', '\''] 0 name.toList =
      name.toList.flatMap quoteEscapedChar := replaceChars_singleton _ _ _
  rw [Text.quoteName, Text.replaceAll]
  simp [hchars]

/-- Behind a quote a text with both escaped is read as it is if it is on one line, and else not at
all. -/
theorem stringBody?_escapedChar (cs rest : List Char) :
    stringBody? '\'' 0 (cs.flatMap escapedChar ++ '\'' :: rest) =
      if cs.all fun c => c != '\n' && c != '\r' then
        some (cs, (cs.flatMap escapedChar).length + 1)
      else none := by
  induction cs with
  | nil => rfl
  | cons c cs ih =>
    rw [List.flatMap_cons]
    by_cases hescaped : c = '\'' ∨ c = '\\'
    · have hescape : ∀ more, escape (c :: more) = ([c], 1) := by
        rcases hescaped with rfl | rfl <;> exact fun _ => rfl
      have hline : (c != '\n' && c != '\r') = true := by
        rcases hescaped with rfl | rfl <;> rfl
      rw [escapedChar, if_pos hescaped, List.all_cons, hline]
      simp [stringBody?, hescape, ih]
    · obtain ⟨hquote, hslash⟩ := not_or.1 hescaped
      have hbody : ∀ more, stringBody? '\'' 0 (c :: more) =
          if c == '\n' || c == '\r' then none
          else (stringBody? '\'' 0 more).map fun read => (c :: read.1, read.2 + 1) := by
        intro more
        rw [stringBody?, if_neg (mt beq_iff_eq.1 hquote), if_neg (mt beq_iff_eq.1 hslash)]
      have hline : (c != '\n' && c != '\r') = !(c == '\n' || c == '\r') := (Bool.not_or _ _).symm
      rw [escapedChar, if_neg hescaped, List.append_assoc, List.singleton_append, hbody, ih,
        List.all_cons, hline]
      cases c == '\n' || c == '\r' with
      | true => rfl
      | false =>
        cases cs.all fun c => c != '\n' && c != '\r' <;> rfl

/-- A string is read behind its opening quote. -/
theorem scanToken_quote (cs : List Char) : scanToken ('\'' :: cs) =
    match stringBody? '\'' 0 cs with
    | some (value, n) => (.string (String.ofList value), n + 1)
    | none => (.stop, 0) := rfl

/-- With a backslash before each quote there are as many more characters, and as many more
backslashes, as there are quotes. -/
theorem count_quoteEscapedChar (cs : List Char) :
    (cs.flatMap quoteEscapedChar).length = cs.length + cs.count '\'' ∧
      (cs.flatMap quoteEscapedChar).count '\'' = cs.count '\'' ∧
      (cs.flatMap quoteEscapedChar).count '\\' = cs.count '\\' + cs.count '\'' := by
  induction cs with
  | nil => exact ⟨rfl, rfl, rfl⟩
  | cons c cs ih =>
    obtain ⟨hlength, hquotes, hslashes⟩ := ih
    simp only [List.flatMap_cons, List.length_append, List.count_append, hlength, hquotes, hslashes,
      List.count_cons, quoteEscapedChar]
    by_cases hquote : c = '\''
    · simp [hquote]
      omega
    · simp [hquote, List.count_singleton]
      omega

/-- Without backslashes there are only quotes to escape. -/
theorem flatMap_quoteEscapedChar (h : '\\' ∉ cs) :
    cs.flatMap quoteEscapedChar = cs.flatMap escapedChar := by
  refine List.flatMap_congr fun c hc => ?_
  have hslash : c ≠ '\\' := fun heq => h (heq ▸ hc)
  by_cases hquote : c = '\'' <;> simp [quoteEscapedChar, escapedChar, hquote, hslash]

/-! ## Words -/

/-- A name without escapes is what it is read from. -/
theorem nameBody_unescaped {name : List Char} (h : nameBody 0 cs = (name, n, false)) :
    n = name.length ∧ cs = name ++ cs.drop n ∧ ∀ c ∈ name, continuesName c = true := by
  induction cs generalizing name n with
  | nil =>
    cases h
    exact ⟨rfl, rfl, nofun⟩
  | cons c cs ih =>
    rw [nameBody.eq_def] at h
    dsimp only at h
    split at h
    · next hc =>
      rcases hrest : nameBody 0 cs with ⟨others, k, escaped⟩
      rw [hrest] at h
      cases h
      obtain ⟨hlength, hchars, hothers⟩ := ih hrest
      refine ⟨congrArg (· + 1) hlength, ?_, List.forall_mem_cons.2 ⟨hc, hothers⟩⟩
      exact congrArg (c :: ·) hchars
    · have hnone : name = [] ∧ n = 0 := by
        split at h
        · split at h
          · split at h
            · cases h
            · cases h
              exact ⟨rfl, rfl⟩
          · cases h
            exact ⟨rfl, rfl⟩
        · cases h
          exact ⟨rfl, rfl⟩
      obtain ⟨rfl, rfl⟩ := hnone
      exact ⟨rfl, rfl, nofun⟩

/-- Where neither a name nor a quote starts, neither a word nor a string is read. -/
theorem scanToken_other {c : Char} (hstart : ¬ (startsName c || c == '\\') = true)
    (hquote : ¬ (c == '"' || c == '\'') = true) (text : String) :
    (scanToken (c :: cs)).1 ≠ .word text ∧ (scanToken (c :: cs)).1 ≠ .string text := by
  rw [scanToken, if_neg hstart, if_neg hquote]
  dsimp only
  split_ifs
  · rcases templateBody? cs with - | ⟨n, - | -⟩ <;> exact ⟨Token.noConfusion, Token.noConfusion⟩
  · exact ⟨Token.noConfusion, Token.noConfusion⟩
  · exact ⟨Token.noConfusion, Token.noConfusion⟩
  · exact ⟨Token.noConfusion, Token.noConfusion⟩
  · cases markOf? (c :: cs) <;> exact ⟨Token.noConfusion, Token.noConfusion⟩

/-- Where no name and no escape starts no word is read. -/
theorem scanToken_ne_word {c : Char} (hstart : ¬ (startsName c || c == '\\') = true)
    (name : String) : (scanToken (c :: cs)).1 ≠ .word name := by
  by_cases hquote : (c == '"' || c == '\'') = true
  · rw [scanToken, if_neg hstart, if_pos hquote]
    cases stringBody? c 0 cs <;> exact Token.noConfusion
  · exact (scanToken_other hstart hquote name).1

/-- Where no quote stands no string is read. -/
theorem scanToken_ne_string {c : Char} (hquote : ¬ (c == '"' || c == '\'') = true)
    (value : String) : (scanToken (c :: cs)).1 ≠ .string value := by
  by_cases hstart : (startsName c || c == '\\') = true
  · rw [scanToken, if_pos hstart]
    rcases nameBody 0 (c :: cs) with ⟨- | ⟨d, others⟩, n, - | -⟩ <;> exact Token.noConfusion
  · exact (scanToken_other hstart hquote value).2

/-- A word that is read is what it is read from. -/
theorem scanToken_eq_word {name : String} (h : scanToken cs = (.word name, n)) :
    n = name.toList.length ∧ cs = name.toList ++ cs.drop n ∧ ∃ w : Word, w.text = name := by
  cases cs with
  | nil => cases h
  | cons c cs =>
    by_cases hstart : (startsName c || c == '\\') = true
    · rw [scanToken, if_pos hstart] at h
      split at h
      · cases h
      · next chars k escaped hne hbody =>
        cases escaped with
        | true => cases h
        | false =>
          cases h
          obtain ⟨hlength, hchars, hcontinues⟩ := nameBody_unescaped hbody
          rw [String.toList_ofList]
          refine ⟨hlength, hchars, ?_⟩
          cases chars with
          | nil => exact (hne rfl).elim
          | cons d others =>
            obtain ⟨hd, hothers⟩ := List.forall_mem_cons.1 hcontinues
            have hstarts : startsName d = true := by
              rw [(List.cons.inj hchars).1, Bool.or_eq_true] at hstart
              refine hstart.resolve_right fun hslash => ?_
              rw [beq_iff_eq.1 hslash] at hd
              revert hd
              decide
            exact ⟨⟨d, others, hstarts, List.all_eq_true.2 hothers⟩, rfl⟩
    · exact absurd (congrArg Prod.fst h) (scanToken_ne_word hstart name)

end IpcWiring.Script
