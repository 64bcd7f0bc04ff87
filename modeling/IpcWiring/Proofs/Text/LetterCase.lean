import Mathlib.Order.Basic
import IpcWiring.Proofs.Script.Tokens
import IpcWiring.Text.LetterCase

/-!
# Letter case within names

The capital of a letter that starts a name starts one as well, and no other character gets such a
capital, the combining iota aside (`upperChar_cases`). In lower case a text of characters of names
stays one (`continuesName_toLower`). Both are read off the tables of case forms, a run at a time:
the ranges of letters hold the run and its image.
-/

namespace IpcWiring.Text

open Script (startsName continuesName continuesName_of_startsName idStartRanges idExtendRanges Word)

/-! ## Ranges -/

namespace CharRanges

variable {ranges : CharRanges} {lo hi n : Nat}

/-- One of the ranges holds all code points from `lo` to `hi`. -/
def covers : CharRanges → Nat → Nat → Bool
  | [], _, _ => false
  | r :: rest, lo, hi => Nat.ble r.1 lo && (Nat.ble hi r.2 || covers rest lo hi)

/-- None of the ranges has a code point from `lo` to `hi`; the search stops at the first range past
these. -/
def avoids : CharRanges → Nat → Nat → Bool
  | [], _, _ => true
  | r :: rest, lo, hi => Nat.blt hi r.1 || (Nat.blt r.2 lo && avoids rest lo hi)

theorem containsCode_of_covers (h : ranges.covers lo hi = true) (hlo : lo ≤ n) (hhi : n ≤ hi) :
    ranges.containsCode n = true := by
  induction ranges with
  | nil => cases h
  | cons r rest ih =>
    simp only [covers, Bool.and_eq_true, Bool.or_eq_true, Nat.ble_eq] at h
    simp only [containsCode, Bool.and_eq_true, Bool.or_eq_true, decide_eq_true_eq]
    exact ⟨by omega, h.2.imp (by omega) ih⟩

theorem containsCode_of_avoids (h : ranges.avoids lo hi = true) (hlo : lo ≤ n) (hhi : n ≤ hi) :
    ranges.containsCode n = false := by
  induction ranges with
  | nil => rfl
  | cons r rest ih =>
    simp only [avoids, Bool.and_eq_true, Bool.or_eq_true, Nat.blt_eq] at h
    simp only [containsCode, Bool.and_eq_false_iff, Bool.or_eq_false_iff, decide_eq_false_iff_not]
    rcases h with h | ⟨h, hrest⟩
    · exact .inl (by omega)
    · exact .inr ⟨by omega, ih hrest⟩

theorem exists_mem_of_containsCode (h : ranges.containsCode n = true) :
    ∃ r ∈ ranges, r.1 ≤ n ∧ n ≤ r.2 := by
  induction ranges with
  | nil => cases h
  | cons r rest ih =>
    simp only [containsCode, Bool.and_eq_true, Bool.or_eq_true, decide_eq_true_eq] at h
    rcases h.2 with hlast | hrest
    · exact ⟨r, List.mem_cons_self, h.1, hlast⟩
    · obtain ⟨r', hr', hn⟩ := ih hrest
      exact ⟨r', List.mem_cons_of_mem _ hr', hn⟩

end CharRanges

/-! ## Characters of names -/

section
variable {c : Char} {lo hi n : Nat}

theorem isAlpha_iff_toNat : c.isAlpha = true ↔
    (0x41 ≤ c.toNat ∧ c.toNat ≤ 0x5A) ∨ (0x61 ≤ c.toNat ∧ c.toNat ≤ 0x7A) := by
  change (decide (65 ≤ c.val ∧ c.val ≤ 90) ||
    decide (97 ≤ c.val) && decide (c.val ≤ 122)) = true ↔ _
  simp only [Bool.or_eq_true, Bool.and_eq_true, decide_eq_true_eq, UInt32.le_iff_toNat_le]
  rfl

theorem toNat_ofNat_of_isValidChar (h : n.isValidChar) : (Char.ofNat n).toNat = n := by
  rw [Char.ofNat, dif_pos h]
  rfl

/-- The code points of the first property are those of characters. -/
theorem toNat_ofNat_of_contains (h : idStartRanges.containsCode n = true) :
    (Char.ofNat n).toNat = n := by
  have hranges : (idStartRanges.all fun r => Nat.blt r.2 0xD800 ||
      Nat.blt 0xDFFF r.1 && Nat.blt r.2 0x110000) = true := by decide +kernel
  obtain ⟨r, hr, hlo, hhi⟩ := CharRanges.exists_mem_of_containsCode h
  have hr := List.all_eq_true.1 hranges r hr
  simp only [Bool.or_eq_true, Bool.and_eq_true, Nat.blt_eq] at hr
  refine toNat_ofNat_of_isValidChar ?_
  rw [Nat.isValidChar]
  omega

/-- A character of the first property starts a name. -/
theorem startsName_of_contains (h : idStartRanges.containsCode c.toNat = true) :
    startsName c = true := by
  by_cases hascii : 0x80 ≤ c.toNat
  · simp [startsName, hascii, CharRanges.contains, h]
  · -- below that the ranges are those of the ASCII letters
    obtain ⟨rest, hrest⟩ : ∃ rest, idStartRanges =
      (0x41, 0x5A) :: (0x61, 0x7A) :: (0xAA, 0xAA) :: rest := ⟨_, rfl⟩
    rw [hrest] at h
    simp only [CharRanges.containsCode, Bool.and_eq_true, Bool.or_eq_true, decide_eq_true_eq] at h
    have halpha : c.isAlpha = true := isAlpha_iff_toNat.2 (by omega)
    simp [startsName, halpha]

/-- What starts a name has the first property, two characters aside. -/
theorem contains_of_startsName (h : startsName c = true) :
    idStartRanges.containsCode c.toNat = true ∨ c.toNat = 0x24 ∨ c.toNat = 0x5F := by
  simp only [startsName, Bool.or_eq_true, Bool.and_eq_true, beq_iff_eq, CharRanges.contains] at h
  obtain ((halpha | rfl) | rfl) | ⟨-, h⟩ := h
  · refine .inl ?_
    obtain ⟨hlo, hhi⟩ | ⟨hlo, hhi⟩ := isAlpha_iff_toNat.1 halpha
    · exact CharRanges.containsCode_of_covers (by rfl) hlo hhi
    · exact CharRanges.containsCode_of_covers (by rfl) hlo hhi
  · exact .inr (.inl rfl)
  · exact .inr (.inr rfl)
  · exact .inl h

/-- A digit starts no name. -/
theorem startsName_of_isDigit (h : c.isDigit = true) : startsName c = false := by
  obtain ⟨hlo, hhi⟩ : 0x30 ≤ c.toNat ∧ c.toNat ≤ 0x39 := Char.isDigit_iff_toNat.1 h
  have hoff : idStartRanges.containsCode c.toNat = false :=
    CharRanges.containsCode_of_avoids (by rfl) hlo hhi
  refine Bool.eq_false_iff.2 fun hstart => ?_
  obtain hin | hcode := contains_of_startsName hstart
  · rw [hoff] at hin
    cases hin
  · omega

/-- What continues a name has one of the properties, three characters aside. -/
theorem contains_of_continuesName (h : continuesName c = true) :
    idStartRanges.containsCode c.toNat = true ∨ idExtendRanges.containsCode c.toNat = true ∨
      c.toNat = 0x24 ∨ c.toNat = 0x200C ∨ c.toNat = 0x200D := by
  simp only [continuesName, Bool.or_eq_true, Bool.and_eq_true, beq_iff_eq, CharRanges.contains] at h
  obtain (hstart | hdigit) | ⟨-, h⟩ := h
  · obtain h | h | h := contains_of_startsName hstart
    · exact .inl h
    · exact .inr (.inr (.inl h))
    · exact .inr (.inl (CharRanges.containsCode_of_covers (by rfl) (Nat.le_of_eq h.symm)
        (Nat.le_of_eq h)))
  · obtain ⟨hlo, hhi⟩ : 0x30 ≤ c.toNat ∧ c.toNat ≤ 0x39 := Char.isDigit_iff_toNat.1 hdigit
    exact .inr (.inl (CharRanges.containsCode_of_covers (by rfl) hlo hhi))
  · obtain (h | h) | h := h
    exacts [.inr (.inl h), .inr (.inr (.inr (.inl h))), .inr (.inr (.inr (.inr h)))]

/-- No name goes on with a character from `lo` to `hi`. -/
def isOutside (lo hi : Nat) : Bool :=
  idStartRanges.avoids lo hi && idExtendRanges.avoids lo hi &&
    [0x24, 0x200C, 0x200D].all fun n => Nat.blt n lo || Nat.blt hi n

theorem continuesName_eq_false (h : isOutside lo hi = true) (hlo : lo ≤ c.toNat)
    (hhi : c.toNat ≤ hi) : continuesName c = false := by
  simp only [isOutside, Bool.and_eq_true, List.all_cons, List.all_nil, Bool.or_eq_true,
    Nat.blt_eq, and_true] at h
  obtain ⟨⟨hstart, hextend⟩, hothers⟩ := h
  refine Bool.eq_false_iff.2 fun hc => ?_
  obtain hc | hc | hc := contains_of_continuesName hc
  · rw [CharRanges.containsCode_of_avoids hstart hlo hhi] at hc
    cases hc
  · rw [CharRanges.containsCode_of_avoids hextend hlo hhi] at hc
    cases hc
  · omega

end

/-! ## Case forms -/

namespace CaseRun

variable {r : CaseRun} {ranges : CharRanges}

/-- What the run maps a code point to. -/
def goesTo (r : CaseRun) (n : Nat) : Nat := Int.toNat (n + r.shift)

/-- The code points of the run. -/
def codes (r : CaseRun) : List Nat :=
  List.range' r.first ((r.last - r.first) / r.stride + 1) r.stride

/-- The run maps all its code points into the ranges: one of these holds the whole image, or some
hold the code points of it. -/
def landsIn (r : CaseRun) (ranges : CharRanges) : Bool :=
  ranges.covers (r.goesTo r.first) (r.goesTo r.last) ||
    r.codes.all fun n => ranges.covers (r.goesTo n) (r.goesTo n)

theorem mem_codes (h : r.covers n = true) : n ∈ r.codes := by
  simp only [covers, Bool.and_eq_true, decide_eq_true_eq, beq_iff_eq] at h
  obtain ⟨⟨hfirst, hlast⟩, hstride⟩ := h
  rw [codes, List.mem_range']
  refine ⟨(n - r.first) / r.stride, ?_, ?_⟩
  · exact Nat.lt_succ_of_le (Nat.div_le_div_right (by omega))
  · rw [Nat.mul_div_cancel' (Nat.dvd_of_mod_eq_zero hstride)]
    omega

theorem contains_goesTo (h : r.landsIn ranges = true) (hn : r.covers n = true) :
    ranges.containsCode (r.goesTo n) = true := by
  rw [landsIn, Bool.or_eq_true, List.all_eq_true] at h
  obtain hall | heach := h
  · simp only [covers, Bool.and_eq_true, decide_eq_true_eq] at hn
    refine CharRanges.containsCode_of_covers hall ?_ ?_ <;> unfold goesTo <;> omega
  · exact CharRanges.containsCode_of_covers (heach n (mem_codes hn)) (Nat.le_refl _)
      (Nat.le_refl _)

end CaseRun

/-- The circled letters have case forms, but no name has them. -/
def isCircled (n : Nat) : Bool := Nat.ble 0x24B6 n && Nat.ble n 0x24E9

/-- The combining iota, which a name may have in it, has a letter as its capital. -/
def combiningIota : Char := '\u0345'

/-- Runs of letters have letters as their capitals, and only they have. -/
theorem upperRuns_land : (upperRuns.all fun r =>
    isCircled r.first && isCircled r.last ||
    r.landsIn idStartRanges && (idStartRanges.covers r.first r.last ||
      Nat.beq r.first 0x345 && Nat.beq r.last 0x345)) = true := by
  decide +kernel

/-- The lower-case forms of the other runs are letters. -/
theorem lowerRuns_land : (lowerRuns.all fun r =>
    isCircled r.first && isCircled r.last || r.landsIn idStartRanges) = true := by
  decide +kernel

/-- The case form of more than one character is a letter of names and what may stand behind it. -/
theorem expansions_land : ((upperExpansions ++ lowerExpansions).all fun e =>
    idStartRanges.covers e.1 e.1 && match e.2 with
      | [] => false
      | n :: rest => idStartRanges.covers n n && rest.all fun n =>
        idStartRanges.covers n n || Nat.ble 0x300 n && Nat.ble n 0x36F) = true := by
  decide +kernel

section
variable {c : Char}

/-- The circled letters are in no name. -/
theorem continuesName_of_isCircled {r : CaseRun} (hfirst : isCircled r.first = true)
    (hlast : isCircled r.last = true) (hn : r.covers c.toNat = true) :
    continuesName c = false := by
  simp only [isCircled, Bool.and_eq_true, Nat.ble_eq] at hfirst hlast
  simp only [CaseRun.covers, Bool.and_eq_true, decide_eq_true_eq] at hn
  have houtside : isOutside 0x24B6 0x24E9 = true := by decide +kernel
  exact continuesName_eq_false houtside (by omega) (by omega)

/-- The character of a code point of the first property starts a name. -/
theorem startsName_ofNat {n : Nat} (h : idStartRanges.containsCode n = true) :
    startsName (Char.ofNat n) = true :=
  startsName_of_contains (by rwa [toNat_ofNat_of_contains h])

/-- A combining mark continues a name. -/
theorem continuesName_mark {n : Nat} (hlo : 0x300 ≤ n) (hhi : n ≤ 0x36F) :
    continuesName (Char.ofNat n) = true := by
  have hn : (Char.ofNat n).toNat = n := by
    refine toNat_ofNat_of_isValidChar ?_
    rw [Nat.isValidChar]
    omega
  have hcovers : idExtendRanges.covers 0x300 0x36F = true := rfl
  have hcontains := CharRanges.containsCode_of_covers hcovers hlo hhi
  simp only [continuesName, CharRanges.contains, hn, hcontains]
  simp
  omega

/-- What a run of letters has as its case forms are letters. -/
theorem startsName_goesTo {r : CaseRun} (h : r.landsIn idStartRanges = true)
    (hn : r.covers c.toNat = true) : startsName (Char.ofNat (r.goesTo c.toNat)) = true :=
  startsName_ofNat (CaseRun.contains_goesTo h hn)

/-- The case form of more than one character is a word, and it is one of a letter. -/
theorem exists_word_of_expansion {codes : List Nat}
    (h : (c.toNat, codes) ∈ upperExpansions ++ lowerExpansions) :
    startsName c = true ∧ ∃ w : Word, w.chars = codes.map Char.ofNat := by
  have hland := List.all_eq_true.1 expansions_land _ h
  rw [Bool.and_eq_true] at hland
  obtain ⟨hsource, hcodes⟩ := hland
  have hstart : ∀ n, idStartRanges.covers n n = true → startsName (Char.ofNat n) = true :=
    fun n hn => startsName_ofNat
      (CharRanges.containsCode_of_covers hn (Nat.le_refl n) (Nat.le_refl n))
  refine ⟨Char.ofNat_toNat c ▸ hstart _ hsource, ?_⟩
  obtain _ | ⟨n, rest⟩ := codes
  · cases hcodes
  · simp only [Bool.and_eq_true, List.all_eq_true, Bool.or_eq_true, Nat.ble_eq] at hcodes
    refine ⟨⟨Char.ofNat n, rest.map Char.ofNat, hstart n hcodes.1, ?_⟩, rfl⟩
    rw [List.all_map, List.all_eq_true]
    intro m hm
    obtain h | h := hcodes.2 m hm
    · exact continuesName_of_startsName (hstart m h)
    · exact continuesName_mark h.1 h.2

/-- The capital of a character of names is the character itself, or it is a word. This it is for
letters and for the combining iota only. -/
theorem upperChar_cases (h : continuesName c = true) : upperChar c = [c] ∨
    (startsName c = true ∨ c = combiningIota) ∧ ∃ w : Word, w.chars = upperChar c := by
  rw [upperChar, mapCase]
  cases hcodes : upperExpansions.lookup c.toNat with
  | some codes =>
    obtain ⟨before, after, hmem, -⟩ := List.lookup_eq_some_iff.1 hcodes
    have hcodes : (c.toNat, codes) ∈ upperExpansions ++ lowerExpansions := by simp [hmem]
    obtain ⟨hstart, hword⟩ := exists_word_of_expansion hcodes
    exact .inr ⟨.inl hstart, hword⟩
  | none =>
    cases hrun : upperRuns.find? (·.covers c.toNat) with
    | none => exact .inl rfl
    | some r =>
      have hcovers := List.find?_some (p := fun r : CaseRun => r.covers c.toNat) hrun
      have hland := List.all_eq_true.1 upperRuns_land r (List.mem_of_find?_eq_some hrun)
      simp only [Bool.or_eq_true, Bool.and_eq_true, Nat.beq_eq] at hland
      obtain ⟨hfirst, hlast⟩ | ⟨hgoes, hsource⟩ := hland
      · rw [continuesName_of_isCircled hfirst hlast hcovers] at h
        cases h
      · refine .inr ⟨?_, ⟨_, [], startsName_goesTo hgoes hcovers, rfl⟩, rfl⟩
        simp only [CaseRun.covers, Bool.and_eq_true, decide_eq_true_eq] at hcovers
        refine hsource.imp (fun hsource => ?_) fun hsource => ?_
        · exact startsName_of_contains
            (CharRanges.containsCode_of_covers hsource hcovers.1.1 hcovers.1.2)
        · rw [← Char.toNat_inj]
          have hiota : combiningIota.toNat = 0x345 := rfl
          omega

/-- The lower-case form of a character of names is made of such characters. -/
theorem continuesName_lowerChar (h : continuesName c = true) :
    ∀ d ∈ lowerChar c, continuesName d = true := by
  rw [lowerChar, mapCase]
  cases hcodes : lowerExpansions.lookup c.toNat with
  | some codes =>
    obtain ⟨before, after, hmem, -⟩ := List.lookup_eq_some_iff.1 hcodes
    have hcodes : (c.toNat, codes) ∈ upperExpansions ++ lowerExpansions := by simp [hmem]
    obtain ⟨-, w, hw⟩ := exists_word_of_expansion hcodes
    exact fun d hd => w.continuesName_of_mem d (hw ▸ hd)
  | none =>
    cases hrun : lowerRuns.find? (·.covers c.toNat) with
    | none => exact fun d hd => List.mem_singleton.1 hd ▸ h
    | some r =>
      have hcovers := List.find?_some (p := fun r : CaseRun => r.covers c.toNat) hrun
      have hland := List.all_eq_true.1 lowerRuns_land r (List.mem_of_find?_eq_some hrun)
      simp only [Bool.or_eq_true, Bool.and_eq_true] at hland
      obtain ⟨hfirst, hlast⟩ | hgoes := hland
      · rw [continuesName_of_isCircled hfirst hlast hcovers] at h
        cases h
      · intro d hd
        obtain rfl := List.mem_singleton.1 hd
        exact continuesName_of_startsName (startsName_goesTo hgoes hcovers)

/-- A text of characters of names stays one in lower case. -/
theorem continuesName_toLower {s : List Char} (h : ∀ c ∈ s, continuesName c = true) :
    ∀ d ∈ toLower s, continuesName d = true := by
  rw [toLower]
  generalize ([] : List Char) = before
  induction s generalizing before with
  | nil => nofun
  | cons c s ih =>
    obtain ⟨hc, hs⟩ := List.forall_mem_cons.1 h
    rw [toLowerAfter]
    intro d hd
    rw [List.mem_append] at hd
    refine hd.elim (fun hd => ?_) (ih hs _ d)
    split at hd
    · split at hd <;> obtain rfl := List.mem_singleton.1 hd <;> decide +kernel
    · exact continuesName_lowerChar hc d hd

end

end IpcWiring.Text
