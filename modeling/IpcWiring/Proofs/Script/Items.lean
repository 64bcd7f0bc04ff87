import IpcWiring.Proofs.Script.Readings

/-!
# Words, type arguments and arrays

A name, a quoted type and a name with type arguments are primary types, and brackets may stand
behind each one. If the types inside of it are read, the whole is (`reads_applied`, `reads_array`).
-/

namespace IpcWiring.Script

open Reader Grammar

/-! ## Words and quoted types -/

section

variable {ph : Phrases} {s : Setting} {p : Progress} {rest : List Char} {pos : Nat}

/-- A dotted name of one word. -/
theorem dottedName_word {name : Word} (hp : p.StandsAt (name.chars ++ rest) pos)
    (hrest : Apart rest)
    (hdot : (nextLexeme ⟨rest, pos + byteSize name.chars⟩).token ≠ .mark ".") :
    dottedName s p = some (.simple name.text, p.advanced) := by
  have hat := hp.at (scanToken_word name hrest)
  have hnext : p.advanced.current.token ≠ .mark "." := by
    rw [hat.advanced]
    exact hdot
  have hgrows : Grows (fun n : TypeName => do
      if ← eatMark "." then return some (n.dot (← anyWord)) else return none) s 0
      (.simple name.text) p.advanced (.simple name.text) p.advanced :=
    .stop (by simp [eatMark_of_ne hnext])
  rw [dottedName, bind_run, anyWord_of hat.token]
  exact hgrows.grow (Nat.zero_le _)

/-- A quoted type is read. -/
theorem reads_quoted (ph : Phrases) (q : Quoted) : Reads (primaryType ph) (.quoted q) itemEnds := by
  constructor
  intro s p rest pos hs hp hrest
  have hat := hp.at (scanToken_quoted q rest)
  have hreaches : Reaches p p.advanced pos _ _ rest := .token hat
  refine ⟨finished p.mark (.literal q.text) p.advanced, p.advanced, ?_, hreaches,
    hreaches.text_written hp _, fun _ _ h => by cases h⟩
  simp [primaryType, hat.token]

/-- No type arguments follow. -/
theorem typeArgs?_of_ne (ph : Phrases) (hp : p.current.onNewLine = true ∨
      p.current.token ≠ .mark "<" ∧ p.current.token ≠ .mark "<<") :
    typeArgs? ph s p = some ([], p) := by
  cases hline : p.current.onNewLine with
  | true => simp [typeArgs?, hline]
  | false =>
    obtain ⟨hangle, hangles⟩ := hp.resolve_left (by rw [hline]; exact Bool.false_ne_true)
    simp [typeArgs?, hline, splitAngle_of_ne hangles, hangle]

/-- Type arguments that follow on the same line are read. -/
theorem typeArgs?_of {q : Progress} {args : List TypeExpr} (hline : p.current.onNewLine = false)
    (hopen : p.current.token = .mark "<") (h : typeArgs ph s p = some (args, q)) :
    typeArgs? ph s p = some (args, q) := by
  have hangles : p.current.token ≠ .mark "<<" := by
    rw [hopen]
    decide
  simp [typeArgs?, hline, splitAngle_of_ne hangles, hopen, h]

/-- A reference is a name with its type arguments. -/
theorem reference_of {q q' : Progress} {name : TypeName} {args : List TypeExpr}
    (hname : dottedName s p = some (name, q))
    (hargs : typeArgs? ph s { q with names := name :: q.names } = some (args, q')) :
    reference ph s p = some (finished p.mark (.reference name args) q', q') := by
  simp [reference, hname, hargs]

/-- A name is read as a reference. -/
theorem reads_reference (ph : Phrases) (name : Word) :
    Reads (reference ph) (.word name) itemEnds := by
  constructor
  intro s p rest pos hs hp hrest
  have hat := hp.at (scanToken_word name hrest.apart)
  have hreaches : Reaches p p.advanced pos _ _ rest := .token hat
  have hname := dottedName_word (s := s) hp hrest.apart (hrest.ne_mark (by decide) _)
  have hnoted := hreaches.noteName (.simple name.text)
  have hargs := typeArgs?_of_ne ph (s := s)
    (p := { p.advanced with names := .simple name.text :: p.advanced.names })
    (.inr ⟨by rw [hat.advanced]; exact hrest.ne_mark (by decide) _,
      by rw [hat.advanced]; exact hrest.ne_mark (by decide) _⟩)
  exact ⟨_, _, reference_of hname hargs, hnoted, hnoted.text_written hp _,
    fun _ _ h => by cases h⟩

/-- A token that stands for a type by itself. -/
theorem reads_single {name : Word} {r : Reader TypeExpr} (form : TypeForm)
    (h : ∀ s p, p.current.token = .word name.text →
      (∃ rest pos, p.advanced.current = nextLexeme ⟨rest, pos⟩ ∧ Followed itemEnds rest) →
      r s p = some (finished p.mark form p.advanced, p.advanced)) :
    Reads r (.word name) itemEnds := by
  constructor
  intro s p rest pos hs hp hrest
  have hat := hp.at (scanToken_word name hrest.apart)
  have hreaches : Reaches p p.advanced pos _ _ rest := .token hat
  exact ⟨_, _, h s p hat.token ⟨rest, _, hreaches.current, hrest⟩, hreaches,
    hreaches.text_written hp _, fun _ _ h => by cases h⟩

/-- A name that is no word of the grammar is read as a reference. -/
theorem primaryType_name {name : String} (hname : name ∉ otherWords) (hplain : name ∉ plainWords)
    (hp : p.current.token = .word name) : primaryType ph s p = reference ph s p := by
  simp only [otherWords, List.mem_cons, List.not_mem_nil, or_false, not_or] at hname
  obtain ⟨-, -, -, -, hthis, htypeof, himport, hasserts, -, -⟩ := hname
  simp only [plainWords, List.mem_append, List.mem_cons, List.not_mem_nil, or_false,
    not_or] at hplain
  obtain ⟨⟨hnull, hvoid, htrue, hfalse⟩, hkeyword⟩ := hplain
  simp [primaryType, hp, hkeyword, hnull, hvoid, htrue, hfalse, hthis, htypeof, himport, hasserts]

/-- A word is read. -/
theorem reads_word (ph : Phrases) {name : Word} (hname : name.text ∉ otherWords) :
    Reads (primaryType ph) (.word name) itemEnds := by
  by_cases hkeyword : name.text ∈ keywordTypes
  · refine reads_single (.keyword name.text) fun s p htoken ⟨rest, pos, hnext, hrest⟩ => ?_
    have hdot := hrest.ne_mark (m := ".") (by decide) pos
    rw [← hnext] at hdot
    simp [primaryType, htoken, hkeyword, hdot]
  by_cases hnull : name.text = "null" ∨ name.text = "void"
  · refine reads_single (.keyword name.text) fun s p htoken _ => ?_
    simp [primaryType, htoken, hkeyword, hnull]
  by_cases htrue : name.text = "true" ∨ name.text = "false"
  · refine reads_single .other fun s p htoken _ => ?_
    simp [primaryType, htoken, hkeyword, hnull, htrue]
  · have hplain : name.text ∉ plainWords := by
      simp only [plainWords, List.mem_append, List.mem_cons, List.not_mem_nil, or_false]
      rintro ((h | h | h | h) | h)
      · exact hnull (.inl h)
      · exact hnull (.inr h)
      · exact htrue (.inl h)
      · exact htrue (.inr h)
      · exact hkeyword h
    constructor
    intro s p rest pos hs hp hrest
    have hat := hp.at (scanToken_word name hrest.apart)
    rw [primaryType_name hname hplain hat.token]
    exact (reads_reference ph name).run hs hp hrest

/-- The number of types. -/
def More.length : More → Nat
  | .nil => 0
  | .cons _ _ _ more => more.length + 1

/-- A type is followed by a comma or the closing angle. -/
theorem followed_args (more : More) (last : Gaps) (rest : List Char) :
    Followed typeEnds (more.chars ',' ++ (last.chars ++ '>' :: rest)) := by
  cases more with
  | nil => exact .mark last (by decide) (lone_of_mem (by decide) _) (by decide)
  | cons before behind next more =>
    have h : Followed typeEnds (before.chars ++ ',' :: (behind.chars ++
        (next.chars ++ more.chars ',') ++ (last.chars ++ '>' :: rest))) :=
      .mark before (by decide) (lone_of_mem (by decide) _) (by decide)
    simpa [More.chars] using h

/-- Type arguments are collected up to the closing angle. -/
theorem collects_args (item : Reader TypeExpr) (hs : s.typed = true) {last : Gaps} :
    ∀ {more : More} {first : Written} {q : Progress} {cs out : List Char} {gaps : Gaps},
      Reads item first typeEnds → more.All (Reads item · typeEnds) → first.Fits → more.Fits →
      Reaches p q pos cs out
        (gaps.chars ++ (first.chars ++ (more.chars ',' ++ (last.chars ++ '>' :: rest)))) →
      ∃ as q', as.length = more.length + 1 ∧ Collects (listed ">" item) s q as q' ∧
        Reaches p q' pos (cs ++ (gaps.chars ++ (first.chars ++ more.chars ',')))
          (out ++ (gaps.chars ++ (first.spliced ++ more.spliced ','))) (last.chars ++ '>' :: rest)
  | .nil, first, q, cs, out, gaps, hfirst, _, hfits, _, h => by
    have hend := followed_args .nil last rest
    obtain ⟨t, q', hread, -, hreaches⟩ := h.then_type hfirst hs hend
    have hstart := (h.startsPlainType hfits hend.apart).ne_mark (m := ">") (by decide)
    obtain ⟨hclose, -⟩ := Reaches.then_mark hreaches (by decide) (lone_of_mem (by decide) _)
    refine ⟨[t], q', rfl, .cons (listed_last hstart hread hclose) (.nil (listed_close hclose)), ?_⟩
    simpa [More.chars, More.spliced] using hreaches
  | .cons before behind next more, first, q, cs, out, gaps, hfirst, ⟨hnext, hmore⟩, hfits,
      ⟨hfits', hfitsMore⟩, h => by
    have hend := followed_args (.cons before behind next more) last rest
    obtain ⟨t, q', hread, -, hreaches⟩ := h.then_type hfirst hs hend
    have hstart := (h.startsPlainType hfits hend.apart).ne_mark (m := ">") (by decide)
    have hrest : (More.cons before behind next more).chars ',' ++ (last.chars ++ '>' :: rest) =
        before.chars ++ ',' :: (behind.chars ++ (next.chars ++ (more.chars ',' ++
          (last.chars ++ '>' :: rest)))) := by
      simp [More.chars]
    rw [hrest] at hreaches
    obtain ⟨hcomma, hbehind⟩ := hreaches.then_mark (by decide) (lone_of_mem (by decide) _)
    obtain ⟨as, q'', hlength, hcollects, hall⟩ :=
      collects_args item hs hnext hmore hfits' hfitsMore hbehind
    refine ⟨t :: as, q'', congrArg (· + 1) hlength,
      .cons (listed_comma (by decide) hstart hread hcomma) hcollects, ?_⟩
    simpa [More.chars, More.spliced] using hall

/-! ## Type arguments -/

/-- More type arguments take more characters. -/
theorem More.length_le (mark : Char) (more : More) :
    more.length ≤ (more.chars mark).length := by
  cases more with
  | nil => exact Nat.le_refl 0
  | cons before behind next more =>
    have h := more.length_le mark
    simp only [length, chars, List.length_append, List.length_cons]
    omega

/-- A type is read alike where an `extends` may follow. -/
theorem Reads.withPlainTypes {r : Reader TypeExpr} {w : Written} {marks : List String}
    (h : Reads r w marks) (plain : Bool) : Reads (withPlainTypes plain r) w marks := by
  constructor
  intro s p rest pos hs hp hrest
  exact h.run (s := { s with plainTypes := plain }) hs hp hrest

/-- Type arguments are read in their angles. -/
theorem typeArgs_run {q : Progress} {cs out : List Char} {before inside last : Gaps}
    {first : Written} {more : More} (hs : s.typed = true)
    (hfirst : Reads ph.type first typeEnds) (hmore : more.All (Reads ph.type · typeEnds))
    (hfitsFirst : first.Fits) (hfitsMore : more.Fits)
    (h : Reaches p q pos cs out (before.chars ++ '<' :: (inside.chars ++ (first.chars ++
      (more.chars ',' ++ (last.chars ++ '>' :: rest)))))) :
    q.current.token = .mark "<" ∧ ∃ as q', typeArgs ph s q = some (as, q') ∧
      Reaches p q' pos
        (cs ++ (before.chars ++ '<' :: (inside.chars ++
          (first.chars ++ (more.chars ',' ++ (last.chars ++ ['>']))))))
        (out ++ (before.chars ++ '<' :: (inside.chars ++
          (first.spliced ++ (more.spliced ',' ++ (last.chars ++ ['>'])))))) rest := by
  have hlone : Lone '<' (inside.chars ++ (first.chars ++ (more.chars ',' ++
      (last.chars ++ '>' :: rest)))) :=
    (Calm.gaps _ fun _ => first.calm _).lone '<'
  obtain ⟨hopen, hinside⟩ := h.then_mark (by decide) hlone
  obtain ⟨as, q', hlength, hcollects, hlist⟩ :=
    collects_args (Grammar.withPlainTypes false ph.type) hs (hfirst.withPlainTypes false)
      (hmore.imp fun w hw => hw.withPlainTypes false) hfitsFirst hfitsMore hinside
  obtain ⟨hclose, hall⟩ := hlist.then_mark (by decide) (lone_of_mem (by decide) _)
  have hfuel : as.length ≤ q.advanced.current.here.rest.length := by
    obtain ⟨c, cs', hchars, -⟩ := first.exists_start
    have hle := more.length_le ','
    rw [(hinside.standsAt (first.solid _)).here, hlength]
    simp only [hchars, List.length_append, List.length_cons]
    omega
  refine ⟨hopen, as, q'.advanced, ?_, ?_⟩
  · have hangles : q.current.token ≠ .mark "<<" := by
      rw [hopen]
      decide
    simp [typeArgs, splitAngle_of_ne hangles, expectMark_of hopen, commaSeparated_eq,
      hcollects.collect hfuel, expectMark_of hclose]
  · simpa using hall

/-- A type with type arguments is read. -/
theorem reads_applied {name : Word} {before inside last : Gaps} {first : Written} {more : More}
    (hfits : (Written.applied name before inside first more last).Fits)
    (hfirst : Reads ph.type first typeEnds) (hmore : more.All (Reads ph.type · typeEnds)) :
    Reads (primaryType ph) (.applied name before inside first more last) itemEnds := by
  constructor
  intro s p rest pos hs hp hrest
  obtain ⟨hname, hplain, hbreaks, hfitsFirst, hfitsMore⟩ := hfits
  have hchars : (Written.applied name before inside first more last).chars ++ rest =
      name.chars ++ (before.chars ++ '<' :: (inside.chars ++ (first.chars ++ (more.chars ',' ++
        (last.chars ++ '>' :: rest))))) := by
    simp [Written.chars]
  have happly := hp
  rw [hchars] at happly
  have hsolid := solid_mark (c := '<') (by decide) (inside.chars ++ (first.chars ++
    (more.chars ',' ++ (last.chars ++ '>' :: rest))))
  have hapart := Apart.gaps before fun _ => hsolid.2
  have hat := happly.at (scanToken_word name hapart)
  have hnoted := (Reaches.token hat).noteName (.simple name.text)
  have hline := hnoted.onNewLine hsolid.1
  obtain ⟨hopen, as, q, hargs, hall⟩ := typeArgs_run hs hfirst hmore hfitsFirst hfitsMore hnoted
  have hdot : (nextLexeme ⟨before.chars ++ '<' :: (inside.chars ++ (first.chars ++
      (more.chars ',' ++ (last.chars ++ '>' :: rest)))), pos + byteSize name.chars⟩).token ≠
      .mark "." := by
    rw [← hnoted.current, hopen]
    decide
  have hdotted := dottedName_word (s := s) happly hapart hdot
  have hread := reference_of hdotted (typeArgs?_of (hline.trans hbreaks) hopen hargs)
  exact ⟨_, q, (primaryType_name hname hplain hat.token).trans hread, hall,
    hall.text_written hp _, fun _ _ h => by cases h⟩

/-! ## Brackets behind a type -/

/-- No brackets follow. -/
theorem typeSuffix_none {m : Mark} (h : p.current.onNewLine = true ∨
      ∀ mark ∈ ["!", "?", "["], p.current.token ≠ .mark mark) :
    typeSuffix ph m s p = some (none, p) := by
  cases hline : p.current.onNewLine with
  | true => simp [typeSuffix, hline]
  | false =>
    have hne := h.resolve_left (by rw [hline]; exact Bool.false_ne_true)
    cases htoken : p.current.token with
    | mark mark =>
      have hmark : ∀ m' ∈ ["!", "?", "["], mark ≠ m' := by
        rintro m' hm' rfl
        exact hne mark hm' htoken
      simp [typeSuffix, hline, htoken, hmark "!" (by decide), hmark "?" (by decide),
        hmark "[" (by decide)]
    | _ => simp [typeSuffix, hline, htoken]

/-- Brackets on the same line are read. -/
theorem Reaches.then_suffix (ph : Phrases) {q : Progress} {cs out : List Char} {b : Suffix}
    (h : Reaches p q pos cs out (b.chars ++ rest)) (hb : b.before.breaks = false) :
    ∃ q', typeSuffix ph p.mark s q = some (some (finished p.mark .other q'), q') ∧
      Reaches p q' pos (cs ++ b.chars) (out ++ b.chars) rest := by
  have hchars : b.chars ++ rest = b.before.chars ++ '[' :: (b.inside.chars ++ ']' :: rest) := by
    simp [Suffix.chars]
  rw [hchars] at h
  have hline := h.onNewLine (solid_mark (by decide) _).1
  obtain ⟨hopen, hinside⟩ := h.then_mark (by decide) (lone_of_mem (by decide) _)
  obtain ⟨hclose, hall⟩ := hinside.then_mark (by decide) (lone_of_mem (by decide) _)
  refine ⟨q.advanced.advanced, ?_, ?_⟩
  · simp [typeSuffix, hline, hb, hopen, hclose, expectMark_of hclose]
  · simpa [Suffix.chars] using hall

/-- A type grows by the brackets behind it. -/
theorem grows_suffixes (ph : Phrases) (hrest : Followed partEnds rest) :
    ∀ (suffixes : List Suffix) {q : Progress} {cs out : List Char} {t : TypeExpr},
      (∀ b ∈ suffixes, b.before.breaks = false) →
      Reaches p q pos cs out (suffixChars suffixes ++ rest) →
      ∃ t' q', Grows (fun _ => typeSuffix ph p.mark) s suffixes.length t q t' q' ∧
        Reaches p q' pos (cs ++ suffixChars suffixes) (out ++ suffixChars suffixes) rest ∧
        (suffixes = [] ∧ t' = t ∧ q' = q ∨ suffixes ≠ [] ∧ t' = finished p.mark .other q')
  | [], q, cs, out, t, _, h => by
    have hnone : typeSuffix ph p.mark s q = some (none, q) := by
      refine typeSuffix_none (.inr fun mark hmark => ?_)
      have hout : mark ∉ partEnds := not_mem_of_all_not (by decide) hmark
      rw [h.current]
      exact hrest.ne_mark hout _
    exact ⟨t, q, .stop hnone, by simpa [suffixChars] using h, .inl ⟨rfl, rfl, rfl⟩⟩
  | b :: suffixes, q, cs, out, t, hbreaks, h => by
    obtain ⟨hb, hbreaks⟩ := List.forall_mem_cons.1 hbreaks
    have hchars : suffixChars (b :: suffixes) = b.chars ++ suffixChars suffixes :=
      List.flatMap_cons
    rw [hchars, List.append_assoc] at h
    obtain ⟨q', hread, hreaches⟩ := h.then_suffix ph (s := s) hb
    obtain ⟨t', q'', hgrows, hall, hlast⟩ := grows_suffixes ph hrest suffixes
      (t := finished p.mark .other q') hbreaks hreaches
    refine ⟨t', q'', .go hread hgrows, ?_, .inr ⟨List.cons_ne_nil b suffixes, ?_⟩⟩
    · rw [hchars, ← List.append_assoc, ← List.append_assoc]
      exact hall
    · rcases hlast with ⟨-, rfl, rfl⟩ | ⟨-, ht⟩
      · rfl
      · exact ht

/-- More brackets take more characters. -/
theorem length_suffixChars (suffixes : List Suffix) :
    2 * suffixes.length ≤ (suffixChars suffixes).length := by
  induction suffixes with
  | nil => exact Nat.le_refl 0
  | cons b suffixes ih =>
    rw [suffixChars, List.flatMap_cons, List.length_append, List.length_cons]
    rw [suffixChars] at ih
    simp only [Suffix.chars, List.length_append, List.length_cons]
    omega

/-- A primary type is read with the brackets behind it. -/
theorem suffixedType_run {t : TypeExpr} {q : Progress} {cs out : List Char}
    (suffixes : List Suffix) (hprimary : primaryType ph s p = some (t, q))
    (h : Reaches p q pos cs out (suffixChars suffixes ++ rest))
    (hbreaks : ∀ b ∈ suffixes, b.before.breaks = false) (hrest : Followed partEnds rest) :
    ∃ t' q', suffixedType ph s p = some (t', q') ∧
      Reaches p q' pos (cs ++ suffixChars suffixes) (out ++ suffixChars suffixes) rest ∧
      (suffixes = [] ∧ t' = t ∧ q' = q ∨ suffixes ≠ [] ∧ t' = finished p.mark .other q') := by
  obtain ⟨t', q', hgrows, hall, hlast⟩ :=
    grows_suffixes ph (s := s) hrest suffixes (t := t) hbreaks h
  have hfuel : suffixes.length ≤ q.current.here.rest.length := by
    cases suffixes with
    | nil => exact Nat.zero_le _
    | cons b suffixes =>
      have hchars : suffixChars (b :: suffixes) ++ rest =
          b.before.chars ++ '[' :: (b.inside.chars ++ ']' :: (suffixChars suffixes ++ rest)) := by
        simp [suffixChars, Suffix.chars]
      have hlength := length_suffixChars suffixes
      rw [hchars] at h
      rw [(h.standsAt (solid_mark (by decide) _).1).here]
      simp only [List.length_cons, List.length_append]
      omega
  refine ⟨t', q', ?_, hall, hlast⟩
  rw [suffixedType, bind_run, mark_run]
  simp [hprimary, hgrows.grow hfuel]

/-- A primary type is read where no brackets follow. -/
theorem Reads.suffixed {w : Written} (h : Reads (primaryType ph) w itemEnds) :
    Reads (suffixedType ph) w partEnds := by
  constructor
  intro s p rest pos hs hp hrest
  obtain ⟨t, q, hread, hreaches, hdescribes⟩ :=
    h.run hs hp (hrest.mono (List.subset_cons_self _ _))
  obtain ⟨t', q', hsuffixed, hall, ⟨-, rfl, rfl⟩ | ⟨hne, -⟩⟩ :=
    suffixedType_run [] hread hreaches (fun b hb => (List.not_mem_nil hb).elim) hrest
  · exact ⟨t', q', hsuffixed, hreaches, hdescribes⟩
  · exact (hne rfl).elim

/-- A type with brackets is read. -/
theorem reads_array {item : Written} {suffixes : List Suffix}
    (hfits : (Written.array item suffixes).Fits) (hitem : Reads (primaryType ph) item itemEnds) :
    Reads (suffixedType ph) (.array item suffixes) partEnds := by
  obtain ⟨-, hbreaks, hne, -⟩ := hfits
  constructor
  intro s p rest pos hs hp hrest
  have hp' := hp
  rw [Written.chars, List.append_assoc] at hp'
  have hfollowed : Followed itemEnds (suffixChars suffixes ++ rest) := by
    obtain ⟨b, suffixes, rfl⟩ := List.exists_cons_of_ne_nil hne
    have hmark : Followed itemEnds
        (b.before.chars ++ '[' :: (b.inside.chars ++ [']'] ++ suffixChars suffixes ++ rest)) :=
      .mark b.before (by decide) (lone_of_mem (by decide) _) (by decide)
    simpa [suffixChars, Suffix.chars] using hmark
  obtain ⟨t, q, hread, hreaches, -⟩ := hitem.run hs hp' hfollowed
  obtain ⟨t', q', hsuffixed, hall, ⟨hnil, -⟩ | ⟨-, rfl⟩⟩ :=
    suffixedType_run suffixes hread hreaches hbreaks hrest
  · exact (hne hnil).elim
  · exact ⟨_, q', hsuffixed, hall, hall.text_written hp _, fun _ _ h => by cases h⟩

end

end IpcWiring.Script
