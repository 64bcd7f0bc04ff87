import IpcWiring.Proofs.Script.Unions

/-!
# Keys of properties

The word in front of a property is a key or the modifier `readonly`, and what stands behind it tells
which one: a key ends with a mark, with the literal or with its line (`EndsKey`). A property is read
as a signature once its type is (`Reaches.then_head`), and it ends with its separator or its line
(`Reaches.then_stop`).
-/

namespace IpcWiring.Script

open Reader Grammar

/-! ## Keys -/

/-- The marks behind a key without a question mark. -/
def keyEnds : List String := ":" :: typeEnds

/-- What is next ends a key of this name: it is no type parameter or parameter list, and does not
make a modifier of the name. -/
def EndsKey (name : String) (q : Progress) : Prop :=
  (∃ m ∈ "?" :: keyEnds, q.current.token = .mark m) ∨ q.current.token = .stop ∨
    q.current.onNewLine = true ∧ (∀ m, q.current.token ≠ .mark m) ∧
      name ∉ ["static", "get", "set"]

section

variable {s : Setting} {p q : Progress} {name word : String}

/-- No other mark ends a key. -/
theorem EndsKey.ne_mark (h : EndsKey name q) {m : String} (hm : m ∉ "?" :: keyEnds) :
    q.current.token ≠ .mark m := by
  intro htoken
  rcases h with ⟨m', hm', heq⟩ | hstop | ⟨-, hne, -⟩
  · obtain rfl := Token.mark.inj (heq.symm.trans htoken)
    exact hm hm'
  · cases hstop.symm.trans htoken
  · exact hne m htoken

/-- A key is no modifier. -/
theorem modifies_false (h : p.current.token = .word word → EndsKey word p.advanced) :
    modifies word s p = some (false, p) := by
  by_cases hword : p.current.token = .word word
  · rcases h hword with ⟨m, hm, htoken⟩ | htoken | ⟨hline, -, hname⟩
    · have hnot : m ∉ ["[", "\x7b", "*", "..."] := not_mem_of_all_not (by decide) hm
      simp only [List.mem_cons, List.not_mem_nil, or_false, not_or] at hnot
      simp [modifies, eatWord_of hword, atModified, isPropertyName, htoken, hnot]
    · simp [modifies, eatWord_of hword, atModified, isPropertyName, htoken]
    · simp only [List.mem_cons, List.not_mem_nil, or_false, not_or] at hname
      simp [modifies, eatWord_of hword, hline, hname, atModified]
  · simp [modifies, eatWord_of_ne hword]

/-- No modifier stands in front of a key. -/
theorem modifier?_none (h : ∀ word, p.current.token = .word word → EndsKey word p.advanced) :
    modifier? s p = some (none, p) := by
  cases htoken : p.current.token with
  | word word =>
    have hmodifies := modifies_false (s := s) (h word)
    by_cases hword : word ∈ modifierWords
    · simp [modifier?, htoken, hword, hmodifies]
    · simp [modifier?, htoken, hword]
  | _ => simp [modifier?, htoken]

/-- The word `readonly` is a modifier of a name on its line. -/
theorem modifier?_readonly (hp : p.current.token = .word "readonly")
    (hline : p.advanced.current.onNewLine = false)
    (hname : isPropertyName p.advanced.current.token = true) :
    modifier? s p = some (some "readonly", p.advanced) := by
  have hword : "readonly" ∈ modifierWords := by decide
  have hmodifies : modifies "readonly" s p = some (true, p) := by
    simp [modifies, eatWord_of hp, hline, atModified, hname]
  simp [modifier?, hp, hword, hmodifies]

/-- A member that starts with a key, perhaps behind modifiers, is a property. -/
theorem signature_run {ph : Phrases} {words : List String}
    (hopen : ∀ m ∈ ["(", "<"], p.current.token ≠ .mark m)
    (hnew : p.current.token = .word "new" → ∀ m ∈ ["(", "<"], p.advanced.current.token ≠ .mark m)
    (hwords : modifiers s p = some (words, q))
    (hends : ∀ word, q.current.token = .word word → EndsKey word q.advanced)
    (hbracket : q.current.token ≠ .mark "[") :
    signature ph s p = property ph p.mark (words.contains "readonly") s q := by
  have hindex : atIndexSignature s q = some (false, q) := by
    simp [atIndexSignature, expectMark_of_ne hbracket]
  have hget := modifies_false (s := s) (hends "get")
  have hset := modifies_false (s := s) (hends "set")
  have hparen := hopen "(" (by decide)
  have hangle := hopen "<" (by decide)
  by_cases hword : p.current.token = .word "new"
  · have hparen' := hnew hword "(" (by decide)
    have hangle' := hnew hword "<" (by decide)
    simp [signature, expectWord, eatWord_of hword, hword, hparen', hangle', hwords, hget, hset,
      hindex]
  · simp [signature, expectWord_of_ne hword, hparen, hangle, hwords, hget, hset, hindex]

end

/-- The token of a key. -/
def Head.keyToken (h : Head) : Token :=
  match h.quotes? with
  | none => .word h.name.text
  | some _ => .string h.name.text

section

variable {ph : Phrases} {s : Setting} {p q : Progress} {pos : Nat} {cs out rest : List Char}

/-- A key is scanned where no name goes on. -/
theorem Head.scans_key (h : Head) (hrest : Apart rest) : Scans h.keyChars rest h.keyToken := by
  rw [keyChars, keyToken]
  cases h.quotes? with
  | none => exact scanToken_word h.name hrest
  | some double => exact scanToken_quoted _ rest

/-- A key is no gap. -/
theorem Head.solid_key (h : Head) (rest : List Char) : Solid (h.keyChars ++ rest) := by
  rw [keyChars]
  cases h.quotes? with
  | none => exact (Written.word h.name).solid rest
  | some double => exact (Written.quoted (quotedName h.name double)).solid rest

/-- The key of a property is read by its name. -/
theorem Head.propertyKey_run (ph : Phrases) (s : Setting) {h : Head}
    (hp : p.current.token = h.keyToken) :
    ∃ key, propertyKey ph s p = some (key, p.advanced) ∧ key.name? = some h.name.text ∧
      key.computed = false := by
  have hplain : ∀ m, ∃ text, plainTextSince m s p.advanced = some (text, p.advanced) :=
    fun m => ⟨_, rfl⟩
  obtain ⟨text, htext⟩ := hplain p.mark
  refine ⟨⟨some h.name.text, false, text⟩, ?_, rfl, rfl⟩
  rw [keyToken] at hp
  cases hquotes : h.quotes? with
  | none =>
    rw [hquotes] at hp
    simp [propertyKey, hp, htext]
  | some double =>
    rw [hquotes] at hp
    simp [propertyKey, hp, htext]

/-- A property is read by its key, its question mark, its type and its separator. -/
theorem Head.property_run {h : Head} {m : Mark} {readonly optional : Bool} {type? : Option TypeExpr}
    {q' q'' : Progress} (hp : p.current.token = h.keyToken)
    (hoptional : eatMark "?" s p.advanced = some (optional, q))
    (hopen : ∀ m ∈ ["(", "<"], q.current.token ≠ .mark m)
    (htype : annotation? ph s q = some (type?, q')) (hend : memberEnd s q' = some ((), q'')) :
    property ph m readonly s p =
      some (⟨(if readonly then "readonly " else "") ++ h.name.text ++
          (if optional then "?" else "") ++ ": " ++ (type?.map (·.text)).getD "any",
        some ⟨h.name.text, optional, orAny m type?, m.here.pos⟩, false⟩, q'') := by
  obtain ⟨key, hkey, hname, hcomputed⟩ := h.propertyKey_run ph s hp
  have hparen := hopen "(" (by decide)
  have hangle := hopen "<" (by decide)
  simp [property, hkey, hoptional, hparen, hangle, htype, hend, hname, hcomputed]

/-! ## What follows a property -/

/-- What stands behind a key does not go on with it. -/
theorem apart_optionalChars (hrest : Apart rest) (optional? : Option Gaps) :
    Apart (Head.optionalChars optional? ++ rest) := by
  cases optional? with
  | none => exact hrest
  | some before =>
    have hmark := (solid_mark (c := '?') (by decide) rest).2
    simpa [Head.optionalChars] using Apart.gaps before fun _ => hmark

/-- A property starts with a word or a quoted name. -/
theorem Head.start (h : Head) (hfits : h.Fits) (hrest : Apart rest) :
    Solid (h.chars ++ rest) ∧ ∀ m, (scanToken (h.chars ++ rest)).1 ≠ .mark m := by
  have hkey := apart_optionalChars hrest h.optional?
  have hscans := h.scans_key hkey
  cases hreadonly : h.readonly? with
  | none =>
    have hchars : h.chars ++ rest = h.keyChars ++ (optionalChars h.optional? ++ rest) := by
      simp [chars, hreadonly, readonlyChars]
    refine ⟨by rw [hchars]; exact h.solid_key _, fun m => ?_⟩
    rw [hchars, hscans, keyToken]
    cases h.quotes? <;> exact Token.noConfusion
  | some behind =>
    obtain ⟨hne, -⟩ := hfits behind hreadonly
    have hchars : h.chars ++ rest = Word.readonly.chars ++ (behind.chars ++
        (h.keyChars ++ (optionalChars h.optional? ++ rest))) := by
      simp [chars, hreadonly, readonlyChars]
    rw [hchars]
    refine ⟨(Written.word Word.readonly).solid _, fun m => ?_⟩
    rw [scanToken_word Word.readonly (Apart.gaps _ fun hnil => (hne hnil).elim)]
    exact Token.noConfusion

/-- A mark that goes on with no mark. -/
theorem calm_mark {c : Char} (hc : c ∈ ['\x7b', '\x7d', '[', ']', ',', ';', ':'])
    (rest : List Char) : Calm (c :: rest) := by
  intro d hd
  obtain rfl := Option.some.inj hd
  exact not_mem_of_all_not (by decide) hc

/-- What stands behind a property goes on with no word and no mark. -/
theorem apart_stop {stop? : Option Stop} {fields : Fields}
    (hline : stop? = none → fields.StartsLine) (last : Gaps) (rest : List Char) :
    Apart (stopChars stop? ++ (fields.chars ++ (last.chars ++ '\x7d' :: rest))) ∧
      Calm (stopChars stop? ++ (fields.chars ++ (last.chars ++ '\x7d' :: rest))) := by
  have hgaps : ∀ {gaps : Gaps} {behind : List Char}, gaps.breaks = true →
      Apart (gaps.chars ++ behind) ∧ Calm (gaps.chars ++ behind) := by
    intro gaps behind hbreaks
    have hne : gaps ≠ [] := by
      rintro rfl
      cases hbreaks
    exact ⟨Apart.gaps _ fun hnil => (hne hnil).elim, Calm.gaps _ fun hnil => (hne hnil).elim⟩
  cases stop? with
  | some stop =>
    have hmark : ∀ {c : Char} {behind : List Char}, c ∈ [',', ';'] →
        Apart (stop.before.chars ++ c :: behind) ∧ Calm (stop.before.chars ++ c :: behind) := by
      intro c behind hc
      refine ⟨Apart.gaps _ fun _ => (solid_mark ?_ behind).2,
        Calm.gaps _ fun _ => calm_mark ?_ behind⟩
      · simp only [List.mem_cons, List.not_mem_nil, or_false] at hc
        rcases hc with rfl | rfl <;> decide
      · simp only [List.mem_cons, List.not_mem_nil, or_false] at hc
        rcases hc with rfl | rfl <;> decide
    obtain ⟨before, comma⟩ := stop
    cases comma with
    | true => simpa [stopChars] using hmark (c := ',') (by decide)
    | false => simpa [stopChars] using hmark (c := ';') (by decide)
  | none =>
    rw [stopChars, List.nil_append]
    cases fields with
    | nil =>
      exact ⟨Apart.gaps _ fun _ => (solid_mark (by decide) rest).2,
        Calm.gaps _ fun _ => calm_mark (by decide) rest⟩
    | typed | bare =>
      simp only [Fields.chars, List.append_assoc]
      exact hgaps (hline rfl)

/-- What starts on a new line, or closes the literal, ends a property. -/
theorem followed_fields {fields : Fields} (hline : fields.StartsLine) (hfits : fields.Fits)
    (last : Gaps) : Followed ["\x7d"] (fields.chars ++ (last.chars ++ '\x7d' :: rest)) := by
  cases fields with
  | nil => exact .mark last (by decide) (lone_of_mem (by decide) _) (by decide)
  | typed lead head colon behind bar? type stop? more =>
    have hcolon := (solid_mark (c := ':') (by decide) (behind.chars ++ (barChars bar? ++
      (type.chars ++ (stopChars stop? ++ more.chars))) ++ (last.chars ++ '\x7d' :: rest))).2
    have hstart := head.start hfits.1 (Apart.gaps colon fun _ => hcolon)
    have h : Followed ["\x7d"] (lead.chars ++ _) := .line hline hstart.1 hstart.2
    simpa [Fields.chars] using h
  | bare lead head stop? more =>
    have hstop := (apart_stop (fun h => (hfits.2.1 h).1) last rest).1
    have hstart := head.start hfits.1 hstop
    have h : Followed ["\x7d"] (lead.chars ++ _) := .line hline hstart.1 hstart.2
    simpa [Fields.chars] using h

/-- A separator is next behind its gaps. -/
theorem nextLexeme_stop (stop : Stop) (rest : List Char) (pos : Nat) :
    ∃ m ∈ [",", ";"], (nextLexeme ⟨stopChars (some stop) ++ rest, pos⟩).token = .mark m := by
  obtain ⟨before, comma⟩ := stop
  cases comma with
  | true =>
    have h := nextLexeme_mark before (c := ',') (by decide) (lone_of_mem (by decide) rest) pos
    exact ⟨",", by decide, by simpa [stopChars] using h⟩
  | false =>
    have h := nextLexeme_mark before (c := ';') (by decide) (lone_of_mem (by decide) rest) pos
    exact ⟨";", by decide, by simpa [stopChars] using h⟩

/-- A property ends with its separator, with the literal, or with its line. -/
theorem followed_stop {stop? : Option Stop} {fields : Fields}
    (hline : stop? = none → fields.StartsLine) (hfits : fields.Fits) (last : Gaps)
    (rest : List Char) :
    Followed typeEnds (stopChars stop? ++ (fields.chars ++ (last.chars ++ '\x7d' :: rest))) := by
  cases stop? with
  | none => exact (followed_fields (hline rfl) hfits last).mono (by decide)
  | some stop =>
    refine ⟨(apart_stop hline last rest).1, fun pos => .inl ?_⟩
    obtain ⟨m, hm, htoken⟩ := nextLexeme_stop stop
      (fields.chars ++ (last.chars ++ '\x7d' :: rest)) pos
    exact ⟨m, List.subset_def.1 (by decide : [",", ";"] ⊆ typeEnds) hm, htoken⟩

/-- The separator of a property is read, if there is one. -/
theorem Reaches.then_stop {stop? : Option Stop} {fields : Fields} {last : Gaps}
    (h : Reaches p q pos cs out
      (stopChars stop? ++ (fields.chars ++ (last.chars ++ '\x7d' :: rest))))
    (hline : stop? = none → fields.StartsLine) (hfits : fields.Fits) :
    ∃ q', memberEnd s q = some ((), q') ∧
      Reaches p q' pos (cs ++ stopChars stop?) (out ++ stopChars stop?)
        (fields.chars ++ (last.chars ++ '\x7d' :: rest)) := by
  cases stop? with
  | none =>
    have hnone : ∀ m, m ≠ "\x7d" → q.current.token ≠ .mark m := by
      intro m hm
      rw [h.current]
      exact (followed_fields (hline rfl) hfits last).ne_mark
        (fun hmem => hm (List.mem_singleton.1 hmem)) _
    refine ⟨q, ?_, by simpa [stopChars] using h⟩
    simp [memberEnd, eatMark_of_ne (hnone "," (by decide)), eatMark_of_ne (hnone ";" (by decide))]
  | some stop =>
    obtain ⟨before, comma⟩ := stop
    cases comma with
    | true =>
      have h' : Reaches p q pos cs out
          (before.chars ++ ',' :: (fields.chars ++ (last.chars ++ '\x7d' :: rest))) := by
        simpa [stopChars] using h
      obtain ⟨hcomma, hreaches⟩ := h'.then_mark (by decide) (lone_of_mem (by decide) _)
      exact ⟨q.advanced, by simp [memberEnd, eatMark_of hcomma], hreaches⟩
    | false =>
      have h' : Reaches p q pos cs out
          (before.chars ++ ';' :: (fields.chars ++ (last.chars ++ '\x7d' :: rest))) := by
        simpa [stopChars] using h
      obtain ⟨hsemicolon, hreaches⟩ := h'.then_mark (by decide) (lone_of_mem (by decide) _)
      have hcomma : q.current.token ≠ .mark "," := by
        rw [hsemicolon]
        decide
      exact ⟨q.advanced, by simp [memberEnd, eatMark_of_ne hcomma, eatMark_of hsemicolon], hreaches⟩

/-- The text ends the head of a property: a colon, a separator, the end of the literal or a new line
is next, and on a new line the name of the head is no modifier. -/
structure EndsHead (head : Head) (rest : List Char) : Prop where
  followed : Followed keyEnds rest
  calm : Calm rest
  alone : head.optional? = none → (∀ pos, ∃ m, (nextLexeme ⟨rest, pos⟩).token = .mark m) ∨
    head.name.text ∉ ["static", "get", "set"]

/-- A colon ends a head. -/
theorem endsHead_colon (head : Head) (colon : Gaps) (rest : List Char) :
    EndsHead head (colon.chars ++ ':' :: rest) where
  followed := .mark colon (by decide) (lone_of_mem (by decide) _) (by decide)
  calm := Calm.gaps _ fun _ => calm_mark (by decide) _
  alone := fun _ => .inl fun pos =>
    ⟨_, nextLexeme_mark colon (by decide) (lone_of_mem (by decide) _) pos⟩

/-- What ends a property without a type ends its head. -/
theorem endsHead_stop {head : Head} {stop? : Option Stop} {fields : Fields}
    (hline : stop? = none → fields.StartsLine ∧ (fields = .nil ∨ head.StandsAlone))
    (hfits : fields.Fits) (last : Gaps) (rest : List Char) :
    EndsHead head (stopChars stop? ++ (fields.chars ++ (last.chars ++ '\x7d' :: rest))) where
  followed := (followed_stop (fun hnone => (hline hnone).1) hfits last rest).mono
    (List.subset_cons_self _ _)
  calm := (apart_stop (fun hnone => (hline hnone).1) last rest).2
  alone := by
    intro hoptional
    cases stop? with
    | some stop =>
      refine .inl fun pos => ?_
      obtain ⟨m, -, htoken⟩ := nextLexeme_stop stop _ pos
      exact ⟨m, htoken⟩
    | none =>
      rcases (hline rfl).2 with rfl | hne | hname
      · exact .inl fun pos =>
          ⟨_, nextLexeme_mark last (c := '\x7d') (by decide) (lone_of_mem (by decide) rest) pos⟩
      · exact (hne hoptional).elim
      · exact .inr hname

/-! ## Properties -/

/-- What follows a key ends it. -/
theorem Reaches.endsKey {head : Head}
    (h : Reaches p q pos cs out (Head.optionalChars head.optional? ++ rest))
    (hrest : EndsHead head rest) : EndsKey head.name.text q := by
  cases hoptional : head.optional? with
  | some before =>
    rw [hoptional] at h
    have h' : Reaches p q pos cs out (before.chars ++ '?' :: rest) := by
      simpa [Head.optionalChars] using h
    exact .inl ⟨"?", by decide, (h'.then_mark (by decide) (hrest.calm.lone '?')).1⟩
  | none =>
    rw [hoptional] at h
    have hcurrent : q.current = nextLexeme ⟨rest, pos + byteSize cs⟩ := h.current
    have hnext := hrest.followed.next (pos + byteSize cs)
    rw [← hcurrent] at hnext
    rcases hnext with ⟨m, hm, htoken⟩ | hstop | ⟨hline, hmark⟩
    · exact .inl ⟨m, List.mem_cons_of_mem _ hm, htoken⟩
    · exact .inr (.inl hstop)
    · refine .inr (.inr ⟨hline, hmark, ?_⟩)
      rcases hrest.alone hoptional with htoken | hname
      · obtain ⟨m, htoken⟩ := htoken (pos + byteSize cs)
        rw [← hcurrent] at htoken
        exact (hmark m htoken).elim
      · exact hname

/-- A question mark is read if there is one. -/
theorem Reaches.then_optional {optional? : Option Gaps}
    (h : Reaches p q pos cs out (Head.optionalChars optional? ++ rest))
    (hrest : Followed keyEnds rest) (hcalm : Calm rest) :
    ∃ q', eatMark "?" s q = some (optional?.isSome, q') ∧
      Reaches p q' pos (cs ++ Head.optionalChars optional?)
        (out ++ Head.optionalChars optional?) rest := by
  cases optional? with
  | none =>
    have hmark : q.current.token ≠ .mark "?" := by
      have hcurrent : q.current = nextLexeme ⟨rest, pos + byteSize cs⟩ := h.current
      rw [hcurrent]
      exact hrest.ne_mark (by decide) _
    exact ⟨q, eatMark_of_ne hmark, by simpa [Head.optionalChars] using h⟩
  | some before =>
    have h' : Reaches p q pos cs out (before.chars ++ '?' :: rest) := by
      simpa [Head.optionalChars] using h
    obtain ⟨hmark, hreaches⟩ := h'.then_mark (by decide) (hcalm.lone '?')
    exact ⟨q.advanced, eatMark_of hmark, hreaches⟩

/-- A parameter list or type parameters end no key. -/
theorem not_mem_ends {m : String} (hm : m ∈ ["(", "<"]) : m ∉ "?" :: keyEnds :=
  not_mem_of_all_not (by decide) hm

/-- The token of a key is no mark. -/
theorem Head.keyToken_ne_mark (h : Head) (m : String) : h.keyToken ≠ .mark m := by
  rw [keyToken]
  cases h.quotes? <;> exact Token.noConfusion

/-- A word that is the token of a key is its name. -/
theorem Head.name_of_keyToken {h : Head} {word : String} (hword : h.keyToken = .word word) :
    word = h.name.text := by
  rw [keyToken] at hword
  cases hquotes : h.quotes? with
  | none =>
    rw [hquotes] at hword
    exact (Token.word.inj hword).symm
  | some double =>
    rw [hquotes] at hword
    cases hword

/-- A key is read with its question mark. -/
theorem Reaches.then_key {head : Head} {gaps : Gaps}
    (h : Reaches p q pos cs out
      (gaps.chars ++ (head.keyChars ++ (Head.optionalChars head.optional? ++ rest))))
    (hrest : EndsHead head rest) :
    q.current.token = head.keyToken ∧ EndsKey head.name.text q.advanced ∧
      ∃ q', eatMark "?" s q.advanced = some (head.optional?.isSome, q') ∧
        (∀ m ∈ ["(", "<"], q'.current.token ≠ .mark m) ∧
        Reaches p q' pos
          (cs ++ (gaps.chars ++ (head.keyChars ++ Head.optionalChars head.optional?)))
          (out ++ (gaps.chars ++ (head.keyChars ++ Head.optionalChars head.optional?))) rest := by
  have hkeyApart := apart_optionalChars hrest.followed.apart head.optional?
  obtain ⟨hkey, hbehind⟩ := h.then_token (head.solid_key _) (head.scans_key hkeyApart)
  obtain ⟨q', hoptional, hreaches⟩ := hbehind.then_optional (s := s) hrest.followed hrest.calm
  refine ⟨hkey, hbehind.endsKey hrest, q', hoptional, fun m hm => ?_, ?_⟩
  · rw [hreaches.current]
    exact hrest.followed.ne_mark (fun hmem => not_mem_ends hm (List.mem_cons_of_mem _ hmem)) _
  · simpa using hreaches

/-- A property is read up to its type. -/
theorem Reaches.then_head (ph : Phrases) (s : Setting) {head : Head} {lead : Gaps}
    (h : Reaches p q pos cs out (lead.chars ++ (head.chars ++ rest))) (hfits : head.Fits)
    (hrest : EndsHead head rest) :
    (∀ word, q.current.token = .word word → q.advanced.current.token ≠ .mark "[") ∧
    ∃ q', Reaches p q' pos (cs ++ (lead.chars ++ head.chars))
        (out ++ (lead.chars ++ head.chars)) rest ∧
      ∀ {type? : Option TypeExpr} {r r' : Progress}, annotation? ph s q' = some (type?, r) →
        memberEnd s r = some ((), r') →
        signature ph s q =
          some (⟨head.part ((type?.map (·.text)).getD "any"),
            some ⟨head.name.text, head.optional?.isSome, orAny q.mark type?, q.mark.here.pos⟩,
            false⟩, r') := by
  have hends : ∀ {q1 : Progress}, q1.current.token = head.keyToken →
      EndsKey head.name.text q1.advanced →
      ∀ word, q1.current.token = .word word → EndsKey word q1.advanced := by
    intro q1 hkey hend word hword
    rwa [head.name_of_keyToken (hkey.symm.trans hword)]
  cases hreadonly : head.readonly? with
  | none =>
    have hchars : head.chars = head.keyChars ++ Head.optionalChars head.optional? := by
      simp [Head.chars, hreadonly, Head.readonlyChars]
    rw [hchars, List.append_assoc] at h
    obtain ⟨hkey, hend, q', hoptional, hopen, hreaches⟩ := h.then_key (s := s) hrest
    have hwords : modifiers s q = some ([], q) :=
      (Collects.nil (modifier?_none (hends hkey hend))).collect (Nat.zero_le _)
    have hnew : q.current.token = .word "new" →
        ∀ m ∈ ["(", "<"], q.advanced.current.token ≠ .mark m :=
      fun hnew m hm => (hends hkey hend _ hnew).ne_mark (not_mem_ends hm)
    refine ⟨fun word hword => (hends hkey hend word hword).ne_mark (by decide),
      q', by rw [hchars]; exact hreaches, fun htype hstop => ?_⟩
    rw [signature_run (fun m _ => by rw [hkey]; exact head.keyToken_ne_mark m) hnew hwords
        (hends hkey hend) (by rw [hkey]; exact head.keyToken_ne_mark _),
      Head.property_run hkey hoptional hopen htype hstop]
    simp [Head.part, hreadonly]
  | some behind =>
    obtain ⟨hne, hbreaks⟩ := hfits behind hreadonly
    have hchars : head.chars = Word.readonly.chars ++ (behind.chars ++
        (head.keyChars ++ Head.optionalChars head.optional?)) := by
      simp [Head.chars, hreadonly, Head.readonlyChars]
    rw [hchars] at h
    simp only [List.append_assoc] at h
    have hapart : Apart (behind.chars ++ (head.keyChars ++
        (Head.optionalChars head.optional? ++ rest))) :=
      Apart.gaps _ fun hnil => (hne hnil).elim
    obtain ⟨hword, hbehind⟩ := h.then_token ((Written.word Word.readonly).solid _)
      (scanToken_word Word.readonly hapart)
    have hline := (hbehind.onNewLine (head.solid_key _)).trans hbreaks
    obtain ⟨hkey, hend, q', hoptional, hopen, hreaches⟩ :=
      hbehind.then_key (s := s) hrest
    have hname : isPropertyName q.advanced.current.token = true := by
      rw [hkey, Head.keyToken]
      cases head.quotes? <;> rfl
    have hwords : modifiers s q = some (["readonly"], q.advanced) := by
      refine (Collects.cons (modifier?_readonly hword hline hname)
        (.nil (modifier?_none (hends hkey hend)))).collect ?_
      rw [(h.standsAt ((Written.word Word.readonly).solid _)).here]
      simp [Word.chars]
    have hnew : q.current.token = .word "new" →
        ∀ m ∈ ["(", "<"], q.advanced.current.token ≠ .mark m := by
      intro hnew
      rw [hword] at hnew
      exact absurd hnew (by decide)
    refine ⟨fun _ _ => by rw [hkey]; exact head.keyToken_ne_mark _,
      q', by rw [hchars]; simpa using hreaches, fun htype hstop => ?_⟩
    rw [signature_run (fun m _ => by rw [hword]; exact Token.noConfusion) hnew hwords
        (hends hkey hend) (by rw [hkey]; exact head.keyToken_ne_mark _),
      Head.property_run hkey hoptional hopen htype hstop]
    simp [Head.part, hreadonly]

end

end IpcWiring.Script
