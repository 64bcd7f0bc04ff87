import IpcWiring.Proofs.Script.Items

/-!
# Unions

A type is read part by part, with bars between the parts and perhaps one in front
(`readsBarred_type`). Every type is a union in this sense, most of them of one part.
-/

namespace IpcWiring.Script

open Reader Grammar

/-! ## Single types -/

section

variable {ph : Phrases} {s : Setting} {p : Progress} {rest : List Char} {pos : Nat}

set_option linter.unusedSimpArgs false in
/-- A type that starts with no operator is read as it is. -/
theorem Reads.operator {w : Written} (hw : w.Fits) (h : Reads (suffixedType ph) w partEnds) :
    Reads (operatorType ph) w partEnds := by
  constructor
  intro s p rest pos hs hp hrest
  have hstart : StartsPlainType p.current.token := by
    rw [hp.token]
    exact w.startsPlainType hw hrest.apart
  have hread : operatorType ph s p = Grammar.withPlainTypes false (suffixedType ph) s p := by
    cases htoken : p.current.token with
    | word name =>
      rw [htoken] at hstart
      cases hstart with
      | word hname =>
        simp only [otherWords, List.mem_cons, List.not_mem_nil, or_false, not_or] at hname
        obtain ⟨hinfer, hkeyof, hunique, hreadonly, -⟩ := hname
        simp [operatorType, htoken, hinfer, hkeyof, hunique, hreadonly]
    | _ => simp [operatorType, htoken]
  rw [hread]
  exact (h.withPlainTypes false).run hs hp hrest

section

variable {operator : String} {item : Reader TypeExpr} {form : List TypeExpr → TypeForm}
  {t : TypeExpr} {ts : List TypeExpr} {q q' : Progress}

/-- Types are joined by the operator, one after the other. -/
theorem joinedTypes_eq : joinedTypes operator item form = (do
    let m ← mark
    let leading ← eatMark operator
    let first ← item
    if !leading && !(← atMark operator) then return first
    let more ← collect (further operator item)
    finish m (form (first :: more))) := rfl

/-- A type without the operator stands for itself. -/
theorem joinedTypes_single (hp : p.current.token ≠ .mark operator) (h : item s p = some (t, q))
    (hq : q.current.token ≠ .mark operator) : joinedTypes operator item form s p = some (t, q) := by
  simp [joinedTypes_eq, eatMark_of_ne hp, h, hq]

/-- Types with the operator between them are joined. -/
theorem joinedTypes_many (hp : p.current.token ≠ .mark operator) (h : item s p = some (t, q))
    (hq : q.current.token = .mark operator)
    (hmore : collect (further operator item) s q = some (ts, q')) :
    joinedTypes operator item form s p = some (finished p.mark (form (t :: ts)) q', q') := by
  simp [joinedTypes_eq, eatMark_of_ne hp, h, hq, hmore]

/-- Types with the operator in front of them are joined. -/
theorem joinedTypes_leading (hp : p.current.token = .mark operator)
    (h : item s p.advanced = some (t, q))
    (hmore : collect (further operator item) s q = some (ts, q')) :
    joinedTypes operator item form s p = some (finished p.mark (form (t :: ts)) q', q') := by
  simp [joinedTypes_eq, eatMark_of hp, h, hmore]

end

/-- A part of a union is followed by a bar or the end of the union. -/
theorem followed_parts (hrest : Followed typeEnds rest) (more : More) :
    Followed partEnds (more.chars '|' ++ rest) := by
  cases more with
  | nil => exact hrest.mono (List.subset_cons_self _ _)
  | cons before behind next more =>
    have hcalm : Calm (behind.chars ++ (next.chars ++ (more.chars '|' ++ rest))) :=
      Calm.gaps _ fun _ => next.calm _
    have h : Followed partEnds
        (before.chars ++ '|' :: (behind.chars ++ (next.chars ++ (more.chars '|' ++ rest)))) :=
      .mark before (by decide) (hcalm.lone '|') (by decide)
    simpa [More.chars] using h

/-- The parts of a union are collected up to its end. -/
theorem collects_parts {item : Reader TypeExpr} (hs : s.typed = true)
    (hrest : Followed typeEnds rest) :
    ∀ {more : More} {q : Progress} {cs out : List Char}, more.All (Reads item · partEnds) →
      Reaches p q pos cs out (more.chars '|' ++ rest) →
      ∃ ts q', ts.length = more.length ∧ Collects (further "|" item) s q ts q' ∧
        Reaches p q' pos (cs ++ more.chars '|') (out ++ more.spliced '|') rest
  | .nil, q, cs, out, _, h => by
    have hend : q.current.token ≠ .mark "|" := by
      rw [h.current]
      exact hrest.ne_mark (by decide) _
    exact ⟨[], q, rfl, .nil (further_of_ne hend), by simpa [More.chars, More.spliced] using h⟩
  | .cons before behind next more, q, cs, out, ⟨hnext, hmore⟩, h => by
    have hchars : (More.cons before behind next more).chars '|' ++ rest =
        before.chars ++ '|' :: (behind.chars ++ (next.chars ++ (more.chars '|' ++ rest))) := by
      simp [More.chars]
    have hcalm : Calm (behind.chars ++ (next.chars ++ (more.chars '|' ++ rest))) :=
      Calm.gaps _ fun _ => next.calm _
    rw [hchars] at h
    obtain ⟨hbar, hbehind⟩ := h.then_mark (by decide) (hcalm.lone '|')
    obtain ⟨t, q', hread, -, hreaches⟩ :=
      hbehind.then_type hnext hs (followed_parts hrest more)
    obtain ⟨ts, q'', hlength, hcollects, hall⟩ := collects_parts hs hrest hmore hreaches
    refine ⟨t :: ts, q'', congrArg (· + 1) hlength, .cons (further_of hbar hread) hcollects, ?_⟩
    simpa [More.chars, More.spliced] using hall

/-- There are as many characters as further types. -/
theorem Reaches.length_more {q : Progress} {cs out : List Char} {c : Char}
    (hc : c ∈ typeMarkChars) {more : More} (h : Reaches p q pos cs out (more.chars c ++ rest)) :
    more.length ≤ q.current.here.rest.length := by
  cases more with
  | nil => exact Nat.zero_le _
  | cons before behind next more =>
    have hchars : (More.cons before behind next more).chars c ++ rest =
        before.chars ++ c :: (behind.chars ++ (next.chars ++ (more.chars c ++ rest))) := by
      simp [More.chars]
    have hlength := more.length_le c
    rw [hchars] at h
    rw [(h.standsAt (solid_mark hc _).1).here]
    simp only [More.length, List.length_cons, List.length_append]
    omega

/-- The first part of a union; another type is its own only part. -/
def Written.firstPart : Written → Written
  | .union first _ => first
  | w => w

/-- The parts of a union behind the first one. -/
def Written.moreParts : Written → More
  | .union _ more => more
  | _ => .nil

/-- A type is written as its parts. -/
theorem Written.chars_parts (w : Written) :
    w.chars = w.firstPart.chars ++ w.moreParts.chars '|' := by
  cases w <;> simp [firstPart, moreParts, More.chars, Written.chars]

/-- A type is spliced part by part. -/
theorem Written.spliced_parts (w : Written) :
    w.spliced = w.firstPart.spliced ++ w.moreParts.spliced '|' := by
  cases w <;> simp [firstPart, moreParts, More.spliced, Written.spliced]

/-- A type without further parts is described as its only part. -/
theorem Written.Describes.of_firstPart {w : Written} {t : TypeExpr} (hmore : w.moreParts = .nil)
    (h : w.firstPart.Describes t) : w.Describes t := by
  cases w with
  | union first more =>
    obtain rfl := hmore
    have htext : (Written.union first .nil).text = first.text := by
      simp [Written.text, Written.tidy, More.tidy, Written.chars, More.chars]
    exact ⟨h.text.trans htext.symm, fun _ _ h => by cases h⟩
  | _ => exact h

/-- The first part of a type that fits does so. -/
theorem Written.Fits.firstPart {w : Written} (h : w.Fits) : w.firstPart.Fits := by
  cases w with
  | union => exact h.2.2.1
  | _ => exact h

/-- A part that starts with no ampersand is no intersection. -/
theorem Reads.intersection {w : Written} {item : Reader TypeExpr} (hw : w.Fits)
    (h : Reads item w partEnds) : Reads (joinedTypes "&" item .intersection) w partEnds := by
  constructor
  intro s p rest pos hs hp hrest
  have hstart : StartsPlainType p.current.token := by
    rw [hp.token]
    exact w.startsPlainType hw hrest.apart
  obtain ⟨t, q, hread, hreaches, hdescribes⟩ := h.run hs hp hrest
  have hend : q.current.token ≠ .mark "&" := by
    rw [hreaches.current]
    exact hrest.ne_mark (by decide) _
  exact ⟨t, q, joinedTypes_single (hstart.ne_mark (by decide)) hread hend, hreaches, hdescribes⟩

/-- The parts of a type are read, behind a bar if there is one. -/
theorem joinedTypes_run (item : Reader TypeExpr) (form : List TypeExpr → TypeForm) {w : Written}
    (hw : w.Fits) (hfirst : Reads item w.firstPart partEnds)
    (hmore : w.moreParts.All (Reads item · partEnds)) (hs : s.typed = true) {bar? : Option Gaps}
    (hp : p.StandsAt (barChars bar? ++ (w.chars ++ rest)) pos) (hrest : Followed typeEnds rest) :
    ∃ t q, joinedTypes "|" item form s p = some (t, q) ∧
      Reaches p q pos (barChars bar? ++ w.chars) (barChars bar? ++ w.spliced) rest ∧
      t.text = w.text ∧ (bar? = none → w.Describes t) := by
  have hparts : w.chars ++ rest = w.firstPart.chars ++ (w.moreParts.chars '|' ++ rest) := by
    rw [w.chars_parts, List.append_assoc]
  have hfollowed := followed_parts hrest w.moreParts
  have htext : ∀ {q}, Reaches p q pos (barChars bar? ++ w.chars) (barChars bar? ++ w.spliced) rest →
      ∀ form, (finished p.mark form q).text = w.text := by
    intro q h form
    rw [h.text_finished (by rw [hp.here, List.append_assoc]), w.normalizeChars_spliced,
      Written.text]
  cases bar? with
  | none =>
    rw [barChars, List.nil_append, hparts] at hp
    have hstart : StartsPlainType p.current.token := by
      rw [hp.token]
      exact w.firstPart.startsPlainType hw.firstPart hfollowed.apart
    obtain ⟨t, q, hread, hreaches, hdescribes⟩ := hfirst.run hs hp hfollowed
    obtain ⟨ts, q', hlength, hcollects, hall⟩ := collects_parts hs hrest hmore hreaches
    rw [← w.chars_parts, ← w.spliced_parts] at hall
    cases hmoreParts : w.moreParts with
    | nil =>
      have hdescribes := Written.Describes.of_firstPart hmoreParts hdescribes
      rw [hmoreParts] at hreaches
      have hend : q.current.token ≠ .mark "|" := by
        rw [hreaches.current]
        exact hrest.ne_mark (by decide) _
      refine ⟨t, q, joinedTypes_single (hstart.ne_mark (by decide)) hread hend, ?_,
        hdescribes.text, fun _ => hdescribes⟩
      rw [w.chars_parts, w.spliced_parts, hmoreParts]
      simpa [barChars, More.chars, More.spliced] using hreaches
    | cons before behind next more =>
      have hbar : q.current.token = .mark "|" := by
        cases hcollects with
        | nil =>
          rw [hmoreParts] at hlength
          cases hlength
        | cons hstep => exact token_of_further hstep
      have hfuel : ts.length ≤ q.current.here.rest.length := by
        rw [hlength]
        exact hreaches.length_more (by decide)
      have hunion : ∀ fields last, w ≠ .literal fields last := by
        rintro fields last rfl
        cases hmoreParts
      exact ⟨_, q', joinedTypes_many (hstart.ne_mark (by decide)) hread hbar
        (hcollects.collect hfuel), hall, htext hall _,
        fun _ => ⟨htext hall _, fun fields last h => (hunion fields last h).elim⟩⟩
  | some behind =>
    have hcalm : Calm (behind.chars ++ (w.chars ++ rest)) := Calm.gaps _ fun _ => w.calm _
    have hbar : barChars (some behind) ++ (w.chars ++ rest) =
        ['|'] ++ (behind.chars ++ (w.chars ++ rest)) := rfl
    rw [hbar] at hp
    have hat := hp.at (scans_mark (by decide) (hcalm.lone '|'))
    have hopen := Reaches.token hat
    rw [hparts] at hopen
    obtain ⟨t, q, hread, -, hreaches⟩ := hopen.then_type hfirst hs hfollowed
    obtain ⟨ts, q', hlength, hcollects, hall⟩ := collects_parts hs hrest hmore hreaches
    have hfuel : ts.length ≤ q.current.here.rest.length := by
      rw [hlength]
      exact hreaches.length_more (by decide)
    have hreach : Reaches p q' pos (barChars (some behind) ++ w.chars)
        (barChars (some behind) ++ w.spliced) rest := by
      rw [w.chars_parts, w.spliced_parts]
      simpa [barChars] using hall
    exact ⟨_, q', joinedTypes_leading hat.token hread (hcollects.collect hfuel), hreach,
      htext hreach _, fun h => by cases h⟩

set_option linter.unusedSimpArgs false in
/-- A type that starts with a word, a quote, a brace or a bar is no function type. -/
theorem atFunctionType_false
    (hp : StartsPlainType p.current.token ∨ p.current.token = .mark "|") :
    atFunctionType ph s p = some (false, p) := by
  rcases hp with hstart | hbar
  · cases htoken : p.current.token with
    | word name =>
      rw [htoken] at hstart
      cases hstart with
      | word hname =>
        simp only [otherWords, List.mem_cons, List.not_mem_nil, or_false, not_or] at hname
        obtain ⟨-, -, -, -, -, -, -, -, hnew, habstract⟩ := hname
        simp [atFunctionType, htoken, hnew, habstract]
    | mark mark =>
      rw [htoken] at hstart
      cases hstart
      simp [atFunctionType, htoken]
    | _ => simp [atFunctionType, htoken]
  · simp [atFunctionType, hbar]

/-- A type is read, behind a bar if there is one. -/
theorem readsBarred_type {w : Written} (hw : w.Fits)
    (hfirst : Reads ph.operatorType w.firstPart partEnds)
    (hmore : w.moreParts.All fun v => v.Fits ∧ Reads ph.operatorType v partEnds) :
    ReadsBarred (Grammar.type ph) w := by
  constructor
  intro s p bar? rest pos hs hp hrest
  have hstart : StartsPlainType p.current.token ∨ p.current.token = .mark "|" := by
    cases bar? with
    | none =>
      rw [barChars, List.nil_append] at hp
      rw [hp.token]
      exact .inl (w.startsPlainType hw hrest.apart)
    | some behind =>
      have hcalm : Calm (behind.chars ++ (w.chars ++ rest)) := Calm.gaps _ fun _ => w.calm _
      have hbar : Scans ['|'] (behind.chars ++ (w.chars ++ rest)) (.mark "|") :=
        scans_mark (by decide) (hcalm.lone '|')
      have hstands : p.StandsAt (['|'] ++ (behind.chars ++ (w.chars ++ rest))) pos := hp
      exact .inr (hstands.at hbar).token
  obtain ⟨t, q, hread, hreaches, htext, hdescribes⟩ :=
    joinedTypes_run (joinedTypes "&" ph.operatorType .intersection) .union hw
      (hfirst.intersection hw.firstPart) (hmore.imp fun v hv => hv.2.intersection hv.1) hs hp hrest
  refine ⟨t, q, ?_, hreaches, htext, hdescribes⟩
  have hextends : q.current.token = .word "extends" → q.current.onNewLine = true := by
    rw [hreaches.current]
    exact hrest.onNewLine_of_word
  by_cases hword : q.current.token = .word "extends"
  · simp [Grammar.type, atFunctionType_false hstart, unionType, hread, hextends hword]
  · simp [Grammar.type, atFunctionType_false hstart, unionType, hread, eatWord_of_ne hword]

end

end IpcWiring.Script
