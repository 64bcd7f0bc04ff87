import IpcWiring.Proofs.Script.Keys
import IpcWiring.Script.Source

/-!
# Type literals

A literal is read if the types of its properties are (`reads_literal`), and readers that go `2 * n`
phrases deep read every type of a depth up to `n` (`readsBarred_phrases`), by induction on `n`. A
type is no deeper than it has characters (`Written.depth_le`).
-/

namespace IpcWiring.Script

open Reader Grammar

/-! ## Properties -/

section

variable {ph : Phrases} {s : Setting} {p q : Progress} {pos : Nat} {cs out rest : List Char}

/-- A condition on the types of all properties. -/
def Fields.All (holds : Written → Prop) : Fields → Prop
  | .nil => True
  | .typed _ _ _ _ _ type _ rest => holds type ∧ rest.All holds
  | .bare _ _ _ rest => rest.All holds

/-- The number of properties. -/
def Fields.length : Fields → Nat
  | .nil => 0
  | .typed _ _ _ _ _ _ _ rest | .bare _ _ _ rest => rest.length + 1

/-- The members of a literal have the texts that are printed and tell what the properties do. -/
structure Fields.Describes (fields : Fields) (sigs : List Signature) : Prop where
  texts : sigs.map (·.text) = fields.parts
  members : (sigs.filterMap (·.member?)).map Member.view = fields.view
  isOpaque : sigs.any (·.isOpaque) = false

/-- One more property. -/
theorem Fields.Describes.cons {fields rest : Fields} {sigs : List Signature} {head : Head}
    {type : String} {member : Member} (hparts : fields.parts = head.part type :: rest.parts)
    (hview : fields.view = (head.name.text, head.optional?.isSome, type) :: rest.view)
    (hmember : member.view = (head.name.text, head.optional?.isSome, type))
    (h : rest.Describes sigs) :
    fields.Describes (⟨head.part type, some member, false⟩ :: sigs) where
  texts := by rw [hparts, List.map_cons, h.texts]
  members := by simp [hview, hmember, h.members]
  isOpaque := by rw [List.any_cons, h.isOpaque, Bool.or_false]

/-- A head takes a character. -/
theorem Head.length_pos (h : Head) : 0 < h.chars.length := by
  have hkey : 0 < h.keyChars.length := by
    rw [keyChars]
    cases h.quotes? <;> exact Nat.succ_pos _
  simp only [chars, List.length_append]
  omega

/-- More properties take more characters. -/
theorem Fields.length_le (fields : Fields) : fields.length ≤ fields.chars.length := by
  cases fields with
  | nil => exact Nat.zero_le _
  | typed lead head colon behind bar? type stop? more =>
    have h := more.length_le
    simp only [length, chars, List.length_append, List.length_cons]
    omega
  | bare lead head stop? more =>
    have h := more.length_le
    have hhead := head.length_pos
    simp only [length, chars, List.length_append]
    omega

/-- A property starts with a head, which something ends. -/
theorem Fields.exists_head {fields : Fields} (hne : fields.isNil = false) (hfits : fields.Fits)
    (last : Gaps) (rest : List Char) :
    ∃ (lead : Gaps) (head : Head) (behind : List Char),
      fields.chars ++ (last.chars ++ '\x7d' :: rest) = lead.chars ++ (head.chars ++ behind) ∧
        head.Fits ∧ EndsHead head behind ∧ fields.length ≤ (head.chars ++ behind).length := by
  cases fields with
  | nil => cases hne
  | typed lead head colon behind bar? type stop? more =>
    have hlength := more.length_le
    refine ⟨lead, head, _, ?_, hfits.1, endsHead_colon head colon (behind.chars ++ (barChars bar? ++
      (type.chars ++ (stopChars stop? ++ (more.chars ++ (last.chars ++ '\x7d' :: rest)))))), ?_⟩
    · simp [chars]
    · simp only [length, List.length_append, List.length_cons]
      omega
  | bare lead head stop? more =>
    have hlength := more.length_le
    have hhead := head.length_pos
    refine ⟨lead, head, _, ?_, hfits.1, endsHead_stop hfits.2.1 hfits.2.2 last rest, ?_⟩
    · simp [chars]
    · simp only [length, List.length_append, List.length_cons]
      omega

/-- Properties are collected up to the closing brace. -/
theorem collects_fields (item : Reader Signature) (s' : Setting)
    (hitem : ∀ q, item s' q = signature ph s q) (hs : s.typed = true) {last : Gaps} :
    ∀ {fields : Fields} {q : Progress} {cs out : List Char}, fields.Fits →
      fields.All (ReadsBarred ph.type) →
      Reaches p q pos cs out (fields.chars ++ (last.chars ++ '\x7d' :: rest)) →
      ∃ sigs q' out', sigs.length = fields.length ∧ fields.Describes sigs ∧
        Collects (upTo "\x7d" item) s' q sigs q' ∧
        Reaches p q' pos (cs ++ fields.chars) out' (last.chars ++ '\x7d' :: rest)
  | .nil, q, cs, out, _, _, h => by
    obtain ⟨hclose, -⟩ := Reaches.then_mark h (by decide) (lone_of_mem (by decide) _)
    refine ⟨[], q, out, rfl, ⟨rfl, rfl, rfl⟩, .nil (upTo_close hclose), ?_⟩
    simpa [Fields.chars] using h
  | .typed lead head colon behind bar? type stop? more, q, cs, out,
      ⟨hhead, hline, htype, hfits⟩, ⟨hread, hall⟩, h => by
    have hstop := followed_stop hline hfits last rest
    have hchars : (Fields.typed lead head colon behind bar? type stop? more).chars ++
        (last.chars ++ '\x7d' :: rest) =
        lead.chars ++ (head.chars ++ (colon.chars ++ ':' :: (behind.chars ++
          (barChars bar? ++ (type.chars ++ (stopChars stop? ++
            (more.chars ++ (last.chars ++ '\x7d' :: rest)))))))) := by
      simp [Fields.chars]
    rw [hchars] at h
    have hends := endsHead_colon head colon (behind.chars ++ (barChars bar? ++ (type.chars ++
      (stopChars stop? ++ (more.chars ++ (last.chars ++ '\x7d' :: rest))))))
    have hstart := head.start hhead hends.followed.apart
    obtain ⟨-, q₁, hkey, hsignature⟩ := h.then_head ph s hhead hends
    obtain ⟨hcolon, hbehind⟩ := hkey.then_mark (by decide) (lone_of_mem (by decide) _)
    obtain ⟨t, q₂, htread, htext, htyped⟩ := hbehind.then_barred hread hs hstop
    have hannotation : annotation? ph s q₁ = some (some t, q₂) := by
      simp [annotation?, hs, eatMark_of hcolon, htread]
    obtain ⟨q₃, hend, hseparated⟩ := htyped.then_stop (s := s) hline hfits
    have hfirst := (hitem q).trans (hsignature hannotation hend)
    obtain ⟨sigs, q₄, out', hlength, hdescribes, hcollects, hreach⟩ :=
      collects_fields item s' hitem hs hfits hall hseparated
    have hopen : q.current.token ≠ .mark "\x7d" := by
      rw [(h.standsAt hstart.1).token]
      exact hstart.2 _
    rw [Option.map_some, Option.getD_some, htext] at hfirst
    refine ⟨_, q₄, out', congrArg (· + 1) hlength, .cons rfl rfl ?_ hdescribes,
      .cons (upTo_item hopen hfirst) hcollects, ?_⟩
    · simp [Member.view, orAny, htext]
    · simpa [Fields.chars] using hreach
  | .bare lead head stop? more, q, cs, out, ⟨hhead, hline, hfits⟩, hall, h => by
    have hstop := followed_stop (fun hnone => (hline hnone).1) hfits last rest
    have hchars : (Fields.bare lead head stop? more).chars ++ (last.chars ++ '\x7d' :: rest) =
        lead.chars ++ (head.chars ++
          (stopChars stop? ++ (more.chars ++ (last.chars ++ '\x7d' :: rest)))) := by
      simp [Fields.chars]
    rw [hchars] at h
    have hstart := head.start hhead hstop.apart
    obtain ⟨-, q₁, hkey, hsignature⟩ :=
      h.then_head ph s hhead (endsHead_stop hline hfits last rest)
    have hcolon : q₁.current.token ≠ .mark ":" := by
      rw [hkey.current]
      exact hstop.ne_mark (by decide) _
    have hannotation : annotation? ph s q₁ = some (none, q₁) := by
      simp [annotation?, hs, eatMark_of_ne hcolon]
    obtain ⟨q₂, hend, hseparated⟩ := hkey.then_stop (s := s) (fun hnone => (hline hnone).1) hfits
    have hfirst := (hitem q).trans (hsignature hannotation hend)
    obtain ⟨sigs, q₃, out', hlength, hdescribes, hcollects, hreach⟩ :=
      collects_fields item s' hitem hs hfits hall hseparated
    have hopen : q.current.token ≠ .mark "\x7d" := by
      rw [(h.standsAt hstart.1).token]
      exact hstart.2 _
    refine ⟨_, q₃, out', congrArg (· + 1) hlength, .cons rfl rfl rfl hdescribes,
      .cons (upTo_item hopen hfirst) hcollects, ?_⟩
    simpa [Fields.chars] using hreach

/-- A literal with properties is no mapped type. -/
theorem atMappedType_false {fields : Fields} {last : Gaps} (hp : p.current.token = .mark "\x7b")
    (hfits : fields.Fits)
    (h : Reaches p p.advanced pos cs out (fields.chars ++ (last.chars ++ '\x7d' :: rest))) :
    atMappedType s p = some (false, p) := by
  have hstart : (∀ m, m ≠ "\x7d" → p.advanced.current.token ≠ .mark m) ∧
      ∀ word, p.advanced.current.token = .word word →
        p.advanced.advanced.current.token ≠ .mark "[" := by
    cases hnil : fields.isNil with
    | true =>
      cases fields with
      | typed | bare => cases hnil
      | nil =>
        obtain ⟨hclose, -⟩ := Reaches.then_mark h (by decide) (lone_of_mem (by decide) _)
        rw [hclose]
        exact ⟨fun m hm heq => hm (Token.mark.inj heq).symm, fun _ h => Token.noConfusion h⟩
    | false =>
      obtain ⟨lead, head, behind, hchars, hhead, hends, -⟩ :=
        fields.exists_head hnil hfits last rest
      rw [hchars] at h
      have hsolid := head.start hhead hends.followed.apart
      refine ⟨fun m _ => ?_, (h.then_head (phrases 0) s hhead hends).1⟩
      rw [(h.standsAt hsolid.1).token]
      exact hsolid.2 m
  obtain ⟨hmark, hword⟩ := hstart
  have hplus := hmark "+" (by decide)
  have hminus := hmark "-" (by decide)
  have hbracket := hmark "[" (by decide)
  by_cases hreadonly : p.advanced.current.token = .word "readonly"
  · simp [atMappedType, expectMark_of hp, eatMark_of_ne hplus, eatMark_of_ne hminus,
      eatWord_of hreadonly, expectMark_of_ne (hword _ hreadonly)]
  · simp [atMappedType, expectMark_of hp, eatMark_of_ne hplus, eatMark_of_ne hminus,
      eatWord_of_ne hreadonly, expectMark_of_ne hbracket]

/-- There are as many characters as properties. -/
theorem Reaches.length_fields {fields : Fields} {last : Gaps}
    (h : Reaches p q pos cs out (fields.chars ++ (last.chars ++ '\x7d' :: rest)))
    (hfits : fields.Fits) : fields.length ≤ q.current.here.rest.length := by
  cases hnil : fields.isNil with
  | true =>
    cases fields with
    | nil => exact Nat.zero_le _
    | typed | bare => cases hnil
  | false =>
    obtain ⟨lead, head, behind, hchars, hhead, hends, hlength⟩ :=
      fields.exists_head hnil hfits last rest
    rw [hchars] at h
    rwa [(h.standsAt (head.start hhead hends.followed.apart).1).here]

/-- A literal is read. -/
theorem reads_literal {fields : Fields} {last : Gaps} (hfits : fields.Fits)
    (hall : fields.All (ReadsBarred ph.type)) :
    Reads (primaryType ph) (.literal fields last) itemEnds := by
  constructor
  intro s p rest pos hs hp hrest
  have hchars : (Written.literal fields last).chars ++ rest =
      ['\x7b'] ++ (fields.chars ++ (last.chars ++ '\x7d' :: rest)) := by
    simp [Written.chars]
  have hstands := hp
  rw [hchars] at hstands
  have hat := hstands.at (scans_mark (by decide) (lone_of_mem (by decide) _))
  have hopen := Reaches.token hat
  have hmapped := atMappedType_false (s := s) hat.token hfits hopen
  obtain ⟨sigs, q, out', hlength, hdescribes, hcollects, hreach⟩ :=
    collects_fields (Grammar.withPlainTypes false (signature ph)) s (fun _ => rfl) hs
      hfits hall hopen
  obtain ⟨hclose, hend⟩ := hreach.then_mark (by decide) (lone_of_mem (by decide) _)
  have hfuel : sigs.length ≤ p.advanced.current.here.rest.length := by
    rw [hlength]
    exact hopen.length_fields hfits
  have hblock : memberBlock ph s p = some (sigs, q.advanced) := by
    simp [memberBlock, expectMark_of hat.token, untilMark_eq, hcollects.collect hfuel,
      expectMark_of hclose]
  have htext : literalText sigs = (Written.literal fields last).text := by
    rw [literalText, hdescribes.texts, Written.text_literal]
  have hwhole : Reaches p q.advanced pos (Written.literal fields last).chars
      (out' ++ (last.chars ++ ['\x7d'])) rest := by
    simpa [Written.chars] using hend
  have hnoted := hwhole.noted hp.here (List.cons_ne_nil _ _) (literalText sigs)
  rw [htext] at hnoted
  have hnames : ∀ q, ∃ names, namesSince p.mark s q = some (names, q) := fun q => ⟨_, rfl⟩
  obtain ⟨names, hnames⟩ := hnames (noted p.mark (Written.literal fields last).text q.advanced)
  have hread : primaryType ph s p =
      some (⟨.object (membersOf sigs).1 (membersOf sigs).2, (Written.literal fields last).text,
        p.mark.here.pos, names⟩, noted p.mark (Written.literal fields last).text q.advanced) := by
    simp [primaryType, hat.token, hmapped, typeLiteral, hblock, htext, hnames]
  have hspliced : (Written.literal fields last).spliced =
      (Written.literal fields last).text.toList := by
    rw [Written.spliced, Written.text, String.toList_ofList]
  refine ⟨_, _, hread, by rw [hspliced]; exact hnoted, rfl, ?_⟩
  rintro _ _ ⟨⟩
  refine ⟨_, ?_, hdescribes.members⟩
  simp [membersOf, hdescribes.isOpaque]

end

/-! ## Types of any depth -/

mutual

/-- How deep a type is nested. -/
def Written.depth : Written → Nat
  | .word _ | .quoted _ => 1
  | .applied _ _ _ first more _ => max first.depth more.depth + 1
  | .array item _ => item.depth
  | .union first more => max first.depth more.depth
  | .literal fields _ => fields.depth + 1

/-- How deep the types are nested. -/
def More.depth : More → Nat
  | .nil => 0
  | .cons _ _ next more => max next.depth more.depth

/-- How deep the types of the properties are nested. -/
def Fields.depth : Fields → Nat
  | .nil => 0
  | .typed _ _ _ _ _ type _ rest => max type.depth rest.depth
  | .bare _ _ _ rest => rest.depth

end

mutual

/-- A type is nested no deeper than it has characters. -/
theorem Written.depth_le : ∀ w : Written, w.depth ≤ w.chars.length
  | .word name => Nat.succ_le_of_lt (Nat.succ_pos _)
  | .quoted q => Nat.succ_le_of_lt (Nat.succ_pos _)
  | .applied name before inside first more last => by
    have hfirst := first.depth_le
    have hmore := more.depth_le ','
    simp only [Written.depth, Written.chars, List.length_append, List.length_cons]
    omega
  | .array item suffixes => by
    have hitem := item.depth_le
    simp only [Written.depth, Written.chars, List.length_append]
    omega
  | .union first more => by
    have hfirst := first.depth_le
    have hmore := more.depth_le '|'
    simp only [Written.depth, Written.chars, List.length_append]
    omega
  | .literal fields last => by
    have hfields := fields.depth_le
    simp only [Written.depth, Written.chars, List.length_append, List.length_cons]
    omega

/-- Types are nested no deeper than they have characters. -/
theorem More.depth_le (mark : Char) : ∀ more : More, more.depth ≤ (more.chars mark).length
  | .nil => Nat.le_refl 0
  | .cons before behind next more => by
    have hnext := next.depth_le
    have hmore := more.depth_le mark
    simp only [More.depth, More.chars, List.length_append, List.length_cons]
    omega

/-- Properties are nested no deeper than they have characters. -/
theorem Fields.depth_le : ∀ fields : Fields, fields.depth ≤ fields.chars.length
  | .nil => Nat.le_refl 0
  | .typed lead head colon behind bar? type stop? rest => by
    have htype := type.depth_le
    have hrest := rest.depth_le
    simp only [Fields.depth, Fields.chars, List.length_append, List.length_cons]
    omega
  | .bare lead head stop? rest => by
    have hrest := rest.depth_le
    simp only [Fields.depth, Fields.chars, List.length_append]
    omega

end

section

variable {m : Nat} {holds : Written → Prop} (h : ∀ w : Written, w.Fits → w.depth ≤ m → holds w)

include h

/-- What holds of types of a depth holds of all further types. -/
theorem More.all_of_depth : ∀ {more : More}, more.Fits → more.depth ≤ m → more.All holds
  | .nil, _, _ => trivial
  | .cons _ _ next _, hfits, hdepth =>
    have hmax := Nat.max_le.1 hdepth
    ⟨h next hfits.1 hmax.1, More.all_of_depth hfits.2 hmax.2⟩

/-- What holds of types of a depth holds of the types of all properties. -/
theorem Fields.all_of_depth : ∀ fields : Fields, fields.Fits → fields.depth ≤ m → fields.All holds
  | .nil, _, _ => trivial
  | .typed _ _ _ _ _ type _ rest, hfits, hdepth =>
    have hmax := Nat.max_le.1 hdepth
    ⟨h type hfits.2.2.1 hmax.1, rest.all_of_depth hfits.2.2.2 hmax.2⟩
  | .bare _ _ _ rest, hfits, hdepth => rest.all_of_depth hfits.2.2 hdepth

end

/-- A type has a depth. -/
theorem Written.depth_pos : ∀ w : Written, 0 < w.depth
  | .word _ | .quoted _ => Nat.zero_lt_one
  | .applied .. | .literal .. => Nat.succ_pos _
  | .array item _ => item.depth_pos
  | .union first _ => Nat.lt_of_lt_of_le first.depth_pos (Nat.le_max_left _ _)

section

variable {ph : Phrases} {m : Nat}
  (h : ∀ w : Written, w.Fits → w.depth ≤ m → ReadsBarred ph.type w)

include h

/-- A type without brackets is read if the types in it are. -/
theorem reads_item {w : Written} (hitem : w.IsItem) (hw : w.Fits) (hdepth : w.depth ≤ m + 1) :
    Reads (primaryType ph) w itemEnds := by
  cases w with
  | word name => exact reads_word ph hw
  | quoted q => exact reads_quoted ph q
  | applied name before inside first more last =>
    have hmax := Nat.max_le.1 (Nat.le_of_succ_le_succ hdepth)
    exact reads_applied hw (h first hw.2.2.2.1 hmax.1).reads
      (More.all_of_depth (fun w hw hdepth => (h w hw hdepth).reads) hw.2.2.2.2 hmax.2)
  | literal fields last =>
    exact reads_literal hw (fields.all_of_depth h hw (Nat.le_of_succ_le_succ hdepth))
  | array | union => exact hitem.elim

/-- A type that is no union is read if the types in it are. -/
theorem reads_part {w : Written} (hpart : w.IsPart) (hw : w.Fits) (hdepth : w.depth ≤ m + 1) :
    Reads (operatorType ph) w partEnds := by
  refine Reads.operator hw ?_
  cases w with
  | array item suffixes => exact reads_array hw (reads_item h hw.1 hw.2.2.2 hdepth)
  | union => exact hpart.elim
  | word | quoted | applied | literal => exact (reads_item h (by exact trivial) hw hdepth).suffixed

end

/-- Types are read by readers that go deep enough. -/
theorem readsBarred_phrases (n : Nat) :
    ∀ w : Written, w.Fits → w.depth ≤ n → ReadsBarred (phrases (2 * n)).type w := by
  induction n with
  | zero =>
    intro w _ hdepth
    exact absurd w.depth_pos (Nat.not_lt.2 hdepth)
  | succ n ih =>
    intro w hw hdepth
    have hparts : ∀ v : Written, v.IsPart ∧ v.Fits ∧ v.depth ≤ n + 1 →
        v.Fits ∧ Reads (phrases (2 * n + 1)).operatorType v partEnds :=
      fun v hv => ⟨hv.2.1, reads_part ih hv.1 hv.2.1 hv.2.2⟩
    have htype : ReadsBarred (Grammar.type (phrases (2 * n + 1))) w := by
      cases w with
      | union first more =>
        obtain ⟨hfirst, hmore, hfitsFirst, hfitsMore⟩ := hw
        obtain ⟨hdepthFirst, hdepthMore⟩ := Nat.max_le.1 hdepth
        have hbound : more.All fun v => v.Fits ∧ v.depth ≤ n + 1 :=
          More.all_of_depth (fun v hv hvdepth => ⟨hv, hvdepth⟩) hfitsMore hdepthMore
        exact readsBarred_type ⟨hfirst, hmore, hfitsFirst, hfitsMore⟩
          (hparts first ⟨hfirst, hfitsFirst, hdepthFirst⟩).2 ((hmore.and hbound).imp hparts)
      | word | quoted | applied | array | literal =>
        exact readsBarred_type hw (hparts _ ⟨by exact trivial, hw, hdepth⟩).2 trivial
    exact htype

end IpcWiring.Script
