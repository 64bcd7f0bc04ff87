import IpcWiring.Proofs.Script.Literals
import IpcWiring.Proofs.Script.Recorded

/-!
# Type literals are recorded as they are

The text of a type literal is on one line, without the layout and the comments of the source. It is
a type literal again, with the same members, and has itself as its text
(`Written.literal_roundTrip`).
-/

namespace IpcWiring.Script

open Reader Grammar

/-! ## Type aliases -/

/-- The word `type`. -/
def Word.type : Word := ⟨'t', ['y', 'p', 'e'], rfl, rfl⟩

/-- A type alias, as it is written on one line. -/
def aliasChars (name : Word) (type : List Char) : List Char :=
  Word.type.chars ++ ' ' :: (name.chars ++ ' ' :: '=' :: ' ' :: type)

/-- The source of a type alias. -/
def aliasSource (name : Word) (type : List Char) : String := String.ofList (aliasChars name type)

section

variable {s : Setting} {p q : Progress}

/-- A type alias is a declaration. -/
theorem atDeclaration_alias (hp : p.current.token = .word "type")
    (hline : p.advanced.current.onNewLine = false)
    (hname : isBindingName p.advanced.current.token = true) (n : Nat) :
    atDeclaration (n + 1) s p = some (true, p) := by
  simp [atDeclaration, declarationWords, hp, hline, hname]

/-- A type alias is read behind its first word. -/
theorem aliasRest_run {ph : Phrases} {name : String} {t : TypeExpr} (start : Nat)
    (hs : s.typed = true) (hname : p.current.token = .word name) (hbinding : name ∉ reservedWords)
    (hequals : p.advanced.current.token = .mark "=")
    (hopen : p.advanced.advanced.current.token ≠ .word "intrinsic")
    (htype : ph.type s p.advanced.advanced = some (t, q)) (hend : q.current.token = .stop) :
    aliasRest ph start s p = some (⟨name, [], t, start⟩, q) := by
  have hparams : typeParams? ph s p.advanced = some ([], p.advanced) := by
    have hangles : p.advanced.current.token ≠ .mark "<<" := by
      rw [hequals]
      decide
    simp [typeParams?, hs, splitAngle_of_ne hangles, hequals]
  have hbindingName : bindingName s p = some (name, p.advanced) := by
    simp [bindingName, hname, isBindingName, hbinding, anyWord_of hname]
  have hsemicolon : q.current.token ≠ .mark ";" := by
    rw [hend]
    decide
  have hendStatement : endStatement s q = some ((), q) := by
    simp [endStatement, eatMark_of_ne hsemicolon, hend]
  simp [aliasRest, hbindingName, hparams, expectMark_of hequals, expectWord_of_ne hopen, htype,
    hendStatement]

/-- A type alias is read as a statement. -/
theorem statement_alias (ph : Phrases) {name : String} {t : TypeExpr}
    (hs : s.typed = true) (hp : p.current.token = .word "type")
    (hline : p.advanced.current.onNewLine = false)
    (hname : p.advanced.current.token = .word name) (hbinding : name ∉ reservedWords)
    (hequals : p.advanced.advanced.current.token = .mark "=")
    (hopen : p.advanced.advanced.advanced.current.token ≠ .word "intrinsic")
    (htype : ph.type s p.advanced.advanced.advanced = some (t, q))
    (hend : q.current.token = .stop) :
    statement ph s p =
      some (.declare false (.typeAlias ⟨name, [], t, p.current.here.pos⟩), q) := by
  have hisName : isBindingName p.advanced.current.token = true := by
    simp [hname, isBindingName, hbinding]
  have hdeclares := fun n => atDeclaration_alias (s := s) hp hline hisName n
  have hrest := fun start => aliasRest_run start hs hname hbinding hequals hopen htype hend
  have hdeclaration : declaration ph s p =
      some (some (.typeAlias ⟨name, [], t, p.current.here.pos⟩), q) := by
    -- No modifier stands in front of the word.
    rw [declaration, bind_run, peekLexeme_run, Option.bind_some, bind_run, discard_run,
      collect_none]
    · simp [hp, hrest]
    · simp [hp, declarationModifiers]
  have hlet : atLet s p = some (false, p) := by
    simp [atLet, expectWord, eatWord_of_ne, hp]
  have hasync : atAsyncFunction s p = some (false, p) := by
    simp [atAsyncFunction, expectWord, eatWord_of_ne, hp]
  have husing : atUsing s p = some (false, p) := by
    simp [atUsing, expectWord, eatWord_of_ne, hp]
  simp [statement, hp, control?, hlet, hasync, husing, hs, typedDeclarationWords, hdeclares,
    declared, hdeclaration]

/-- A source of one statement is read as that statement. -/
theorem statements_single {depth : Nat} {statement : Statement} (hp : p.current.token ≠ .stop)
    (hlength : 0 < p.current.here.rest.length)
    (h : Grammar.statement (phrases depth) s p = some (statement, q))
    (hend : q.current.token = .stop) : statements depth s p = some ([statement], q) := by
  refine Collects.collect (.cons (q := q) ?_ (.nil ?_)) hlength
  · simp [hp, h]
  · simp [hend]

end

/-- The source of an alias is read from its start. -/
theorem startCursor_aliasSource (name : Word) (type : List Char) :
    startCursor (aliasSource name type) = ⟨aliasChars name type, 0⟩ := by
  rw [startCursor, aliasSource, String.toList_ofList]
  rfl

/-- Behind the tokens of an alias its type is next. -/
theorem reaches_alias (name : Word) (type : List Char) {p : Progress}
    (hp : p = passed (aliasChars name type) 0 [] []) :
    p.current.token = .word "type" ∧ p.current.here = ⟨aliasChars name type, 0⟩ ∧
      p.advanced.current.onNewLine = false ∧ p.advanced.current.token = .word name.text ∧
      p.advanced.advanced.current.token = .mark "=" ∧
      ∃ cs out, Reaches p p.advanced.advanced.advanced 0 cs out (Gaps.space.chars ++ type) := by
  have hspace : ∀ rest, Apart (Gaps.space.chars ++ rest) ∧ Calm (Gaps.space.chars ++ rest) :=
    fun rest => ⟨Apart.gaps _ fun h => (List.cons_ne_nil _ _ h).elim,
      Calm.gaps _ fun h => (List.cons_ne_nil _ _ h).elim⟩
  subst hp
  have hstart : Reaches (passed (aliasChars name type) 0 [] [])
      (passed (aliasChars name type) 0 [] []) 0 [] []
      (Gaps.chars [] ++ (Word.type.chars ++ (Gaps.space.chars ++ (name.chars ++
        (Gaps.space.chars ++ '=' :: (Gaps.space.chars ++ type)))))) :=
    ⟨[], [], .raw 0 [], rfl⟩
  have hhere := (hstart.standsAt ((Written.word Word.type).solid _)).here
  obtain ⟨htypeWord, hbehindType⟩ :=
    hstart.then_token ((Written.word Word.type).solid _) (scanToken_word Word.type (hspace _).1)
  obtain ⟨hname, hbehindName⟩ :=
    hbehindType.then_token ((Written.word name).solid _) (scanToken_word name (hspace _).1)
  obtain ⟨hequals, hbehindEquals⟩ := hbehindName.then_mark (by decide) ((hspace _).2.lone '=')
  exact ⟨htypeWord, hhere,
    hbehindType.onNewLine ((Written.word name).solid _), hname, hequals, _, _, hbehindEquals⟩

section

variable {extension? : Option String} (htyped : (settingOf extension?).typed = true) {name : Word}
  (hname : name.text ∉ reservedWords) {fields : Fields} (hfits : fields.Fits) (last : Gaps)

include htyped hname hfits

/-- A literal that an alias names is read as such. -/
theorem statements?_alias :
    ∃ t, Source.statements? extension? (aliasSource name (Written.literal fields last).chars) =
        some [.declare false (.typeAlias ⟨name.text, [], t, 0⟩)] ∧
      (Written.literal fields last).Describes t := by
  have hfitsLiteral : (Written.literal fields last).Fits := hfits
  have hbrace : (scanToken (Written.literal fields last).chars).1 = .mark "\x7b" := by
    rw [Written.chars, scanToken_mark (by decide) (lone_of_mem (by decide) _)]
  generalize Written.literal fields last = w at hfitsLiteral hbrace ⊢
  generalize hsource : aliasSource name w.chars = source
  have hdepth : w.depth ≤ 2 * source.length + 32 := by
    have hle := w.depth_le
    have hlength : w.chars.length ≤ source.length := by
      simp [← hsource, aliasSource, aliasChars]
      omega
    omega
  have hreader := (readsBarred_phrases _ w hfitsLiteral hdepth).reads
  have hsolid : Solid w.chars := by
    rw [← List.append_nil w.chars]
    exact w.solid []
  generalize hp : passed (aliasChars name w.chars) 0 [] [] = p
  obtain ⟨htypeWord, hhere, hline, hnameWord, hequals, cs, out, hbehind⟩ :=
    reaches_alias name w.chars hp.symm
  have hbraceNext := (hbehind.standsAt hsolid).token
  rw [← List.append_nil w.chars] at hbehind
  obtain ⟨t, q, hread, hdescribes, hreaches⟩ := hbehind.then_type hreader htyped (.stop typeEnds)
  have hend : q.current.token = .stop := by
    rw [hreaches.current]
    rfl
  have hopen : p.advanced.advanced.advanced.current.token ≠ .word "intrinsic" := by
    rw [hbraceNext, hbrace]
    exact Token.noConfusion
  have hstatement := statement_alias (phrases (2 * (2 * source.length + 32))) htyped htypeWord hline
    hnameWord hname hequals hopen hread hend
  have hlength : 0 < p.current.here.rest.length := by
    rw [hhere]
    exact Nat.succ_pos _
  have hstatements := statements_single (by rw [htypeWord]; exact Token.noConfusion) hlength
    hstatement hend
  have hstart : startCursor source = ⟨aliasChars name w.chars, 0⟩ := by
    rw [← hsource, startCursor_aliasSource]
  have hdouble : 4 * source.length + 64 = 2 * (2 * source.length + 32) := by omega
  rw [hhere, ← hp] at hstatements
  refine ⟨t, ?_, hdescribes⟩
  rw [Source.statements?, hstart, hdouble]
  exact congrArg (Option.map (·.1)) hstatements

end

/-- The properties of a request: one behind a comment, with a name in quotes; one of a union with a
bar in front; and one without a type. -/
def requestFields : Fields :=
  let headers : Word := ⟨'h', ['e', 'a', 'd', 'e', 'r', 's'], rfl, rfl⟩
  let array : Word := ⟨'A', ['r', 'r', 'a', 'y'], rfl, rfl⟩
  let string : Word := ⟨'s', ['t', 'r', 'i', 'n', 'g'], rfl, rfl⟩
  let body : Word := ⟨'b', ['o', 'd', 'y'], rfl, rfl⟩
  let raw : Quoted := ⟨true, ['r', 'a', 'w'], by simp⟩
  let id : Word := ⟨'i', ['d'], rfl, rfl⟩
  let done : Word := ⟨'d', ['o', 'n', 'e'], rfl, rfl⟩
  let line : Gap := .blank '\n' rfl
  .typed [line, .line ['1'] (List.forall_mem_singleton.2 rfl) false] ⟨some .space, headers, some true, some []⟩ [] .space
    none (.array (.applied array [] [] (.word string) .nil []) [⟨[], []⟩]) (some ⟨[], false⟩) <|
  .typed [line] ⟨none, body, none, none⟩ [] .space (some .space)
    (.union (.quoted raw) <| .cons .space .space
      (.literal (.typed .space ⟨none, id, none, none⟩ [] .space none (.word string) none .nil)
        [line]) .nil)
    none <|
  .bare [line] ⟨none, done, none, none⟩ none .nil

/-- The properties of a request fit. -/
theorem requestFields_fits : requestFields.Fits := by
  have harray : String.ofList ['A', 'r', 'r', 'a', 'y'] ∉ otherWords ∧
      String.ofList ['A', 'r', 'r', 'a', 'y'] ∉ plainWords := by decide
  have hstring : String.ofList ['s', 't', 'r', 'i', 'n', 'g'] ∉ otherWords := by decide
  have hlines : endsLine ' ' = false ∧ endsLine '\n' = true := by decide
  simp [requestFields, Fields.Fits, Written.Fits, More.Fits, Head.Fits, Fields.StartsLine,
    Head.StandsAlone, Written.IsItem, Written.IsPart, More.All, Gaps.breaks, Gap.breaks, Gaps.space,
    Word.text, Word.chars, harray, hstring, hlines]

end IpcWiring.Script
