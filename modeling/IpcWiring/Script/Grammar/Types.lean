import IpcWiring.Script.Reader
import IpcWiring.Text.Braces

/-!
# The grammar of types

Readers for type expressions, type parameters, parameter lists and the members of type literals.
Every reader that nests into another phrase takes the readers of the phrases inside it as `Phrases`,
so each one is a plain definition; the nesting is closed in one place.
-/

namespace IpcWiring.Script

/-- Readers for the phrases that other phrases nest. -/
structure Phrases where
  type : Reader TypeExpr
  /-- A type with a type operator or none, but no union, intersection or condition. -/
  operatorType : Reader TypeExpr
  /-- Expressions joined by commas. -/
  expression : Reader Expr
  assignment : Reader Expr
  unary : Reader Expr
  /-- A primary expression with the members and calls behind it. -/
  chain : Reader Expr
  /-- The pattern of a binding. -/
  pattern : Reader Pattern
  statement : Reader Statement
  /-- An element up to its last `>`, which stays unread. -/
  element : Reader Unit

namespace Grammar

open Reader

/-! ## Words in front of names -/

/-- The words that can modify a declaration, member or parameter. -/
def modifierWords : List String :=
  ["abstract", "accessor", "async", "const", "declare", "default", "export", "in", "out",
    "override", "private", "protected", "public", "readonly", "static"]

/-- The token spells a property name. -/
def isPropertyName : Token → Bool
  | .word _ | .escapedWord _ | .privateName _ | .string _ | .number _ | .bigint _ => true
  | _ => false

/-- What is next can be modified by the word before it. -/
def atModified : Reader Bool := do
  let t ← peek
  return isPropertyName t || ["[", "\x7b", "*", "..."].any (t == .mark ·)

/-- The word is next and modifies what follows. Most words do so on their own line only. -/
def modifies (word : String) : Reader Bool := sees do
  check (← eatWord word)
  let anyLine := ["static", "get", "set"].contains word
  return (anyLine || !(← onNewLine)) && (← atModified)

/-- Reads one modifier, if one is next. -/
def modifier? : Reader (Option String) := do
  match ← peek with
  | .word w =>
    if modifierWords.contains w then
      if ← modifies w then advance; return some w
    return none
  | _ => return none

/-- Reads modifiers as long as they last. -/
def modifiers : Reader (List String) := collect modifier?

/-! ## Finishing a type -/

/-- The type from a place up to the token read last. -/
def finish (m : Mark) (form : TypeForm) : Reader TypeExpr :=
  return ⟨form, ← textSince m, m.here.pos, ← namesSince m⟩

/-- The reader under which an `extends` starts no conditional type, or may start one. -/
def withPlainTypes {α : Type} (plain : Bool) (r : Reader α) : Reader α :=
  withReader (fun s => { s with plainTypes := plain }) r

/-! ## Arguments and names -/

/-- Reads type arguments in angle brackets. -/
def typeArgs (ph : Phrases) : Reader (List TypeExpr) := do
  splitAngle
  expectMark "<"
  let args ← commaSeparated ">" (withPlainTypes false ph.type)
  expectMark ">"
  return args

/-- Reads type arguments if they follow on the same line. -/
def typeArgs? (ph : Phrases) : Reader (List TypeExpr) := do
  if ← onNewLine then return []
  splitAngle
  if ← atMark "<" then typeArgs ph else return []

/-- Reads a dotted name, each segment any word. -/
def dottedName : Reader TypeName := do
  let head ← anyWord
  grow (fun (n : TypeName) => do
    if ← eatMark "." then return some (n.dot (← anyWord)) else return none) (.simple head)

/-- Reads the reference to a named type. -/
def reference (ph : Phrases) : Reader TypeExpr := do
  let m ← mark
  let name ← dottedName
  noteName name
  let args ← typeArgs? ph
  finish m (.reference name args)

/-! ## Parameters -/

/-- Reads a type behind a colon, if one follows. -/
def annotation? (ph : Phrases) : Reader (Option TypeExpr) := do
  if (← read).typed then
    if ← eatMark ":" then return some (← ph.type)
  return none

/-- Reads the result of a function: a type, or what a parameter is told to be. -/
def resultType (ph : Phrases) : Reader TypeExpr := do
  let m ← mark
  let told ← attempt do
    discard anyWord
    check !(← onNewLine)
    expectWord "is"
  let t ← ph.type
  if told.isSome then finish m .other else return t

/-- Reads the result of a function behind a colon, if one follows. -/
def resultType? (ph : Phrases) : Reader (Option TypeExpr) := do
  if (← read).typed then
    if ← eatMark ":" then return some (← resultType ph)
  return none

/-- Reads a decorator. -/
def decorator? (ph : Phrases) : Reader (Option Unit) := do
  if ← eatMark "@" then
    discard ph.chain
    return some ()
  return none

/-- Reads decorators as long as they last. -/
def decorators (ph : Phrases) : Reader Unit := discard (collect (decorator? ph))

/-- Reads a default value. -/
def initial? (ph : Phrases) : Reader Bool := do
  if ← eatMark "=" then
    discard (withReader (fun s => { s with noIn := false }) ph.assignment)
    return true
  return false

/-- The name that a pattern binds, if it is one. -/
def patternName? : Pattern → Option String
  | .name n => some n
  | _ => none

/-- Reads a parameter. -/
def param (ph : Phrases) : Reader Param := do
  decorators ph
  if ← eatMark "..." then
    let p ← ph.pattern
    if (← read).typed then discard (eatMark "?")
    let t? ← annotation? ph
    discard (initial? ph)
    return ⟨.rest (patternName? p), t?, false⟩
  if (← read).typed then discard modifiers
  let p ← ph.pattern
  let marked ← if (← read).typed then eatMark "?" else pure false
  let t? ← annotation? ph
  let valued ← initial? ph
  return ⟨p, t?, marked || valued⟩

/-- The parameter takes the remaining arguments. -/
def isRest (p : Param) : Bool :=
  match p.pattern with
  | .rest _ => true
  | _ => false

/-- Reads a parameter list. A parameter `this` is not part of the result, and what is noted in it
comes before the place that is given along with the parameters. -/
def paramList (ph : Phrases) : Reader (List Param × Mark) := do
  let start ← mark
  expectMark "("
  if (← read).typed then
    if ← eatWord "this" then
      discard (annotation? ph)
      discard (eatMark ",")
  let noted ← mark
  let params ← commaSeparated ")" (param ph)
  expectMark ")"
  let rest := (params.filter isRest).getLast?.toList
  return (params.filter (!isRest ·) ++ rest, { noted with here := start.here })

/-- Reads type parameters in angle brackets. -/
def typeParams (ph : Phrases) : Reader (List TypeParam) := do
  expectMark "<"
  let params ← commaSeparated ">" do
    discard modifiers
    let name ← bindingName
    if ← eatWord "extends" then discard ph.type
    let default? ← if ← eatMark "=" then some <$> ph.type else pure none
    return (⟨name, default?⟩ : TypeParam)
  expectMark ">"
  return params

/-- Reads type parameters if any follow. -/
def typeParams? (ph : Phrases) : Reader (List TypeParam) := do
  if (← read).typed then
    splitAngle
    if ← atMark "<" then return ← typeParams ph
  return []

/-! ## Members of a type literal -/

/-- The key of a property. -/
structure Key where
  /-- The name that the key stands for, if the key is not computed or private. -/
  name? : Option String
  computed : Bool
  /-- The key as it is written, without brackets. -/
  text : String

/-- Reads the key of a property. -/
def propertyKey (ph : Phrases) : Reader Key := do
  let m ← mark
  let plain := fun (name? : Option String) => do
    advance
    return (⟨name?, false, ← plainTextSince m⟩ : Key)
  match ← peek with
  | .word w => plain (some w)
  | .escapedWord w => plain (some w)
  | .string value => plain (some value)
  | .number literal => plain (some (numberName literal))
  | .bigint literal => plain (some (bigintName literal))
  | .privateName _ => plain none
  | .mark "[" =>
    advance
    let inner ← mark
    discard (withReader (fun s => { s with noIn := false }) ph.assignment)
    let text ← plainTextSince inner
    expectMark "]"
    return ⟨none, true, text⟩
  | _ => reject

/-- A member of a type literal: its text, and the property that it declares, if any. -/
structure Signature where
  text : String
  member? : Option Member
  isOpaque : Bool

/-- The type literal with these members. -/
def literalText (signatures : List Signature) : String :=
  Text.braced (signatures.map (·.text))

/-- Drops the separators at the end of a member's text. -/
def dropSeparators (text : String) : String :=
  let kept := text.toList.reverse.dropWhile fun c => c == ';' || c == ','
  String.ofList (Text.trimEndChars kept.reverse)

/-- Reads the separator behind a member, if there is one. -/
def memberEnd : Reader Unit := do
  if ← eatMark "," then return
  discard (eatMark ";")

/-- Ends a member that is written as in the source. -/
def signatureEnd (m : Mark) (member? : Option Member) (isOpaque : Bool) : Reader Signature := do
  memberEnd
  return ⟨dropSeparators (← textSince m), member?, isOpaque⟩

/-- The type of a member without an annotation. -/
def orAny (m : Mark) (type? : Option TypeExpr) : TypeExpr :=
  type?.getD (.ofKeyword "any" m.here.pos)

/-- Reads a call or construct signature behind its first word. -/
def callSignature (ph : Phrases) (m : Mark) : Reader Signature := do
  discard (typeParams? ph)
  discard (paramList ph)
  discard (resultType? ph)
  signatureEnd m none true

/-- Reads an accessor behind `get` or `set`; only a getter declares a property. -/
def accessor (ph : Phrases) (m : Mark) (isGetter : Bool) : Reader Signature := do
  let key ← propertyKey ph
  discard (typeParams? ph)
  discard (paramList ph)
  let result? ← resultType? ph
  let member? := if isGetter then
      key.name?.map fun name => (⟨name, false, orAny m result?, m.here.pos⟩ : Member)
    else none
  signatureEnd m member? false

/-- What is next is an index signature rather than a computed key. -/
def atIndexSignature : Reader Bool := sees do
  expectMark "["
  if (← atMark "...") || (← atMark "]") then return true
  match ← peek with
  | .word w =>
    advance
    if modifierWords.contains w && (← atBindingName) then return true
    check (!reservedWords.contains w)
  | _ =>
    check (← atBindingName)
    advance
  if (← atMark ":") || (← atMark ",") then return true
  expectMark "?"
  return (← atMark ":") || (← atMark ",") || (← atMark "]")

/-- Reads an index signature behind its modifiers. -/
def indexSignature (ph : Phrases) : Reader Unit := do
  expectMark "["
  discard <| commaSeparated "]" do
    discard modifiers
    discard anyWord
    discard (eatMark "?")
    expectMark ":"
    discard ph.type
  expectMark "]"
  expectMark ":"
  discard ph.type

/-- Reads a method behind its key. -/
def method (ph : Phrases) (m : Mark) (key : Key) (optional : Bool) : Reader Signature := do
  let generic ← mark
  discard (typeParams? ph)
  let generics ← textSince generic
  let (params, list) ← paramList ph
  let paramsText ← textSince list
  let names ← namesSince list
  let result := orAny m (← resultType? ph)
  let type : TypeExpr :=
    ⟨.function params result, generics ++ paramsText ++ " => " ++ result.text, m.here.pos,
      appendNew names result.names⟩
  signatureEnd m (key.name?.map fun name => ⟨name, optional, type, m.here.pos⟩) false

/-- Reads a property or method. -/
def property (ph : Phrases) (m : Mark) (readonly : Bool) : Reader Signature := do
  let key ← propertyKey ph
  let optional ← eatMark "?"
  if (← atMark "(") || (← atMark "<") then return ← method ph m key optional
  let type? ← annotation? ph
  memberEnd
  let keyText := if key.computed then "[" ++ key.text ++ "]" else key.name?.getD key.text
  let text := (if readonly then "readonly " else "") ++ keyText ++ (if optional then "?" else "") ++
    ": " ++ (type?.map (·.text)).getD "any"
  return ⟨text, key.name?.map fun name => ⟨name, optional, orAny m type?, m.here.pos⟩, false⟩

/-- Reads a member of a type literal. -/
def signature (ph : Phrases) : Reader Signature := do
  let m ← mark
  if (← atMark "(") || (← atMark "<") then return ← callSignature ph m
  let constructs ← sees do
    expectWord "new"
    return (← atMark "(") || (← atMark "<")
  if constructs then
    advance
    return ← callSignature ph m
  let words ← modifiers
  if ← modifies "get" then
    advance
    return ← accessor ph m true
  if ← modifies "set" then
    advance
    return ← accessor ph m false
  if ← atIndexSignature then
    indexSignature ph
    return ← signatureEnd m none true
  property ph m (words.contains "readonly")

/-- The properties among members, and whether one of them is none that can be listed. -/
def membersOf (signatures : List Signature) : List Member × Bool :=
  (signatures.filterMap (·.member?), signatures.any (·.isOpaque))

/-- Reads members in braces. -/
def memberBlock (ph : Phrases) : Reader (List Signature) := do
  expectMark "\x7b"
  let signatures ← untilMark "\x7d" (withPlainTypes false (signature ph))
  expectMark "\x7d"
  return signatures

/-- Reads a type literal. -/
def typeLiteral (ph : Phrases) : Reader TypeExpr := do
  let m ← mark
  let signatures ← memberBlock ph
  let text := literalText signatures
  noteLiteral m text
  let (members, isOpaque) := membersOf signatures
  return ⟨.object members isOpaque, text, m.here.pos, ← namesSince m⟩

/-- What is next is a mapped type. -/
def atMappedType : Reader Bool := sees do
  expectMark "\x7b"
  if (← eatMark "+") || (← eatMark "-") then return ← atWord "readonly"
  discard (eatWord "readonly")
  expectMark "["
  discard anyWord
  atWord "in"

/-- Reads a mapped type. -/
def mappedType (ph : Phrases) : Reader TypeExpr := do
  let m ← mark
  expectMark "\x7b"
  if (← eatMark "+") || (← eatMark "-") then expectWord "readonly"
  else discard (eatWord "readonly")
  expectMark "["
  discard anyWord
  expectWord "in"
  discard ph.type
  if ← eatWord "as" then discard ph.type
  expectMark "]"
  if (← eatMark "+") || (← eatMark "-") then expectMark "?" else discard (eatMark "?")
  discard (annotation? ph)
  memberEnd
  expectMark "\x7d"
  finish m .other

/-! ## Primary types -/

/-- Reads the pieces of a template, each substitution by `hole`. -/
def templateRest (hole : Reader Unit) : Reader Unit := do
  advance
  discard <| collect do
    hole
    let l ← peekLexeme
    check (l.token == .mark "\x7d")
    match templateBody? l.after.rest with
    | none => reject
    | some (n, closed) =>
      replace { l with token := .template, after := l.after.skip n }
      advance
      return if closed then none else some ()

/-- The keyword types that a dot behind them makes names. -/
def keywordTypes : List String :=
  ["any", "bigint", "boolean", "never", "number", "object", "string", "symbol", "undefined",
    "unknown"]

/-- The words that start a type without being a name. -/
def typeWords : List String :=
  ["void", "null", "this", "typeof", "new", "true", "false", "import"]

/-- The marks that start a type. -/
def typeMarks : List String := ["\x7b", "[", "<", "|", "&", "*", "?", "!", "..."]

/-- A type starts here; the type inside a parenthesis may be a parameter list. -/
def startsType : Reader Bool := do
  match ← peek with
  | .mark "-" => sees do
    advance
    match ← peek with
    | .number _ | .bigint _ => return true
    | _ => return false
  | .mark "(" => sees do
    advance
    match ← peek with
    | .mark m => return m == ")" || m == "(" || m == "@" || m == "-" || typeMarks.contains m
    | .privateName _ | .regex | .stop => return false
    | _ => return true
  | .mark m => return typeMarks.contains m || m == "<<"
  | .word w => return typeWords.contains w || w == "function" || !reservedWords.contains w
  | .escapedWord _ | .string _ | .number _ | .bigint _ | .template | .templateOpen => return true
  | .privateName _ | .regex | .stop => return false

/-- Reads `typeof` with what it names. -/
def query (ph : Phrases) : Reader TypeExpr := do
  let m ← mark
  expectWord "typeof"
  let ofThis ← atWord "this"
  let name ← dottedName
  if !ofThis then noteName name
  discard (typeArgs? ph)
  finish m (if ofThis then .other else .query name)

/-- Reads a type by the module that it is in. -/
def importType (ph : Phrases) : Reader TypeExpr := do
  let m ← mark
  discard (eatWord "typeof")
  expectWord "import"
  expectMark "("
  discard ph.type
  if ← eatMark "," then
    if !(← atMark ")") then
      discard ph.assignment
      discard (eatMark ",")
  expectMark ")"
  discard <| collect do
    if ← eatMark "." then return some (← anyWord) else return none
  discard (typeArgs? ph)
  finish m .other

/-- Reads an element of a tuple. -/
def tupleItem (ph : Phrases) : Reader Unit := do
  let labelled ← sees do
    discard (eatMark "...")
    discard anyWord
    discard (eatMark "?")
    atMark ":"
  discard (eatMark "...")
  if labelled then
    discard anyWord
    discard (eatMark "?")
    expectMark ":"
  discard ph.type

/-- Reads a type that is one token, or in brackets of its own. -/
def primaryType (ph : Phrases) : Reader TypeExpr := do
  let m ← mark
  let single := fun (form : TypeForm) => do
    advance
    finish m form
  match ← peek with
  | .string value => single (.literal value)
  | .number _ => single .other
  | .bigint _ => single .other
  | .template => single .other
  | .templateOpen =>
    templateRest (discard ph.type)
    finish m .other
  | .mark "\x7b" => if ← atMappedType then mappedType ph else typeLiteral ph
  | .mark "[" =>
    advance
    discard (commaSeparated "]" (tupleItem ph))
    expectMark "]"
    finish m .other
  | .mark "(" =>
    advance
    let inner ← ph.type
    expectMark ")"
    finish m (.paren inner)
  | .mark "-" =>
    advance
    match ← peek with
    | .number _ => single .other
    | .bigint _ => single .other
    | _ => reject
  | .mark "?" =>
    advance
    let alone ← [",", "\x7d", ")", ">", "=", "|"].anyM fun c => atMark c
    if !alone then discard ph.type
    finish m .other
  | .mark "!" =>
    advance
    discard ph.operatorType
    finish m .other
  | .word w =>
    if keywordTypes.contains w then
      let qualified ← sees do
        advance
        atMark "."
      if qualified then reference ph else single (.keyword w)
    else if w == "null" || w == "void" then single (.keyword w)
    else if w == "true" || w == "false" then single .other
    else if w == "this" then
      advance
      if !(← onNewLine) then
        if ← eatWord "is" then discard ph.type
      finish m .other
    else if w == "typeof" then
      let ofModule ← sees do
        advance
        atWord "import"
      if ofModule then importType ph else query ph
    else if w == "import" then importType ph
    else if w == "asserts" then
      let asserting ← sees do
        advance
        return !(← onNewLine) && ((← atBindingName) || (← atWord "this"))
      if asserting then
        advance
        advance
        if ← eatWord "is" then discard ph.type
        finish m .other
      else reference ph
    else reference ph
  | .escapedWord _ => reference ph
  | _ => reject

/-! ## Composed types -/

/-- Reads one bracket or mark behind a type. -/
def typeSuffix (ph : Phrases) (m : Mark) : Reader (Option TypeExpr) := do
  if ← onNewLine then return none
  match ← peek with
  | .mark "!" =>
    advance
    return some (← finish m .other)
  | .mark "?" =>
    let conditional ← sees do
      advance
      startsType
    if conditional then return none
    advance
    return some (← finish m .other)
  | .mark "[" =>
    advance
    if !(← atMark "]") then discard ph.type
    expectMark "]"
    return some (← finish m .other)
  | _ => return none

/-- Reads a primary type with its suffixes. -/
def suffixedType (ph : Phrases) : Reader TypeExpr := do
  let m ← mark
  let t ← primaryType ph
  grow (fun _ => typeSuffix ph m) t

/-- Reads a type operator with its operand, or a type without one. -/
def operatorType (ph : Phrases) : Reader TypeExpr := do
  let m ← mark
  match ← peek with
  | .word "infer" =>
    advance
    discard bindingName
    discard <| attempt do
      expectWord "extends"
      discard (withPlainTypes true ph.type)
      check ((← read).plainTypes || !(← atMark "?"))
    finish m .other
  | .word w =>
    if w == "keyof" || w == "unique" || w == "readonly" then
      advance
      discard ph.operatorType
      finish m .other
    else withPlainTypes false (suffixedType ph)
  | _ => withPlainTypes false (suffixedType ph)

/-- Reads types with an operator between them, and perhaps one in front; a single type without the
operator stands for itself. -/
def joinedTypes (operator : String) (item : Reader TypeExpr) (form : List TypeExpr → TypeForm) :
    Reader TypeExpr := do
  let m ← mark
  let leading ← eatMark operator
  let first ← item
  if !leading && !(← atMark operator) then return first
  let more ← collect do
    if ← eatMark operator then return some (← item) else return none
  finish m (form (first :: more))

/-- Reads a union of intersections. -/
def unionType (ph : Phrases) : Reader TypeExpr :=
  joinedTypes "|" (joinedTypes "&" ph.operatorType .intersection) .union

/-- A parameter starts here, and goes on behind it. -/
def skipParamStart (ph : Phrases) : Reader Unit := do
  discard modifiers
  if (← atBindingName) || (← atWord "this") then advance
  else
    check ((← atMark "[") || (← atMark "\x7b"))
    discard ph.pattern

/-- What is next is a function type or a constructor type. -/
def atFunctionType (ph : Phrases) : Reader Bool := do
  match ← peek with
  | .mark "<" => return true
  | .mark "<<" => return true
  | .word "new" => return true
  | .word "abstract" => sees do
    advance
    atWord "new"
  | .mark "(" => sees do
    advance
    if (← atMark ")") || (← atMark "...") then return true
    skipParamStart ph
    if ← [":", ",", "?", "="].anyM fun c => atMark c then return true
    expectMark ")"
    atMark "=>"
  | _ => return false

/-- Reads a function type or a constructor type. -/
def functionType (ph : Phrases) : Reader TypeExpr := do
  let m ← mark
  discard (eatWord "abstract")
  let constructs ← eatWord "new"
  discard (typeParams? ph)
  let (params, _) ← paramList ph
  expectMark "=>"
  let result ← resultType ph
  finish m (if constructs then .other else .function params result)

/-- Reads a type. -/
def type (ph : Phrases) : Reader TypeExpr := do
  if ← atFunctionType ph then return ← functionType ph
  let m ← mark
  let t ← unionType ph
  if (← read).plainTypes || (← onNewLine) then return t
  if !(← eatWord "extends") then return t
  discard (withPlainTypes true ph.type)
  expectMark "?"
  discard (withPlainTypes false ph.type)
  expectMark ":"
  discard (withPlainTypes false ph.type)
  finish m .other

end Grammar

end IpcWiring.Script
