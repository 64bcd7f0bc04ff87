import IpcWiring.Script.Grammar.Expressions

/-!
# The grammar of statements

Readers for statements and declarations. What a statement declares, imports or exports is kept; of
every other statement only its end matters.
-/

namespace IpcWiring.Script.Grammar

open Reader

/-! ## Variables and functions -/

/-- Reads a variable with its initial value. -/
def declarator (ph : Phrases) : Reader (Option String × Option Expr) := do
  let p ← ph.pattern
  if (← read).typed then discard (eatMark "!")
  discard (annotation? ph)
  let value? ← if ← eatMark "=" then some <$> ph.assignment else pure none
  return (patternName? p, value?)

/-- Reads variables behind the word that declares them. -/
def variableList (ph : Phrases) : Reader Declaration := do
  let vars ← commaChain (declarator ph)
  return .values vars

/-- Reads a function declaration, whose name may be missing. The body is missing in an overload
signature. -/
def functionDecl (ph : Phrases) : Reader (Option String × List Param) := do
  let isAsync ← eatWord "async"
  expectWord "function"
  let generates ← eatMark "*"
  let name? ← if ← atBindingName then some <$> bindingName else pure none
  let params ← inFunction isAsync generates do
    let params ← functionHead ph
    if ← atMark "\x7b" then block ph
    else
      check (← read).typed
      endStatement
    return params
  return (name?, params)

/-! ## Type declarations -/

/-- Reads the name of a value of an enumeration: a word, a string, or a string or template in
brackets. -/
def enumKey : Reader Unit := do
  match ← peek with
  | .string _ => advance
  | .mark "[" =>
    advance
    if (← peek) == .template then advance else discard stringLiteral
    expectMark "]"
  | _ => discard anyWord

/-- Reads the body of an enumeration. -/
def enumRest (ph : Phrases) : Reader String := do
  let name ← bindingName
  expectMark "\x7b"
  discard <| commaSeparated "\x7d" do
    enumKey
    discard (initial? ph)
  expectMark "\x7d"
  return name

/-- Reads a type alias behind its first word. -/
def aliasRest (ph : Phrases) (start : Nat) : Reader AliasDecl := do
  let name ← bindingName
  let params ← typeParams? ph
  expectMark "="
  let m ← mark
  let isIntrinsic ← sees do
    expectWord "intrinsic"
    return !(← atMark ".")
  let type ← if isIntrinsic then (do advance; finish m .other) else ph.type
  endStatement
  return ⟨name, params, type, start⟩

/-- Reads a named interface that another one extends, up to the end of it. -/
def namedBase (ph : Phrases) : Reader TypeExpr := do
  check (← atBindingName)
  let t ← reference ph
  check ((← atMark ",") || (← atMark "\x7b") || (← atWord "extends") || (← atWord "implements"))
  return t

/-- Reads an interface that another one extends. It may be any expression, but none is kept of one
that is not a name. -/
def base? (ph : Phrases) : Reader (Option TypeExpr) := do
  if let some t ← attempt (namedBase ph) then return some t
  let m ← mark
  let e ← ph.chain
  splitAngle
  let args ← if ← atMark "<" then typeArgs ph else pure []
  match e.typeName? with
  | none => return none
  | some name =>
    let names := args.foldl (fun seen arg => appendNew seen arg.names) [name]
    return some ⟨.reference name args, ← textSince m, m.here.pos, names⟩

/-- Reads an interface behind its first word. Of two lists of interfaces that it extends the last
one counts. -/
def interfaceRest (ph : Phrases) : Reader InterfaceDecl := do
  let name ← bindingName
  let params ← typeParams? ph
  let clauses ← collect do
    if ← eatWord "extends" then return some (some (← commaChain (base? ph)))
    if ← eatWord "implements" then
      discard (commaChain (heritage ph))
      return some none
    return none
  let bases := ((clauses.filterMap id).getLast?.getD []).filterMap id
  let (members, isOpaque) := membersOf (← memberBlock ph)
  return ⟨name, params, members, bases, isOpaque⟩

/-- Reads a namespace or module behind its first word. -/
def namespaceRest (ph : Phrases) : Reader Unit := do
  match ← peek with
  | .string _ =>
    advance
    if ← atMark "\x7b" then block ph else endStatement
  | _ =>
    discard bindingName
    discard <| collect do
      if ← eatMark "." then return some (← anyWord) else return none
    block ph

/-! ## Declarations -/

/-- The words that can stand in front of a declaration. -/
def declarationModifiers : List String :=
  ["declare", "abstract", "accessor", "private", "protected", "public", "readonly", "static"]

/-- The words that start a declaration whatever follows them. -/
def declarationWords : List String := ["var", "let", "const", "function", "class", "enum"]

/-- A declaration starts here, behind at most `n` modifiers. -/
def atDeclaration : Nat → Reader Bool
  | 0 => return false
  | n + 1 => do
    match ← peek with
    | .word w =>
      if declarationWords.contains w then return true
      sees do
        advance
        if w == "import" then return true
        if w == "global" then
          return (← atMark "\x7b") || (← atBindingName) || (← atWord "export")
        check !(← onNewLine)
        if w == "interface" || w == "type" then atBindingName
        else if w == "module" || w == "namespace" then
          match ← peek with
          | .string _ => return true
          | _ => atBindingName
        else if w == "async" then atWord "function"
        else
          check (declarationModifiers.contains w)
          if w == "declare" && (← atWord "type") then return true
          atDeclaration n
    | _ => return false

/-- Reads `import name = …` behind its first word. -/
def importEquals (ph : Phrases) : Reader Unit := do
  discard (eatWord "type")
  discard bindingName
  expectMark "="
  discard ph.chain
  endStatement

/-- Reads a declaration; none is kept of a namespace or an import. -/
def declaration (ph : Phrases) : Reader (Option Declaration) := do
  let start := (← peekLexeme).here.pos
  discard <| collect do
    match ← peek with
    | .word w => if declarationModifiers.contains w then advance; return some () else return none
    | _ => return none
  let l ← peekLexeme
  match l.token with
  | .word w =>
    if w == "function" || w == "async" then
      let (name?, params) ← functionDecl ph
      return name?.map fun name => .function ⟨name, start, params⟩
    if w == "class" then
      return (← classTail ph).map .classLike
    advance
    if w == "enum" then return some (.classLike (← enumRest ph))
    if w == "const" && (← read).typed then
      if ← eatWord "enum" then return some (.classLike (← enumRest ph))
    if w == "var" || w == "let" || w == "const" then
      let vars ← variableList ph
      endStatement
      return some vars
    if w == "interface" then return some (.interface (← interfaceRest ph))
    if w == "type" then return some (.typeAlias (← aliasRest ph start))
    if w == "namespace" || w == "module" then
      namespaceRest ph
      return none
    if w == "global" then
      block ph
      return none
    check (w == "import")
    importEquals ph
    return none
  | _ => reject

/-! ## Imports and exports -/

/-- Reads a name that a module exports: a word or a string. -/
def moduleName : Reader String := do
  match ← peek with
  | .string value => advance; return value
  | _ => anyWord

/-- What is next can be the name of an export. -/
def atModuleName : Reader Bool := do
  match ← peek with
  | .string _ => return true
  | _ => atAnyWord

/-- Reads an item in the braces of an import or export: the name in front of `as` and the one
behind it, which are the same without an `as`. A word `type` in front is dropped, unless it is the
name itself. -/
def moduleItem : Reader (String × String) := do
  let l ← peekLexeme
  let first ← moduleName
  let renamed := fun (name : String) => do
    if ← eatWord "as" then return (name, ← moduleName) else return (name, name)
  if l.token != .word "type" then return ← renamed first
  if ← eatWord "as" then
    if ← eatWord "as" then
      if ← atModuleName then return ("as", ← moduleName)
      return (first, "as")
    if ← atModuleName then return (first, ← moduleName)
    return ("as", "as")
  if ← atModuleName then return ← renamed (← moduleName)
  return (first, first)

/-- Reads the attributes of an import. -/
def importAttributes (ph : Phrases) : Reader Unit := do
  let follows ← sees do
    if ← eatWord "with" then return ← atMark "\x7b"
    check !(← onNewLine)
    expectWord "assert"
    atMark "\x7b"
  if follows then
    advance
    discard (objectExpr ph)

/-- Reads the module behind `from`, and ends the statement. -/
def fromModule (ph : Phrases) : Reader String := do
  expectWord "from"
  let specifier ← stringLiteral
  importAttributes ph
  endStatement
  return specifier

/-- Reads `* as name`. -/
def namespaceItem : Reader ImportItem := do
  expectMark "*"
  expectWord "as"
  return ⟨← bindingName, .wholeModule⟩

/-- Reads the names in the braces of an import. -/
def namedItems : Reader (List ImportItem) := do
  expectMark "\x7b"
  let items ← commaSeparated "\x7d" moduleItem
  expectMark "\x7d"
  return items.map fun (imported, local_) => ⟨local_, .named imported⟩

/-- A word between `import` and the names is next, and not a name itself. -/
def atImportPhase (typed : Bool) : Reader Bool := sees do
  let isType ← atWord "type"
  check ((isType && typed) || (← atWord "defer") || (← atWord "source"))
  advance
  if (← atMark "\x7b") || (← atMark "*") then return true
  check (← atBindingName)
  if !(← atWord "from") then return true
  advance
  return (← atWord "from") || (isType && (← atMark "="))

/-- Reads an import. -/
def importStatement (ph : Phrases) : Reader Statement := do
  expectWord "import"
  if let .string specifier ← peek then
    advance
    importAttributes ph
    endStatement
    return .imports specifier []
  if ← atImportPhase (← read).typed then advance
  let default? ← if ← atBindingName then some <$> bindingName else pure none
  if default?.isSome && (← atMark "=") then
    advance
    discard ph.chain
    endStatement
    return .other
  let items := default?.toList.map fun name => (⟨name, .default⟩ : ImportItem)
  let more ←
    if items.isEmpty || (← eatMark ",") then
      if ← atMark "*" then (do return [← namespaceItem]) else namedItems
    else pure []
  let specifier ← fromModule ph
  return .imports specifier (items ++ more)

/-- Reads what follows `export default`. -/
def exportDefault (ph : Phrases) : Reader Statement := do
  decorators ph
  if (← atWord "function") || (← atAsyncFunction) then
    let (name?, _) ← functionDecl ph
    return .exportDefaultFunction name?
  let typed := (← read).typed
  let interface ← sees do
    expectWord "interface"
    return !(← onNewLine) && (← atBindingName)
  if typed && interface then
    advance
    discard (interfaceRest ph)
    return .other
  let abstract_ ← sees do
    expectWord "abstract"
    atWord "class"
  if typed && abstract_ then advance
  if ← atWord "class" then
    discard (classTail ph)
    return .other
  discard ph.assignment
  endStatement
  return .other

/-- Reads an export. -/
def exportStatement (ph : Phrases) : Reader Statement := do
  expectWord "export"
  let typed := (← read).typed
  let typeOnly ← sees do
    expectWord "type"
    return (← atMark "\x7b") || (← atMark "*")
  if typed && typeOnly then advance
  match ← peek with
  | .mark "*" =>
    advance
    let exported? ← if ← eatWord "as" then some <$> moduleName else pure none
    return .exportAll exported? (← fromModule ph)
  | .mark "\x7b" =>
    advance
    let names ← commaSeparated "\x7d" moduleItem
    expectMark "\x7d"
    if ← atWord "from" then return .exportNames names (some (← fromModule ph))
    endStatement
    return .exportNames names none
  | .mark "=" =>
    check typed
    advance
    discard ph.expression
    endStatement
    return .other
  | .mark "@" =>
    decorators ph
    let d? ← declaration ph
    return (d?.map (Statement.declare true)).getD .other
  | .word "default" =>
    advance
    exportDefault ph
  | _ =>
    let global ← sees do
      expectWord "as"
      atWord "namespace"
    if typed && global then
      advance
      advance
      discard bindingName
      endStatement
      return .other
    let starts ← if typed then atDeclaration ((← peekLexeme).here.rest.length + 1)
      else (do return (← atAsyncFunction) || declarationWords.any (.word · == (← peek)))
    check starts
    let d? ← declaration ph
    return (d?.map (Statement.declare true)).getD .other

/-! ## Control flow -/

/-- Reads an expression in parentheses. -/
def condition (ph : Phrases) : Reader Unit := do
  expectMark "("
  discard ph.expression
  expectMark ")"

/-- Reads a statement and drops it. -/
def nested (ph : Phrases) : Reader Unit := discard ph.statement

/-- What is next declares variables with `let`. -/
def atLet : Reader Bool := sees do
  expectWord "let"
  return (← atBindingName) || (← atMark "\x7b") || (← atMark "[")

/-- What is next declares variables with `using`, perhaps with an `await` in front. -/
def atUsing : Reader Bool := sees do
  if ← eatWord "await" then check !(← onNewLine)
  expectWord "using"
  return !(← onNewLine) && (← atBindingName) && !(← atWord "of")

/-- Reads the head of a `for` up to its first `;`, `of` or `in`. -/
def forStart (ph : Phrases) : Reader Unit :=
  withReader (fun s => { s with noIn := true }) do
    if ← atMark ";" then return
    if ← atUsing then
      discard (eatWord "await")
      advance
      discard (variableList ph)
    else if (← atWord "var") || (← atWord "const") || (← atLet) then
      advance
      discard (variableList ph)
    else discard ph.expression

/-- Reads a `for` behind its first word. -/
def forRest (ph : Phrases) : Reader Unit := do
  discard (eatWord "await")
  expectMark "("
  forStart ph
  if ← eatWord "of" then discard ph.assignment
  else if ← eatWord "in" then discard ph.expression
  else
    expectMark ";"
    if !(← atMark ";") then discard ph.expression
    expectMark ";"
    if !(← atMark ")") then discard ph.expression
  expectMark ")"
  nested ph

/-- Reads a `switch` behind its first word. -/
def switchRest (ph : Phrases) : Reader Unit := do
  condition ph
  expectMark "\x7b"
  discard <| untilMark "\x7d" do
    if ← eatWord "case" then discard ph.expression else expectWord "default"
    expectMark ":"
    discard <| collect do
      if (← atMark "\x7d") || (← atWord "case") || (← atWord "default") then return none
      return some (← nested ph)
  expectMark "\x7d"

/-- Reads a `try` behind its first word. -/
def tryRest (ph : Phrases) : Reader Unit := do
  block ph
  if ← eatWord "catch" then
    if ← eatMark "(" then
      discard ph.pattern
      discard (annotation? ph)
      expectMark ")"
    block ph
  if ← eatWord "finally" then block ph

/-- Reads an expression unless the statement ends here. -/
def operandOrEnd (ph : Phrases) : Reader Unit := do
  let l ← peekLexeme
  let ends := l.onNewLine || l.token == .mark ";" || l.token == .mark "\x7d" || l.token == .stop
  if !ends then discard ph.expression
  endStatement

/-- Reads a label, if one is on this line, and ends the statement. -/
def jumpRest : Reader Unit := do
  if !(← onNewLine) && (← atBindingName) then advance
  endStatement

/-- Reads an expression as a statement, or a statement with its label. -/
def expressionStatement (ph : Phrases) : Reader Unit := do
  let labelled ← sees do
    discard bindingName
    atMark ":"
  if labelled then
    advance
    advance
    nested ph
  else
    discard ph.expression
    endStatement

/-- Reads a statement that starts with a reserved word of control flow, if one is next. -/
def control? (ph : Phrases) (word : String) : Option (Reader Unit) :=
  let behind := fun (r : Reader Unit) => some (do advance; r)
  match word with
  | "if" => behind do
    condition ph
    nested ph
    if ← eatWord "else" then nested ph
  | "do" => behind do
    nested ph
    expectWord "while"
    condition ph
    discard (eatMark ";")
  | "while" => behind do
    condition ph
    nested ph
  | "with" => behind do
    condition ph
    nested ph
  | "for" => behind (forRest ph)
  | "switch" => behind (switchRest ph)
  | "try" => behind (tryRest ph)
  | "return" => behind (operandOrEnd ph)
  | "throw" => behind do
    discard ph.expression
    endStatement
  | "break" => behind jumpRest
  | "continue" => behind jumpRest
  | "debugger" => behind endStatement
  | _ => none

/-! ## Statements -/

/-- Reads a declaration as a statement. -/
def declared (ph : Phrases) : Reader Statement := do
  let d? ← declaration ph
  return (d?.map (Statement.declare false)).getD .other

/-- The words that start a declaration only where types are part of the language and a name
follows. -/
def typedDeclarationWords : List String :=
  ["interface", "type", "namespace", "module", "global", "enum"] ++ declarationModifiers

/-- Reads a statement. -/
def statement (ph : Phrases) : Reader Statement := do
  let dropped := fun (r : Reader Unit) => do
    r
    return Statement.other
  match ← peek with
  | .mark "\x7b" => dropped (block ph)
  | .mark ";" => dropped advance
  | .mark "@" =>
    decorators ph
    if ← atWord "export" then exportStatement ph else declared ph
  | .word w =>
    if let some r := control? ph w then return ← dropped r
    if w == "import" then
      let calls ← sees do
        advance
        return (← atMark "(") || (← atMark ".")
      if calls then dropped (expressionStatement ph) else importStatement ph
    else if w == "export" then exportStatement ph
    else if ["var", "const", "function", "class"].contains w then declared ph
    else if w == "let" && (← atLet) then declared ph
    else if ← atAsyncFunction then declared ph
    else if ← atUsing then
      discard (eatWord "await")
      advance
      let vars ← variableList ph
      endStatement
      return .declare false vars
    else
      let types ← if (← read).typed && typedDeclarationWords.contains w then
          atDeclaration ((← peekLexeme).here.rest.length + 1)
        else pure false
      if types then declared ph else dropped (expressionStatement ph)
  | _ => dropped (expressionStatement ph)

end IpcWiring.Script.Grammar
