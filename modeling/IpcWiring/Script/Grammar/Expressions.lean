import IpcWiring.Script.Grammar.Types

/-!
# The grammar of expressions

Readers for binding patterns and expressions. Operators between operands only decide where an
expression ends, so their precedence is not read.
-/

namespace IpcWiring.Script.Grammar

open Reader

/-! ## Patterns -/

/-- Reads a property of an object pattern. -/
def patternProperty (ph : Phrases) : Reader Unit := do
  if ← eatMark "..." then
    discard ph.pattern
    return
  let short ← atBindingName
  discard (propertyKey ph)
  if ← eatMark ":" then discard ph.pattern
  else check short
  discard (initial? ph)

/-- Reads an item of an array pattern, or the comma of a hole. -/
def patternItem? (ph : Phrases) : Reader (Option Unit) := do
  if ← atMark "]" then return none
  if ← eatMark "," then return some ()
  discard (eatMark "...")
  discard ph.pattern
  discard (initial? ph)
  if !(← atMark "]") then expectMark ","
  return some ()

/-- Reads the pattern of a binding. -/
def pattern (ph : Phrases) : Reader Pattern := do
  match ← peek with
  | .mark "\x7b" =>
    advance
    discard (commaSeparated "\x7d" (patternProperty ph))
    expectMark "\x7d"
    return .object
  | .mark "[" =>
    advance
    discard (collect (patternItem? ph))
    expectMark "]"
    return .array
  | _ => return .name (← bindingName)

/-! ## Bodies -/

/-- Reads with `await` and `yield` as operators or as names. -/
def inFunction {α : Type} (awaits yields : Bool) (r : Reader α) : Reader α :=
  withReader
    (fun s => { s with awaits, yields, noIn := false, arrowResult := true, plainTypes := false }) r

/-- Reads statements in braces. -/
def block (ph : Phrases) : Reader Unit := do
  expectMark "\x7b"
  discard (untilMark "\x7d" ph.statement)
  expectMark "\x7d"

/-- Reads a function behind its name: type parameters, parameters and result. -/
def functionHead (ph : Phrases) : Reader (List Param) := do
  discard (typeParams? ph)
  let (params, _) ← paramList ph
  discard (resultType? ph)
  return params

/-- Reads a method behind its key; the body may be missing. -/
def methodRest (ph : Phrases) (isAsync generates : Bool) : Reader Unit :=
  inFunction isAsync generates do
    discard (functionHead ph)
    if ← atMark "\x7b" then block ph else endStatement

/-! ## Classes -/

/-- The word in front of a class body member makes it an accessor. -/
def accessorWord : Reader Bool := do
  if (← modifies "get") || (← modifies "set") then
    advance
    return true
  return false

/-- Reads a member of a class. -/
def classMember (ph : Phrases) : Reader Unit := do
  if ← eatMark ";" then return
  decorators ph
  let staticBlock ← sees do
    expectWord "static"
    atMark "\x7b"
  if staticBlock then
    advance
    return ← inFunction true false (block ph)
  let words ← modifiers
  discard accessorWord
  if (← read).typed then
    if ← atIndexSignature then
      indexSignature ph
      return ← endStatement
  let generates ← eatMark "*"
  discard (propertyKey ph)
  if (← read).typed then
    if !(← eatMark "?") then discard (eatMark "!")
  if (← atMark "(") || (← atMark "<") then
    return ← methodRest ph (words.contains "async") generates
  discard (annotation? ph)
  if ← eatMark "=" then discard (inFunction true false ph.assignment)
  endStatement

/-- Reads the superclass or an interface of a class, with its type arguments. -/
def heritage (ph : Phrases) : Reader Unit := do
  discard ph.chain
  if (← read).typed then
    splitAngle
    if ← atMark "<" then discard (typeArgs ph)

/-- Reads a class and tells its name. -/
def classTail (ph : Phrases) : Reader (Option String) := do
  expectWord "class"
  let implementing ← sees do
    expectWord "implements"
    atAnyWord
  let name? ← if (← atBindingName) && !implementing then some <$> bindingName else pure none
  discard (typeParams? ph)
  discard <| collect do
    if (← eatWord "extends") || ((← read).typed && (← eatWord "implements")) then
      discard (commaChain (heritage ph))
      return some ()
    return none
  expectMark "\x7b"
  discard (untilMark "\x7d" (classMember ph))
  expectMark "\x7d"
  return name?

/-! ## Primary expressions -/

/-- Reads a function expression. -/
def functionExpr (ph : Phrases) : Reader Unit := do
  let isAsync ← eatWord "async"
  expectWord "function"
  let generates ← eatMark "*"
  if ← atBindingName then advance
  inFunction isAsync generates do
    discard (functionHead ph)
    block ph

/-- Reads an argument or array item: an expression, or none if it is spread. -/
def spreadable (ph : Phrases) : Reader (Option Expr) := do
  if ← eatMark "..." then
    discard ph.assignment
    return none
  return some (← ph.assignment)

/-- Reads without the limits of the place around a pair of brackets. -/
def inBrackets {α : Type} (r : Reader α) : Reader α :=
  withReader (fun s => { s with noIn := false, arrowResult := true }) r

/-- Reads arguments in parentheses. -/
def arguments (ph : Phrases) : Reader (List (Option Expr)) := inBrackets do
  expectMark "("
  let args ← commaSeparated ")" (spreadable ph)
  expectMark ")"
  return args

/-- Reads an array. -/
def arrayExpr (ph : Phrases) : Reader Expr := inBrackets do
  expectMark "["
  let items ← collect do
    if ← atMark "]" then return none
    if ← eatMark "," then return some none
    let item ← spreadable ph
    if !(← atMark "]") then expectMark ","
    return some item
  expectMark "]"
  return .array items

/-- The property of an object expression under a key, if the key is known. -/
def entryAt (key : Key) (value : Expr) : Option Entry := key.name?.map fun k => ⟨k, value⟩

/-- Reads a property of an object. -/
def objectEntry (ph : Phrases) : Reader (Option Entry) := do
  if ← eatMark "..." then
    discard ph.assignment
    return none
  let words ← modifiers
  discard accessorWord
  let generates ← eatMark "*"
  let short ← atBindingName
  let key ← propertyKey ph
  if (← read).typed then
    discard (eatMark "?")
    discard (eatMark "!")
  if generates || (← atMark "(") || (← atMark "<") then
    inFunction (words.contains "async") generates do
      discard (functionHead ph)
      block ph
    return entryAt key .other
  if ← eatMark ":" then return entryAt key (← ph.assignment)
  check short
  discard (initial? ph)
  return entryAt key (.name (key.name?.getD ""))

/-- Reads an object. -/
def objectExpr (ph : Phrases) : Reader Expr := inBrackets do
  expectMark "\x7b"
  let entries ← commaSeparated "\x7d" (objectEntry ph)
  expectMark "\x7d"
  return .object (entries.filterMap id)

/-- Reads a regular expression whose first slash was read as an operator. -/
def regexExpr : Reader Unit := do
  let l ← peekLexeme
  match regexBody? false (l.here.skip 1).rest with
  | none => reject
  | some n =>
    replace { l with token := .regex, after := (l.here.skip (n + 1)).skipWhile continuesName }
    advance

/-- Reads what follows `new`. -/
def newExpr (ph : Phrases) (memberSuffix : Expr → Reader (Option Expr)) (primary : Reader Expr) :
    Reader Expr := do
  expectWord "new"
  if ← eatMark "." then
    expectWord "target"
    return .other
  let start ← primary
  discard (grow memberSuffix start)
  if ← atMark "(" then discard (arguments ph)
  return .other

/-- Reads an expression that starts with `import`: a module that is loaded when it is evaluated, or
what tells about this module. -/
def importExpr (ph : Phrases) : Reader Unit := inBrackets do
  expectWord "import"
  if ← eatMark "." then
    if ← eatWord "meta" then return
    check ((← eatWord "source") || (← eatWord "defer"))
  expectMark "("
  discard ph.assignment
  if ← eatMark "," then
    if !(← atMark ")") then discard ph.assignment
  discard (eatMark ",")
  expectMark ")"

/-- An `async` that starts a function on its line is next. -/
def atAsyncFunction : Reader Bool := sees do
  expectWord "async"
  return !(← onNewLine) && (← atWord "function")

/-- Reads an expression that is one token, or in brackets of its own, `new` apart. -/
def primaryExpr (ph : Phrases) : Reader Expr := do
  let m ← mark
  let single := fun (e : Expr) => do
    advance
    return e
  let literal := do
    advance
    return Expr.literal (← plainTextSince m)
  match ← peek with
  | .string _ => literal
  | .number _ => literal
  | .bigint _ => single .other
  | .regex => single .other
  | .template => single .other
  | .templateOpen =>
    templateRest (inBrackets (discard ph.expression))
    return .other
  | .privateName _ =>
    advance
    check (← atWord "in")
    return .other
  | .escapedWord w => single (.name w)
  | .mark "(" => inBrackets do
    advance
    let e ← ph.expression
    expectMark ")"
    return e
  | .mark "[" => arrayExpr ph
  | .mark "\x7b" => objectExpr ph
  | .mark "/" =>
    regexExpr
    return .other
  | .mark "/=" =>
    regexExpr
    return .other
  | .mark "@" =>
    decorators ph
    discard (classTail ph)
    return .other
  | .mark "<" =>
    check (← read).tagged
    ph.element
    expectMark ">"
    return .other
  | .word w =>
    if w == "true" || w == "false" || w == "null" then literal
    else if w == "this" then single .other
    else if w == "function" then
      functionExpr ph
      return .other
    else if w == "class" then
      discard (classTail ph)
      return .other
    else if w == "super" then
      advance
      check <| ← ["(", ".", "["].anyM fun c => atMark c
      return .other
    else if w == "import" then
      importExpr ph
      return .other
    else if ← atAsyncFunction then
      functionExpr ph
      return .other
    else
      check (isBindingName (.word w))
      single (.name w)
  | _ => reject

/-! ## Members and calls -/

/-- The operators between two operands that are words. -/
def wordOperators : List String := ["in", "instanceof", "as", "satisfies"]

/-- The operators between two operands that are marks; assignments are not among them. -/
def markOperators : List String :=
  ["??", "||", "&&", "|", "^", "&", "==", "!=", "===", "!==", "<", ">", "<=", ">=", "<<", ">>",
    ">>>", "+", "-", "*", "/", "%", "**"]

/-- The assignment operators. -/
def assignmentOperators : List String :=
  ["=", "+=", "-=", "*=", "/=", "%=", "**=", "<<=", ">>=", ">>>=", "&=", "|=", "^=", "&&=", "||=",
    "??="]

/-- The words that start an expression without being a name. -/
def expressionWords : List String :=
  ["this", "super", "null", "true", "false", "function", "class", "new", "delete", "typeof", "void",
    "import"]

/-- An expression may start with the token. -/
def startsExpression : Token → Bool
  | .word w => expressionWords.contains w || wordOperators.contains w || isBindingName (.word w)
  | .mark m =>
    ["(", "[", "\x7b", "/", "/=", "+", "-", "~", "!", "++", "--", "<", "#", "@"].contains m ||
      markOperators.contains m
  | .stop => false
  | _ => true

/-- Type arguments may end here: what follows cannot be the right operand of a comparison. -/
def mayFollowTypeArgs : Reader Bool := do
  joinAngle
  let t ← peek
  match t with
  | .template => return true
  | .templateOpen => return true
  | .mark "(" => return true
  | .mark m =>
    if ["<", ">", "+", "-"].contains m then return false
    return (← onNewLine) || markOperators.contains m || !startsExpression t
  | .word w => return (← onNewLine) || wordOperators.contains w || !startsExpression t
  | _ => return (← onNewLine) || !startsExpression t

/-- Reads type arguments inside an expression. -/
def typeArgsInExpr (ph : Phrases) : Reader Unit := do
  splitAngle
  expectMark "<"
  discard (commaSeparated ">" (withPlainTypes false ph.type))
  joinAngle
  expectMark ">"
  check (← sees mayFollowTypeArgs)

/-- Reads one member access, template or type argument list behind an expression. -/
def memberSuffix (ph : Phrases) (e : Expr) : Reader (Option Expr) := do
  let typed := (← read).typed
  match ← peek with
  | .mark "." =>
    advance
    match ← peek with
    | .privateName _ =>
      advance
      return some .place
    | _ => return some (.member e (← anyWord))
  | .mark "[" =>
    advance
    discard (inBrackets ph.expression)
    expectMark "]"
    return some .place
  | .mark "!" =>
    if !typed || (← onNewLine) then return none
    advance
    return some e
  | .template =>
    advance
    return some .other
  | .templateOpen =>
    templateRest (inBrackets (discard ph.expression))
    return some .other
  | .mark "<" =>
    if typed && (← attempt (typeArgsInExpr ph)).isSome then return some e else return none
  | .mark "<<" =>
    if typed && (← attempt (typeArgsInExpr ph)).isSome then return some e else return none
  | _ => return none

/-- Reads what follows `?.`. -/
def optionalSuffix (ph : Phrases) : Reader Unit := do
  expectMark "?."
  match ← peek with
  | .mark "(" => discard (arguments ph)
  | .mark "[" =>
    advance
    discard (inBrackets ph.expression)
    expectMark "]"
  | .mark "<" =>
    check (← read).typed
    discard (typeArgs ph)
    discard (arguments ph)
  | .template => advance
  | .templateOpen => templateRest (inBrackets (discard ph.expression))
  | .privateName _ => advance
  | _ => discard anyWord

/-- Reads one member access or call behind an expression. -/
def callSuffix (ph : Phrases) (e : Expr) : Reader (Option Expr) := do
  match ← peek with
  | .mark "?." =>
    optionalSuffix ph
    return some .other
  | .mark "(" => return some (.call e (← arguments ph))
  | _ => memberSuffix ph e

/-- Reads a primary expression or a `new` with as many words `new` in front as there are. -/
def headExpr (ph : Phrases) : Nat → Reader Expr
  | 0 => reject
  | n + 1 => do
    if ← atWord "new" then newExpr ph (memberSuffix ph) (headExpr ph n) else primaryExpr ph

/-- Reads a primary expression with the members and calls behind it. -/
def chain (ph : Phrases) : Reader Expr := do
  let start ← headExpr ph ((← peekLexeme).here.rest.length + 1)
  grow (callSuffix ph) start

/-! ## Operators -/

/-- Reads a member chain with `++` or `--` behind it or not. -/
def postfixExpr (ph : Phrases) : Reader Expr := do
  let e ← ph.chain
  if !(← onNewLine) && ((← atMark "++") || (← atMark "--")) then
    check e.isAssignable
    advance
    return .other
  return e

/-- A word that is an operator only in some functions is meant as one: it is one here, or what
follows on its line cannot follow a name. -/
def meantAsOperator (word : String) (allowed : Bool) : Reader Bool := sees do
  expectWord word
  if allowed then return true
  if ← onNewLine then return false
  match ← peek with
  | .word _ | .escapedWord _ | .string _ | .number _ | .bigint _ => return true
  | _ => return false

/-- The operators in front of an operand. -/
def signs : List String := ["+", "-", "~", "!"]

/-- Reads an operand with the operators in front of it. -/
def unary (ph : Phrases) : Reader Expr := do
  let applied := do
    advance
    discard ph.unary
    return Expr.other
  match ← peek with
  | .mark "++" | .mark "--" =>
    advance
    check (← ph.unary).isAssignable
    return .other
  | .mark "<" | .mark "<<" =>
    let s ← read
    if s.typed && !s.tagged then
      splitAngle
      advance
      discard (withPlainTypes false ph.type)
      expectMark ">"
      ph.unary
    else postfixExpr ph
  | .mark m => if signs.contains m then applied else postfixExpr ph
  | .word w =>
    if w == "typeof" || w == "void" || w == "delete" then applied
    else if ← meantAsOperator "await" (← read).awaits then applied
    else postfixExpr ph
  | _ => postfixExpr ph

/-- Reads an operator and its right operand. -/
def operand? (ph : Phrases) (e : Expr) : Reader (Option Expr) := do
  joinAngle
  match ← peek with
  | .mark m =>
    if markOperators.contains m then
      advance
      discard ph.unary
      return some .other
    return none
  | .word w =>
    if (w == "as" || w == "satisfies") && (← read).typed then
      if ← onNewLine then return none
      advance
      discard (withPlainTypes false ph.type)
      return some e
    if w == "instanceof" || (w == "in" && !(← read).noIn) then
      advance
      discard ph.unary
      return some .other
    return none
  | _ => return none

/-- Reads operands with operators between them. -/
def binary (ph : Phrases) : Reader Expr := do
  let first ← unary ph
  grow (operand? ph) first

/-! ## Arrow functions -/

/-- Whether a parenthesis or type parameter list starts an arrow function. -/
inductive Guess where
  | yes
  | no
  | perhaps
deriving DecidableEq

/-- The guess for an opening parenthesis, by the tokens behind it. -/
def guessParen : Reader Guess := do
  expectMark "("
  match ← peek with
  | .mark ")" =>
    advance
    let follows ← ["=>", ":", "\x7b"].anyM fun c => atMark c
    return if follows then .yes else .no
  | .mark "[" => return .perhaps
  | .mark "\x7b" => return .perhaps
  | .mark "..." => return .yes
  | t =>
    let typed := (← read).typed
    if let .word w := t then
      if typed && modifierWords.contains w && w != "async" then
        let named ← sees do
          advance
          atBindingName
        if named then
          advance
          return if ← atWord "as" then .no else .yes
    if !isBindingName t && t != .word "this" then return .no
    advance
    match ← peek with
    | .mark ":" => return .yes
    | .mark "?" =>
      advance
      let follows ← [":", ",", "=", ")"].anyM fun c => atMark c
      return if follows then .yes else .no
    | .mark "," => return .perhaps
    | .mark "=" => return .perhaps
    | .mark ")" => return .perhaps
    | _ => return .no

/-- The guess for an opening angle bracket, by the tokens behind it. -/
def guessAngle : Reader Guess := do
  splitAngle
  expectMark "<"
  if !(← atBindingName) && !(← atWord "const") then return .no
  if !(← read).tagged then return .perhaps
  discard (eatWord "const")
  advance
  if ← eatWord "extends" then
    let closes ← ["=", ">", "/"].anyM fun c => atMark c
    return if closes then .no else .yes
  return if (← atMark ",") || (← atMark "=") then .yes else .no

/-- Whether an arrow function with a parameter list starts here. -/
def guessArrow : Reader Guess := do
  let guess ← lookAhead do
    if ← eatWord "async" then check !(← onNewLine)
    match ← peek with
    | .mark "(" => guessParen
    | .mark "<" => if (← read).typed then guessAngle else return .no
    | .mark "<<" => if (← read).typed then guessAngle else return .no
    | _ => return .no
  return guess.getD .no

/-- Reads the body of an arrow function. -/
def arrowBody (ph : Phrases) (isAsync : Bool) : Reader Unit := do
  if ← atMark "\x7b" then inFunction isAsync false (block ph)
  else discard (withReader (fun s => { s with awaits := isAsync, yields := false }) ph.assignment)

/-- Reads an arrow function with a parameter list. Where a result type is not allowed, one with a
result type counts only if a `:` follows. -/
def parenArrow (ph : Phrases) (allowResult : Bool) : Reader Unit := do
  let isAsync ← eatWord "async"
  let resulting ← inBrackets do
    discard (typeParams? ph)
    discard (paramList ph)
    let colon ← atMark ":"
    discard (resultType? ph)
    return colon
  expectMark "=>"
  withReader (fun s => { s with arrowResult := allowResult }) (arrowBody ph isAsync)
  if !allowResult && resulting then check (← atMark ":")

/-- Reads an arrow function with a parameter list, if one starts here. -/
def parenArrow? (ph : Phrases) : Reader (Option Unit) := do
  match ← guessArrow with
  | .no => return none
  | .yes => some <$> parenArrow ph true
  | .perhaps => attempt (parenArrow ph (← read).arrowResult)

/-- What is next is an async arrow function with a plain parameter. -/
def atAsyncArrow : Reader Bool := sees do
  expectWord "async"
  check !(← onNewLine)
  discard bindingName
  return !(← onNewLine) && (← atMark "=>")

/-- Reads `yield` with its operand, if it has one. -/
def yieldExpr (ph : Phrases) : Reader Unit := do
  expectWord "yield"
  if ← onNewLine then return
  if ← eatMark "*" then discard ph.assignment
  else
    let t ← peek
    let operand := match t with
      | .word w => w != "in" && w != "of" && startsExpression t
      | .mark m =>
        startsExpression t && ["?", ":", ")", "]", "\x7d", ",", ";"].all fun close => close != m
      | _ => startsExpression t
    if operand then discard ph.assignment

/-- Reads the branches of a conditional behind its condition, if it is one. -/
def branches (ph : Phrases) (condition : Expr) : Reader Expr := do
  if !(← eatMark "?") then return condition
  discard (withReader (fun s => { s with noIn := false, arrowResult := false }) ph.assignment)
  expectMark ":"
  discard ph.assignment
  return .other

/-- Reads an expression without commas. -/
def assignment (ph : Phrases) : Reader Expr := do
  if ← meantAsOperator "yield" (← read).yields then
    yieldExpr ph
    return .other
  if (← parenArrow? ph).isSome then return .other
  if ← atAsyncArrow then
    advance
    advance
    advance
    arrowBody ph true
    return .other
  let e ← binary ph
  if let .name _ := e then
    if ← eatMark "=>" then
      arrowBody ph false
      return .other
  joinAngle
  match ← peek with
  | .mark m =>
    if assignmentOperators.contains m then
      check e.isAssignable
      advance
      discard ph.assignment
      return .other
    branches ph e
  | _ => branches ph e

/-- Reads expressions joined by commas. -/
def expression (ph : Phrases) : Reader Expr := do
  let es ← commaChain ph.assignment
  match es with
  | [e] => return e
  | _ => return .other

end IpcWiring.Script.Grammar
