import IpcWiring.Script.Grammar.Types

/-!
# The grammar of elements

Tags with attributes and children, read only to find where they end. The text between tags is no
sequence of tokens: a reader stops in front of it and goes on behind it.
-/

namespace IpcWiring.Script.Grammar

open Reader

/-- Goes on at a cursor, past characters that are no tokens. -/
def resume (c : Cursor) : Reader Unit :=
  modify fun p => { p with lastStop := c.pos, current := nextLexeme c }

/-- Reads a name that may have dashes in it. -/
def dashedName : Reader Unit := do
  check (← atAnyWord)
  let l ← peekLexeme
  resume (l.here.skipWhile fun c => continuesName c || c == '-')

/-- Reads the name of a tag: a name, one with a namespace, or the member of an object. -/
def tagName : Reader Unit := do
  dashedName
  if ← eatMark ":" then dashedName
  discard <| collect do
    if ← eatMark "." then return some (← dashedName) else return none

/-- Reads an expression in braces; the closing brace stays unread. -/
def openHole (ph : Phrases) : Reader Unit := do
  expectMark "\x7b"
  discard (eatMark "...")
  if !(← atMark "\x7d") then discard ph.expression
  check (← atMark "\x7d")

/-- Reads the value of an attribute behind the `=`, which is still unread. A quoted value has no
escapes and may span lines. -/
def attributeValue (ph : Phrases) : Reader Unit := do
  let l ← peekLexeme
  let start := (skipGaps (l.after.rest.length + 1) l.after false).1
  match start.rest with
  | c :: text =>
    if c == '"' || c == '\'' then
      let length := (text.takeWhile (· != c)).length
      check (length < text.length)
      resume (start.skip (length + 2))
    else
      advance
      if ← atMark "\x7b" then
        openHole ph
        expectMark "\x7d"
      else
        ph.element
        expectMark ">"
  | [] => reject

/-- Reads an attribute, if one is next. -/
def attribute? (ph : Phrases) : Reader (Option Unit) := do
  if ← atMark "\x7b" then
    openHole ph
    expectMark "\x7d"
    return some ()
  if ← atAnyWord then
    dashedName
    if ← eatMark ":" then dashedName
    if ← atMark "=" then attributeValue ph
    return some ()
  return none

/-- Reads what stands between two tags, from the unread end of the first to the `<` of the closing
one. -/
def children (ph : Phrases) : Reader Unit :=
  discard <| collect do
    let l ← peekLexeme
    resume (l.after.skipWhile fun c => c != '{' && c != '<')
    if ← atMark "\x7b" then
      openHole ph
      return some ()
    let closes ← sees do
      expectMark "<"
      atMark "/"
    if closes then return none
    ph.element
    return some ()

/-- Reads an element; its last `>` stays unread. -/
def element (ph : Phrases) : Reader Unit := do
  expectMark "<"
  let fragment ← atMark ">"
  if !fragment then
    tagName
    if (← read).typed then discard (typeArgs? ph)
    discard (collect (attribute? ph))
    if ← eatMark "/" then
      check (← atMark ">")
      return
    check (← atMark ">")
  children ph
  expectMark "<"
  expectMark "/"
  if !fragment then tagName
  check (← atMark ">")

end IpcWiring.Script.Grammar
