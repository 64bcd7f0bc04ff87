import IpcWiring.Script.Grammar.Elements
import IpcWiring.Script.Grammar.Statements

/-!
# Source files

`Source.statements?` reads the top-level statements of a source file. Phrases nest, so their
readers are tied together on a depth that no source of that length can exceed.
-/

namespace IpcWiring.Script

/-- The readers of nested phrases down to a depth, at which nothing can be read. -/
def phrases : Nat → Phrases
  | 0 =>
    { type := Reader.reject
      operatorType := Reader.reject
      expression := Reader.reject
      assignment := Reader.reject
      unary := Reader.reject
      chain := Reader.reject
      pattern := Reader.reject
      statement := Reader.reject
      element := Reader.reject }
  | n + 1 =>
    { type := fun s p => Grammar.type (phrases n) s p
      operatorType := fun s p => Grammar.operatorType (phrases n) s p
      expression := fun s p => Grammar.expression (phrases n) s p
      assignment := fun s p => Grammar.assignment (phrases n) s p
      unary := fun s p => Grammar.unary (phrases n) s p
      chain := fun s p => Grammar.chain (phrases n) s p
      pattern := fun s p => Grammar.pattern (phrases n) s p
      statement := fun s p => Grammar.statement (phrases n) s p
      element := fun s p => Grammar.element (phrases n) s p }

/-- The language of a source, by the extension of its file. -/
def settingOf (extension? : Option String) : Setting :=
  match extension? with
  | some ext =>
    let plain := ["js", "mjs", "cjs", "jsx"].contains ext
    { typed := !plain, tagged := ["tsx", "jsx"].contains ext }
  | none => { typed := true, tagged := false }

/-- The cursor at the first token: behind a byte order mark and a first line that starts with
`#!`. -/
def startCursor (source : String) : Cursor :=
  let c : Cursor := ⟨source.toList, 0⟩
  let c := if c.rest.head? == some (Char.ofNat 0xFEFF) then c.skip 1 else c
  match c.rest with
  | '#' :: '!' :: _ => c.skipWhile fun ch => !endsLine ch
  | _ => c

/-- Reads statements up to the end of a source. -/
def statements (depth : Nat) : Reader (List Statement) :=
  Reader.collect do
    if (← Reader.peek) == .stop then return none
    return some (← Grammar.statement (phrases depth))

/-- The top-level statements of a source, or none if it cannot be read. -/
def Source.statements? (extension? : Option String) (source : String) :
    Option (List Statement) :=
  let start := startCursor source
  let depth := 4 * source.length + 64
  let progress : Progress := ⟨nextLexeme start, start.pos, [], []⟩
  (((statements depth).run (settingOf extension?)).run progress).map (·.1)

end IpcWiring.Script
