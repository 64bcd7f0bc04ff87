import IpcWiring.Extract.Skip
import IpcWiring.Report.Json
import IpcWiring.WorkingSet.Basic

/-!
# Working sets as JSON

The forms in which working sets and skipped declarations are reported. A field that says nothing is
left out.
-/

namespace IpcWiring

open JsonValue

/-- Where a type is imported from. -/
def TypeSource.json : TypeSource → JsonValue
  | .file path => object [("kind", string "file"), ("value", string path.text)]
  | .module specifier => object [("kind", string "module"), ("value", string specifier)]

/-- An import. -/
def TypeImport.json (i : TypeImport) : JsonValue :=
  object ([("imported", string i.imported), ("local", string i.localName),
    ("source", i.source.json)] ++ if i.wholeModule then [("namespace", bool true)] else [])

/-- A field of a request. -/
def RequestField.json (f : RequestField) : JsonValue :=
  object ([("name", string f.name), ("typeText", string f.typeText),
    ("optional", bool f.optional)] ++
    if f.imports.isEmpty then [] else [("imports", list TypeImport.json f.imports)])

/-- What a parameter is given. -/
def ParamBinding.json : ParamBinding → JsonValue
  | .bag => object [("kind", string "bag")]
  | .field name => object [("kind", string "field"), ("name", string name)]
  | .spread name => object [("kind", string "spread"), ("name", string name)]

/-- A function. -/
def ApiFunction.json (f : ApiFunction) : JsonValue :=
  object ([("name", string f.name), ("request", list RequestField.json f.request),
    ("bindings", list ParamBinding.json f.bindings)] ++
    given "validatorName" string f.validator? ++ given "errorHandlerName" string f.errorHandler?)

/-- An event. -/
def ApiEvent.json (e : ApiEvent) : JsonValue :=
  object ([("name", string e.name), ("paramTypeName", string e.payload)] ++
    given "paramImport" TypeImport.json e.payloadImport?)

/-- The functions of a file. -/
def ApiRecord.json (r : ApiRecord) : JsonValue :=
  object [("path", string r.path.text), ("func", list ApiFunction.json r.entries)]

/-- The events of a file. -/
def EventRecord.json (r : EventRecord) : JsonValue :=
  object [("path", string r.path.text), ("events", list ApiEvent.json r.entries)]

/-- The fields of a working set. -/
def WorkingSet.jsonFields (w : WorkingSet) : List (String × JsonValue) :=
  ("packages", list ApiRecord.json w.api) ::
    given "eventPackages" (list EventRecord.json) w.events?

/-- A working set. -/
def WorkingSet.json (w : WorkingSet) : JsonValue := object w.jsonFields

/-- The reason in one word, with what it tells besides. -/
def SkipReason.jsonFields : SkipReason → List (String × JsonValue)
  | unreadableFile => [("reason", string "unreadableFile")]
  | ignored => [("reason", string "ignored")]
  | notExported => [("reason", string "notExported")]
  | noParameters => [("reason", string "noParameters")]
  | unsupportedContextParameter => [("reason", string "unsupportedContextParameter")]
  | contextMismatch found => [("reason", string "contextMismatch"), ("found", string found)]
  | overload => [("reason", string "overload")]
  | unexportedType name => [("reason", string "unexportedType"), ("typeName", string name)]
  | defaultExport => [("reason", string "defaultExport")]
  | notAFunctionType => [("reason", string "notAFunctionType")]
  | returnNotVoid => [("reason", string "returnNotVoid")]
  | parameterCount count => [("reason", string "parameterCount"), ("count", number count)]
  | parameterNotNamedReference => [("reason", string "parameterNotNamedReference")]

/-- A file or declaration that was skipped. -/
def Skipped.json (s : Skipped) : JsonValue :=
  object (("path", string s.path.text) :: ("name", option string s.name?) :: s.reason.jsonFields)

end IpcWiring
