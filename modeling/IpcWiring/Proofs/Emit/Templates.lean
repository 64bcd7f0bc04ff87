import IpcWiring.Emit.Artifact
import IpcWiring.Proofs.Emit.Code

/-!
# Generated modules as code with marked names

Each generated module is given as code in which the names are marked, piece by piece as its text
has them. Written out, that code is the text (`Artifact.text_eq`), so what is said of the marked
names is said of the generated text. The proofs compare both sides line by line: within a line the
texts are cut at other places, so there they compare the characters.
-/

namespace IpcWiring.Emit

open Piece (line written line_append line_cons line_separated)

/-! ## The bridge -/

namespace BridgeMethod

/-- The call that sends a request. -/
def callCode (m : BridgeMethod) (request : List Piece) : List Piece :=
  [.name .outer "ipcRenderer", .text ".invoke(", .name .channel m.channel, .text ", "] ++
    request ++ [.text ")"]

/-- The arrow function. -/
def arrowCode (m : BridgeMethod) : List Piece :=
  match m.parameter with
  | .absent => .text "() => " :: m.callCode [.text "\x7b\x7d"]
  | .fields names =>
    .text "(\x7b " :: Piece.separated ", " (names.map fun n => [.name .param n]) ++
      .text (" \x7d: " ++ m.requestType ++ ") => ") ::
      m.callCode (.text "\x7b " :: Piece.separated ", " (names.map fun n => [.name .var n]) ++
        [.text " \x7d"])
  | .whole =>
    [.text "(", .name .param "args", .text (": " ++ m.requestType ++ ") => ")] ++
      m.callCode [.name .var "args"]

/-- The entry of the table. -/
def code (m : BridgeMethod) : Code :=
  .arrow [.name .entry m.name, .text ": "] m.arrowCode [.text ","]

/-- The entry is written as it stands in the text. -/
theorem lines_code (m : BridgeMethod) : m.code.lines = [m.text] := by
  obtain ⟨name, channel, parameter, requestType⟩ := m
  cases parameter with
  | absent | whole =>
    simp [code, Code.lines, arrowCode, callCode, text, arrow, written, ← String.toList_inj]
  | fields names =>
    have hparam := Piece.line_separated_names (show Role.param ≠ .channel by decide) ", " names
    have hvar := Piece.line_separated_names (show Role.var ≠ .channel by decide) ", " names
    simp only [code, Code.lines, arrowCode, callCode, text, arrow, line_append, line_cons, hparam,
      hvar]
    generalize Text.joinWith ", " _ = joined
    simp [written, ← String.toList_inj]

end BridgeMethod

namespace BridgeModule

/-- The table of methods. -/
def tableCode (m : BridgeModule) : Code :=
  .blockOrEmpty [.text "export const ", .name .declare "api", .text " ="]
    (m.methods.map BridgeMethod.code) ";"

/-- What stands behind the imports. -/
def code (m : BridgeModule) : List Code :=
  [m.tableCode,
    .line [],
    .line [.text "export type ", .name .declare "Api", .text " = typeof ", .name .outer "api",
      .text ";"],
    .line [],
    .block [] [.text "export function ", .name .declare "exposeApi", .text "(): void"]
      [.line [.name .outer "contextBridge", .text ".exposeInMainWorld('api', ",
        .name .outer "api", .text ");"]] ""]

theorem lines_tableCode (m : BridgeModule) : m.tableCode.lines =
    Text.blockOrEmpty "export const api =" (m.methods.map BridgeMethod.text) ";" := by
  rw [tableCode, Code.lines_blockOrEmpty, Code.linesOf_map_line BridgeMethod.lines_code]
  congr 1

/-- The text is the code as it is written. -/
theorem text_eq (m : BridgeModule) : m.text = fileText m.imports (Code.linesOf m.code) := by
  rw [text, code, Code.linesOf, lines_tableCode, List.append_assoc]
  congr 2

end BridgeModule

/-! ## The handlers -/

namespace Handler

/-- An argument of the call, read from a variable. -/
def argumentCode (bag : String) : ParamBinding → List Piece
  | .bag => [.name .var bag]
  | .field key => [.member bag key]
  | .spread key => [.text "...(", .member bag key, .text " ?? [])"]

/-- The line that validates the request. -/
def validationCode (h : Handler) : List Code :=
  match h.validator? with
  | none => []
  | some v =>
    if h.arguments.isEmpty then
      [.line [.text "await ", .name .outer v, .text "(", .name .var "args", .text ");"]]
    else
      [.line [.text "const ", .name .declare "input", .text " = (await ", .name .outer v,
        .text "(", .name .var "args", .text ")) as typeof ", .name .var "args", .text ";"]]

/-- The line that calls the function. -/
def callCode (h : Handler) : Code :=
  .line ([.text "return ", .name .outer "success", .text "(await ", .name .outer h.name,
      .text "("] ++
    Piece.separated ", " ([.name .var "ctx"] :: h.arguments.map (argumentCode h.bag)) ++
    [.text "));"])

/-- The line that turns an error into a failure. -/
def recoveryCode (h : Handler) : Code :=
  .line ([.text "return ", .name .outer "toFailure", .text "(", .name .var "error"] ++
    (match h.errorHandler? with
      | some e => [.text ", ", .name .outer e]
      | none => []) ++ [.text ");"])

/-- The parameters of the handler. -/
def parametersCode (h : Handler) : List Piece :=
  [.name .param "ctx", .text (": " ++ h.contextType)] ++
    match h.requestType? with
    | some type => [.text ", ", .name .param "args", .text (": " ++ type)]
    | none => []

/-- The entry of the table. -/
def code (h : Handler) : Code :=
  .block [] (.name .entry h.name :: .text ": async (" :: h.parametersCode ++ [.text ") =>"])
    [.attempt (h.validationCode ++ [h.callCode]) (some "error") [h.recoveryCode]] ","

theorem line_argumentCode (bag : String) (b : ParamBinding) :
    line (argumentCode bag b) = argument bag b := by
  cases b <;> simp [argumentCode, argument, written, String.append_assoc]

/-- The arguments of the call are variables and their members. -/
theorem names_arguments (h : Handler) {role : Role} (hrole : role ≠ .var) :
    (h.arguments.map (argumentCode h.bag)).flatMap (Piece.names role) = [] := by
  refine List.flatMap_eq_nil_iff.2 fun ps hps => ?_
  obtain ⟨b, -, rfl⟩ := List.mem_map.1 hps
  cases b <;> simp [argumentCode, hrole.symm]

theorem linesOf_validationCode (h : Handler) : Code.linesOf h.validationCode = h.validation := by
  unfold validationCode validation
  cases h.validator? with
  | none => rfl
  | some v => by_cases ha : h.arguments = [] <;>
    simp [ha, Code.linesOf, Code.lines, written, ← String.toList_inj]

theorem lines_callCode (h : Handler) : h.callCode.lines = [h.call] := by
  have hargs : (h.arguments.map (argumentCode h.bag)).map line =
      h.arguments.map (argument h.bag) := by
    rw [List.map_map]
    exact List.map_congr_left fun b _ => line_argumentCode h.bag b
  unfold call
  dsimp only
  rw [callCode, Code.lines, line_append, line_append, line_separated, List.map_cons,
    Piece.line_name (by decide), hargs]
  generalize Text.joinWith ", " _ = joined
  simp [written, ← String.toList_inj]

theorem lines_recoveryCode (h : Handler) : h.recoveryCode.lines = [h.recovery] := by
  unfold recoveryCode recovery
  cases h.errorHandler? <;> simp [Code.lines, written, ← String.toList_inj]

theorem line_parametersCode (h : Handler) : line h.parametersCode = h.parameters := by
  unfold parametersCode parameters
  cases h.requestType? <;> simp [written, ← String.toList_inj]

/-- The handler is written as it stands in the text. -/
theorem lines_code (h : Handler) : h.code.lines = h.lines := by
  have hhead : line (.name .entry h.name :: .text ": async (" :: h.parametersCode ++
      [.text ") =>"]) = h.name ++ ": async (" ++ h.parameters ++ ") =>" := by
    rw [List.cons_append, List.cons_append, line_cons, line_cons, line_append,
      line_parametersCode]
    simp [written, String.append_assoc]
  rw [code, Code.lines, lines, hhead]
  simp [Code.linesOf, Code.lines, Code.linesOf_append, linesOf_validationCode, lines_callCode,
    lines_recoveryCode, Code.catchText]

end Handler

namespace HandlersModule

/-- The functions that make an answer. -/
def resultMakersCode : List Code :=
  [.arrow [.text "const ", .name .declare "success", .text " = "]
      [.text "<T>(", .name .param "data", .text ": T): Success<T> => (\x7b ok: true, ",
        .name .var "data", .text " \x7d)"] [.text ";"],
    .arrow [.text "const ", .name .declare "failure", .text " = "]
      [.text "<E>(", .name .param "error", .text ": E): Failure<E> => (\x7b ok: false, ",
        .name .var "error", .text " \x7d)"] [.text ";"]]

/-- The types of answers. -/
def resultTypesCode : List Code :=
  [.line [.text "export type ", .name .declare "Success",
      .text "<T> = \x7b ok: true; data: T \x7d;"],
    .line [.text "export type ", .name .declare "Failure",
      .text "<E> = \x7b ok: false; error: E \x7d;"],
    .line [.text "export type ", .name .declare "Result",
      .text "<T, E> = Success<T> | Failure<E>;"]]

/-- Returns a variable as a failure. -/
def failureCode (x : String) : Code :=
  .line [.text "return ", .name .outer "failure", .text "(", .name .var x, .text ");"]

/-- What becomes of an error that the handler of the function does not take. -/
def lastFailureCode : Option GlobalHandler → List Code
  | none => [failureCode "error"]
  | some g =>
    (if g.logs then [.line [.text "console.error(", .name .var "error", .text ");"]] else []) ++
    [.attempt
      [.line [.text "return ", .name .outer "failure", .text "(await ", .name .outer g.name,
        .text "(", .name .var "error", .text "));"]] none [failureCode "error"]]

/-- What is done first with an error: the handler of the function is asked, if there is one. -/
def askHandlerCode : Code :=
  .block [] [.text "if (", .name .var "handler", .text ")"]
    [.attempt
      [.line [.text "const ", .name .declare "handled", .text " = await ",
          .name .var "handler", .text "(", .name .var "error", .text ");"],
        .block [] [.text "if (", .name .var "handled", .text " !== null && ",
            .name .var "handled", .text " !== undefined)"] [failureCode "handled"] ""]
      none [failureCode "error"]] ""

/-- The function that turns an error into a failure. -/
def toFailureCode (g? : Option GlobalHandler) : Code :=
  .block [[.text "async function ", .name .declare "toFailure", .text "("],
      [.text "  ", .name .param "error", .text ": unknown,"],
      [.text "  ", .name .param "handler", .text "?: (error: any) => unknown,"]]
    [.text "): Promise<Failure<unknown>>"]
    (askHandlerCode :: lastFailureCode g?) ""

/-- The table of handlers. -/
def tableCode (m : HandlersModule) : Code :=
  .blockOrEmpty [.text "export const ", .name .declare "handlers", .text " ="]
    (m.handlers.map Handler.code) ";"

/-- What stands behind the imports. -/
def code (m : HandlersModule) : List Code :=
  resultTypesCode ++
    (if m.handlers.isEmpty then []
      else .line [] :: resultMakersCode ++ [.line [], toFailureCode m.globalHandler?]) ++
    [.line [], m.tableCode]

theorem linesOf_resultTypesCode : Code.linesOf resultTypesCode = resultTypes := by
  decide +kernel

theorem linesOf_resultMakersCode : Code.linesOf resultMakersCode = resultMakers := by
  decide +kernel

theorem lines_askHandlerCode : askHandlerCode.lines = Text.block "if (handler)"
    (tryFailure ("const handled = await handler(error);" ::
      Text.block "if (handled !== null && handled !== undefined)"
        ["return failure(handled);"] "")) "" := by
  decide +kernel

theorem linesOf_lastFailureCode (g? : Option GlobalHandler) :
    Code.linesOf (lastFailureCode g?) = lastFailure g? := by
  cases g? with
  | none => decide +kernel
  | some g =>
    obtain ⟨path, name, logs⟩ := g
    cases logs <;>
      simp [lastFailureCode, lastFailure, tryFailure, Code.linesOf, Code.lines, failureCode,
        Code.catchText, Text.block, written, ← String.toList_inj]

theorem lines_toFailureCode (g? : Option GlobalHandler) :
    (toFailureCode g?).lines = toFailure g? := by
  have h : (toFailureCode g?).lines = ["async function toFailure(", "  error: unknown,",
      "  handler?: (error: any) => unknown,"] ++ Text.block "): Promise<Failure<unknown>>"
        (askHandlerCode.lines ++ Code.linesOf (lastFailureCode g?)) "" := rfl
  rw [h, linesOf_lastFailureCode, lines_askHandlerCode]
  rfl

theorem lines_tableCode (m : HandlersModule) : m.tableCode.lines =
    Text.blockOrEmpty "export const handlers =" (m.handlers.flatMap Handler.lines) ";" := by
  rw [tableCode, Code.lines_blockOrEmpty, Code.linesOf_map Handler.lines_code]
  congr 1

/-- The text is the code as it is written. -/
theorem text_eq (m : HandlersModule) : m.text = fileText m.imports (Code.linesOf m.code) := by
  rw [text, code]
  split <;>
    simp [Code.linesOf, Code.linesOf_append, linesOf_resultTypesCode, linesOf_resultMakersCode,
      lines_toFailureCode, lines_tableCode, Code.lines]

end HandlersModule

/-! ## The registration -/

namespace Registration

/-- The line that connects the channel. -/
def code (r : Registration) : Code :=
  let call extra := [.name .outer "handlers", .text ".", .name .lookup r.handler,
    .text "(", .name .var "createContext", .text "(", .name .var "event", .text ")"] ++ extra ++
    [.text ")"]
  .arrow [.name .outer "ipcMain", .text ".handle(", .name .channel r.channel, .text ", "]
    (if r.passesRequest then
      [.text "(", .name .param "event", .text ", ", .name .param "args", .text ") => "] ++
        call [.text ", ", .name .var "args"]
    else [.text "(", .name .param "event", .text ") => "] ++ call [])
    [.text ");"]

/-- The line that disconnects the channel. -/
def removalCode (r : Registration) : Code :=
  .line [.name .outer "ipcMain", .text ".removeHandler(", .name .channel r.channel, .text ");"]

/-- The line is written as it stands in the text. -/
theorem lines_code (r : Registration) : r.code.lines = [r.line] := by
  obtain ⟨channel, handler, passesRequest⟩ := r
  unfold Registration.line
  cases passesRequest <;> simp [code, Code.lines, written, ← String.toList_inj]

theorem lines_removalCode (r : Registration) : r.removalCode.lines = [r.removal] := by
  unfold removal
  simp [removalCode, Code.lines, written, ← String.toList_inj]

end Registration

namespace RegistrationModule

/-- The function that connects all channels. -/
def connectCode (m : RegistrationModule) : Code :=
  .blockOrEmpty
    [.text "export function ", .name .declare "registerHandlers", .text "(",
      .name .param (if m.registrations.isEmpty then "_createContext" else "createContext"),
      .text (": (event: IpcMainInvokeEvent) => " ++ m.contextType ++ "): void")]
    (m.registrations.map Registration.code) ""

/-- The function that disconnects all channels. -/
def disconnectCode (m : RegistrationModule) : Code :=
  .blockOrEmpty [.text "export function ", .name .declare "unregisterHandlers",
    .text "(): void"] (m.registrations.map Registration.removalCode) ""

/-- What stands behind the imports. -/
def code (m : RegistrationModule) : List Code := [m.connectCode, .line [], m.disconnectCode]

theorem lines_connectCode (m : RegistrationModule) : m.connectCode.lines =
    Text.blockOrEmpty
      ("export function registerHandlers(" ++
        (if m.registrations.isEmpty then "_createContext" else "createContext") ++
        ": (event: IpcMainInvokeEvent) => " ++ m.contextType ++ "): void")
      (m.registrations.map Registration.line) "" := by
  rw [connectCode, Code.lines_blockOrEmpty, Code.linesOf_map_line Registration.lines_code]
  congr 1
  split <;> simp [written, ← String.toList_inj]

theorem lines_disconnectCode (m : RegistrationModule) : m.disconnectCode.lines =
    Text.blockOrEmpty "export function unregisterHandlers(): void"
      (m.registrations.map Registration.removal) "" := by
  rw [disconnectCode, Code.lines_blockOrEmpty,
    Code.linesOf_map_line Registration.lines_removalCode]
  congr 1

/-- The text is the code as it is written. -/
theorem text_eq (m : RegistrationModule) : m.text = fileText m.imports (Code.linesOf m.code) := by
  unfold text
  simp [code, Code.linesOf, Code.lines, lines_connectCode, lines_disconnectCode]

end RegistrationModule

/-! ## The service -/

namespace ServiceMethod

/-- What a call of a function comes to, as a type. -/
def awaitedCode (function : String) : List Piece :=
  [.text "Awaited<ReturnType<typeof ", .name .outer function, .text ">>"]

/-- The alternatives of the error type. -/
def errorTypeCode (m : ServiceMethod) : List Piece :=
  let parts := m.errorHandler?.toList.map
      (fun h => .text "NonNullable<" :: awaitedCode h ++ [.text ">"]) ++
    m.globalHandler?.toList.map awaitedCode
  if parts.isEmpty then [.text "unknown"] else Piece.separated " | " parts

/-- Names a type. -/
def aliasCode (name : String) (type : List Piece) : Code :=
  .line (.text "export type " :: .name .declare name :: .text " = " :: type ++ [.text ";"])

/-- The names of the method's types. -/
def aliasesCode (m : ServiceMethod) : List Code :=
  .line [] :: m.requestType?.toList.map (fun type => aliasCode m.argsName [.text type]) ++
    [aliasCode m.dataName (awaitedCode m.name), aliasCode m.errorName m.errorTypeCode]

/-- The method with its types. -/
def signatureCode (unwrapped : Bool) (m : ServiceMethod) : List Piece :=
  .name .entry m.name :: .text "(" ::
    (if m.requestType?.isSome then [.name .param "args", .text (": " ++ m.argsName)] else []) ++
    [.text ("): " ++ m.answerType unwrapped)]

/-- The method in a type. -/
def memberCode (unwrapped : Bool) (m : ServiceMethod) : Code :=
  .arrow [] (m.signatureCode unwrapped) [.text ";"]

/-- The method of the class. -/
def code (unwrapped : Bool) (m : ServiceMethod) : Code :=
  let call := [.text "window.api.", .name .lookup m.name, .text "("] ++
    (if m.requestType?.isSome then [.name .var "args"] else []) ++ [.text ");"]
  if unwrapped then
    .block [] (.text "async " :: m.signatureCode true)
      [.line ([.text "const ", .name .declare "result", .text " = await "] ++ call),
        .block [] [.text "if (!", .member "result" "ok", .text ")"]
          [.line [.text "throw ", .member "result" "error", .text ";"]] "",
        .line [.text "return ", .member "result" "data", .text ";"]] ""
  else .block [] (m.signatureCode false) [.line (.text "return " :: call)] ""

theorem line_awaitedCode (function : String) : line (awaitedCode function) = awaited function := by
  unfold awaited
  simp [awaitedCode, written, String.append_assoc]

theorem line_errorTypeCode (m : ServiceMethod) : line m.errorTypeCode = m.errorType := by
  unfold errorTypeCode errorType
  cases m.errorHandler? <;> cases m.globalHandler? <;>
    simp [Piece.separated, Text.joinWith, written, line_awaitedCode, ← String.toList_inj]

theorem lines_aliasCode (name : String) (type : List Piece) :
    (aliasCode name type).lines = [typeAlias name (line type)] := by
  unfold typeAlias
  simp [aliasCode, Code.lines, written, String.append_assoc]

theorem linesOf_aliasesCode (m : ServiceMethod) : Code.linesOf m.aliasesCode = m.aliases := by
  unfold aliasesCode aliases
  cases m.requestType? <;>
    simp [Code.linesOf, Code.lines, lines_aliasCode, line_awaitedCode, line_errorTypeCode, written]

theorem line_signatureCode (unwrapped : Bool) (m : ServiceMethod) :
    line (m.signatureCode unwrapped) = m.signature unwrapped := by
  unfold signatureCode signature parameter
  split <;> simp [written, ← String.toList_inj]

theorem lines_memberCode (unwrapped : Bool) (m : ServiceMethod) :
    (m.memberCode unwrapped).lines = [m.signature unwrapped ++ ";"] := by
  simp [memberCode, Code.lines, line_signatureCode, written]

/-- The method is written as it stands in the text. -/
theorem lines_code (unwrapped : Bool) (m : ServiceMethod) :
    (m.code unwrapped).lines = m.lines unwrapped := by
  have hok : memberOf "result" "ok" = "result.ok" := by decide +kernel
  have herror : memberOf "result" "error" = "result.error" := by decide +kernel
  have hdata : memberOf "result" "data" = "result.data" := by decide +kernel
  unfold code lines
  cases unwrapped <;> cases m.requestType?.isSome <;>
    simp [Code.lines, Code.linesOf, line_signatureCode, written, hok, herror, hdata, Text.block,
      ← String.toList_inj]

end ServiceMethod

namespace ServiceModule

/-- The type of the bridge. -/
def bridgeTypeCode (m : ServiceModule) : Code :=
  .blockOrEmpty [.text "export interface ", .name .declare "IpcApi"]
    (m.methods.map (ServiceMethod.memberCode false)) ""

/-- The type of the service. -/
def serviceTypeCode (m : ServiceModule) : Code :=
  .blockOrEmpty [.text "export interface ", .name .declare "ApiService"]
    (m.methods.map (ServiceMethod.memberCode m.unwraps)) ""

/-- The class of the service. -/
def classCode (m : ServiceModule) : Code :=
  .blockOrEmpty [.text "export class ", .name .declare "ApiServiceImpl",
    .text " implements ApiService"] (m.methods.map (ServiceMethod.code m.unwraps)) ""

/-- The field of the global window object. -/
def windowFieldCode (name type : String) : Code :=
  .block [] [.text "declare global"]
    [.block [] [.text "interface Window"] [.line [.text (name ++ ": " ++ type ++ ";")]] ""] ""

/-- What stands behind the imports. -/
def code (m : ServiceModule) : List Code :=
  .line [.text "export type ", .name .declare "Result",
      .text "<T, E> = \x7b ok: true; data: T \x7d | \x7b ok: false; error: E \x7d;"] ::
    m.methods.flatMap ServiceMethod.aliasesCode ++
    [.line [], m.bridgeTypeCode,
      .line [], windowFieldCode "api" "IpcApi",
      .line [], m.serviceTypeCode,
      .line [], m.classCode,
      .line [], .line [.text "export const ", .name .declare "apiService",
        .text ": ApiService = new ApiServiceImpl();"]]

theorem lines_bridgeTypeCode (m : ServiceModule) : m.bridgeTypeCode.lines =
    Text.blockOrEmpty "export interface IpcApi" (m.methods.map fun x => x.signature false ++ ";")
      "" := by
  rw [bridgeTypeCode, Code.lines_blockOrEmpty,
    Code.linesOf_map_line (ServiceMethod.lines_memberCode false)]
  congr 1

theorem lines_serviceTypeCode (m : ServiceModule) : m.serviceTypeCode.lines =
    Text.blockOrEmpty "export interface ApiService"
      (m.methods.map fun x => x.signature m.unwraps ++ ";") "" := by
  rw [serviceTypeCode, Code.lines_blockOrEmpty,
    Code.linesOf_map_line (ServiceMethod.lines_memberCode m.unwraps)]
  congr 1

theorem lines_classCode (m : ServiceModule) : m.classCode.lines =
    Text.blockOrEmpty "export class ApiServiceImpl implements ApiService"
      (m.methods.flatMap (ServiceMethod.lines m.unwraps)) "" := by
  rw [classCode, Code.lines_blockOrEmpty, Code.linesOf_map (ServiceMethod.lines_code m.unwraps)]
  congr 1

theorem lines_windowFieldCode (name type : String) :
    (windowFieldCode name type).lines = windowField name type := by
  simp [windowFieldCode, windowField, Code.lines, Code.linesOf, written]

theorem linesOf_aliases (m : ServiceModule) :
    Code.linesOf (m.methods.flatMap ServiceMethod.aliasesCode) =
      m.methods.flatMap ServiceMethod.aliases := by
  rw [Code.linesOf_eq, List.flatMap_assoc]
  refine congrArg (List.flatMap · _) (funext fun x => ?_)
  rw [← Code.linesOf_eq, ServiceMethod.linesOf_aliasesCode]

/-- The text is the code as it is written. -/
theorem text_eq (m : ServiceModule) : m.text = fileText m.imports (Code.linesOf m.code) := by
  unfold text
  simp [code, Code.linesOf, Code.linesOf_append, Code.lines, linesOf_aliases, lines_bridgeTypeCode,
    lines_serviceTypeCode, lines_classCode, lines_windowFieldCode, written]

end ServiceModule

/-! ## Events -/

/-- A parameter that is called with a payload. -/
def listenerCode (payload : String) : List Piece :=
  [.text "(", .name .param "listener", .text (": (payload: " ++ payload ++ ") => void)")]

theorem line_listenerCode (payload : String) : line (listenerCode payload) = listener payload := by
  unfold listener
  simp [listenerCode, written, ← String.toList_inj]

namespace SenderModule

/-- The method that sends over a channel. -/
def methodCode (c : EventChannel) : Code :=
  .block [] [.name .entry c.name, .text ": (", .name .param "payload",
      .text (": " ++ c.payload ++ "): void =>")]
    [.line [.name .var "target", .text ".send(", .name .channel c.name, .text ", ",
      .name .var "payload", .text ");"]] ","

/-- What stands behind the imports. -/
def code (m : SenderModule) : List Code :=
  [.block [] [.text "export function ", .name .declare "createEventSender", .text "(",
      .name .param (if m.channels.isEmpty then "_target" else "target"),
      .text ": WebContents)"]
      [.blockOrEmpty [.text "return"] (m.channels.map methodCode) ";"] "",
    .line [],
    .line [.text "export type ", .name .declare "EventSender", .text " = ReturnType<typeof ",
      .name .outer "createEventSender", .text ">;"]]

theorem lines_methodCode (c : EventChannel) : (methodCode c).lines = methodLines c := by
  simp [methodCode, methodLines, Code.lines, Code.linesOf, written, Text.block,
    ← String.toList_inj]

/-- The text is the code as it is written. -/
theorem text_eq (m : SenderModule) : m.text = fileText m.imports (Code.linesOf m.code) := by
  have htable : (Code.blockOrEmpty [.text "return"] (m.channels.map methodCode) ";").lines =
      Text.blockOrEmpty "return" (m.channels.flatMap methodLines) ";" := by
    rw [Code.lines_blockOrEmpty, Code.linesOf_map lines_methodCode]
    congr 1
  unfold text
  simp only [code, Code.linesOf, Code.lines, htable]
  simp [written, ← String.append_assoc]

end SenderModule

namespace SubscriptionsModule

/-- The method that listens to a channel. -/
def methodCode (c : EventChannel) : Code :=
  .block [] (.name .entry c.name :: .text ": " :: listenerCode c.payload ++
      [.text ": (() => void) =>"])
    [.arrow [.text "const ", .name .declare "handler", .text " = "]
        [.text "(", .name .param "_event", .text ": IpcRendererEvent, ", .name .param "payload",
          .text (": " ++ c.payload ++ ") => "), .name .var "listener", .text "(",
          .name .var "payload", .text ")"] [.text ";"],
      .line [.name .outer "ipcRenderer", .text ".on(", .name .channel c.name, .text ", ",
        .name .var "handler", .text ");"],
      .block [] [.text "return () =>"]
        [.line [.name .outer "ipcRenderer", .text ".removeListener(", .name .channel c.name,
          .text ", ", .name .var "handler", .text ");"]] ";"] ","

/-- What stands behind the imports. -/
def code (m : SubscriptionsModule) : List Code :=
  [.blockOrEmpty [.text "export const ", .name .declare "events", .text " ="]
      (m.channels.map methodCode) ";",
    .line [],
    .line [.text "export type ", .name .declare "Events", .text " = typeof ",
      .name .outer "events", .text ";"],
    .line [],
    .block [] [.text "export function ", .name .declare "exposeEvents", .text "(): void"]
      [.line [.name .outer "contextBridge", .text ".exposeInMainWorld('events', ",
        .name .outer "events", .text ");"]] ""]

theorem lines_methodCode (c : EventChannel) : (methodCode c).lines = methodLines c := by
  simp [methodCode, methodLines, Code.lines, Code.linesOf, written, Text.block, line_listenerCode,
    ← String.toList_inj]

/-- The text is the code as it is written. -/
theorem text_eq (m : SubscriptionsModule) : m.text = fileText m.imports (Code.linesOf m.code) := by
  have htable : (Code.blockOrEmpty [.text "export const ", .name .declare "events", .text " ="]
      (m.channels.map methodCode) ";").lines =
      Text.blockOrEmpty "export const events =" (m.channels.flatMap methodLines) ";" := by
    rw [Code.lines_blockOrEmpty, Code.linesOf_map lines_methodCode]
    congr 1
  rw [text, code, Code.linesOf, htable, List.append_assoc]
  congr 2

end SubscriptionsModule

namespace ListenMethod

/-- The method under a name. -/
def signatureCode (name : String) (c : EventChannel) : List Piece :=
  .name .entry name :: listenerCode c.payload ++ [.text ": () => void"]

/-- The method in a type. -/
def memberCode (name : String) (c : EventChannel) : Code :=
  .arrow [] (signatureCode name c) [.text ";"]

/-- The method of the class. -/
def code (m : ListenMethod) : Code :=
  .block [] (signatureCode m.name m.channel)
    [.line [.text "return window.events.", .name .lookup m.channel.name, .text "(",
      .name .var "listener", .text ");"]] ""

theorem line_signatureCode (name : String) (c : EventChannel) :
    line (signatureCode name c) = signature name c := by
  simp [signatureCode, signature, line_listenerCode, written, ← String.append_assoc]

theorem lines_memberCode (name : String) (c : EventChannel) :
    (memberCode name c).lines = [signature name c ++ ";"] := by
  simp [memberCode, Code.lines, line_signatureCode, written]

/-- The method is written as it stands in the text. -/
theorem lines_code (m : ListenMethod) : m.code.lines = m.lines := by
  simp [code, lines, Code.lines, Code.linesOf, line_signatureCode, written, Text.block,
    ← String.toList_inj]

end ListenMethod

namespace EventServiceModule

/-- What stands behind the imports. -/
def code (m : EventServiceModule) : List Code :=
  [.blockOrEmpty [.text "export interface ", .name .declare "IpcEvents"]
      (m.methods.map fun x => ListenMethod.memberCode x.channel.name x.channel) "",
    .line [], ServiceModule.windowFieldCode "events" "IpcEvents",
    .line [],
    .blockOrEmpty [.text "export interface ", .name .declare "EventService"]
      (m.methods.map fun x => ListenMethod.memberCode x.name x.channel) "",
    .line [],
    .blockOrEmpty [.text "export class ", .name .declare "EventServiceImpl",
      .text " implements EventService"] (m.methods.map ListenMethod.code) "",
    .line [], .line [.text "export const ", .name .declare "eventService",
      .text ": EventService = new EventServiceImpl();"]]

/-- The text is the code as it is written. -/
theorem text_eq (m : EventServiceModule) : m.text = fileText m.imports (Code.linesOf m.code) := by
  have htable (type : String) (name : ListenMethod → String) :
      (Code.blockOrEmpty [.text "export interface ", .name .declare type]
        (m.methods.map fun x => ListenMethod.memberCode (name x) x.channel) "").lines =
      Text.blockOrEmpty ("export interface " ++ type)
        (m.methods.map fun x => ListenMethod.signature (name x) x.channel ++ ";") "" := by
    rw [Code.lines_blockOrEmpty, Code.linesOf_map_line fun x => ListenMethod.lines_memberCode _ _]
    simp [written]
  have hclass : (Code.blockOrEmpty [.text "export class ", .name .declare "EventServiceImpl",
      .text " implements EventService"] (m.methods.map ListenMethod.code) "").lines =
      Text.blockOrEmpty "export class EventServiceImpl implements EventService"
        (m.methods.flatMap ListenMethod.lines) "" := by
    rw [Code.lines_blockOrEmpty, Code.linesOf_map ListenMethod.lines_code]
    congr 1
  unfold text
  simp [code, Code.linesOf, htable, hclass, ServiceModule.lines_windowFieldCode, Code.lines,
    written]

end EventServiceModule

/-! ## Artifacts -/

namespace Artifact

variable {o : Options} {w : WorkingSet} {dir : Path}

/-- The imports that an artifact in a directory asks for. -/
def requests (o : Options) (w : WorkingSet) (dir : Path) : Artifact → List ImportRequest
  | bridge => BridgeModule.requests dir (Record.placed w.api)
  | handlers => HandlersModule.requests dir o (Record.placed w.api)
  | registration =>
    RegistrationModule.requests dir (handlers.fileIn dir) o (Record.placed w.api)
  | service => ServiceModule.requests dir o (Record.placed w.api)
  | eventSender => .moduleType electron "WebContents" ::
    (Record.placed w.events).map (payloadRequest dir)
  | preloadEvents => SubscriptionsModule.requests dir (Record.placed w.events)
  | rendererEvents => (Record.placed w.events).map (payloadRequest dir)

/-- The import block of an artifact in a directory. -/
def imports (o : Options) (w : WorkingSet) (dir : Path) (a : Artifact) : ImportBlock :=
  .ofRequests (a.requests o w dir)

/-- What stands behind the imports of an artifact in a directory. -/
def code (o : Options) (w : WorkingSet) (dir : Path) : Artifact → List Code
  | bridge => (BridgeModule.of dir w.api).code
  | handlers => (HandlersModule.of dir o w.api).code
  | registration => (RegistrationModule.of dir (handlers.fileIn dir) o w.api).code
  | service => (ServiceModule.of dir o w.api).code
  | eventSender => (SenderModule.of dir w.events).code
  | preloadEvents => (SubscriptionsModule.of dir w.events).code
  | rendererEvents => (EventServiceModule.of dir w.events).code

/-- The text of an artifact is its import block and its code as it is written. -/
theorem text_eq (a : Artifact) : a.text o w.api w.events dir =
    fileText (a.imports o w dir) (Code.linesOf (a.code o w dir)) := by
  cases a with
  | bridge => exact BridgeModule.text_eq _
  | handlers => exact HandlersModule.text_eq _
  | registration => exact RegistrationModule.text_eq _
  | service => exact ServiceModule.text_eq _
  | eventSender => exact SenderModule.text_eq _
  | preloadEvents => exact SubscriptionsModule.text_eq _
  | rendererEvents => exact EventServiceModule.text_eq _

end Artifact

/-- A generated file belongs to an artifact of the working set that has a directory, and has the
text of that. -/
theorem mem_generate_iff {o : Options} {w : WorkingSet} {file : GeneratedFile} :
    file ∈ generate o w ↔ ∃ a ∈ artifactsOf w, ∃ dir, a.dir? o = some dir ∧
      ⟨a, a.fileIn dir, fileText (a.imports o w dir) (Code.linesOf (a.code o w dir))⟩ = file := by
  simp only [generate, List.mem_filterMap, Artifact.text_eq, Option.map_eq_some_iff]

end IpcWiring.Emit
