import IpcWiring.Proofs.Emit.Imports
import IpcWiring.Proofs.Emit.Name

/-!
# Scopes in generated modules

For each generated module: the names that it declares at its top level (`X.declaredOf_code`), and
its uses of names that are imported or declared there, each with the names that are bound around it
(`X.outerUsesOf_code`).
-/

namespace IpcWiring.Emit

open Code (outerUsesOf outerUses usesIn declaredOf OuterUse)
open Piece (names)

/-! ## The bridge -/

/-- The names that a method of the bridge binds. -/
def BridgeMethod.binders (m : BridgeMethod) : List String :=
  match m.parameter with
  | .absent => []
  | .fields names => names
  | .whole => ["args"]

theorem BridgeMethod.declared_code (m : BridgeMethod) : m.code.declared = [] := by
  simp [code]

theorem BridgeMethod.outerUses_code (m : BridgeMethod) :
    m.code.outerUses [] = [⟨"ipcRenderer", m.binders⟩] := by
  obtain ⟨name, channel, parameter, requestType⟩ := m
  cases parameter <;> simp [code, outerUses, arrowCode, callCode, binders, usesIn]

theorem BridgeModule.declaredOf_code (m : BridgeModule) :
    declaredOf m.code = ["api", "Api", "exposeApi"] := by
  simp [code, tableCode]

theorem BridgeModule.outerUsesOf_code (m : BridgeModule) :
    outerUsesOf [] m.code = m.methods.map (fun x => ⟨"ipcRenderer", x.binders⟩) ++
      [⟨"api", []⟩, ⟨"contextBridge", []⟩, ⟨"api", []⟩] := by
  have htable : m.tableCode.outerUses [] =
      m.methods.map fun x => ⟨"ipcRenderer", x.binders⟩ := by
    rw [tableCode, Code.outerUses_table (by simp) BridgeMethod.declared_code]
    simp [BridgeMethod.outerUses_code, List.map_eq_flatMap]
  rw [code, outerUsesOf, htable]
  rfl

/-! ## Handlers -/

namespace Handler

/-- The parameters of a handler. -/
def parameterNames (h : Handler) : List String :=
  "ctx" :: h.requestType?.toList.map fun _ => "args"

/-- The names that a handler binds around the call of the function. -/
def callBinders (h : Handler) : List String :=
  (if h.validator?.isSome && !h.arguments.isEmpty then ["input"] else []) ++ h.parameterNames

theorem names_param_parametersCode (h : Handler) :
    names .param h.parametersCode = h.parameterNames := by
  unfold parametersCode parameterNames
  cases h.requestType? <;> simp

/-- The parameters name nothing else. -/
theorem names_parametersCode (h : Handler) {role : Role} (hrole : role ≠ .param) :
    names role h.parametersCode = [] := by
  unfold parametersCode
  cases h.requestType? <;> simp [hrole.symm]

theorem outerUses_callCode (h : Handler) (around : List String) :
    h.callCode.outerUses around = [⟨"success", around⟩, ⟨h.name, around⟩] := by
  simp [callCode, outerUses, usesIn, Piece.names_separated, h.names_arguments]

theorem declared_callCode (h : Handler) : h.callCode.declared = [] := by
  simp [callCode, Piece.names_separated, h.names_arguments]

theorem outerUsesOf_validationCode (h : Handler) (around : List String) :
    outerUsesOf around h.validationCode = h.validator?.toList.map (⟨·, around⟩) := by
  unfold validationCode
  cases h.validator? with
  | none => rfl
  | some v => by_cases ha : h.arguments = [] <;> simp [outerUsesOf, outerUses, usesIn, ha]

theorem declaredOf_validationCode (h : Handler) : declaredOf h.validationCode =
    if h.validator?.isSome && !h.arguments.isEmpty then ["input"] else [] := by
  unfold validationCode
  cases h.validator? with
  | none => rfl
  | some v => by_cases ha : h.arguments = [] <;> simp [ha]

theorem outerUses_recoveryCode (h : Handler) (around : List String) :
    h.recoveryCode.outerUses around =
      ⟨"toFailure", around⟩ :: h.errorHandler?.toList.map (⟨·, around⟩) := by
  unfold recoveryCode
  cases h.errorHandler? <;> simp [outerUses, usesIn]

theorem declared_recoveryCode (h : Handler) : h.recoveryCode.declared = [] := by
  unfold recoveryCode
  cases h.errorHandler? <;> simp

/-- A handler uses what validates the request, the function, and what takes its errors. -/
theorem outerUses_code (h : Handler) :
    h.code.outerUses [] =
      h.validator?.toList.map (⟨·, h.callBinders⟩) ++
      [⟨"success", h.callBinders⟩, ⟨h.name, h.callBinders⟩,
        ⟨"toFailure", "error" :: h.parameterNames⟩] ++
      h.errorHandler?.toList.map (⟨·, "error" :: h.parameterNames⟩) := by
  simp [code, outerUses, outerUsesOf, usesIn, names_parametersCode,
    names_param_parametersCode, Code.outerUsesOf_append, outerUsesOf_validationCode,
    outerUses_callCode, outerUses_recoveryCode, declaredOf_validationCode, declared_callCode,
    declared_recoveryCode, callBinders]

theorem declared_code (h : Handler) : h.code.declared = [] := by
  simp [code, names_parametersCode]

end Handler

namespace HandlersModule

/-- The uses of names of the top level when an error is turned into a failure. -/
def failureUses (g? : Option GlobalHandler) : List OuterUse :=
  [⟨"failure", ["handled", "error", "handler"]⟩, ⟨"failure", ["error", "handler"]⟩] ++
    g?.toList.flatMap (fun g =>
      [⟨"failure", ["error", "handler"]⟩, ⟨g.name, ["error", "handler"]⟩]) ++
    [⟨"failure", ["error", "handler"]⟩]

theorem outerUses_toFailureCode (g? : Option GlobalHandler) :
    (toFailureCode g?).outerUses [] = failureUses g? := by
  cases g? with
  | none => rfl
  | some g =>
    obtain ⟨path, name, logs⟩ := g
    cases logs <;>
      simp [toFailureCode, askHandlerCode, lastFailureCode, failureCode, outerUses, outerUsesOf,
        usesIn, failureUses]

theorem declaredOf_code (m : HandlersModule) : declaredOf m.code =
    ["Success", "Failure", "Result"] ++
    (if m.handlers.isEmpty then [] else ["success", "failure", "toFailure"]) ++ ["handlers"] := by
  by_cases h : m.handlers = [] <;>
    simp [code, h, resultTypesCode, resultMakersCode, toFailureCode, tableCode]

theorem outerUsesOf_code (m : HandlersModule) : outerUsesOf [] m.code =
    (if m.handlers.isEmpty then [] else failureUses m.globalHandler?) ++
      m.handlers.flatMap fun h => h.code.outerUses [] := by
  have htable : m.tableCode.outerUses [] = m.handlers.flatMap fun h => h.code.outerUses [] := by
    rw [tableCode, Code.outerUses_table (by simp) Handler.declared_code]
    simp
  have htypes : outerUsesOf [] resultTypesCode = [] := rfl
  have hmakers : outerUsesOf [] resultMakersCode = [] := rfl
  by_cases h : m.handlers = [] <;>
    simp [code, h, Code.outerUsesOf_append, outerUsesOf, outerUses_toFailureCode, htable, htypes,
      hmakers, outerUses, usesIn]

end HandlersModule

/-! ## The registration -/

/-- The names that the registration of a handler binds around its call. -/
def Registration.binders (r : Registration) : List String :=
  if r.passesRequest then ["event", "args", "createContext"] else ["event", "createContext"]

theorem Registration.declared_code (r : Registration) : r.code.declared = [] := by
  simp [code]

theorem Registration.declared_removalCode (r : Registration) : r.removalCode.declared = [] := by
  simp [removalCode]

theorem Registration.outerUses_code (r : Registration) :
    r.code.outerUses ["createContext"] =
      [⟨"ipcMain", ["createContext"]⟩, ⟨"handlers", r.binders⟩] := by
  obtain ⟨channel, handler, passesRequest⟩ := r
  cases passesRequest <;> simp [code, outerUses, usesIn, binders]

namespace RegistrationModule

theorem declaredOf_code (m : RegistrationModule) :
    declaredOf m.code = ["registerHandlers", "unregisterHandlers"] := by
  simp [code, connectCode, disconnectCode]

theorem outerUsesOf_code (m : RegistrationModule) : outerUsesOf [] m.code =
    (m.registrations.flatMap fun r =>
      [⟨"ipcMain", ["createContext"]⟩, ⟨"handlers", r.binders⟩]) ++
    m.registrations.map fun _ => ⟨"ipcMain", []⟩ := by
  have hcalls : m.connectCode.outerUses [] = m.registrations.flatMap fun r =>
      [⟨"ipcMain", ["createContext"]⟩, ⟨"handlers", r.binders⟩] := by
    rw [connectCode, Code.outerUses_table (by simp) Registration.declared_code]
    by_cases h : m.registrations = [] <;> simp [h, Registration.outerUses_code]
  have hremovals : m.disconnectCode.outerUses [] =
      m.registrations.map fun _ => ⟨"ipcMain", []⟩ := by
    rw [disconnectCode, Code.outerUses_table (by simp) Registration.declared_removalCode]
    simp [Registration.removalCode, outerUses, usesIn, List.map_eq_flatMap]
  simp [code, outerUsesOf, hcalls, hremovals, outerUses, usesIn]

end RegistrationModule

/-! ## The service -/

namespace ServiceMethod

/-- The names of the method's types. -/
def aliasNames (m : ServiceMethod) : List String :=
  m.requestType?.toList.map (fun _ => m.argsName) ++ [m.dataName, m.errorName]

/-- The functions that the method's types are read off. -/
def typeofNames (m : ServiceMethod) : List String :=
  m.name :: m.errorHandler?.toList ++ m.globalHandler?.toList

theorem names_outer_errorTypeCode (m : ServiceMethod) :
    names .outer m.errorTypeCode = m.errorHandler?.toList ++ m.globalHandler?.toList := by
  unfold errorTypeCode
  cases m.errorHandler? <;> cases m.globalHandler? <;> simp [awaitedCode, Piece.separated]

theorem names_errorTypeCode (m : ServiceMethod) {role : Role} (hrole : role ≠ .outer) :
    names role m.errorTypeCode = [] := by
  unfold errorTypeCode
  cases m.errorHandler? <;> cases m.globalHandler? <;>
    simp [awaitedCode, Piece.separated, hrole.symm]

theorem declaredOf_aliasesCode (m : ServiceMethod) : declaredOf m.aliasesCode = m.aliasNames := by
  unfold aliasesCode aliasNames
  cases m.requestType? <;> simp [aliasCode, awaitedCode, names_errorTypeCode]

theorem outerUsesOf_aliasesCode (m : ServiceMethod) :
    outerUsesOf [] m.aliasesCode = m.typeofNames.map (⟨·, []⟩) := by
  unfold aliasesCode typeofNames
  cases m.requestType? <;>
    simp [aliasCode, awaitedCode, names_outer_errorTypeCode, outerUsesOf, outerUses, usesIn]

theorem names_signatureCode (unwrapped : Bool) (m : ServiceMethod) {role : Role}
    (hentry : role ≠ .entry) (hparam : role ≠ .param) :
    names role (m.signatureCode unwrapped) = [] := by
  unfold signatureCode
  cases m.requestType?.isSome <;> simp [hentry.symm, hparam.symm]

theorem declared_memberCode (unwrapped : Bool) (m : ServiceMethod) :
    (m.memberCode unwrapped).declared = [] := by
  simp [memberCode]

theorem outerUses_memberCode (unwrapped : Bool) (m : ServiceMethod) (around : List String) :
    (m.memberCode unwrapped).outerUses around = [] := by
  simp [memberCode, outerUses, usesIn, names_signatureCode]

theorem declared_code (unwrapped : Bool) (m : ServiceMethod) :
    (m.code unwrapped).declared = [] := by
  cases unwrapped <;> simp [code, names_signatureCode]

theorem outerUses_code (unwrapped : Bool) (m : ServiceMethod) (around : List String) :
    (m.code unwrapped).outerUses around = [] := by
  unfold code
  cases unwrapped <;> cases m.requestType?.isSome <;>
    simp [outerUses, outerUsesOf, usesIn, names_signatureCode]

end ServiceMethod

namespace ServiceModule

theorem declaredOf_code (m : ServiceModule) : declaredOf m.code =
    "Result" :: m.methods.flatMap ServiceMethod.aliasNames ++
      ["IpcApi", "ApiService", "ApiServiceImpl", "apiService"] := by
  have haliases : declaredOf (m.methods.flatMap ServiceMethod.aliasesCode) =
      m.methods.flatMap ServiceMethod.aliasNames := by
    rw [declaredOf, List.flatMap_assoc]
    exact congrArg (List.flatMap · _) (funext ServiceMethod.declaredOf_aliasesCode)
  simp [code, haliases, bridgeTypeCode, serviceTypeCode, classCode, windowFieldCode]

theorem outerUsesOf_code (m : ServiceModule) : outerUsesOf [] m.code =
    (m.methods.flatMap ServiceMethod.typeofNames).map (⟨·, []⟩) := by
  have haliases : outerUsesOf [] (m.methods.flatMap ServiceMethod.aliasesCode) =
      (m.methods.flatMap ServiceMethod.typeofNames).map (⟨·, []⟩) := by
    rw [Code.outerUsesOf_eq, List.flatMap_assoc, List.map_flatMap]
    refine congrArg (List.flatMap · _) (funext fun x => ?_)
    rw [← Code.outerUsesOf_eq, ServiceMethod.outerUsesOf_aliasesCode]
  have hbridge : m.bridgeTypeCode.outerUses [] = [] := by
    rw [bridgeTypeCode, Code.outerUses_table (by simp) (ServiceMethod.declared_memberCode false)]
    simp [ServiceMethod.outerUses_memberCode]
  have hservice : m.serviceTypeCode.outerUses [] = [] := by
    rw [serviceTypeCode,
      Code.outerUses_table (by simp) (ServiceMethod.declared_memberCode m.unwraps)]
    simp [ServiceMethod.outerUses_memberCode]
  have hclass : m.classCode.outerUses [] = [] := by
    rw [classCode, Code.outerUses_table (by simp) (ServiceMethod.declared_code m.unwraps)]
    simp [ServiceMethod.outerUses_code]
  simp [code, Code.outerUsesOf_append, outerUsesOf, haliases, hbridge, hservice, hclass, outerUses,
    usesIn, windowFieldCode]

end ServiceModule

/-! ## Events -/

namespace SenderModule

theorem declaredOf_code (m : SenderModule) :
    declaredOf m.code = ["createEventSender", "EventSender"] := by
  simp [code]

theorem outerUsesOf_code (m : SenderModule) :
    outerUsesOf [] m.code = [⟨"createEventSender", []⟩] := by
  have htable (around : List String) :
      (Code.blockOrEmpty [.text "return"] (m.channels.map methodCode) ";").outerUses around =
        [] := by
    rw [Code.outerUses_table (by simp) fun c => by simp [methodCode]]
    simp [methodCode, outerUses, outerUsesOf, usesIn]
  simp [code, outerUsesOf, outerUses, usesIn, htable]

end SenderModule

namespace SubscriptionsModule

theorem declaredOf_code (m : SubscriptionsModule) :
    declaredOf m.code = ["events", "Events", "exposeEvents"] := by
  simp [code]

theorem outerUsesOf_code (m : SubscriptionsModule) : outerUsesOf [] m.code =
    (m.channels.flatMap fun _ => List.replicate 2 ⟨"ipcRenderer", ["handler", "listener"]⟩) ++
      [⟨"events", []⟩, ⟨"contextBridge", []⟩, ⟨"events", []⟩] := by
  have htable : (Code.blockOrEmpty [.text "export const ", .name .declare "events", .text " ="]
      (m.channels.map methodCode) ";").outerUses [] =
      m.channels.flatMap fun _ => List.replicate 2 ⟨"ipcRenderer", ["handler", "listener"]⟩ := by
    rw [Code.outerUses_table (by simp) fun c => by simp [methodCode, listenerCode]]
    simp [methodCode, listenerCode, outerUses, outerUsesOf, usesIn, List.replicate]
  rw [code, outerUsesOf, htable]
  rfl

end SubscriptionsModule

namespace EventServiceModule

theorem declaredOf_code (m : EventServiceModule) :
    declaredOf m.code = ["IpcEvents", "EventService", "EventServiceImpl", "eventService"] := by
  simp [code, ServiceModule.windowFieldCode]

theorem outerUsesOf_code (m : EventServiceModule) : outerUsesOf [] m.code = [] := by
  have htable (type : String) (name : ListenMethod → String) :
      (Code.blockOrEmpty [.text "export interface ", .name .declare type]
        (m.methods.map fun x => ListenMethod.memberCode (name x) x.channel) "").outerUses [] =
      [] := by
    rw [Code.outerUses_table (by simp) fun x => by
      simp [ListenMethod.memberCode]]
    simp [ListenMethod.memberCode, ListenMethod.signatureCode, listenerCode, outerUses, usesIn]
  have hclass : (Code.blockOrEmpty [.text "export class ", .name .declare "EventServiceImpl",
      .text " implements EventService"] (m.methods.map ListenMethod.code) "").outerUses [] =
      [] := by
    rw [Code.outerUses_table (by simp) fun x => by
      simp [ListenMethod.code, ListenMethod.signatureCode, listenerCode]]
    simp [ListenMethod.code, ListenMethod.signatureCode, listenerCode, outerUses, outerUsesOf,
      usesIn]
  simp [code, outerUsesOf, htable, hclass, ServiceModule.windowFieldCode, outerUses, usesIn]

end EventServiceModule

end IpcWiring.Emit
