import IpcWiring.Proofs.Emit.Name
import IpcWiring.Proofs.Emit.Scopes

/-!
# Agreement of the artifacts of functions

The bridge sends a request over a channel, the registration connects the channel to a handler, and
the service calls the bridge. Each of the four modules is made from the functions by itself. What
they have for one function agrees (`Wired`), and all of them list the same functions in the same
order (`FunctionModules.artifacts_agree`).
-/

namespace IpcWiring.Emit

open Piece (names members)

/-! ## The names in the parts for one function -/

namespace BridgeMethod

variable (m : BridgeMethod)

theorem names_entry_code : names .entry m.code.pieces = [m.name] := by
  obtain ⟨name, channel, parameter, requestType⟩ := m
  cases parameter <;> simp [code, Code.pieces, arrowCode, callCode]

theorem names_channel_code : names .channel m.code.pieces = [m.channel] := by
  obtain ⟨name, channel, parameter, requestType⟩ := m
  cases parameter <;> simp [code, Code.pieces, arrowCode, callCode]

/-- The method uses as variables what it binds. -/
theorem names_var_code : names .var m.code.pieces = m.binders := by
  obtain ⟨name, channel, parameter, requestType⟩ := m
  cases parameter <;> simp [code, Code.pieces, arrowCode, callCode, binders]

theorem names_param_code : names .param m.code.pieces = m.binders := by
  obtain ⟨name, channel, parameter, requestType⟩ := m
  cases parameter <;> simp [code, Code.pieces, arrowCode, callCode, binders]

end BridgeMethod

namespace Handler

variable (h : Handler)

theorem pieces_code : h.code.pieces = .name .entry h.name :: .text ": async (" ::
    (h.parametersCode ++ .text ") =>" ::
      (Code.piecesOf h.validationCode ++ (h.callCode.pieces ++ h.recoveryCode.pieces))) := by
  simp [code, Code.pieces, Code.piecesOf_eq]

section
variable {role : Role}

theorem names_validationCode (houter : role ≠ .outer) (hvar : role ≠ .var)
    (hdeclare : role ≠ .declare) : names role (Code.piecesOf h.validationCode) = [] := by
  unfold validationCode
  cases h.validator? with
  | none => rfl
  | some v =>
    by_cases ha : h.arguments = [] <;>
      simp [ha, Code.piecesOf, Code.pieces, houter.symm, hvar.symm, hdeclare.symm]

theorem names_callCode (houter : role ≠ .outer) (hvar : role ≠ .var) :
    names role h.callCode.pieces = [] := by
  simp [callCode, Code.pieces, Piece.names_separated, h.names_arguments hvar, houter.symm,
    hvar.symm]

theorem names_recoveryCode (houter : role ≠ .outer) (hvar : role ≠ .var) :
    names role h.recoveryCode.pieces = [] := by
  unfold recoveryCode
  cases h.errorHandler? <;> simp [Code.pieces, houter.symm, hvar.symm]

/-- Apart from variables and their declarations, a handler names its entry and its parameters. -/
theorem names_code (houter : role ≠ .outer) (hvar : role ≠ .var) (hdeclare : role ≠ .declare) :
    names role h.code.pieces = names role [.name .entry h.name] ++ names role h.parametersCode := by
  rw [pieces_code, ← List.singleton_append]
  simp only [Piece.names_append, Piece.names_text_cons, h.names_validationCode houter hvar hdeclare,
    h.names_callCode houter hvar, h.names_recoveryCode houter hvar, List.append_nil]

end

theorem names_entry_code : names .entry h.code.pieces = [h.name] := by
  rw [names_code h (by decide) (by decide) (by decide), names_parametersCode h (by decide)]
  rfl

theorem mem_names_param_code :
    "args" ∈ names .param h.code.pieces ↔ h.requestType?.isSome = true := by
  rw [names_code h (by decide) (by decide) (by decide), names_param_parametersCode, parameterNames]
  cases h.requestType? <;> simp

section
variable (x : String)

theorem members_parametersCode : members x h.parametersCode = [] := by
  unfold parametersCode
  cases h.requestType? <;> simp

theorem members_validationCode : members x (Code.piecesOf h.validationCode) = [] := by
  unfold validationCode
  cases h.validator? with
  | none => rfl
  | some v => by_cases ha : h.arguments = [] <;> simp [ha, Code.piecesOf, Code.pieces]

theorem members_callCode : members x h.callCode.pieces =
    h.arguments.flatMap fun b => members x (argumentCode h.bag b) := by
  simp [callCode, Code.pieces, List.flatMap_map]

theorem members_recoveryCode : members x h.recoveryCode.pieces = [] := by
  unfold recoveryCode
  cases h.errorHandler? <;> simp [Code.pieces]

/-- What a handler reads off a variable is what the function is given from it. -/
theorem members_code : members x h.code.pieces =
    h.arguments.flatMap fun b => members x (argumentCode h.bag b) := by
  simp [pieces_code, members_parametersCode, members_validationCode, members_callCode,
    members_recoveryCode]

end

/-- A function is given the fields that its handler reads. -/
theorem binding_of_mem_members {x key : String} (hkey : key ∈ members x h.code.pieces) :
    .field key ∈ h.arguments ∨ .spread key ∈ h.arguments := by
  rw [members_code, List.mem_flatMap] at hkey
  obtain ⟨b, hb, hkey⟩ := hkey
  cases b with
  | bag => simp [argumentCode] at hkey
  | field name =>
    obtain ⟨-, rfl⟩ : h.bag = x ∧ key = name := by simpa [argumentCode] using hkey
    exact .inl hb
  | spread name =>
    obtain ⟨-, rfl⟩ : h.bag = x ∧ key = name := by simpa [argumentCode] using hkey
    exact .inr hb

end Handler

namespace ServiceMethod

variable (u : Bool) (m : ServiceMethod)

theorem names_entry_code : names .entry (m.code u).pieces = [m.name] := by
  unfold code signatureCode
  cases u <;> cases m.requestType?.isSome <;> simp [Code.pieces, Code.piecesOf]

theorem names_entry_memberCode : names .entry (m.memberCode u).pieces = [m.name] := by
  unfold memberCode signatureCode
  cases m.requestType?.isSome <;> simp [Code.pieces]

theorem names_lookup_code : names .lookup (m.code u).pieces = [m.name] := by
  unfold code signatureCode
  cases u <;> cases m.requestType?.isSome <;> simp [Code.pieces, Code.piecesOf]

theorem mem_names_var_code : "args" ∈ names .var (m.code u).pieces ↔ m.requestType?.isSome := by
  unfold code signatureCode
  cases u <;> cases m.requestType?.isSome <;> simp [Code.pieces, Code.piecesOf]

end ServiceMethod

namespace Registration

variable (r : Registration)

theorem names_channel_code : names .channel r.code.pieces = [r.channel] := by
  obtain ⟨channel, handler, passesRequest⟩ := r
  cases passesRequest <;> simp [code, Code.pieces]

theorem names_channel_removalCode : names .channel r.removalCode.pieces = [r.channel] := by
  simp [removalCode, Code.pieces]

theorem names_lookup_code : names .lookup r.code.pieces = [r.handler] := by
  obtain ⟨channel, handler, passesRequest⟩ := r
  cases passesRequest <;> simp [code, Code.pieces]

theorem mem_names_var_code : "args" ∈ names .var r.code.pieces ↔ r.passesRequest = true := by
  obtain ⟨channel, handler, passesRequest⟩ := r
  cases passesRequest <;> simp [code, Code.pieces]

end Registration

/-! ## One function -/

/-- The bag that a method of the bridge sends for a function has the key: the method puts the bag
together from its fields, or passes on what it is given, of a type with these fields. -/
def BridgeMethod.Sends (m : BridgeMethod) (f : ApiFunction) (key : String) : Prop :=
  match m.parameter with
  | .absent => False
  | .fields _ => key ∈ names .var m.code.pieces
  | .whole => names .var m.code.pieces = ["args"] ∧ m.requestType = Emit.requestType f.request ∧
    ∃ field ∈ f.request, field.name = key

/-- Every field that a parameter is given is one of the request. -/
def BindsFields (f : ApiFunction) : Prop :=
  ∀ key, .field key ∈ f.bindings ∨ .spread key ∈ f.bindings → ∃ field ∈ f.request, field.name = key

/-- What is generated for one function agrees. -/
structure Wired (unwraps : Bool) (f : ApiFunction) (m : BridgeMethod) (h : Handler)
    (r : Registration) (s : ServiceMethod) : Prop where
  /-- The method of the bridge sends over the channel that is connected. -/
  connected : names .channel r.code.pieces = names .channel m.code.pieces
  /-- That channel is disconnected. -/
  disconnected : names .channel r.removalCode.pieces = names .channel m.code.pieces
  /-- The channel is connected to the handler. -/
  handler : names .lookup r.code.pieces = names .entry h.code.pieces
  /-- The method of the service calls that of the bridge. -/
  method : names .lookup (s.code unwraps).pieces = names .entry m.code.pieces
  /-- The method of the bridge has a parameter if there is a request. -/
  takes : names .param m.code.pieces ≠ [] ↔ f.request ≠ []
  /-- The method of the service passes on a request if there is one. -/
  passes : "args" ∈ names .var (s.code unwraps).pieces ↔ f.request ≠ []
  /-- The registration passes on a request if the handler takes one. -/
  forwards : "args" ∈ names .var r.code.pieces ↔ "args" ∈ names .param h.code.pieces
  /-- What the handler reads off its request is sent. -/
  reads : ∀ key ∈ members "args" h.code.pieces, m.Sends f key

section
variable {f : ApiFunction}

/-- How the method of the bridge for a function takes the request. -/
theorem BridgeMethod.parameter_of (f : ApiFunction) :
    f.request = [] ∧ (BridgeMethod.of f).parameter = .absent ∨
    f.request ≠ [] ∧ ((BridgeMethod.of f).parameter = .fields (f.request.map (·.name)) ∨
      (BridgeMethod.of f).parameter = .whole) := by
  by_cases h : f.request = []
  · exact .inl ⟨h, by simp [BridgeMethod.of, h]⟩
  · refine .inr ⟨h, ?_⟩
    simp only [BridgeMethod.of, List.isEmpty_map, List.isEmpty_iff, h, if_false]
    split
    · exact .inl rfl
    · exact .inr rfl

theorem BridgeMethod.binders_of_ne_nil_iff : (BridgeMethod.of f).binders ≠ [] ↔ f.request ≠ [] := by
  rw [binders]
  obtain ⟨hr, hp⟩ | ⟨hr, hp | hp⟩ := BridgeMethod.parameter_of f <;> rw [hp] <;> simp [hr]

/-- The method of the bridge for a function sends all fields of the request. -/
theorem BridgeMethod.sends_of {key : String} (h : ∃ field ∈ f.request, field.name = key) :
    (BridgeMethod.of f).Sends f key := by
  rw [Sends, names_var_code, binders]
  obtain ⟨hr, -⟩ | ⟨-, hp | hp⟩ := BridgeMethod.parameter_of f
  · obtain ⟨field, hfield, -⟩ := h
    cases List.ne_nil_of_mem hfield hr
  · rw [hp]
    exact List.mem_map.2 h
  · rw [hp]
    exact ⟨rfl, rfl, h⟩

/-- What is generated for a function agrees, if its parameters are given fields of the request. -/
theorem wired (contextType : String) (o : Options) (hf : BindsFields f) (typeName : String) :
    Wired o.unwraps f (.of f) (.of contextType f) (.of f) (.of o f typeName) where
  connected := by rw [Registration.names_channel_code, BridgeMethod.names_channel_code]; rfl
  disconnected := by
    rw [Registration.names_channel_removalCode, BridgeMethod.names_channel_code]; rfl
  handler := by rw [Registration.names_lookup_code, Handler.names_entry_code]; rfl
  method := by rw [ServiceMethod.names_lookup_code, BridgeMethod.names_entry_code]; rfl
  takes := by rw [BridgeMethod.names_param_code, BridgeMethod.binders_of_ne_nil_iff]
  passes := by
    rw [ServiceMethod.mem_names_var_code, ServiceMethod.of]
    by_cases h : f.request = [] <;> simp [h]
  forwards := by
    rw [Registration.mem_names_var_code, Handler.mem_names_param_code, Handler.of, Registration.of]
    cases takesRequest f <;> simp
  reads := fun key hkey => BridgeMethod.sends_of (hf key (Handler.binding_of_mem_members _ hkey))

end

/-! ## All functions -/

/-- The modules that are generated from functions. -/
structure FunctionModules where
  bridge : BridgeModule
  handlers : HandlersModule
  registration : RegistrationModule
  service : ServiceModule

namespace FunctionModules

/-- The modules for some functions. -/
def of (o : Options) (records : List ApiRecord) : FunctionModules where
  bridge := .of o.dirs.preload records
  handlers := .of o.dirs.main o records
  registration := .of o.dirs.main (Artifact.handlers.fileIn o.dirs.main) o records
  service := .of o.dirs.renderer o records

/-- The files of the modules. -/
def files (o : Options) (m : FunctionModules) : List GeneratedFile :=
  [⟨.bridge, Artifact.bridge.fileIn o.dirs.preload,
      fileText m.bridge.imports (Code.linesOf m.bridge.code)⟩,
    ⟨.handlers, Artifact.handlers.fileIn o.dirs.main,
      fileText m.handlers.imports (Code.linesOf m.handlers.code)⟩,
    ⟨.registration, Artifact.registration.fileIn o.dirs.main,
      fileText m.registration.imports (Code.linesOf m.registration.code)⟩,
    ⟨.service, Artifact.service.fileIn o.dirs.renderer,
      fileText m.service.imports (Code.linesOf m.service.code)⟩]

/-- What the tables, the calls over a channel, the types and the class list. -/
def listings (m : FunctionModules) : List (List String) :=
  [names .entry m.bridge.tableCode.pieces, names .channel m.bridge.tableCode.pieces,
    names .entry m.handlers.tableCode.pieces,
    names .channel m.registration.connectCode.pieces,
    names .lookup m.registration.connectCode.pieces,
    names .channel m.registration.disconnectCode.pieces,
    names .entry m.service.bridgeTypeCode.pieces, names .entry m.service.serviceTypeCode.pieces,
    names .entry m.service.classCode.pieces, names .lookup m.service.classCode.pieces]

variable (o : Options) (w : WorkingSet)

/-- The files of the modules are generated first. -/
theorem generate_eq : ∃ rest, generate o w = (of o w.api).files o ++ rest := by
  refine ⟨(if w.events?.isSome then Artifact.ofEvents else []).filterMap fun a =>
    (a.dir? o).map fun dir => ⟨a, a.fileIn dir, a.text o w.api w.events dir⟩, ?_⟩
  rw [generate, artifactsOf, List.filterMap_append]
  refine congrArg (· ++ _) ?_
  simp only [Artifact.ofFunctions, Artifact.dir?, Artifact.text_eq, List.filterMap_cons,
    Option.map_some, List.filterMap_nil]
  rfl

theorem names_placed : (Record.placed w.api).map (·.2.name) = Record.names w.api := by
  rw [Record.placed, List.map_flatMap, Record.names]
  refine List.flatMap_congr fun r _ => ?_
  rw [List.map_map]
  rfl

/-- All listings are those of the working set. -/
theorem listings_eq {l : List String} (hl : l ∈ (of o w.api).listings) :
    l = Record.names w.api := by
  have hservice : (of o w.api).service.methods.map (·.name) =
      (Record.placed w.api).map (·.2.name) := ServiceModule.map_methods fun _ _ => rfl
  simp only [listings, List.mem_cons, List.not_mem_nil, or_false] at hl
  rw [← names_placed]
  obtain rfl | rfl | rfl | rfl | rfl | rfl | rfl | rfl | rfl | rfl := hl
  · rw [BridgeModule.tableCode, Code.names_table (by simp) BridgeMethod.names_entry_code]
    exact List.map_map
  · rw [BridgeModule.tableCode, Code.names_table (by simp) BridgeMethod.names_channel_code]
    exact List.map_map
  · rw [HandlersModule.tableCode, Code.names_table (by simp) Handler.names_entry_code]
    exact List.map_map
  · rw [RegistrationModule.connectCode,
      Code.names_table (by simp) Registration.names_channel_code]
    exact List.map_map
  · rw [RegistrationModule.connectCode,
      Code.names_table (by simp) Registration.names_lookup_code]
    exact List.map_map
  · rw [RegistrationModule.disconnectCode,
      Code.names_table (by simp) Registration.names_channel_removalCode]
    exact List.map_map
  · rw [ServiceModule.bridgeTypeCode,
      Code.names_table (by simp) (ServiceMethod.names_entry_memberCode false), hservice]
  · rw [ServiceModule.serviceTypeCode,
      Code.names_table (by simp) (ServiceMethod.names_entry_memberCode _), hservice]
  · rw [ServiceModule.classCode,
      Code.names_table (by simp) (ServiceMethod.names_entry_code _), hservice]
  · rw [ServiceModule.classCode,
      Code.names_table (by simp) (ServiceMethod.names_lookup_code _), hservice]

/-- **The artifacts of functions agree.** All of them list the functions of the working set, each
one once and in order, and what stands at one place of the four modules agrees. -/
theorem artifacts_agree (h : ∀ e ∈ Record.placed w.api, BindsFields e.2) :
    (∃ rest, generate o w = (of o w.api).files o ++ rest) ∧
    (∀ l ∈ (of o w.api).listings, l = Record.names w.api) ∧
    ∀ (i : Nat) (hi : i < (Record.placed w.api).length), ∃ m h r s,
      (of o w.api).bridge.methods[i]? = some m ∧ (of o w.api).handlers.handlers[i]? = some h ∧
      (of o w.api).registration.registrations[i]? = some r ∧
      (of o w.api).service.methods[i]? = some s ∧
      Wired o.unwraps (Record.placed w.api)[i].2 m h r s := by
  refine ⟨generate_eq o w, fun l => listings_eq o w, fun i hi => ?_⟩
  have hlength : i < (freshNames [] ((Record.placed w.api).map (·.2.name))).length := by
    simpa [length_freshNames] using hi
  refine ⟨_, _, _, _, ?_, ?_, ?_, ?_, wired o.context.name o (h _ (List.getElem_mem hi))
    (freshNames [] ((Record.placed w.api).map (·.2.name)))[i]⟩
  · simp [of, BridgeModule.of, hi]
  · simp [of, HandlersModule.of, hi]
  · simp [of, RegistrationModule.of, hi]
  · rw [of, ServiceModule.of]
    simp only
    rw [List.getElem?_eq_getElem (by simp [hi, length_freshNames]), List.getElem_zipWith]

/-- The artifacts of two functions of users agree. -/
theorem artifacts_agree_small : (∀ e ∈ Record.placed smallUsers.api, BindsFields e.2) ∧
    (∃ rest, generate smallOptions smallUsers =
      (of smallOptions smallUsers.api).files smallOptions ++ rest) ∧
    (∀ l ∈ (of smallOptions smallUsers.api).listings, l = ["ban", "invite"]) ∧
    ∃ m h r s, (of smallOptions smallUsers.api).service.methods[1]? = some s ∧
      Wired smallOptions.unwraps (smallUserFunction "invite" "@app/guest") m h r s := by
  have hbinds : ∀ e ∈ Record.placed smallUsers.api, BindsFields e.2 := by
    simp [smallUsers, smallUserFunction, Record.placed, BindsFields]
  obtain ⟨hfiles, hlistings, hwired⟩ := artifacts_agree smallOptions smallUsers hbinds
  obtain ⟨m, h, r, s, -, -, -, hs, hw⟩ := hwired 1 (by decide)
  exact ⟨hbinds, hfiles, hlistings, m, h, r, s, hs, hw⟩

end FunctionModules

end IpcWiring.Emit
