import IpcWiring.Proofs.Emit.Name
import IpcWiring.Proofs.Emit.Scopes

/-!
# Hygiene of generated modules

What a generated module imports keeps its name, and so do the names that the module declares and
binds by itself. The imports are distinct among themselves, and so are the declarations
(`Artifact.nodup_ownNames`), but an import can have the name of a declaration, and a use of it can
stand where that name is bound. `Artifact.Captures` lists all the uses of the latter kind.
-/

namespace IpcWiring.Emit

open Code (outerUsesOf declaredOf OuterUse)

variable {o : Options} {w : WorkingSet} {dir : Path} {a : Artifact}

/-! ## Names of types -/

/-- What the names of a function's types end in. -/
def aliasEndings : List String := ["Args", "Data", "Error"]

/-- The names of a function's types, by what they start with. -/
def aliasNames (f : ApiFunction) (typeName : String) : List String :=
  (if f.request.isEmpty then [] else [typeName ++ "Args"]) ++
    [typeName ++ "Data", typeName ++ "Error"]

/-- The names of the types of all functions. -/
def allAliasNames (functions : List ApiFunction) : List String :=
  (functions.zipWith aliasNames (freshNames [] (functions.map (·.name)))).flatten

section
variable {x m n s t : String} {f : ApiFunction}

/-- A name of a type starts with what it is made from. -/
theorem exists_ending_of_mem_aliasNames (h : x ∈ aliasNames f n) :
    ∃ s ∈ aliasEndings, x = n ++ s := by
  simp only [aliasNames, List.mem_append, List.mem_cons, List.not_mem_nil, or_false] at h
  obtain h | rfl | rfl := h
  · split at h
    · cases h
    · exact ⟨"Args", by decide, by simpa using h⟩
  · exact ⟨"Data", by decide, rfl⟩
  · exact ⟨"Error", by decide, rfl⟩

/-- A text that ends in one of the endings has its last character. -/
theorem getLast?_append_ending (h : s ∈ aliasEndings) :
    (m ++ s).toList.getLast? = s.toList.getLast? := by
  rw [String.toList_append, List.getLast?_append]
  simp only [aliasEndings, List.mem_cons, List.not_mem_nil, or_false] at h
  obtain rfl | rfl | rfl := h <;> rfl

/-- A text and one of the endings can be told from what they make. -/
theorem append_ending_inj (hs : s ∈ aliasEndings) (ht : t ∈ aliasEndings)
    (h : m ++ s = n ++ t) : m = n ∧ s = t := by
  have hlast : s.toList.getLast? = t.toList.getLast? := by
    rw [← getLast?_append_ending hs, h, getLast?_append_ending ht]
  have hst : s = t := by
    simp only [aliasEndings, List.mem_cons, List.not_mem_nil, or_false] at hs ht
    obtain rfl | rfl | rfl := hs <;> obtain rfl | rfl | rfl := ht <;> first | rfl | cases hlast
  subst hst
  have hchars := congrArg String.toList h
  rw [String.toList_append, String.toList_append] at hchars
  exact ⟨String.toList_inj.1 (List.append_cancel_right hchars), rfl⟩

/-- The names of a function's types are distinct. -/
theorem nodup_aliasNames (f : ApiFunction) (n : String) : (aliasNames f n).Nodup := by
  have hne {s t : String} (hs : s ∈ aliasEndings) (ht : t ∈ aliasEndings) (hst : s ≠ t) :
      n ++ s ≠ n ++ t := fun h => hst (append_ending_inj hs ht h).2
  have hda := hne (s := "Args") (t := "Data") (by decide) (by decide) (by decide)
  have hae := hne (s := "Args") (t := "Error") (by decide) (by decide) (by decide)
  have hde := hne (s := "Data") (t := "Error") (by decide) (by decide) (by decide)
  rw [aliasNames]
  split <;> simp [*]

/-- The names of types of functions start with the names that they are made from. -/
theorem exists_ending_of_mem_flatten {functions : List ApiFunction} {typeNames : List String}
    (h : x ∈ (functions.zipWith aliasNames typeNames).flatten) :
    ∃ n ∈ typeNames, ∃ s ∈ aliasEndings, x = n ++ s := by
  induction functions generalizing typeNames with
  | nil => simp at h
  | cons f fs ih =>
    cases typeNames with
    | nil => simp at h
    | cons n ns =>
      obtain h | h := by simpa using h
      · exact ⟨n, List.mem_cons_self, exists_ending_of_mem_aliasNames h⟩
      · obtain ⟨m, hm, hx⟩ := ih (by simpa using h)
        exact ⟨m, List.mem_cons_of_mem _ hm, hx⟩

/-- Functions with distinct names to start with have distinct names of types. -/
theorem nodup_flatten_aliasNames {functions : List ApiFunction} {typeNames : List String}
    (h : typeNames.Nodup) : (functions.zipWith aliasNames typeNames).flatten.Nodup := by
  induction functions generalizing typeNames with
  | nil => simp
  | cons f fs ih =>
    cases typeNames with
    | nil => simp
    | cons n ns =>
      obtain ⟨hnew, hns⟩ := List.nodup_cons.1 h
      rw [List.zipWith_cons_cons, List.flatten_cons, List.nodup_append]
      refine ⟨nodup_aliasNames f n, ih hns, fun x hx y hy hxy => hnew ?_⟩
      obtain ⟨s, hs, rfl⟩ := exists_ending_of_mem_aliasNames hx
      obtain ⟨m, hm, t, ht, rfl⟩ := exists_ending_of_mem_flatten hy
      exact (append_ending_inj hs ht hxy).1 ▸ hm

theorem nodup_allAliasNames (functions : List ApiFunction) : (allAliasNames functions).Nodup :=
  nodup_flatten_aliasNames (nodup_freshNames _ _)

/-- A name that ends in another character than the endings is not the name of a type. -/
theorem notMem_allAliasNames {functions : List ApiFunction}
    (h : x.toList.getLast? ∉ aliasEndings.map (·.toList.getLast?)) :
    x ∉ allAliasNames functions := by
  intro hx
  obtain ⟨n, -, s, hs, rfl⟩ := exists_ending_of_mem_flatten hx
  exact h (getLast?_append_ending hs ▸ List.mem_map_of_mem hs)

end

/-! ## Names at the top level -/

namespace Artifact

/-- The names that an artifact declares at its top level. -/
def ownNames (w : WorkingSet) : Artifact → List String
  | bridge => ["api", "Api", "exposeApi"]
  | handlers => ["Success", "Failure", "Result"] ++
    (if (Record.placed w.api).isEmpty then [] else ["success", "failure", "toFailure"]) ++
    ["handlers"]
  | registration => ["registerHandlers", "unregisterHandlers"]
  | service => "Result" :: allAliasNames ((Record.placed w.api).map (·.2)) ++
    ["IpcApi", "ApiService", "ApiServiceImpl", "apiService"]
  | eventSender => ["createEventSender", "EventSender"]
  | preloadEvents => ["events", "Events", "exposeEvents"]
  | rendererEvents => ["IpcEvents", "EventService", "EventServiceImpl", "eventService"]

/-- The names of types are those of the methods of the service. -/
theorem flatMap_aliasNames_service (o : Options) (w : WorkingSet) (dir : Path) :
    (ServiceModule.of dir o w.api).methods.flatMap ServiceMethod.aliasNames =
      allAliasNames ((Record.placed w.api).map (·.2)) := by
  have hmethod (e : Path × ApiFunction) (n : String) :
      (ServiceMethod.of o e.2 n).aliasNames = aliasNames e.2 n := by
    rw [ServiceMethod.aliasNames, aliasNames, ServiceMethod.of]
    split <;> rfl
  rw [allAliasNames, List.map_map, List.zipWith_map_left, List.flatMap, ServiceModule.of,
    List.map_zipWith]
  simp only [hmethod]
  rfl

/-- The names that the code of an artifact declares at its top level. -/
theorem declaredOf_code : declaredOf (a.code o w dir) = a.ownNames w := by
  cases a with
  | bridge => exact BridgeModule.declaredOf_code _
  | handlers =>
    rw [code, HandlersModule.declaredOf_code]
    simp [HandlersModule.of, ownNames]
  | registration => exact RegistrationModule.declaredOf_code _
  | service => rw [code, ServiceModule.declaredOf_code, flatMap_aliasNames_service, ownNames]
  | eventSender => exact SenderModule.declaredOf_code _
  | preloadEvents => exact SubscriptionsModule.declaredOf_code _
  | rendererEvents => exact EventServiceModule.declaredOf_code _

/-- An artifact declares no name twice. -/
theorem nodup_ownNames : (a.ownNames w).Nodup := by
  cases a with
  | handlers => rw [ownNames]; split <;> decide
  | service =>
    have hfixed : ∀ x ∈ ["Result", "IpcApi", "ApiService", "ApiServiceImpl", "apiService"],
        x ∉ allAliasNames ((Record.placed w.api).map (·.2)) :=
      fun x hx => notMem_allAliasNames (by revert x; decide)
    rw [ownNames, List.cons_append, List.nodup_cons, List.nodup_append]
    refine ⟨?_, nodup_allAliasNames _, by decide, fun x hx y hy hxy => ?_⟩
    · rw [List.mem_append, not_or]
      exact ⟨hfixed _ (by decide), by decide⟩
    · exact hfixed y (List.mem_cons_of_mem _ hy) (hxy ▸ hx)
  | _ => simp [ownNames]

/-- The imports and the declarations of an artifact are all distinct just if nothing that it names
by an import has the name of a declaration. -/
theorem nodup_topLevel_iff : ((a.imports o w dir).localNames ++ a.ownNames w).Nodup ↔
    ∀ r, a.Names o w dir r → r.localName ∉ a.ownNames w := by
  rw [List.nodup_append]
  constructor
  · rintro ⟨-, -, hdisjoint⟩ r hr hown
    exact hdisjoint _ (mem_localNames_imports.2 ⟨r, hr, rfl⟩) _ hown rfl
  · intro h
    refine ⟨ImportBlock.nodup_localNames, nodup_ownNames, fun x hx y hy hxy => ?_⟩
    obtain ⟨r, hr, rfl⟩ := mem_localNames_imports.1 hx
    exact h r hr (hxy ▸ hy)

end Artifact

/-! ## Uses of these names -/

/-- The parameters of the handler of a function. -/
def handlerParameters (f : ApiFunction) : List String :=
  "ctx" :: if takesRequest f then ["args"] else []

/-- The names that the handler of a function binds around the call of the function. -/
def callBinders (f : ApiFunction) : List String :=
  (if f.validator?.isSome && !f.bindings.isEmpty then ["input"] else []) ++ handlerParameters f

/-- The names that the handler of a function binds where it takes an error. -/
def errorBinders (f : ApiFunction) : List String := "error" :: handlerParameters f

/-- The names that the registration of the handler of a function binds around the handler. -/
def registrationBinders (f : ApiFunction) : List String :=
  if takesRequest f then ["event", "args", "createContext"] else ["event", "createContext"]

/-- The names that the method of the bridge for a function binds. -/
def bridgeBinders (f : ApiFunction) : List String := (BridgeMethod.of f).binders

section
variable (contextType : String) (f : ApiFunction)

theorem parameterNames_handler :
    (Handler.of contextType f).parameterNames = handlerParameters f := by
  rw [Handler.parameterNames, Handler.of, handlerParameters]
  split <;> rfl

theorem callBinders_handler : (Handler.of contextType f).callBinders = callBinders f := by
  rw [Handler.callBinders, parameterNames_handler]
  rfl

/-- The uses of names of the top level in the handler of a function. -/
theorem outerUses_handler : (Handler.of contextType f).code.outerUses [] =
    f.validator?.toList.map (⟨·, callBinders f⟩) ++
    [⟨"success", callBinders f⟩, ⟨f.name, callBinders f⟩, ⟨"toFailure", errorBinders f⟩] ++
    f.errorHandler?.toList.map (⟨·, errorBinders f⟩) := by
  rw [Handler.outerUses_code, callBinders_handler, parameterNames_handler]
  rfl

end

namespace Artifact

/-- The uses of names of the top level in an artifact, with the names that are bound around them. -/
inductive Uses (o : Options) (w : WorkingSet) : Artifact → OuterUse → Prop
  | function {path : Path} {f : ApiFunction} (hf : (path, f) ∈ Record.placed w.api) :
      Uses o w handlers ⟨f.name, callBinders f⟩
  | validator {path : Path} {f : ApiFunction} {v : String} (hf : (path, f) ∈ Record.placed w.api)
      (hv : f.validator? = some v) : Uses o w handlers ⟨v, callBinders f⟩
  | errorHandler {path : Path} {f : ApiFunction} {e : String}
      (hf : (path, f) ∈ Record.placed w.api) (he : f.errorHandler? = some e) :
      Uses o w handlers ⟨e, errorBinders f⟩
  | globalHandler {g : GlobalHandler} (hw : Record.placed w.api ≠ [])
      (hg : o.globalHandler? = some g) : Uses o w handlers ⟨g.name, ["error", "handler"]⟩
  | success {path : Path} {f : ApiFunction} (hf : (path, f) ∈ Record.placed w.api) :
      Uses o w handlers ⟨"success", callBinders f⟩
  | toFailure {path : Path} {f : ApiFunction} (hf : (path, f) ∈ Record.placed w.api) :
      Uses o w handlers ⟨"toFailure", errorBinders f⟩
  /-- A failure with the error, or with what the handler of a function made of it. -/
  | failure {handled : List String} (hw : Record.placed w.api ≠ [])
      (hh : handled = [] ∨ handled = ["handled"]) :
      Uses o w handlers ⟨"failure", handled ++ ["error", "handler"]⟩
  | functionType {path : Path} {f : ApiFunction} (hf : (path, f) ∈ Record.placed w.api) :
      Uses o w service ⟨f.name, []⟩
  | errorHandlerType {path : Path} {f : ApiFunction} {e : String}
      (hf : (path, f) ∈ Record.placed w.api) (he : f.errorHandler? = some e) :
      Uses o w service ⟨e, []⟩
  | globalHandlerType {g : GlobalHandler} (hw : Record.placed w.api ≠ [])
      (hg : o.globalHandler? = some g) : Uses o w service ⟨g.name, []⟩
  | send {path : Path} {f : ApiFunction} (hf : (path, f) ∈ Record.placed w.api) :
      Uses o w bridge ⟨"ipcRenderer", bridgeBinders f⟩
  /-- What is exposed, and what exposes it. -/
  | exposed {x : String} (hx : x = "api" ∨ x = "contextBridge") : Uses o w bridge ⟨x, []⟩
  | connect {path : Path} {f : ApiFunction} (hf : (path, f) ∈ Record.placed w.api) :
      Uses o w registration ⟨"ipcMain", ["createContext"]⟩
  | handlersTable {path : Path} {f : ApiFunction} (hf : (path, f) ∈ Record.placed w.api) :
      Uses o w registration ⟨"handlers", registrationBinders f⟩
  | disconnect {path : Path} {f : ApiFunction} (hf : (path, f) ∈ Record.placed w.api) :
      Uses o w registration ⟨"ipcMain", []⟩
  | sender : Uses o w eventSender ⟨"createEventSender", []⟩
  | subscription (hw : Record.placed w.events ≠ []) :
      Uses o w preloadEvents ⟨"ipcRenderer", ["handler", "listener"]⟩
  | exposedEvents {x : String} (hx : x = "events" ∨ x = "contextBridge") :
      Uses o w preloadEvents ⟨x, []⟩

section
variable {u : OuterUse}

theorem mem_outerUsesOf_bridge :
    u ∈ outerUsesOf [] (bridge.code o w dir) ↔ bridge.Uses o w u := by
  rw [code, BridgeModule.outerUsesOf_code]
  constructor
  · intro hu
    obtain ⟨⟨path, f⟩, hf, rfl⟩ | rfl | rfl | rfl := by
      simpa only [BridgeModule.of, List.map_map, List.mem_append, List.mem_map, List.mem_cons,
        List.not_mem_nil, or_false] using hu
    · exact .send hf
    · exact .exposed (.inl rfl)
    · exact .exposed (.inr rfl)
    · exact .exposed (.inl rfl)
  · intro hu
    cases hu with
    | send hf =>
      exact List.mem_append_left _ (List.mem_map_of_mem (List.mem_map_of_mem hf))
    | exposed hx => obtain rfl | rfl := hx <;> exact List.mem_append_right _ (by decide)

theorem mem_outerUsesOf_handlers :
    u ∈ outerUsesOf [] (handlers.code o w dir) ↔ handlers.Uses o w u := by
  rw [code, HandlersModule.outerUsesOf_code]
  simp only [HandlersModule.of, List.flatMap_map, outerUses_handler, List.isEmpty_map]
  constructor
  · intro hu
    obtain hu | ⟨⟨path, f⟩, hf, hu⟩ := by simpa only [List.mem_append, List.mem_flatMap] using hu
    · split at hu
      · cases hu
      next hw =>
      rw [List.isEmpty_iff] at hw
      obtain ((rfl | rfl) | ⟨g, hg, rfl | rfl⟩) | rfl := by
        simpa only [HandlersModule.failureUses, List.mem_append, List.mem_flatMap, List.mem_cons,
          List.not_mem_nil, or_false, Option.mem_toList] using hu
      · exact .failure hw (.inr rfl)
      · exact .failure hw (.inl rfl)
      · exact .failure hw (.inl rfl)
      · exact .globalHandler hw hg
      · exact .failure hw (.inl rfl)
    · obtain (⟨v, hv, rfl⟩ | rfl | rfl | rfl) | ⟨e, he, rfl⟩ := by
        simpa only [List.mem_append, List.mem_map, Option.mem_toList, List.mem_cons,
          List.not_mem_nil, or_false] using hu
      · exact .validator hf hv
      · exact .success hf
      · exact .function hf
      · exact .toFailure hf
      · exact .errorHandler hf he
  · intro hu
    cases hu with
    | function hf | success hf | toFailure hf =>
      exact List.mem_append_right _ (List.mem_flatMap.2 ⟨_, hf, by simp⟩)
    | validator hf hv => exact List.mem_append_right _ (List.mem_flatMap.2 ⟨_, hf, by simp [hv]⟩)
    | errorHandler hf he =>
      exact List.mem_append_right _ (List.mem_flatMap.2 ⟨_, hf, by simp [he]⟩)
    | globalHandler hw hg => simp [hw, hg, HandlersModule.failureUses]
    | failure hw hh => obtain rfl | rfl := hh <;> simp [hw, HandlersModule.failureUses]

theorem mem_outerUsesOf_registration :
    u ∈ outerUsesOf [] (registration.code o w dir) ↔ registration.Uses o w u := by
  rw [code, RegistrationModule.outerUsesOf_code]
  simp only [RegistrationModule.of, List.flatMap_map, List.map_map]
  constructor
  · intro hu
    obtain ⟨⟨path, f⟩, hf, rfl | rfl⟩ | ⟨⟨path, f⟩, hf, rfl⟩ := by
      simpa only [List.mem_append, List.mem_flatMap, List.mem_map, List.mem_cons,
        List.not_mem_nil, or_false] using hu
    · exact .connect hf
    · exact .handlersTable hf
    · exact .disconnect hf
  · intro hu
    cases hu with
    | connect hf => exact List.mem_append_left _ (List.mem_flatMap.2 ⟨_, hf, List.mem_cons_self⟩)
    | handlersTable hf =>
      exact List.mem_append_left _
        (List.mem_flatMap.2 ⟨_, hf, List.mem_cons_of_mem _ List.mem_cons_self⟩)
    | disconnect hf => exact List.mem_append_right _ (List.mem_map.2 ⟨_, hf, rfl⟩)

theorem mem_outerUsesOf_service :
    u ∈ outerUsesOf [] (service.code o w dir) ↔ service.Uses o w u := by
  have hmethods : (ServiceModule.of dir o w.api).methods.flatMap ServiceMethod.typeofNames =
      (Record.placed w.api).flatMap fun e =>
        e.2.name :: e.2.errorHandler?.toList ++ (o.globalHandler?.map (·.name)).toList := by
    rw [List.flatMap, ServiceModule.map_methods (g := ServiceMethod.typeofNames)
      (k := fun f => f.name :: f.errorHandler?.toList ++ (o.globalHandler?.map (·.name)).toList)
      fun _ _ => rfl]
    rfl
  rw [code, ServiceModule.outerUsesOf_code, hmethods]
  constructor
  · intro hu
    obtain ⟨x, ⟨⟨path, f⟩, hf, (rfl | he) | hg⟩, rfl⟩ := by
      simpa only [List.mem_map, List.mem_flatMap, List.mem_append, List.mem_cons, List.cons_append,
        Option.mem_toList, ← or_assoc] using hu
    · exact .functionType hf
    · exact .errorHandlerType hf he
    · obtain ⟨g, hsome, rfl⟩ := Option.map_eq_some_iff.1 hg
      exact .globalHandlerType (List.ne_nil_of_mem hf) hsome
  · intro hu
    cases hu with
    | functionType hf =>
      exact List.mem_map_of_mem (List.mem_flatMap.2 ⟨_, hf, List.mem_cons_self⟩)
    | errorHandlerType hf he =>
      exact List.mem_map_of_mem (List.mem_flatMap.2 ⟨_, hf, by simp [he]⟩)
    | globalHandlerType hw hg =>
      obtain ⟨⟨path, f⟩, hf⟩ := List.exists_mem_of_ne_nil _ hw
      exact List.mem_map_of_mem (List.mem_flatMap.2 ⟨_, hf, by simp [hg]⟩)

theorem mem_outerUsesOf_preloadEvents :
    u ∈ outerUsesOf [] (preloadEvents.code o w dir) ↔ preloadEvents.Uses o w u := by
  rw [code, SubscriptionsModule.outerUsesOf_code]
  simp only [SubscriptionsModule.of, List.flatMap_map]
  constructor
  · intro hu
    obtain ⟨e, he, -, rfl⟩ | rfl | rfl | rfl := by
      simpa only [List.mem_append, List.mem_flatMap, List.mem_replicate, List.mem_cons,
        List.not_mem_nil, or_false] using hu
    · exact .subscription (List.ne_nil_of_mem he)
    · exact .exposedEvents (.inl rfl)
    · exact .exposedEvents (.inr rfl)
    · exact .exposedEvents (.inl rfl)
  · intro hu
    cases hu with
    | subscription hw =>
      obtain ⟨e, he⟩ := List.exists_mem_of_ne_nil _ hw
      exact List.mem_append_left _ (List.mem_flatMap.2 ⟨e, he, List.mem_cons_self⟩)
    | exposedEvents hx => obtain rfl | rfl := hx <;> exact List.mem_append_right _ (by decide)

/-- The names that the code of an artifact uses at its top level are its uses. -/
theorem mem_outerUsesOf_code : u ∈ outerUsesOf [] (a.code o w dir) ↔ a.Uses o w u := by
  cases a with
  | bridge => exact mem_outerUsesOf_bridge
  | handlers => exact mem_outerUsesOf_handlers
  | registration => exact mem_outerUsesOf_registration
  | service => exact mem_outerUsesOf_service
  | eventSender =>
    rw [code, SenderModule.outerUsesOf_code, List.mem_singleton]
    exact ⟨fun h => h ▸ .sender, fun h => by cases h; rfl⟩
  | preloadEvents => exact mem_outerUsesOf_preloadEvents
  | rendererEvents =>
    rw [code, EventServiceModule.outerUsesOf_code]
    exact ⟨nofun, nofun⟩

/-- What an artifact uses at its top level is what it imports and what it declares there. -/
theorem Uses.mem_topLevel (h : a.Uses o w u) :
    u.name ∈ (a.imports o w dir).localNames ++ a.ownNames w := by
  have himport {a : Artifact} {r : ImportRequest} {x : String} (hr : a.Names o w dir r)
      (hx : r.localName = x) : x ∈ (a.imports o w dir).localNames ++ a.ownNames w :=
    List.mem_append_left _ (mem_localNames_imports.2 ⟨r, hr, hx⟩)
  cases h with
  | function hf => exact himport (.function hf) rfl
  | validator hf hv => exact himport (.validator hf hv) rfl
  | errorHandler hf he => exact himport (.errorHandler hf he) rfl
  | globalHandler hw hg => exact himport (.globalHandler hw hg) rfl
  | success hf | toFailure hf =>
    exact List.mem_append_right _ (by simp [ownNames, List.ne_nil_of_mem hf])
  | failure hw => exact List.mem_append_right _ (by simp [ownNames, hw])
  | functionType hf => exact himport (.functionType hf) rfl
  | errorHandlerType hf he => exact himport (.errorHandlerType hf he) rfl
  | globalHandlerType hw hg => exact himport (.globalHandlerType hw hg) rfl
  | send hf => exact himport (.ipcRenderer (.inl ⟨rfl, List.ne_nil_of_mem hf⟩)) rfl
  | exposed hx =>
    obtain rfl | rfl := hx
    · exact List.mem_append_right _ (by simp [ownNames])
    · exact himport (.contextBridge (.inl rfl)) rfl
  | connect hf | disconnect hf => exact himport (.ipcMain (List.ne_nil_of_mem hf)) rfl
  | handlersTable hf => exact himport (.handlersTable (List.ne_nil_of_mem hf)) rfl
  | sender => exact List.mem_append_right _ (by simp [ownNames])
  | subscription hw => exact himport (.ipcRenderer (.inr ⟨rfl, hw⟩)) rfl
  | exposedEvents hx =>
    obtain rfl | rfl := hx
    · exact List.mem_append_right _ (by simp [ownNames])
    · exact himport (.contextBridge (.inr rfl)) rfl

end

end Artifact

/-! ## Captured uses -/

/-- The handler of a function binds the name around the call of the function. -/
def IsBoundAtCall (f : ApiFunction) (x : String) : Prop :=
  x = "ctx" ∨ x = "args" ∧ takesRequest f = true ∨
    x = "input" ∧ f.validator?.isSome = true ∧ f.bindings ≠ []

/-- The handler of a function binds the name where it takes an error. -/
def IsBoundAtError (f : ApiFunction) (x : String) : Prop :=
  x = "error" ∨ x = "ctx" ∨ x = "args" ∧ takesRequest f = true

section
variable {f : ApiFunction} {x : String}

theorem mem_handlerParameters_iff :
    x ∈ handlerParameters f ↔ x = "ctx" ∨ x = "args" ∧ takesRequest f = true := by
  by_cases h : takesRequest f = true <;> simp [handlerParameters, h]

theorem mem_callBinders_iff : x ∈ callBinders f ↔ IsBoundAtCall f x := by
  rw [callBinders, List.mem_append, mem_handlerParameters_iff, IsBoundAtCall]
  by_cases h : f.validator?.isSome = true <;> by_cases hb : f.bindings = [] <;>
    simp [h, hb, or_comm, or_left_comm]

theorem mem_errorBinders_iff : x ∈ errorBinders f ↔ IsBoundAtError f x := by
  rw [errorBinders, List.mem_cons, mem_handlerParameters_iff, IsBoundAtError]

/-- A method of the bridge binds the name of what sends its request just if a field has that name
and the fields are taken apart. -/
theorem ipcRenderer_mem_bridgeBinders_iff : "ipcRenderer" ∈ bridgeBinders f ↔
    (∃ field ∈ f.request, field.name = "ipcRenderer") ∧
      ∀ field ∈ f.request, isBindingName field.name = true := by
  rw [bridgeBinders, BridgeMethod.binders, BridgeMethod.of]
  by_cases hr : f.request = []
  · simp [hr]
  · by_cases hall : ∀ field ∈ f.request, isBindingName field.name = true
    · simp only [List.isEmpty_map, List.isEmpty_iff, hr, if_false]
      rw [if_pos (by simpa using hall)]
      simpa using fun _ _ _ => hall
    · simp only [List.isEmpty_map, List.isEmpty_iff, hr, if_false]
      rw [if_neg (by simpa using hall)]
      simp [hall]

end

namespace Artifact

/-- The uses of names of the top level that are captured: another thing of the name is bound around
them. -/
inductive Captures (o : Options) (w : WorkingSet) : Artifact → OuterUse → Prop
  | function {path : Path} {f : ApiFunction} (hf : (path, f) ∈ Record.placed w.api)
      (h : IsBoundAtCall f f.name) : Captures o w handlers ⟨f.name, callBinders f⟩
  | validator {path : Path} {f : ApiFunction} {v : String} (hf : (path, f) ∈ Record.placed w.api)
      (hv : f.validator? = some v) (h : IsBoundAtCall f v) :
      Captures o w handlers ⟨v, callBinders f⟩
  | errorHandler {path : Path} {f : ApiFunction} {e : String}
      (hf : (path, f) ∈ Record.placed w.api) (he : f.errorHandler? = some e)
      (h : IsBoundAtError f e) : Captures o w handlers ⟨e, errorBinders f⟩
  | globalHandler {g : GlobalHandler} (hw : Record.placed w.api ≠ [])
      (hg : o.globalHandler? = some g) (h : g.name = "error" ∨ g.name = "handler") :
      Captures o w handlers ⟨g.name, ["error", "handler"]⟩
  /-- A field of a request has the name of what sends it. -/
  | send {path : Path} {f : ApiFunction} (hf : (path, f) ∈ Record.placed w.api)
      (h : ∃ field ∈ f.request, field.name = "ipcRenderer")
      (hall : ∀ field ∈ f.request, isBindingName field.name = true) :
      Captures o w bridge ⟨"ipcRenderer", bridgeBinders f⟩

variable {u : OuterUse}

/-- Uses are captured just in these cases. -/
theorem uses_and_isCaptured_iff : a.Uses o w u ∧ u.IsCaptured ↔ a.Captures o w u := by
  constructor
  · rintro ⟨hu, hcaptured⟩
    cases hu with
    | function hf => exact .function hf (mem_callBinders_iff.1 hcaptured)
    | validator hf hv => exact .validator hf hv (mem_callBinders_iff.1 hcaptured)
    | errorHandler hf he => exact .errorHandler hf he (mem_errorBinders_iff.1 hcaptured)
    | globalHandler hw hg =>
      exact .globalHandler hw hg (by simpa [OuterUse.IsCaptured] using hcaptured)
    | send hf =>
      obtain ⟨h, hall⟩ := ipcRenderer_mem_bridgeBinders_iff.1 hcaptured
      exact .send hf h hall
    | success hf =>
      have := mem_callBinders_iff.1 hcaptured
      simp [IsBoundAtCall] at this
    | toFailure hf =>
      have := mem_errorBinders_iff.1 hcaptured
      simp [IsBoundAtError] at this
    | failure hw hh => obtain rfl | rfl := hh <;> simp [OuterUse.IsCaptured] at hcaptured
    | handlersTable hf =>
      rw [OuterUse.IsCaptured, registrationBinders] at hcaptured
      split at hcaptured <;> simp at hcaptured
    | _ => simp [OuterUse.IsCaptured] at hcaptured
  · intro h
    cases h with
    | function hf h => exact ⟨.function hf, mem_callBinders_iff.2 h⟩
    | validator hf hv h => exact ⟨.validator hf hv, mem_callBinders_iff.2 h⟩
    | errorHandler hf he h => exact ⟨.errorHandler hf he, mem_errorBinders_iff.2 h⟩
    | globalHandler hw hg h => exact ⟨.globalHandler hw hg, by simpa [OuterUse.IsCaptured] using h⟩
    | send hf h hall => exact ⟨.send hf, ipcRenderer_mem_bridgeBinders_iff.2 ⟨h, hall⟩⟩

end Artifact

/-- A function without parameters behind the context. -/
def smallFunction (name : String) : ApiFunction := ⟨name, [], [], none, none⟩

/-- A function with the name of a declaration, and one with the name of a parameter. -/
def smallClashes : WorkingSet where
  api := [⟨⟨"/src/api/clashes.ts"⟩, [smallFunction "success", smallFunction "ctx"]⟩]
  events? := none

end IpcWiring.Emit
