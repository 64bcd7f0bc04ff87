import IpcWiring.Proofs.Emit.ImportBlock
import IpcWiring.Proofs.Emit.Templates

/-!
# What the imports of generated modules stand for

`Artifact.Names` tells what each artifact names, and by which import. These are all the imports that
it asks for (`Artifact.mem_requests_iff`). Two of them can have the same local name, as when the
requests of two functions have types of one name from different modules; then the first one is
granted, and the name stands for what that one asks for (`Artifact.originOf?_imports`).
-/

namespace IpcWiring.Emit

variable {o : Options} {w : WorkingSet} {dir : Path} {a : Artifact} {r : ImportRequest}

namespace Artifact

/-- What an artifact in a directory names, with the import that is meant. -/
inductive Names (o : Options) (w : WorkingSet) (dir : Path) : Artifact → ImportRequest → Prop
  /-- The types in the request of a function. -/
  | requestType {a : Artifact} {path : Path} {f : ApiFunction} {i : TypeImport}
      (ha : a = bridge ∨ a = handlers ∨ a = service) (hf : (path, f) ∈ Record.placed w.api)
      (hi : i ∈ f.typeImports) : Names o w dir a (.ofType dir i)
  /-- The function that a handler calls. -/
  | function {path : Path} {f : ApiFunction} (hf : (path, f) ∈ Record.placed w.api) :
      Names o w dir handlers (.fileValue dir path f.name)
  /-- The function that a method of the service has its data type from. -/
  | functionType {path : Path} {f : ApiFunction} (hf : (path, f) ∈ Record.placed w.api) :
      Names o w dir service (.fileType dir path f.name)
  | validator {path : Path} {f : ApiFunction} {v : String} (hf : (path, f) ∈ Record.placed w.api)
      (hv : f.validator? = some v) : Names o w dir handlers (.fileValue dir path v)
  | errorHandler {path : Path} {f : ApiFunction} {e : String}
      (hf : (path, f) ∈ Record.placed w.api) (he : f.errorHandler? = some e) :
      Names o w dir handlers (.fileValue dir path e)
  | errorHandlerType {path : Path} {f : ApiFunction} {e : String}
      (hf : (path, f) ∈ Record.placed w.api) (he : f.errorHandler? = some e) :
      Names o w dir service (.fileType dir path e)
  | globalHandler {g : GlobalHandler} (hw : Record.placed w.api ≠ [])
      (hg : o.globalHandler? = some g) : Names o w dir handlers (.fileValue dir g.path g.name)
  | globalHandlerType {g : GlobalHandler} (hw : Record.placed w.api ≠ [])
      (hg : o.globalHandler? = some g) : Names o w dir service (.fileType dir g.path g.name)
  /-- The type of the context; without functions there is no handler that has one. -/
  | context {a : Artifact} (ha : a = registration ∨ a = handlers ∧ Record.placed w.api ≠ []) :
      Names o w dir a (.fileType dir o.context.path o.context.name)
  /-- The type of an event's payload. -/
  | payload {a : Artifact} {path : Path} {e : ApiEvent} {i : TypeImport} (ha : a ∈ ofEvents)
      (he : (path, e) ∈ Record.placed w.events) (hi : e.payloadImport? = some i) :
      Names o w dir a (.ofType dir i)
  /-- The event that a payload without a type of its own is read off. -/
  | event {a : Artifact} {path : Path} {e : ApiEvent} (ha : a ∈ ofEvents)
      (he : (path, e) ∈ Record.placed w.events) (hi : e.payloadImport? = none) :
      Names o w dir a (.fileType dir path e.name)
  /-- What exposes a table of the bridge. -/
  | contextBridge {a : Artifact} (ha : a = bridge ∨ a = preloadEvents) :
      Names o w dir a (.moduleValue electron "contextBridge")
  /-- What a table of the bridge sends and listens with. -/
  | ipcRenderer {a : Artifact} (ha : a = bridge ∧ Record.placed w.api ≠ [] ∨
      a = preloadEvents ∧ Record.placed w.events ≠ []) :
      Names o w dir a (.moduleValue electron "ipcRenderer")
  | ipcRendererEvent (hw : Record.placed w.events ≠ []) :
      Names o w dir preloadEvents (.moduleType electron "IpcRendererEvent")
  | ipcMain (hw : Record.placed w.api ≠ []) :
      Names o w dir registration (.moduleValue electron "ipcMain")
  | ipcMainInvokeEvent : Names o w dir registration (.moduleType electron "IpcMainInvokeEvent")
  | handlersTable (hw : Record.placed w.api ≠ []) :
      Names o w dir registration (.fileValue dir (handlers.fileIn dir) "handlers")
  | webContents : Names o w dir eventSender (.moduleType electron "WebContents")

/-- The import that a payload asks for is what the artifacts of events name. -/
theorem names_payloadRequest {e : Path × ApiEvent} (ha : a ∈ ofEvents)
    (he : e ∈ Record.placed w.events) : Names o w dir a (payloadRequest dir e) := by
  obtain ⟨path, e⟩ := e
  rw [payloadRequest]
  cases hi : e.payloadImport? with
  | some i => exact .payload ha he hi
  | none => exact .event ha he hi

/-- An artifact names something by every import that it asks for. -/
theorem names_of_mem_requests (h : r ∈ a.requests o w dir) : a.Names o w dir r := by
  cases a with
  | bridge =>
    obtain rfl | ⟨⟨path, f⟩, hf, hr⟩ := by
      simpa only [requests, BridgeModule.requests, List.mem_cons, List.mem_flatMap] using h
    · exact .contextBridge (.inl rfl)
    · obtain rfl | ⟨i, hi, rfl⟩ := by simpa only [List.mem_cons, List.mem_map] using hr
      · exact .ipcRenderer (.inl ⟨rfl, List.ne_nil_of_mem hf⟩)
      · exact .requestType (.inl rfl) hf hi
  | handlers =>
    rw [requests, HandlersModule.requests] at h
    split at h
    · cases h
    next hw =>
    rw [List.isEmpty_iff] at hw
    obtain rfl | ⟨g, hg, rfl⟩ | ⟨⟨path, f⟩, hf, hr⟩ := by
      simpa only [List.cons_append, List.mem_cons, List.mem_append, List.mem_map,
        List.mem_flatMap, Option.mem_toList] using h
    · exact .context (.inr ⟨rfl, hw⟩)
    · exact .globalHandler hw hg
    · obtain ⟨i, hi, rfl⟩ | rfl | ⟨n, hn | hn, rfl⟩ := by
        simpa only [HandlersModule.requestsOf, List.mem_append, List.mem_cons, List.mem_map,
          Option.mem_toList] using hr
      · exact .requestType (.inr (.inl rfl)) hf hi
      · exact .function hf
      · exact .validator hf hn
      · exact .errorHandler hf hn
  | registration =>
    rw [requests, RegistrationModule.requests] at h
    split at h
    · obtain rfl | rfl := by simpa using h
      · exact .ipcMainInvokeEvent
      · exact .context (.inl rfl)
    next hw =>
    rw [List.isEmpty_iff] at hw
    obtain rfl | rfl | rfl | rfl := by simpa using h
    · exact .ipcMain hw
    · exact .ipcMainInvokeEvent
    · exact .context (.inl rfl)
    · exact .handlersTable hw
  | service =>
    rw [requests, ServiceModule.requests] at h
    split at h
    · cases h
    next hw =>
    rw [List.isEmpty_iff] at hw
    obtain ⟨g, hg, rfl⟩ | ⟨⟨path, f⟩, hf, hr⟩ := by
      simpa only [List.mem_append, List.mem_map, List.mem_flatMap, Option.mem_toList] using h
    · exact .globalHandlerType hw hg
    · obtain rfl | ⟨n, hn, rfl⟩ | ⟨i, hi, rfl⟩ := by
        simpa only [ServiceModule.requestsOf, List.cons_append, List.mem_append, List.mem_cons,
          List.mem_map, Option.mem_toList] using hr
      · exact .functionType hf
      · exact .errorHandlerType hf hn
      · exact .requestType (.inr (.inr rfl)) hf hi
  | eventSender =>
    obtain rfl | ⟨e, he, rfl⟩ := by simpa only [requests, List.mem_cons, List.mem_map] using h
    · exact .webContents
    · exact names_payloadRequest (by decide) he
  | preloadEvents =>
    obtain rfl | ⟨e, he, hr⟩ := by
      simpa only [requests, SubscriptionsModule.requests, List.mem_cons, List.mem_flatMap] using h
    · exact .contextBridge (.inr rfl)
    · have hw := List.ne_nil_of_mem he
      obtain rfl | rfl | rfl := by simpa using hr
      · exact .ipcRenderer (.inr ⟨rfl, hw⟩)
      · exact .ipcRendererEvent hw
      · exact names_payloadRequest (by decide) he
  | rendererEvents =>
    obtain ⟨e, he, rfl⟩ := List.mem_map.1 h
    exact names_payloadRequest (by decide) he

section
variable {path : Path} {f : ApiFunction} {e : Path × ApiEvent}

/-- The handlers ask for what the handler of each function asks for. -/
theorem mem_requests_handlers (hf : (path, f) ∈ Record.placed w.api)
    (hr : r ∈ HandlersModule.requestsOf dir (path, f)) : r ∈ handlers.requests o w dir := by
  rw [requests, HandlersModule.requests,
    if_neg (mt List.isEmpty_iff.1 (List.ne_nil_of_mem hf))]
  exact List.mem_append_right _ (List.mem_flatMap.2 ⟨_, hf, hr⟩)

/-- The service asks for what the method of each function asks for. -/
theorem mem_requests_service (hf : (path, f) ∈ Record.placed w.api)
    (hr : r ∈ ServiceModule.requestsOf dir (path, f)) : r ∈ service.requests o w dir := by
  rw [requests, ServiceModule.requests,
    if_neg (mt List.isEmpty_iff.1 (List.ne_nil_of_mem hf))]
  exact List.mem_append_right _ (List.mem_flatMap.2 ⟨_, hf, hr⟩)

/-- The artifacts of events ask for the payload type of each event. -/
theorem mem_requests_payload (ha : a ∈ ofEvents) (he : e ∈ Record.placed w.events) :
    payloadRequest dir e ∈ a.requests o w dir := by
  obtain rfl | rfl | rfl := by simpa [ofEvents] using ha
  · exact List.mem_cons_of_mem _ (List.mem_map_of_mem he)
  · exact List.mem_cons_of_mem _ (List.mem_flatMap.2 ⟨e, he, by simp⟩)
  · exact List.mem_map_of_mem he

end

/-- An artifact asks for every import by which it names something. -/
theorem mem_requests_of_names (h : a.Names o w dir r) : r ∈ a.requests o w dir := by
  cases h with
  | requestType ha hf hi =>
    obtain rfl | rfl | rfl := ha
    · exact List.mem_cons_of_mem _
        (List.mem_flatMap.2 ⟨_, hf, List.mem_cons_of_mem _ (List.mem_map_of_mem hi)⟩)
    · exact mem_requests_handlers hf (List.mem_append_left _ (List.mem_map_of_mem hi))
    · exact mem_requests_service hf (List.mem_append_right _ (List.mem_map_of_mem hi))
  | function hf =>
    exact mem_requests_handlers hf (List.mem_append_right _ List.mem_cons_self)
  | functionType hf => exact mem_requests_service hf List.mem_cons_self
  | validator hf hv =>
    exact mem_requests_handlers hf (by simp [HandlersModule.requestsOf, hv])
  | errorHandler hf he =>
    exact mem_requests_handlers hf (by simp [HandlersModule.requestsOf, he])
  | errorHandlerType hf he =>
    exact mem_requests_service hf (by simp [ServiceModule.requestsOf, he])
  | globalHandler hw hg => simp [requests, HandlersModule.requests, hw, hg]
  | globalHandlerType hw hg => simp [requests, ServiceModule.requests, hw, hg]
  | context ha =>
    obtain rfl | ⟨rfl, hw⟩ := ha
    · by_cases hw : Record.placed w.api = [] <;>
        simp [requests, RegistrationModule.requests, hw]
    · simp [requests, HandlersModule.requests, hw]
  | payload ha he hi | event ha he hi =>
    have h : payloadRequest dir _ ∈ a.requests o w dir := mem_requests_payload ha he
    rwa [payloadRequest, hi] at h
  | contextBridge ha => obtain rfl | rfl := ha <;> exact List.mem_cons_self
  | ipcRenderer ha =>
    obtain ⟨rfl, hw⟩ | ⟨rfl, hw⟩ := ha
    · obtain ⟨f, hf⟩ := List.exists_mem_of_ne_nil _ hw
      exact List.mem_cons_of_mem _ (List.mem_flatMap.2 ⟨f, hf, List.mem_cons_self⟩)
    · obtain ⟨e, he⟩ := List.exists_mem_of_ne_nil _ hw
      exact List.mem_cons_of_mem _ (List.mem_flatMap.2 ⟨e, he, List.mem_cons_self⟩)
  | ipcRendererEvent hw =>
    obtain ⟨e, he⟩ := List.exists_mem_of_ne_nil _ hw
    exact List.mem_cons_of_mem _ (List.mem_flatMap.2 ⟨e, he, by simp⟩)
  | ipcMain hw | handlersTable hw => simp [requests, RegistrationModule.requests, hw]
  | ipcMainInvokeEvent =>
    by_cases hw : Record.placed w.api = [] <;> simp [requests, RegistrationModule.requests, hw]
  | webContents => exact List.mem_cons_self

/-- The imports that an artifact asks for are those by which it names something. -/
theorem mem_requests_iff : r ∈ a.requests o w dir ↔ a.Names o w dir r :=
  ⟨names_of_mem_requests, mem_requests_of_names⟩

/-- What is named as a value is an export of a module, and not the whole of it. -/
theorem Names.isSome_imported? (h : a.Names o w dir r) (hvalue : r.isValue = true) :
    r.imported?.isSome := by
  cases h with
  | requestType | payload => cases hvalue
  | _ => rfl

/-! ## What comes first -/

/-- The first import that an artifact asks for under a local name. -/
def firstNamed? (o : Options) (w : WorkingSet) (dir : Path) (a : Artifact) (x : String) :
    Option ImportRequest :=
  (a.requests o w dir).find? (·.localName = x)

/-- A local name stands for what the first import under that name asks for. -/
theorem originOf?_imports (x : String) : (a.imports o w dir).originOf? x =
    (a.firstNamed? o w dir x).map ImportRequest.origin :=
  ImportBlock.originOf?_ofRequests

/-- The first import under a local name is one by which the artifact names something. -/
theorem names_of_firstNamed? {x : String} (h : a.firstNamed? o w dir x = some r) :
    a.Names o w dir r ∧ r.localName = x :=
  ⟨names_of_mem_requests (List.mem_of_find?_eq_some h), by simpa using List.find?_some h⟩

/-- If the artifact names something by an import, some import is the first under its local name. -/
theorem exists_firstNamed? (h : a.Names o w dir r) :
    ∃ first, a.firstNamed? o w dir r.localName = some first :=
  Option.isSome_iff_exists.1
    (List.find?_isSome.2 ⟨r, mem_requests_of_names h, by simp⟩)

/-- The local names of the imports are those of what the artifact names. -/
theorem mem_localNames_imports {x : String} :
    x ∈ (a.imports o w dir).localNames ↔ ∃ r, a.Names o w dir r ∧ r.localName = x := by
  simp only [imports, ImportBlock.mem_localNames_ofRequests, mem_requests_iff]

/-- **First come, first served.** The import block of a generated file binds every local name once,
and binds that of everything the artifact names: to what is meant if the first import under that
name means the same, and else to what that one means. What is meant as a value is bound as one. -/
theorem binds_first_named {file : GeneratedFile} (hfile : file ∈ generate o w) :
    ∃ dir, file.artifact.dir? o = some dir ∧
      file.text = fileText (file.artifact.imports o w dir)
        (Code.linesOf (file.artifact.code o w dir)) ∧
      (file.artifact.imports o w dir).localNames.Nodup ∧
      ∀ r, file.artifact.Names o w dir r →
        ∃ first, file.artifact.firstNamed? o w dir r.localName = some first ∧
          file.artifact.Names o w dir first ∧
          (file.artifact.imports o w dir).originOf? r.localName = some first.origin ∧
          ((file.artifact.imports o w dir).originOf? r.localName = some r.origin ↔
            first.origin = r.origin) ∧
          (first.origin = r.origin → r.isValue = true →
            (file.artifact.imports o w dir).bindsValue r.localName = true) := by
  obtain ⟨a, -, dir, hdir, rfl⟩ := mem_generate_iff.1 hfile
  refine ⟨dir, hdir, rfl, ImportBlock.nodup_localNames, fun r hr => ?_⟩
  obtain ⟨first, hfirst⟩ := exists_firstNamed? hr
  have horigin : (a.imports o w dir).originOf? r.localName = some first.origin := by
    rw [originOf?_imports, hfirst, Option.map_some]
  refine ⟨first, hfirst, (names_of_firstNamed? hfirst).1, horigin, by simp [horigin], ?_⟩
  intro hsame hvalue
  obtain ⟨imported, himported⟩ := Option.isSome_iff_exists.1 (hr.isSome_imported? hvalue)
  exact ImportBlock.bindsValue_ofRequests (mem_requests_of_names hr) hvalue himported
    (horigin.trans (congrArg some hsame))

end Artifact

/-! ## Two types of one name -/

/-- Options without a handler for all errors. -/
def smallOptions : Options where
  dirs := ⟨⟨"/out/preload"⟩, ⟨"/out/main"⟩, ⟨"/out/renderer"⟩⟩
  eventDirs? := none
  context := ⟨⟨"/src/context.ts"⟩, "Context"⟩
  globalHandler? := none
  unwraps := false

/-- A function of a user; the type of users is from a module. -/
def smallUserFunction (name module : String) : ApiFunction where
  name
  request := [⟨"user", "User", false, [.named "User" (.module module)]⟩]
  bindings := [.field "user"]
  validator? := none
  errorHandler? := none

/-- Two functions of users; their types of users are from different modules. -/
def smallUsers : WorkingSet where
  api := [⟨⟨"/src/api/users.ts"⟩,
    [smallUserFunction "ban" "@app/admin", smallUserFunction "invite" "@app/guest"]⟩]
  events? := none

/-- The import of the type of users from a module. -/
def smallUserImport (module : String) : ImportRequest := ⟨module, some "User", "User", false⟩

/-- The bridge names the type of users of each function. -/
theorem names_smallUserImport {module : String} (h : module = "@app/admin" ∨ module = "@app/guest")
    (dir : Path) :
    Artifact.bridge.Names smallOptions smallUsers dir (smallUserImport module) := by
  obtain ⟨name, hf⟩ : ∃ name, (⟨"/src/api/users.ts"⟩, smallUserFunction name module) ∈
      Record.placed smallUsers.api := by
    obtain rfl | rfl := h
    · exact ⟨"ban", List.mem_cons_self⟩
    · exact ⟨"invite", List.mem_cons_of_mem _ List.mem_cons_self⟩
  exact .requestType (.inl rfl) hf (i := .named "User" (.module module)) List.mem_cons_self

/-- Both functions want their type of users; the name is bound to one of them. -/
theorem Artifact.binds_first_named_small :
    ∃ file ∈ generate smallOptions smallUsers, ∃ dir, file.artifact.dir? smallOptions = some dir ∧
      file.artifact.Names smallOptions smallUsers dir (smallUserImport "@app/admin") ∧
      file.artifact.Names smallOptions smallUsers dir (smallUserImport "@app/guest") ∧
      ∃ first, file.artifact.Names smallOptions smallUsers dir first ∧
        (file.artifact.imports smallOptions smallUsers dir).originOf? "User" =
          some first.origin := by
  have hfile := mem_generate_iff.2 ⟨.bridge, (by decide : _ ∈ artifactsOf smallUsers),
    smallOptions.dirs.preload, rfl, rfl⟩
  obtain ⟨dir, hdir, -, -, hbinds⟩ := Artifact.binds_first_named hfile
  have hguest := names_smallUserImport (.inr rfl) dir
  obtain ⟨first, -, hfirst, horigin, -⟩ := hbinds _ hguest
  exact ⟨_, hfile, dir, hdir, names_smallUserImport (.inl rfl) dir, hguest, first, hfirst, horigin⟩

/-- The name of a type can stand for the type of that name from another module, also where all
channels are distinct: here the second function is given the first one's users. -/
theorem Artifact.second_type_dropped_small :
    (Record.names smallUsers.api).Nodup ∧ (Record.names smallUsers.events).Nodup ∧
    ∃ file ∈ generate smallOptions smallUsers, ∃ dir, file.artifact.dir? smallOptions = some dir ∧
      file.artifact.Names smallOptions smallUsers dir (smallUserImport "@app/guest") ∧
      (file.artifact.imports smallOptions smallUsers dir).originOf? "User" =
        some (smallUserImport "@app/admin").origin ∧
      (smallUserImport "@app/admin").origin ≠ (smallUserImport "@app/guest").origin :=
  ⟨by decide, by decide, _, mem_generate_iff.2 ⟨.bridge, by decide, _, rfl, rfl⟩, _, rfl,
    names_smallUserImport (.inr rfl) _, by decide +kernel, by decide⟩

end IpcWiring.Emit
