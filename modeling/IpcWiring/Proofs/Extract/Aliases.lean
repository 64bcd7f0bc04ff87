import IpcWiring.Proofs.Extract.Flattening
import IpcWiring.Proofs.Program.RenamedMembers
import IpcWiring.Proofs.Program.Respelling

/-!
# Local names of imports

Whatever local names the imports of a program have, the same functions are extracted, with the same
requests but for the texts and imports of their types, and the others are skipped for the same
reasons (`apiFunctions_renamed`). The exception is a function whose first parameter has a type that
leads nowhere by an import with another local name. The declared name of such a type is that local
name (`Program.Renamed.declaredName_eq_iff`), although the import was found: its module has no such
export (`Program.Renamed.exists_import_of_endsRespelled`).
-/

namespace IpcWiring

open Script

variable {R : Path → Renaming} {p p' : Program} {file : Path}

/-! ## Two versions of what is extracted -/

/-- Two versions of a request field, which differ in the text and the imports of its type. -/
structure RequestField.Renamed (f f' : RequestField) : Prop where
  name : f.name = f'.name
  optional : f.optional = f'.optional

/-- Two versions of what a parameter gives. -/
structure ParamPart.Renamed (x x' : ParamPart) : Prop where
  binding : x.binding = x'.binding
  fields : List.Forall₂ RequestField.Renamed x.fields x'.fields
  unexported : x.unexported = x'.unexported

/-- Two versions of an extracted function. -/
structure ApiFunction.Renamed (a a' : ApiFunction) : Prop where
  name : a.name = a'.name
  request : List.Forall₂ RequestField.Renamed a.request a'.request
  bindings : a.bindings = a'.bindings
  validator? : a.validator? = a'.validator?
  errorHandler? : a.errorHandler? = a'.errorHandler?

/-- Two versions of the reason to skip a function of a file. They are the same, but a type that is
not the context is told by its text if it has no declared name. -/
inductive SkipReason.Renamed (R : Path → Renaming) (p p' : Program) (file : Path) :
    SkipReason → SkipReason → Prop
  | same (reason : SkipReason) : Renamed R p p' file reason reason
  | undeclared {t t' : TypeExpr} (type : (R file).Expr t t')
    (undeclared : p.declaredName file t = none) (undeclared' : p'.declaredName file t' = none) :
    Renamed R p p' file (.contextMismatch t.text) (.contextMismatch t'.text)

/-- Two versions of a skipped function of a file. -/
structure Skipped.Renamed (R : Path → Renaming) (p p' : Program) (file : Path) (s s' : Skipped) :
    Prop where
  path : s.path = s'.path
  name? : s.name? = s'.name?
  reason : SkipReason.Renamed R p p' file s.reason s'.reason

/-- Two versions of an outcome for a function of a file. -/
inductive OutcomeRenamed (R : Path → Renaming) (p p' : Program) (file : Path) {α : Type}
    (V : α → α → Prop) : Except SkipReason α → Except SkipReason α → Prop
  | skipped {e e' : SkipReason} (reason : SkipReason.Renamed R p p' file e e') :
    OutcomeRenamed R p p' file V (.error e) (.error e')
  | accepted {a a' : α} (result : V a a') : OutcomeRenamed R p p' file V (.ok a) (.ok a')

/-! ## Requests -/

/-- Two versions of a field are added to two versions of a request alike. -/
theorem addField_renamed : Relator.LiftFun (List.Forall₂ RequestField.Renamed)
    (Relator.LiftFun RequestField.Renamed (List.Forall₂ RequestField.Renamed))
    Flattened.addField Flattened.addField := by
  intro request request' hrequest f f' hf
  rw [Flattened.addField, Flattened.addField,
    any_eq_of_forall₂ hrequest fun g g' hg => by rw [hg.name, hf.name]]
  split
  · exact hrequest
  · exact List.rel_append hrequest (.cons hf .nil)

section

variable (h : p.Renamed R p')

include h

/-- Two versions of a parameter are rendered with the same unexported names. -/
theorem renderParam_renamed {param param' : Param} (hparam : (R file).Param param param')
    (fallback : String) :
    (renderParam p file param fallback).unexported =
      (renderParam p' file param' fallback).unexported := by
  cases hparam with
  | of htype => cases htype with
    | none => rfl
    | some ht => exact h.renderIn_unexported Scope.renamed_empty ht

/-- Two versions of a parameter give two versions of the same fields. -/
theorem paramPart_renamed {param param' : Param} (hparam : (R file).Param param param')
    (index : Nat) : (paramPart p file param index).Renamed (paramPart p' file param' index) := by
  have hrender := renderParam_renamed h hparam
  have hrest : Grammar.isRest param = Grammar.isRest param' := by cases hparam; rfl
  have hname : param.name? = param'.name? := by cases hparam; rfl
  have hoptional : param.optional = param'.optional := by cases hparam; rfl
  have htype : Option.Rel (R file).Expr param.type? param'.type? := by
    cases hparam with
    | of htype => exact htype
  have hof : ∀ (optional : Bool) {name text text' : String} {is is' : List TypeImport},
      (RequestField.of optional name text is).Renamed (.of optional name text' is') :=
    fun optional => by cases optional <;> exact ⟨rfl, rfl⟩
  unfold paramPart
  rw [hrest, hname, hoptional]
  dsimp only
  split
  · exact ⟨rfl, .cons ⟨rfl, rfl⟩ .nil, hrender "any[]"⟩
  · have hmembers : Option.Rel (MembersRenamed R) (param.type?.bind (p.members? file))
        (param'.type?.bind (p'.members? file)) := rel_bind htype fun _ _ ht => h.members? ht
    generalize param.type?.bind (p.members? file) = ms?,
      param'.type?.bind (p'.members? file) = ms'? at hmembers
    cases hmembers with
    | none => exact ⟨rfl, .cons (hof _) .nil, hrender "any"⟩
    | @some ms ms' hms =>
      refine ⟨rfl, ?_, ?_⟩
      · refine List.rel_map (fun m m' hm => ?_) hms
        rw [memberField, memberField, hm.name, hm.optional]
        exact hof _
      · dsimp only
        rw [List.flatMap, List.flatMap, map_eq_of_forall₂ hms fun _ _ hm => hm.unexported]

/-- Two versions of the parameters of a function flatten to two versions of one request. -/
theorem flatten_renamed {params params' : List Param}
    (hparams : List.Forall₂ (R file).Param params params') :
    List.Forall₂ RequestField.Renamed (flatten p file params).request
        (flatten p' file params').request ∧
      (flatten p file params).bindings = (flatten p' file params').bindings ∧
      (flatten p file params).unexported = (flatten p' file params').unexported := by
  have hindexed : ∀ {ps ps' : List Param} (n : Nat), List.Forall₂ (R file).Param ps ps' →
      List.Forall₂ (fun e e' => (R file).Param e.1 e'.1 ∧ e.2 = e'.2) (ps.zipIdx n)
        (ps'.zipIdx n) := fun n hps => by
    induction hps generalizing n with
    | nil => exact .nil
    | cons hparam _ ih => exact .cons ⟨hparam, rfl⟩ (ih (n + 1))
  have hparts : List.Forall₂ ParamPart.Renamed (paramParts p file params)
      (paramParts p' file params') := by
    refine List.rel_map ?_ (List.forall₂_drop 1 (hindexed 0 hparams))
    rintro ⟨param, index⟩ ⟨param', _⟩ ⟨hparam, rfl⟩
    exact paramPart_renamed h hparam index
  rw [flatten_eq, flatten_eq]
  have hfields : List.Forall₂ RequestField.Renamed ((paramParts p file params).flatMap (·.fields))
      ((paramParts p' file params').flatMap (·.fields)) :=
    List.rel_flatMap hparts fun _ _ hx => hx.fields
  refine ⟨List.rel_foldl addField_renamed .nil hfields,
    map_eq_of_forall₂ hparts fun _ _ hx => hx.binding, ?_⟩
  dsimp only
  rw [List.flatMap, List.flatMap, map_eq_of_forall₂ hparts fun _ _ hx => hx.unexported]

end

/-! ## Functions -/

/-- A function that is kept is exported in both versions, or not for the same reason. -/
theorem checkExport_eq {ρ : Renaming} {m m' : SourceModule} (hm : ρ.Module m m') {name : String}
    (hname : ρ.name name name) : checkExport m name = checkExport m' name := by
  rw [checkExport, checkExport, SourceModule.exportsAsItself, SourceModule.exportsAsItself,
    hm.exports_beq_eq hname name, hm.exports_beq_eq hname "default"]

/-- Functions of the same names are marked alike. -/
theorem markRepeated_rel {V : FunctionDecl → FunctionDecl → Prop}
    (hname : ∀ {f f'}, V f f' → f.name = f'.name) {fs fs' : List FunctionDecl}
    (hfs : List.Forall₂ V fs fs') (seen : List String) :
    List.Forall₂ (fun e e' => e.1 = e'.1 ∧ V e.2 e'.2) (markRepeated seen fs)
      (markRepeated seen fs') := by
  induction hfs generalizing seen with
  | nil => exact .nil
  | cons hf _ ih =>
    rw [markRepeated, markRepeated, hname hf]
    exact .cons ⟨rfl, hf⟩ (ih _)

/-- Two versions of outcomes are split alike. -/
theorem partitionOutcomes_renamed {α : Type} {V : α → α → Prop}
    {outcomes outcomes' : List (String × Except SkipReason α)}
    (houtcomes : List.Forall₂ (fun o o' => o.1 = o'.1 ∧ OutcomeRenamed R p p' file V o.2 o'.2)
      outcomes outcomes') :
    List.Forall₂ V (partitionOutcomes file outcomes).1 (partitionOutcomes file outcomes').1 ∧
      List.Forall₂ (Skipped.Renamed R p p' file) (partitionOutcomes file outcomes).2
        (partitionOutcomes file outcomes').2 := by
  induction houtcomes with
  | nil => exact ⟨.nil, .nil⟩
  | @cons o o' _ _ ho _ ih =>
    obtain ⟨name, outcome⟩ := o
    obtain ⟨name', outcome'⟩ := o'
    obtain ⟨hname, houtcome⟩ := ho
    rw [partitionOutcomes, partitionOutcomes]
    cases houtcome with
    | skipped hreason => exact ⟨ih.1, .cons ⟨rfl, congrArg some hname, hreason⟩ ih.2⟩
    | accepted hresult => exact ⟨.cons hresult ih.1, ih.2⟩

/-- The type of a first parameter that has a plain name. -/
def contextType? : List Param → Option TypeExpr
  | ⟨.name _, type?, _⟩ :: _ => type?
  | _ => none

section

variable (h : p.Renamed R p')

include h

/-- Two versions of the first parameter are compared with the context alike, unless its type leads
nowhere by a name that is spelled differently. -/
theorem checkContext_renamed (rules : ApiRules) {params params' : List Param}
    (hparams : List.Forall₂ (R file).Param params params')
    (hends : ∀ t, contextType? params = some t → ¬ p.EndsRespelled R file t) :
    OutcomeRenamed R p p' file Eq (checkContext rules p file params)
      (checkContext rules p' file params') := by
  unfold checkContext
  cases hparams with
  | nil => exact .skipped (.same _)
  | cons hparam _ => cases hparam with
    | @of pattern _ _ _ htype =>
      cases htype with
      | none => cases pattern <;> exact .skipped (.same _)
      | @some t t' ht =>
        cases pattern with
        | name binder =>
          have hsame := (h.declaredName_eq_iff ht).2 (hends t rfl)
          dsimp only
          rw [← hsame]
          split
          · exact .accepted rfl
          · cases hfound : p.declaredName file t with
            | some found => exact .skipped (.same _)
            | none => exact .skipped (.undeclared ht hfound (hsame ▸ hfound))
        | object | array | rest => exact .skipped (.same _)

/-- Two versions of a function have two versions of the same outcome, unless the type of the first
parameter leads nowhere by a name that is spelled differently. -/
theorem apiFunction_renamed (rules : ApiRules) {m m' : SourceModule} (hm : (R file).Module m m')
    (repeated : Bool) {f f' : FunctionDecl} (hf : (R file).Function f f')
    (hends : ∀ t, contextType? f.params = some t → ¬ p.EndsRespelled R file t) :
    OutcomeRenamed R p p' file ApiFunction.Renamed (apiFunction rules p m file repeated f)
      (apiFunction rules p' m' file repeated f') := by
  obtain ⟨hname, hkept⟩ := hf.name
  have hexported : m.exportedNames = m'.exportedNames := by
    rw [SourceModule.exportedNames, SourceModule.exportedNames, NameMap.keys, NameMap.keys,
      map_eq_of_forall₂ hm.exports fun _ _ he => he.1, hm.reexports]
  have hcontext := checkContext_renamed h rules hf.params hends
  obtain ⟨hrequest, hbindings, hunexported⟩ := flatten_renamed h hf.params
  unfold apiFunction
  rw [← hname, ← checkExport_eq hm hkept, ← hexported]
  cases repeated with
  | true => exact .skipped (.same _)
  | false =>
    simp only [Bool.false_eq_true, if_false, bind, Except.bind]
    cases checkExport m f.name with
    | error reason => exact .skipped (.same _)
    | ok _ =>
      dsimp only
      split
      · exact .skipped (.same _)
      · generalize checkContext rules p file f.params = a, checkContext rules p' file f'.params = a'
          at hcontext
        cases hcontext with
        | skipped hreason => exact .skipped hreason
        | accepted _ =>
          dsimp only
          rw [← hunexported, ← hbindings]
          split
          · exact .skipped (.same _)
          · exact .accepted ⟨rfl, hrequest, rfl, rfl, rfl⟩

/-- Two versions of a file have two versions of the same functions extracted, and the others are
skipped for two versions of the same reason, unless the type of a first parameter leads nowhere by a
name that is spelled differently. -/
theorem apiFunctions_renamed (rules : ApiRules) {m m' : SourceModule} (hm : (R file).Module m m')
    (hends : ∀ f ∈ m.functions, ∀ t, contextType? f.params = some t →
      ¬ p.EndsRespelled R file t) :
    List.Forall₂ ApiFunction.Renamed (apiFunctions rules p file m).1
        (apiFunctions rules p' file m').1 ∧
      List.Forall₂ (Skipped.Renamed R p p' file) (apiFunctions rules p file m).2
        (apiFunctions rules p' file m').2 := by
  obtain ⟨hlength, hzip⟩ := List.forall₂_iff_zip.1 hm.functions
  have hfunctions : List.Forall₂ (fun f f' => (R file).Function f f' ∧ f ∈ m.functions)
      m.functions m'.functions :=
    List.forall₂_iff_zip.2 ⟨hlength, fun hin => ⟨hzip hin, (List.of_mem_zip hin).1⟩⟩
  have hmarked := markRepeated_rel (fun hf => hf.1.name.1) hfunctions []
  have houtcomes : List.Forall₂
      (fun o o' => o.1 = o'.1 ∧ OutcomeRenamed R p p' file ApiFunction.Renamed o.2 o'.2)
      ((markRepeated [] m.functions).map fun e =>
        (e.2.name, apiFunction rules p m file e.1 e.2))
      ((markRepeated [] m'.functions).map fun e =>
        (e.2.name, apiFunction rules p' m' file e.1 e.2)) := by
    refine List.rel_map ?_ hmarked
    rintro ⟨repeated, f⟩ ⟨_, f'⟩ ⟨rfl, hf, hin⟩
    exact ⟨hf.name.1, apiFunction_renamed h rules hm repeated hf (hends f hin)⟩
  obtain ⟨haccepted, hskipped⟩ := partitionOutcomes_renamed houtcomes
  refine ⟨haccepted, List.rel_append ?_ hskipped⟩
  rw [hm.defaultFunctions]
  exact List.forall₂_same.2 fun _ _ => ⟨rfl, rfl, .same _⟩

end

/-- **Local names of imports decide nothing unless a type leads nowhere by one.** A type has the
same declared name under other local names just if its chain of plain aliases does not end at one of
the names that changed without leading anywhere. Without such first parameters, two versions of a
file have two versions of the same functions extracted, and the others are skipped for two versions
of the same reason. A named or default import by which a type leads nowhere is that of a module that
was loaded and has no such export within the steps that were left. -/
theorem localNames_agree (h : p.Renamed R p') :
    (∀ g t t', (R g).Expr t t' →
      (p.declaredName g t = p'.declaredName g t' ↔ ¬ p.EndsRespelled R g t)) ∧
    (∀ rules g m m', p.module? g = some m → p'.module? g = some m' →
      (∀ f ∈ m.functions, ∀ t, contextType? f.params = some t → ¬ p.EndsRespelled R g t) →
        List.Forall₂ ApiFunction.Renamed (apiFunctions rules p g m).1
            (apiFunctions rules p' g m').1 ∧
          List.Forall₂ (Skipped.Renamed R p p' g) (apiFunctions rules p g m).2
            (apiFunctions rules p' g m').2) ∧
    ∀ g t, p.EndsRespelled R g t → ∃ f m x binding,
      p.dangling g t = some (f, .simple x) ∧ p.module? f = some m ∧
        m.imports.find? x = some binding ∧
          ∀ imported, Program.importedName? binding.kind = some imported →
            ∃ target, p.targetOf f binding.specifier = some target ∧
              ∃ n < maxSteps, p.resolveExport n target imported = none := by
  refine ⟨fun g t t' ht => h.declaredName_eq_iff ht, fun rules g m m' hm hm' hends => ?_,
    fun g t hends => h.exists_import_of_endsRespelled hends⟩
  have hmodule := h.module? g
  rw [hm, hm'] at hmodule
  cases hmodule with
  | some hmodule => exact apiFunctions_renamed h rules hmodule hends

/-! ## A default export that is not recorded -/

/-- A type that is a name. -/
def pingType (x : String) : TypeExpr := ⟨.reference (.simple x) [], x, 0, [.simple x]⟩

/-- A file whose only function takes what another file exports by default, under a local name. -/
def pingModule (x : String) : SourceModule :=
  { SourceModule.empty ⟨"/src/api.ts"⟩ with
    imports := ⟨[(x, ⟨"./context", .default⟩)]⟩
    exports := ⟨[("ping", "ping")]⟩
    functions := [⟨"ping", 0, [⟨.name "ctx", some (pingType x), false⟩]⟩]
    values := ["ping"] }

/-- The two files. -/
def pingProgram (context : SourceModule) (x : String) : Program := ⟨[context, pingModule x], []⟩

/-- The other file where it declares an interface and exports it by default. -/
def defaultContext : SourceModule :=
  { SourceModule.empty ⟨"/src/context.ts"⟩ with
    exports := ⟨[("default", "Context")]⟩
    interfaces := ⟨[("Context", ⟨"Context", [], [], [], false⟩)]⟩ }

/-- The two names stand for each other. -/
theorem expr_pingType :
    (Renaming.same.respell "Ctx" "Context").Expr (pingType "Ctx") (pingType "Context") :=
  .of (.reference ⟨.inl ⟨rfl, rfl⟩, rfl⟩ .nil) rfl (.cons ⟨.inl ⟨rfl, rfl⟩, rfl⟩ .nil)

/-- Another local name for the import makes two versions of the program. -/
theorem respelled_ping (context : SourceModule)
    (hcontext : (context.path == (⟨"/src/api.ts"⟩ : Path)) = false) :
    (pingProgram context "Ctx").Respelled .same ⟨"/src/api.ts"⟩ "Ctx" "Context"
      (pingProgram context "Context") := by
  have hping : (Renaming.same.respell "Ctx" "Context").Keeps "ping" "ping" :=
    ⟨rfl, .inr ⟨rfl, by decide, by decide⟩⟩
  have hmodule : (Renaming.same.respell "Ctx" "Context").Module (pingModule "Ctx")
      (pingModule "Context") :=
    { path := rfl
      imports := .cons ⟨.inl ⟨rfl, rfl⟩, rfl⟩ .nil
      exports := .cons ⟨rfl, hping.2⟩ .nil
      reexports := rfl
      functions := .cons ⟨hping, .cons (.of (.some expr_pingType)) .nil⟩ .nil
      defaultFunctions := rfl
      interfaces := .nil
      aliases := .nil
      opaqueTypes := ⟨rfl, nofun⟩
      values := ⟨rfl, fun y hy => by rw [List.mem_singleton.1 hy]; exact hping.2⟩
      schemas := .nil
      imported := by
        rintro y y' (⟨rfl, rfl⟩ | ⟨rfl, -⟩) hnone
        · cases hnone
        · rfl }
  have hapi : ∀ x, (pingProgram context x).module? ⟨"/src/api.ts"⟩ = some (pingModule x) :=
    fun x => by
      have hself : ((pingModule x).path == (⟨"/src/api.ts"⟩ : Path)) = true := Path.beq_iff.2 rfl
      simp only [pingProgram, Program.module?, List.find?_cons, hcontext, hself]
  refine ⟨⟨_, _, hapi "Ctx", hapi "Context", hmodule⟩, fun g hg => ?_⟩
  have hother : ∀ x, ((pingModule x).path == g) = false := fun x => by
    change ((⟨"/src/api.ts"⟩ : Path) == g) = false
    rw [Path.beq_eq_decide] at hg ⊢
    simpa [eq_comm] using hg
  simp only [pingProgram, Program.module?, List.find?_cons, List.find?_nil, hother]

/-- No chain of plain aliases behind the type ends without leading anywhere if the interface is
recorded. -/
theorem not_endsRespelled_ping : ¬ (pingProgram defaultContext "Ctx").EndsRespelled
    (Program.respellIn .same ⟨"/src/api.ts"⟩ "Ctx" "Context") ⟨"/src/api.ts"⟩
    (pingType "Ctx") := by
  rintro ⟨g, x, x', hdangling, -⟩
  have hnone : (pingProgram defaultContext "Ctx").dangling ⟨"/src/api.ts"⟩ (pingType "Ctx") =
    none := rfl
  rw [hnone] at hdangling
  cases hdangling

/-- If the default export is recorded, the local name makes no difference. If it is not, as that of
an interface in a declaration of its own, the function is extracted under one name only. -/
theorem localNames_agree_ping :
    (pingProgram defaultContext "Ctx").declaredName ⟨"/src/api.ts"⟩ (pingType "Ctx") =
        (pingProgram defaultContext "Context").declaredName ⟨"/src/api.ts"⟩
          (pingType "Context") ∧
      (∀ rules, List.Forall₂ ApiFunction.Renamed
        (apiFunctions rules (pingProgram defaultContext "Ctx") ⟨"/src/api.ts"⟩
          (pingModule "Ctx")).1
        (apiFunctions rules (pingProgram defaultContext "Context") ⟨"/src/api.ts"⟩
          (pingModule "Context")).1) ∧
      (pingProgram (.empty ⟨"/src/context.ts"⟩) "Ctx").declaredName ⟨"/src/api.ts"⟩
          (pingType "Ctx") ≠
        (pingProgram (.empty ⟨"/src/context.ts"⟩) "Context").declaredName ⟨"/src/api.ts"⟩
          (pingType "Context") ∧
      (apiFunctions ⟨"Context", [], .default⟩ (pingProgram (.empty ⟨"/src/context.ts"⟩) "Ctx")
        ⟨"/src/api.ts"⟩ (pingModule "Ctx")).2.map (·.reason) = [.contextMismatch "Ctx"] ∧
      (apiFunctions ⟨"Context", [], .default⟩
        (pingProgram (.empty ⟨"/src/context.ts"⟩) "Context") ⟨"/src/api.ts"⟩
        (pingModule "Context")).1.map (·.name) = ["ping"] := by
  obtain ⟨hnames, hfunctions, -⟩ :=
    localNames_agree (respelled_ping defaultContext (by decide)).renamed
  obtain ⟨hlost, -⟩ :=
    localNames_agree (respelled_ping (.empty ⟨"/src/context.ts"⟩) (by decide)).renamed
  refine ⟨(hnames ⟨"/src/api.ts"⟩ _ _ expr_pingType).2 not_endsRespelled_ping, fun rules => ?_,
    fun heq => (hlost ⟨"/src/api.ts"⟩ _ _ expr_pingType).1 heq
      ⟨⟨"/src/api.ts"⟩, "Ctx", "Context", rfl, .inl ⟨rfl, rfl⟩, by decide⟩, rfl, rfl⟩
  refine (hfunctions rules ⟨"/src/api.ts"⟩ _ _ rfl rfl fun f hf t ht => ?_).1
  obtain rfl := List.mem_singleton.1 hf
  obtain rfl := Option.some.inj ht
  exact not_endsRespelled_ping

end IpcWiring
