import IpcWiring.Proofs.Distinct
import IpcWiring.Proofs.Extract.Closed

/-!
# Flattening

The parameters behind the context give fields one after another, and the request is what is left of
these when of each name only the first is kept (`request_flatten`). A function that passes its
checks is an entry with that request unless a type behind one of the fields, also of one that is
left out, names a declaration that cannot be imported; then it is skipped for the first such name
(`apiFunction_flattens`).
-/

namespace IpcWiring

open Script

/-! ## Unexported names -/

namespace Program

variable {p : Program} {file : Path} {scope : Scope} {t : TypeExpr} {n : String}

/-- The file declares the name without importing or exporting it. -/
def Keeps (p : Program) (file : Path) (name : String) : Prop :=
  ∃ m, p.module? file = some m ∧ m.imports.find? name = none ∧ m.declares name = true ∧
    m.exportNameOf? name = none

/-- A type of a file names a declaration that its file keeps to itself, or a type parameter that
stands for a type that does. -/
inductive NamesKept (p : Program) : Path → Scope → TypeExpr → String → Prop where
  | free {file : Path} {scope : Scope} {t : TypeExpr} {name : TypeName} (hname : name ∈ t.names)
      (hfree : name.isSimple = true → scope.find? name.head = none)
      (hkept : p.Keeps file name.head) : NamesKept p file scope t name.head
  | bound {file : Path} {scope : Scope} {t : TypeExpr} {name : TypeName} {b : Binding} {n : String}
      (hname : name ∈ t.names) (hsimple : name.isSimple = true)
      (hb : scope.find? name.head = some b) (hkept : NamesKept p b.file b.scope b.type n) :
      NamesKept p file scope t n

/-- A name has an unexported source just if its file keeps it. -/
theorem sourceOf_eq_unexported_iff {name : TypeName} :
    p.sourceOf file name = .unexported ↔ p.Keeps file name.head := by
  rw [sourceOf, Keeps]
  cases p.module? file with
  | none => simp
  | some m =>
    cases hb : m.imports.find? name.head with
    | some binding => simp [hb]
    | none =>
      cases hd : m.declares name.head <;> cases he : m.exportNameOf? name.head <;>
        simp [hb, hd, he]

/-- What a free name needs without its being exported. -/
theorem mem_unexported_needOf_free {name : TypeName}
    (hfree : name.isSimple = true → scope.find? name.head = none) :
    n ∈ (p.needOf file scope name).unexported ↔ n = name.head ∧ p.Keeps file name.head := by
  have hnone : (if name.isSimple then scope.find? name.head else none) = none := by
    split
    · next hsimple => exact hfree hsimple
    · rfl
  rw [needOf, hnone, ← sourceOf_eq_unexported_iff]
  cases p.sourceOf file name <;> simp [Rendered.plain]

/-- The names that a rendered type must not name are those that some name in it needs, each one
once. -/
theorem unexported_renderIn : (p.renderIn file t scope).unexported =
    appendNew [] (t.names.flatMap fun name => (p.needOf file scope name).unexported) := by
  have hfold : ∀ (names : List TypeName) (r : Rendered),
      (names.foldl (p.needName file scope) r).unexported = appendNew r.unexported
        (names.flatMap fun name => (p.needOf file scope name).unexported) := by
    intro names
    induction names with
    | nil => exact fun r => rfl
    | cons name names ih =>
      intro r
      rw [List.foldl_cons, ih, needName_eq, List.flatMap_cons]
      exact List.foldl_append.symm
  exact hfold t.names _

/-- A rendered type needs an unexported declaration just if a name in the type leads to it. -/
theorem mem_unexported_renderIn (hs : p.Fills scope) :
    n ∈ (p.renderIn file t scope).unexported ↔ p.NamesKept file scope t n := by
  induction hs generalizing file t with
  | @of bindings types scopes ih =>
    have hbound : ∀ {name : TypeName} {b : Binding}, name.isSimple = true →
        (Scope.of bindings).find? name.head = some b →
        (n ∈ (p.needOf file (.of bindings) name).unexported ↔
          p.NamesKept b.file b.scope b.type n) :=
      fun hsimple hb => by
        have hin := NameMap.mem_of_lookup hb
        rw [needOf_of_bound hsimple hb, (types _ hin).2]
        exact ih _ hin
    rw [unexported_renderIn, mem_appendNew, List.mem_flatMap]
    constructor
    · rintro (h | ⟨name, hname, hn⟩)
      · cases h
      by_cases hfree : name.isSimple = true → (Scope.of bindings).find? name.head = none
      · obtain ⟨rfl, hkept⟩ := (mem_unexported_needOf_free hfree).1 hn
        exact .free hname hfree hkept
      · obtain ⟨hsimple, hsome⟩ := Classical.not_imp.1 hfree
        obtain ⟨b, hb⟩ := Option.ne_none_iff_exists'.1 hsome
        exact .bound hname hsimple hb ((hbound hsimple hb).1 hn)
    · intro h
      refine .inr ?_
      cases h with
      | free hname hfree hkept =>
        exact ⟨_, hname, (mem_unexported_needOf_free hfree).2 ⟨rfl, hkept⟩⟩
      | bound hname hsimple hb hkept => exact ⟨_, hname, (hbound hsimple hb).2 hkept⟩

/-- What is emitted for a type shows a name that a file keeps to itself. -/
def ShowsKept (p : Program) (r : Rendered) (n : String) : Prop :=
  ∃ file scope t, p.Writes file t ∧ p.Fills scope ∧ r = p.renderIn file t scope ∧
    p.NamesKept file scope t n

/-- What is emitted for a type needs an unexported declaration just if it shows its name. -/
theorem Renders.mem_unexported_iff {r : Rendered} (h : p.Renders r) :
    n ∈ r.unexported ↔ p.ShowsKept r n := by
  constructor
  · intro hn
    cases h with
    | type ht hs => exact ⟨_, _, _, ht, hs, rfl, (mem_unexported_renderIn hs).1 hn⟩
    | schema hs hf => cases hn
    | untyped h => cases hn
  · rintro ⟨file, scope, t, -, hs, rfl, hkept⟩
    exact (mem_unexported_renderIn hs).2 hkept

end Program

/-! ## Requests -/

section
variable {rules : ApiRules} {p : Program} {m : SourceModule} {path : Path} {param : Param}
  {params : List Param} {f : FunctionDecl} {repeated : Bool} {a : ApiFunction}

/-- The types that the fields of a parameter are emitted for. -/
def paramTypes (p : Program) (path : Path) (param : Param) : List Rendered :=
  if Grammar.isRest param then [renderParam p path param "any[]"]
  else match param.type?.bind (p.members? path) with
    | some members => members.map (·.type)
    | none => [renderParam p path param "any"]

/-- The fields that all parameters behind the context give, one after another. -/
def givenFields (p : Program) (path : Path) (params : List Param) : List RequestField :=
  (paramParts p path params).flatMap (·.fields)

/-- The types that those fields are emitted for, in the same order. -/
def givenTypes (p : Program) (path : Path) (params : List Param) : List Rendered :=
  (params.drop 1).flatMap (paramTypes p path)

/-- A parameter has a field for each of its types, and must not name what these must not. -/
theorem paramPart_types (p : Program) (path : Path) (param : Param) (index : Nat) :
    List.Forall₂ RequestField.Shows (paramPart p path param index).fields
        (paramTypes p path param) ∧
      (paramPart p path param index).unexported =
        (paramTypes p path param).flatMap (·.unexported) := by
  unfold paramPart paramTypes
  dsimp only
  split
  · exact ⟨.cons ⟨rfl, rfl⟩ .nil, (List.flatMap_singleton ..).symm⟩
  · cases param.type?.bind (p.members? path) with
    | none => exact ⟨.cons (shows_of ..) .nil, (List.flatMap_singleton ..).symm⟩
    | some members =>
      refine ⟨?_, (List.flatMap_map ..).symm⟩
      rw [List.forall₂_map_left_iff, List.forall₂_map_right_iff]
      exact List.forall₂_same.2 fun x _ => shows_of ..

/-- All fields together show their types, and all types together name what must not be named. -/
theorem paramParts_types : List.Forall₂ RequestField.Shows (givenFields p path params)
      (givenTypes p path params) ∧
    (paramParts p path params).flatMap (·.unexported) =
      (givenTypes p path params).flatMap (·.unexported) := by
  rw [givenFields, givenTypes, paramParts]
  -- the position of a parameter counts for its name only
  have hparams : params.drop 1 = (params.zipIdx.drop 1).map (·.1) := by simp
  rw [hparams]
  induction params.zipIdx.drop 1 with
  | nil => exact ⟨.nil, rfl⟩
  | cons x rest ih =>
    obtain ⟨hshows, hunexported⟩ := paramPart_types p path x.1 x.2
    simp only [List.map_cons, List.flatMap_cons, List.flatMap_append, ← hunexported, ← ih.2,
      and_true]
    exact List.rel_append hshows ih.1

/-- The request is what the parameters give, of each name the first field. -/
theorem request_flatten : (flatten p path params).request =
    firstsBy (·.name) (givenFields p path params) := by
  rw [flatten_eq, firstsBy_eq_foldl]
  rfl

/-- The first checks of a function: it is not declared again, it is exported under its own name, it
is not on the ignore list, and it takes the context first. -/
structure Passes (rules : ApiRules) (p : Program) (m : SourceModule) (path : Path)
    (repeated : Bool) (f : FunctionDecl) : Prop where
  first : repeated = false
  exported : checkExport m f.name = .ok ()
  wanted : (rules.ignoredIn path).contains f.name = false
  context : checkContext rules p path f.params = .ok ()

/-- The entry of a function, if its request can be imported. -/
def entryOf (rules : ApiRules) (p : Program) (m : SourceModule) (path : Path)
    (f : FunctionDecl) : ApiFunction :=
  let companions := rules.companions.companionsOf f.name m.exportedNames
  ⟨f.name, (flatten p path f.params).request, (flatten p path f.params).bindings,
    companions.validator?, companions.errorHandler?⟩

/-- A function that passes is an entry, or it is skipped for a name. -/
theorem apiFunction_of_passes (h : Passes rules p m path repeated f) :
    apiFunction rules p m path repeated f =
      match (flatten p path f.params).unexported with
      | n :: _ => .error (.unexportedType n)
      | [] => .ok (entryOf rules p m path f) := by
  obtain ⟨rfl, hexported, hwanted, hcontext⟩ := h
  simp only [apiFunction, bind, Except.bind, hexported, hwanted, hcontext, Bool.false_eq_true,
    if_false]
  cases (flatten p path f.params).unexported <;> rfl

/-- A function that does not pass is skipped, and not for a name. -/
theorem apiFunction_of_not_passes (h : ¬ Passes rules p m path repeated f) :
    ∃ reason, apiFunction rules p m path repeated f = .error reason ∧
      ∀ n, reason ≠ .unexportedType n := by
  cases repeated with
  | true => exact ⟨.overload, rfl, fun n => SkipReason.noConfusion⟩
  | false =>
    simp only [apiFunction, bind, Except.bind, Bool.false_eq_true, if_false]
    cases hexported : checkExport m f.name with
    | error reason =>
      refine ⟨reason, rfl, ?_⟩
      rintro n rfl
      rw [checkExport] at hexported
      split at hexported
      · cases hexported
      · split at hexported <;> cases hexported
    | ok _ =>
      cases hwanted : (rules.ignoredIn path).contains f.name with
      | true => exact ⟨.ignored, rfl, fun n => SkipReason.noConfusion⟩
      | false =>
        cases hcontext : checkContext rules p path f.params with
        | error reason =>
          refine ⟨reason, rfl, ?_⟩
          rintro n rfl
          unfold checkContext at hcontext
          split at hcontext
          · cases hcontext
          · split at hcontext
            · dsimp only at hcontext
              split at hcontext <;> cases hcontext
            · cases hcontext
        | ok _ => exact absurd ⟨rfl, hexported, hwanted, hcontext⟩ h

/-- Every parameter that is passed by a name gives a field of that name. -/
theorem exists_field_of_binding {part : ParamPart} {n : String}
    (hpart : part ∈ paramParts p path params)
    (hbinding : part.binding = .field n ∨ part.binding = .spread n) :
    ∃ field ∈ part.fields, field.name = n := by
  obtain ⟨⟨param, index⟩, -, rfl⟩ := List.mem_map.1 hpart
  unfold paramPart at hbinding ⊢
  dsimp only at hbinding ⊢
  split at hbinding
  · next hrest =>
    rw [if_pos hrest]
    obtain h | h := hbinding <;> cases h
    exact ⟨_, List.mem_singleton_self _, rfl⟩
  · next hrest =>
    rw [if_neg hrest]
    split at hbinding
    · obtain h | h := hbinding <;> cases h
    · obtain h | h := hbinding <;> cases h
      refine ⟨_, List.mem_singleton_self _, ?_⟩
      cases param.optional <;> rfl

/-- The types behind the parameters of a function are emitted in its program. -/
theorem renders_of_mem_givenTypes (hm : p.module? path = some m) (hf : f ∈ m.functions)
    {r : Rendered} (hr : r ∈ givenTypes p path f.params) : p.Renders r := by
  obtain ⟨param, hparam, hr⟩ := List.mem_flatMap.1 hr
  have hwrites : ∀ t, param.type? = some t → p.Writes path t := fun t ht =>
    .param hm hf (List.mem_of_mem_drop hparam) ht
  rw [paramTypes] at hr
  split at hr
  · rw [List.mem_singleton.1 hr]
    exact renders_renderParam hwrites (.inr rfl)
  · cases hmembers : param.type?.bind (p.members? path) with
    | none =>
      rw [hmembers] at hr
      rw [List.mem_singleton.1 hr]
      exact renders_renderParam hwrites (.inl rfl)
    | some members =>
      rw [hmembers] at hr
      obtain ⟨t, ht, hexpand⟩ := Option.bind_eq_some_iff.1 hmembers
      obtain ⟨x, hx, rfl⟩ := List.mem_map.1 hr
      exact Program.allRendered_members (hwrites t ht) hexpand x hx

/-- **Flattening keeps the first field of each name.** The fields that the parameters behind the
context give show the types of the parameters, or of their members, in order. The request of an
entry has of each name the first of these fields; there is a binding for each parameter, and what it
takes from the request by a name is there. A function that passes its checks is an entry just if no
type behind a given field, kept or not, shows a name that its file keeps to itself; otherwise it is
skipped for the first such name. -/
theorem apiFunction_flattens (rules : ApiRules) (repeated : Bool)
    (hm : p.module? path = some m) (hf : f ∈ m.functions) :
    List.Forall₂ RequestField.Shows (givenFields p path f.params) (givenTypes p path f.params) ∧
    (∀ a, apiFunction rules p m path repeated f = .ok a →
      a.request = firstsBy (·.name) (givenFields p path f.params) ∧
      (a.request.map (·.name)).Nodup ∧
      a.bindings = (paramParts p path f.params).map (·.binding) ∧
      a.bindings.length = f.params.length - 1 ∧
      ∀ n, .field n ∈ a.bindings ∨ .spread n ∈ a.bindings → ∃ field ∈ a.request, field.name = n) ∧
    (∀ r ∈ givenTypes p path f.params, ∀ n, n ∈ r.unexported ↔ p.ShowsKept r n) ∧
    ((∃ a, apiFunction rules p m path repeated f = .ok a) ↔
      Passes rules p m path repeated f ∧
        ∀ r ∈ givenTypes p path f.params, ∀ n, ¬ p.ShowsKept r n) ∧
    ∀ n, apiFunction rules p m path repeated f = .error (.unexportedType n) ↔
      Passes rules p m path repeated f ∧
        ((givenTypes p path f.params).flatMap (·.unexported)).head? = some n := by
  have hkept : ∀ r ∈ givenTypes p path f.params, ∀ n, n ∈ r.unexported ↔ p.ShowsKept r n :=
    fun r hr n => (renders_of_mem_givenTypes hm hf hr).mem_unexported_iff
  have hunexported : (flatten p path f.params).unexported =
      (givenTypes p path f.params).flatMap (·.unexported) := by
    rw [flatten_eq]
    exact paramParts_types.2
  have hnone : (givenTypes p path f.params).flatMap (·.unexported) = [] ↔
      ∀ r ∈ givenTypes p path f.params, ∀ n, ¬ p.ShowsKept r n := by
    rw [List.flatMap_eq_nil_iff]
    refine forall₂_congr fun r hr => ?_
    rw [List.eq_nil_iff_forall_not_mem]
    exact forall_congr' fun n => not_congr (hkept r hr n)
  refine ⟨paramParts_types.1, fun a ha => ?_, hkept, ?_, fun n => ?_⟩
  · obtain ⟨-, hrequest, hbindings⟩ := flatten_of_apiFunction ha
    rw [request_flatten] at hrequest
    rw [flatten_eq] at hbindings
    refine ⟨hrequest, hrequest ▸ nodup_map_firstsBy, hbindings, ?_, fun n hn => ?_⟩
    · simp [hbindings, paramParts]
    · obtain ⟨part, hpart, hbinding⟩ : ∃ part ∈ paramParts p path f.params,
          part.binding = .field n ∨ part.binding = .spread n := by
        rw [hbindings] at hn
        obtain h | h := hn <;> obtain ⟨part, hpart, heq⟩ := List.mem_map.1 h
        exacts [⟨part, hpart, .inl heq⟩, ⟨part, hpart, .inr heq⟩]
      obtain ⟨field, hfield, hname⟩ := exists_field_of_binding hpart hbinding
      -- of its name the first field is kept, not always this one
      have hgiven : n ∈ (givenFields p path f.params).map (·.name) :=
        hname ▸ List.mem_map_of_mem (List.mem_flatMap.2 ⟨part, hpart, hfield⟩)
      rw [← mem_map_firstsBy, ← hrequest] at hgiven
      exact List.mem_map.1 hgiven
  · by_cases hpasses : Passes rules p m path repeated f
    · rw [apiFunction_of_passes hpasses, hunexported, ← hnone]
      cases (givenTypes p path f.params).flatMap (·.unexported) <;> simp [hpasses]
    · obtain ⟨reason, hreason, -⟩ := apiFunction_of_not_passes hpasses
      rw [hreason]
      simp [hpasses]
  · by_cases hpasses : Passes rules p m path repeated f
    · rw [apiFunction_of_passes hpasses, hunexported]
      cases (givenTypes p path f.params).flatMap (·.unexported) <;> simp [hpasses]
    · obtain ⟨reason, hreason, hne⟩ := apiFunction_of_not_passes hpasses
      rw [hreason]
      simp [hpasses, hne]

end

/-- The module of a source is found in the program of that module alone. -/
theorem module?_parsed (path : Path) (source : String) :
    Program.module? ⟨[(SourceModule.parse? path source).getD (.empty path)], []⟩ path =
      some ((SourceModule.parse? path source).getD (.empty path)) := by
  refine List.find?_cons_of_pos (Path.beq_iff.2 ?_)
  cases h : SourceModule.parse? path source with
  | none => rfl
  | some m => rw [Option.getD_some, (SourceModule.parse?_eq_some h).1]

/-! ## A name that a left-out field shows -/

/-- Two functions with two fields `id` each. The second field of the second function is of a type
that is not exported. -/
def noteSource : String :=
  "interface Note \x7b text: string \x7d\n" ++
  "export function find(ctx: Context, id: string, by: \x7b id: number \x7d) \x7b\x7d\n" ++
  "export function save(ctx: Context, id: string, note: \x7b id: Note \x7d) \x7b\x7d"

/-- The path of their file. -/
def notePath : Path := ⟨"/src/n.ts"⟩

/-- The module of those functions. -/
def noteModule : SourceModule :=
  (SourceModule.parse? notePath noteSource).getD (.empty notePath)

/-- The program of that module alone. -/
def noteProgram : Program := ⟨[noteModule], []⟩

/-- The module is found under its path. -/
theorem module?_note : noteProgram.module? notePath = some noteModule :=
  module?_parsed notePath noteSource

/-- The fields that the parameters of the two functions give, and the names that these must not
show. Both functions pass their checks. -/
theorem functions_note : (noteModule.functions.map fun f =>
      (f.name, (givenFields noteProgram notePath f.params).map fun x => (x.name, x.typeText))) =
    [("find", [("id", "string"), ("id", "number")]), ("save", [("id", "string"), ("id", "Note")])] ∧
    (noteModule.functions.map fun f =>
      (givenTypes noteProgram notePath f.params).flatMap (·.unexported)) = [[], ["Note"]] ∧
    noteModule.functions.all (fun f => checkExport noteModule f.name = .ok () ∧
      checkContext smallRules noteProgram notePath f.params = .ok ()) = true := by
  decide +kernel

/-- The first function is an entry whose request has the first field alone. The second one is
skipped for the type of the field that would be left out. -/
theorem apiFunction_flattens_note :
    ∃ find ∈ noteModule.functions, ∃ save ∈ noteModule.functions,
      (∃ a, apiFunction smallRules noteProgram noteModule notePath false find = .ok a ∧
        a.request = (givenFields noteProgram notePath find.params).take 1) ∧
      apiFunction smallRules noteProgram noteModule notePath false save =
        .error (.unexportedType "Note") := by
  obtain ⟨hfields, htypes, hchecks⟩ := functions_note
  have hpasses : ∀ f ∈ noteModule.functions,
      Passes smallRules noteProgram noteModule notePath false f := fun f hf =>
    have hcheck := of_decide_eq_true (List.all_eq_true.1 hchecks f hf)
    ⟨rfl, hcheck.1, rfl, hcheck.2⟩
  obtain ⟨find, rest, hfunctions, hfind, hrest⟩ := List.map_eq_cons_iff.1 hfields
  obtain ⟨save, last, rfl, -, -⟩ := List.map_eq_cons_iff.1 hrest
  rw [hfunctions] at htypes hpasses ⊢
  have hfindTypes : (givenTypes noteProgram notePath find.params).flatMap (·.unexported) = [] :=
    (List.cons.inj htypes).1
  have hsaveTypes : (givenTypes noteProgram notePath save.params).flatMap (·.unexported) =
      ["Note"] := (List.cons.inj (List.cons.inj htypes).2).1
  have hfindMem : find ∈ noteModule.functions := by simp [hfunctions]
  have hsaveMem : save ∈ noteModule.functions := by simp [hfunctions]
  refine ⟨find, by simp, save, by simp, ?_, ?_⟩
  · obtain ⟨-, hentry, hkept, haccepted, -⟩ :=
      apiFunction_flattens smallRules false module?_note hfindMem
    obtain ⟨a, ha⟩ := haccepted.2 ⟨hpasses find (by simp), fun r hr n hn => by
      have hnone := List.flatMap_eq_nil_iff.1 hfindTypes r hr
      exact List.not_mem_nil (hnone ▸ (hkept r hr n).2 hn)⟩
    obtain ⟨x, more, hx, hnamex, hmore⟩ := List.map_eq_cons_iff.1 (Prod.mk.inj hfind).2
    obtain ⟨y, none, rfl, hnamey, hnone⟩ := List.map_eq_cons_iff.1 hmore
    obtain rfl := List.map_eq_nil_iff.1 hnone
    refine ⟨a, ha, ?_⟩
    rw [(hentry a ha).1, hx]
    simp [firstsBy, List.eraseDupsBy_cons, (Prod.mk.inj hnamex).1, (Prod.mk.inj hnamey).1]
  · obtain ⟨-, -, -, -, hskipped⟩ :=
      apiFunction_flattens smallRules false module?_note hsaveMem
    exact (hskipped "Note").2 ⟨hpasses save (by simp), by rw [hsaveTypes]; rfl⟩

end IpcWiring
