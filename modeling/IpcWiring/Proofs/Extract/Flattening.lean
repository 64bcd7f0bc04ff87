import IpcWiring.Proofs.Extract.Names

/-!
# Requests of functions

A request has one name space for the fields that all parameters of a function give. Each parameter
has its own binding (`ParamPart`), but of the fields of one name only the first is kept, whichever
parameter or member it is of (`request_of_mem_apiFunctions`).
-/

namespace IpcWiring

open Script

/-! ## Fields by name -/

namespace Flattened

variable {request fields : List RequestField} {f : RequestField} {x : String}

/-- A field is found under its name if none was before; other names find what they did. -/
theorem find?_addField : (addField request f).find? (·.name = x) =
    (request.find? (·.name = x)).or (if f.name = x then some f else none) := by
  rw [addField]
  split
  · next h =>
    by_cases hx : f.name = x
    · obtain ⟨g, hg, hname⟩ := List.any_eq_true.1 h
      have hsome : (request.find? (·.name = x)).isSome :=
        List.find?_isSome.2 ⟨g, hg, by simpa [hx] using hname⟩
      rw [Option.or_of_isSome hsome]
    · rw [if_neg hx, Option.or_none]
  · rw [List.find?_append, List.find?_cons, List.find?_nil]
    by_cases hx : f.name = x <;> simp [hx]

/-- After some fields a name finds what it did, or else the first of the fields of that name. -/
theorem find?_foldl_addField : (fields.foldl addField request).find? (·.name = x) =
    (request.find? (·.name = x)).or (fields.find? (·.name = x)) := by
  induction fields generalizing request with
  | nil => simp
  | cons f fields ih =>
    rw [List.foldl_cons, ih, find?_addField, Option.or_assoc, List.find?_cons]
    by_cases hx : f.name = x <;> simp [hx]

/-- Fields keep distinct names. -/
theorem nodup_addField (h : (request.map (·.name)).Nodup) :
    ((addField request f).map (·.name)).Nodup := by
  rw [addField]
  split
  · exact h
  · next hnew =>
    rw [List.map_append, List.map_cons, List.map_nil]
    refine List.nodup_append_comm.1 (List.nodup_cons.2 ⟨fun hmem => hnew ?_, h⟩)
    obtain ⟨g, hg, hname⟩ := List.mem_map.1 hmem
    exact List.any_eq_true.2 ⟨g, hg, beq_iff_eq.2 hname⟩

theorem nodup_foldl_addField (h : (request.map (·.name)).Nodup) :
    ((fields.foldl addField request).map (·.name)).Nodup := by
  induction fields generalizing request with
  | nil => exact h
  | cons f fields ih => exact ih (nodup_addField h)

end Flattened

/-! ## Parameters -/

/-- What one parameter gives: how it is filled, its own fields, and the types that it must not
name. -/
structure ParamPart where
  binding : ParamBinding
  fields : List RequestField
  unexported : List String

/-- What the parameter at a position gives. -/
def paramPart (p : Program) (path : Path) (param : Param) (index : Nat) : ParamPart :=
  let name := param.name?.getD ("arg" ++ toString index)
  if Grammar.isRest param then
    let r := renderParam p path param "any[]"
    ⟨.spread name, [.relaxed name r.text r.imports], r.unexported⟩
  else match param.type?.bind (p.members? path) with
    | some members =>
      ⟨.bag, members.map (memberField param.optional), members.flatMap (·.type.unexported)⟩
    | none =>
      let r := renderParam p path param "any"
      ⟨.field name, [.of param.optional name r.text r.imports], r.unexported⟩

/-- What the parameters behind the context give. -/
def paramParts (p : Program) (path : Path) (params : List Param) : List ParamPart :=
  (params.zipIdx.drop 1).map fun (param, index) => paramPart p path param index

/-- The fields that the parameters before one give. -/
def earlierFields (p : Program) (path : Path) (params : List Param) (i : Nat) :
    List RequestField :=
  ((paramParts p path params).take i).flatMap (·.fields)

section
variable {p : Program} {path : Path} {params : List Param}

/-- A parameter adds what it gives. -/
theorem addParam_eq (a : Flattened) (param : Param) (index : Nat) :
    addParam p path a param index =
      a.add (paramPart p path param index).fields (paramPart p path param index).unexported
        (paramPart p path param index).binding := by
  unfold addParam paramPart
  dsimp only
  split
  · rfl
  · cases param.type?.bind (p.members? path) <;> rfl

/-- Parameters add up: the fields of all go in one after another, and each one has its binding. -/
theorem foldl_add (a : Flattened) (parts : List ParamPart) :
    parts.foldl (fun a x => a.add x.fields x.unexported x.binding) a =
      ⟨(parts.flatMap (·.fields)).foldl Flattened.addField a.request,
        a.bindings ++ parts.map (·.binding), a.unexported ++ parts.flatMap (·.unexported)⟩ := by
  induction parts generalizing a with
  | nil => simp
  | cons x parts ih =>
    rw [List.foldl_cons, ih]
    simp [Flattened.add]

/-- Flattening puts the fields of all parameters together, the first of each name. -/
theorem flatten_eq : flatten p path params =
    ⟨((paramParts p path params).flatMap (·.fields)).foldl Flattened.addField [],
      (paramParts p path params).map (·.binding),
      (paramParts p path params).flatMap (·.unexported)⟩ := by
  have h := foldl_add .empty (paramParts p path params)
  rw [paramParts, List.foldl_map] at h
  simp only [flatten, addParam_eq]
  exact h

/-- What the parameter at a place behind the context gives stands at that place. -/
theorem getElem?_paramParts {i : Nat} {param : Param} (h : params[i + 1]? = some param) :
    (paramParts p path params)[i]? = some (paramPart p path param (i + 1)) := by
  rw [paramParts, List.getElem?_map, List.getElem?_drop, Nat.add_comm, List.getElem?_zipIdx, h]
  simp

/-- The fields of all parameters, split at a field of one of them. -/
theorem flatMap_fields_paramParts {i : Nat} {param : Param} {before after : List RequestField}
    {field : RequestField} (h : params[i + 1]? = some param)
    (hfields : (paramPart p path param (i + 1)).fields = before ++ field :: after) :
    ∃ later, (paramParts p path params).flatMap (·.fields) =
      (earlierFields p path params i ++ before) ++ field :: later := by
  have hpart : (paramParts p path params)[i]? = some (paramPart p path param (i + 1)) :=
    getElem?_paramParts h
  obtain ⟨hi, hget⟩ := List.getElem?_eq_some_iff.1 hpart
  have hparts : paramParts p path params = (paramParts p path params).take i ++
      paramPart p path param (i + 1) :: (paramParts p path params).drop (i + 1) := by
    rw [← hget, List.getElem_cons_drop, List.take_append_drop]
  refine ⟨after ++ ((paramParts p path params).drop (i + 1)).flatMap (·.fields), ?_⟩
  conv_lhs => rw [hparts]
  rw [List.flatMap_append, List.flatMap_cons, hfields]
  simp [earlierFields]

/-- Under the name of a field the request has the first of the fields before it of that name, and
without one the field. -/
theorem find?_flatten {i : Nat} {param : Param} {before after : List RequestField}
    {field : RequestField} (h : params[i + 1]? = some param)
    (hfields : (paramPart p path param (i + 1)).fields = before ++ field :: after) :
    (flatten p path params).request.find? (·.name = field.name) =
      some (((earlierFields p path params i ++ before).find? (·.name = field.name)).getD field) := by
  obtain ⟨later, hall⟩ := flatMap_fields_paramParts h hfields
  rw [flatten_eq, Flattened.find?_foldl_addField, hall, List.find?_append, List.find?_cons,
    List.find?_nil, Option.none_or]
  cases (earlierFields p path params i ++ before).find? (·.name = field.name) <;> simp

end

/-! ## Functions -/

section
variable {rules : ApiRules} {p : Program} {m : SourceModule} {path : Path} {f : FunctionDecl}
  {a : ApiFunction}

/-- A function that is extracted has the request and the bindings that its parameters flatten
to. -/
theorem flatten_of_apiFunction {repeated : Bool}
    (h : apiFunction rules p m path repeated f = .ok a) :
    a.name = f.name ∧ a.request = (flatten p path f.params).request ∧
      a.bindings = (flatten p path f.params).bindings := by
  simp only [apiFunction, bind, Except.bind, pure, Except.pure, throw, throwThe,
    MonadExceptOf.throw] at h
  repeat' split at h
  all_goals cases h
  exact ⟨rfl, rfl, rfl⟩

/-- Each entry comes well from its declaration. -/
theorem mem_partitionOutcomes {α : Type} {outcomes : List (String × Except SkipReason α)} {a : α}
    (h : a ∈ (partitionOutcomes path outcomes).1) : ∃ name, (name, .ok a) ∈ outcomes := by
  induction outcomes with
  | nil => cases h
  | cons e rest ih =>
    obtain ⟨name, outcome⟩ := e
    rw [partitionOutcomes] at h
    cases outcome with
    | ok b =>
      obtain rfl | h := List.mem_cons.1 h
      · exact ⟨name, List.mem_cons_self⟩
      · exact (ih h).imp fun _ => List.mem_cons_of_mem _
    | error reason => exact (ih h).imp fun _ => List.mem_cons_of_mem _

/-- Functions are marked without being changed. -/
theorem snd_mem_of_mem_markRepeated {seen : List String} {fs : List FunctionDecl} {repeated : Bool}
    (h : (repeated, f) ∈ markRepeated seen fs) : f ∈ fs := by
  induction fs generalizing seen with
  | nil => cases h
  | cons g rest ih =>
    obtain h | h := List.mem_cons.1 h
    · cases h
      exact List.mem_cons_self
    · exact List.mem_cons_of_mem _ (ih h)

/-- An extracted function is that of a declaration in the module. -/
theorem exists_of_mem_apiFunctions (h : a ∈ (apiFunctions rules p path m).1) :
    ∃ f ∈ m.functions, ∃ repeated, apiFunction rules p m path repeated f = .ok a := by
  obtain ⟨name, hname⟩ := mem_partitionOutcomes h
  obtain ⟨⟨repeated, f⟩, hf, he⟩ := List.mem_map.1 hname
  exact ⟨f, snd_mem_of_mem_markRepeated hf, repeated, congrArg Prod.snd he⟩

/-- **The first field wins.** Each parameter behind the context has the binding that is computed
from it alone. The request has one field of each name. Where a parameter gives a field, the request
has that field under its name, unless a parameter before it or the parameter itself gave one of
that name before; then it has the first of these. -/
theorem request_of_mem_apiFunctions (h : a ∈ (apiFunctions rules p path m).1) :
    ∃ f ∈ m.functions, a.name = f.name ∧ a.bindings.length = f.params.length - 1 ∧
      (a.request.map (·.name)).Nodup ∧
      ∀ i param, f.params[i + 1]? = some param →
        a.bindings[i]? = some (paramPart p path param (i + 1)).binding ∧
        ∀ before field after,
          (paramPart p path param (i + 1)).fields = before ++ field :: after →
          a.request.find? (·.name = field.name) =
            some (((earlierFields p path f.params i ++ before).find?
              (·.name = field.name)).getD field) := by
  obtain ⟨f, hf, repeated, hok⟩ := exists_of_mem_apiFunctions h
  obtain ⟨hname, hrequest, hbindings⟩ := flatten_of_apiFunction hok
  refine ⟨f, hf, hname, ?_, ?_, fun i param hparam => ⟨?_, fun before field after hfields => ?_⟩⟩
  · simp [hbindings, flatten_eq, paramParts]
  · rw [hrequest, flatten_eq]
    exact Flattened.nodup_foldl_addField List.nodup_nil
  · rw [hbindings, flatten_eq, List.getElem?_map, getElem?_paramParts hparam, Option.map_some]
  · rw [hrequest]
    exact find?_flatten hparam hfields

end

/-! ## Two parameters with one name -/

/-- A function with a parameter, and an object with a member of that name and another type. -/
def smallSource : String :=
  "export function f(ctx: Context, id: string, input: \x7b id: number \x7d) \x7b\x7d"

/-- The module of that function. -/
def smallModule : SourceModule :=
  (SourceModule.parse? ⟨"/src/f.ts"⟩ smallSource).getD (.empty ⟨"/src/f.ts"⟩)

/-- The program of that module alone. -/
def smallProgram : Program := ⟨[smallModule], []⟩

/-- Rules that leave out no function. -/
def smallRules : ApiRules := ⟨"Context", [], .default⟩

/-- The function is extracted. -/
theorem apiFunctions_small :
    ((apiFunctions smallRules smallProgram ⟨"/src/f.ts"⟩ smallModule).1.map fun a =>
      (a.name, a.bindings, a.request.map fun field => (field.name, field.typeText))) =
    [("f", [.field "id", .bag], [("id", "string")])] := by
  decide +kernel

/-- The function that is extracted from the module has the request that its parameters flatten
to. -/
theorem request_of_mem_apiFunctions_small :
    ∃ a ∈ (apiFunctions smallRules smallProgram ⟨"/src/f.ts"⟩ smallModule).1,
      ∃ f ∈ smallModule.functions, a.name = f.name ∧ (a.request.map (·.name)).Nodup ∧
        ∀ param ∈ f.params[1]?,
          a.bindings[0]? = some (paramPart smallProgram ⟨"/src/f.ts"⟩ param 1).binding := by
  obtain ⟨a, ha, -⟩ := List.mem_map.1 (apiFunctions_small ▸ List.mem_singleton_self _)
  obtain ⟨f, hf, hname, -, hnodup, hparams⟩ := request_of_mem_apiFunctions ha
  exact ⟨a, ha, f, hf, hname, hnodup, fun param hparam => (hparams 0 param hparam).1⟩

/-- What the type of the function's object expands to. -/
theorem members_small : (smallModule.functions.map fun f =>
      (f.name, (f.params[2]?.bind (·.type?)).bind fun type =>
        (smallProgram.members? ⟨"/src/f.ts"⟩ type).map (·.map fun x => (x.name, x.type.text)))) =
    [("f", some [("id", "number")])] := by
  decide +kernel

/-- A member is left out of the request if a parameter has its name: where the object has a number,
the request has the text of the parameter. -/
theorem second_field_dropped_small :
    ∃ a ∈ (apiFunctions smallRules smallProgram ⟨"/src/f.ts"⟩ smallModule).1,
      ∃ f ∈ smallModule.functions, a.name = f.name ∧
        ∃ param type members, f.params[2]? = some param ∧ param.type? = some type ∧
          smallProgram.members? ⟨"/src/f.ts"⟩ type = some members ∧
          a.bindings[1]? = some .bag ∧
          ∃ member ∈ members, ∀ field ∈ a.request, field.name = member.name →
            field.typeText ≠ member.type.text := by
  obtain ⟨a, ha, hparts⟩ := List.mem_map.1 (apiFunctions_small ▸ List.mem_singleton_self _)
  obtain ⟨f, hf, hmembers⟩ := List.mem_map.1 (members_small ▸ List.mem_singleton_self _)
  simp only [Prod.mk.injEq] at hparts hmembers
  obtain ⟨haname, hbindings, hrequest⟩ := hparts
  obtain ⟨hfname, hsome⟩ := hmembers
  simp only [Option.bind_eq_some_iff, Option.map_eq_some_iff] at hsome
  obtain ⟨type, ⟨param, hparam, htype⟩, members, hexpand, hmap⟩ := hsome
  obtain ⟨member, hmember, hpair⟩ := List.mem_map.1 (hmap ▸ List.mem_singleton_self _)
  refine ⟨a, ha, f, hf, haname.trans hfname.symm, param, type, members, hparam, htype, hexpand,
    by simp [hbindings], member, hmember, fun field hfield _ => ?_⟩
  have hpresent : (field.name, field.typeText) ∈ [("id", "string")] :=
    hrequest ▸ List.mem_map_of_mem hfield
  rw [(Prod.mk.inj (List.mem_singleton.1 hpresent)).2, (Prod.mk.inj hpair).2]
  decide

end IpcWiring
