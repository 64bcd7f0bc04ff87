import IpcWiring.Proofs.Schema.Properties

/-!
# Optional schemas

The last call that has a say in it settles whether a schema is optional (`isOptional`). The helper
`partial` makes every property optional, and `required` takes that back. But it takes off outermost
`optional` calls and nothing else, so a property stays optional where another call settles that it
is (`partial_required`).
-/

namespace IpcWiring.Schema

/-- The methods that make a schema optional. -/
def looseningMethods : List String := ["optional", "nullish"]

/-- The methods that make a schema optional on its input side only. -/
def defaultingMethods : List String := ["default", "catch", "prefault"]

/-- The schema is optional. A method that has no say in it leaves the schema as optional as what it
is called on. -/
def isOptional (mode : SchemaMode) : Schema → Bool
  | builder name _ => name == "optional"
  | method receiver name _ =>
    if looseningMethods.contains name then true
    else if defaultingMethods.contains name then mode == .input
    else if name == "array" || objectHelpers.contains name then false
    else receiver.isOptional mode
  | ref _ => false
  | unknown => false

section

variable (mode : SchemaMode)

/-- One builder makes an optional schema. -/
theorem optional_builder (name : String) (args : List SchemaArg) :
    ((builder name args).shape mode).optional = (name == "optional") := by
  by_cases hname : name = "optional"
  · subst hname
    cases args <;> rfl
  · rw [beq_eq_false_iff_ne.2 hname]
    unfold shape
    split
    · rfl
    · split
      · split <;> rfl
      · split <;> first | rfl | exact absurd rfl hname

/-- A method settles how optional the schema is, or leaves that to what it is called on. -/
theorem optional_method (receiver : Schema) (name : String) (args : List SchemaArg) :
    ((method receiver name args).shape mode).optional =
      if looseningMethods.contains name then true
      else if defaultingMethods.contains name then mode == .input
      else if name == "array" || objectHelpers.contains name then false
      else (receiver.shape mode).optional := by
  by_cases htype : name ∈ typeMethods
  · simp only [typeMethods, List.mem_cons, List.not_mem_nil, or_false] at htype
    rcases htype with rfl | rfl | rfl | rfl | rfl | rfl | rfl | rfl | rfl <;> cases args <;> rfl
  by_cases hobject : name ∈ objectHelpers
  · rw [shape_objectHelper (List.contains_iff_mem.2 hobject)]
    rcases Helpers.mem_objectHelpers.1 hobject with rfl | rfl | rfl | rfl | rfl | rfl <;>
      split <;> rfl
  · have hsays :
        (looseningMethods ++ defaultingMethods ++ ["array"]).all typeMethods.contains = true := by
      decide
    have hnone : name ∉ looseningMethods ++ defaultingMethods ++ ["array"] := fun hmem =>
      htype (List.contains_iff_mem.1 (List.all_eq_true.1 hsays name hmem))
    simp only [List.mem_append, List.mem_singleton, not_or] at hnone
    obtain ⟨⟨hloosens, hdefaults⟩, harray⟩ := hnone
    rw [shape_of_not_mem htype hobject, if_neg (mt List.contains_iff_mem.1 hloosens),
      if_neg (mt List.contains_iff_mem.1 hdefaults), beq_eq_false_iff_ne.2 harray, Bool.false_or,
      if_neg (mt List.contains_iff_mem.1 hobject)]
    rfl

/-- A schema is rendered as optional if it is. -/
theorem optional_shape (s : Schema) : (s.shape mode).optional = s.isOptional mode := by
  fun_induction isOptional mode s with
  | case1 name args => exact optional_builder mode name args
  | case2 receiver name args hloosens => rw [optional_method, if_pos hloosens]
  | case3 receiver name args hloosens hdefaults =>
    rw [optional_method, if_neg hloosens, if_pos hdefaults]
  | case4 receiver name args hloosens hdefaults hplain =>
    rw [optional_method, if_neg hloosens, if_neg hdefaults, if_pos hplain]
  | case5 receiver name args hloosens hdefaults hplain ih =>
    rw [optional_method, if_neg hloosens, if_neg hdefaults, if_neg hplain, ih]
  | case6 | case7 => rfl

/-- How optional a property is that `required` leaves. -/
theorem optional_tightened (e : SchemaEntry) :
    (field mode e).tightened.shape.optional = e.value.withoutOptional.isOptional mode := by
  rw [← optional_shape, shape_withoutOptional]
  rfl

/-- The helpers `partial` and `required` keep names and types in their order. With the one every
property is optional, and the other takes that back. It leaves a property optional just if this is
settled by another call than the outermost `optional` ones. -/
theorem partial_required {s : Schema} {fields : List SchemaField}
    (h : s.fields? mode = some fields) :
    ∃ entries loose strict, s.properties? = some entries ∧
      (method s "partial" []).fields? mode = some loose ∧
      (method s "required" []).fields? mode = some strict ∧
      (method (method s "partial" []) "required" []).fields? mode = some strict ∧
      (loose.map fun f => (f.name, f.shape.text)) = (fields.map fun f => (f.name, f.shape.text)) ∧
      (∀ f ∈ loose, f.shape.optional = true) ∧
      (strict.map fun f => (f.name, f.shape.text)) = (fields.map fun f => (f.name, f.shape.text)) ∧
      (strict.map fun f => f.shape.optional) =
        entries.map fun e => e.value.withoutOptional.isOptional mode := by
  have hentries := fields?_eq mode s
  rw [h] at hentries
  obtain ⟨entries, hproperties, rfl⟩ := Option.map_eq_some_iff.1 hentries.symm
  have hpartial : (method s "partial" []).fields? mode =
      some ((entries.map (field mode)).map SchemaField.relaxed) := by
    rw [fields?, h]
    rfl
  have hrequired : ∀ {s' : Schema} {fields' : List SchemaField}, s'.fields? mode = some fields' →
      (method s' "required" []).fields? mode = some (fields'.map SchemaField.tightened) := by
    intro s' fields' h'
    rw [fields?, h']
    rfl
  refine ⟨entries, _, _, hproperties, hpartial, hrequired h, ?_, ?_, ?_, ?_, ?_⟩
  · -- What `partial` adds is not among what lasts.
    rw [hrequired hpartial]
    simp only [List.map_map]
    rfl
  · rw [List.map_map]
    rfl
  · intro f hf
    obtain ⟨g, -, rfl⟩ := List.mem_map.1 hf
    rfl
  · rw [List.map_map]
    rfl
  · rw [List.map_map, List.map_map]
    exact List.map_congr_left fun e _ => optional_tightened mode e

end

/-- The object schema `z.object({ a: z.string().optional(), b: z.string().nullish(),
c: z.optional(z.string()), d: z.string().optional().describe('d') })`. -/
def looseObject : Schema :=
  .builder "object" [.object [
    ⟨"a", .method (.builder "string" []) "optional" []⟩,
    ⟨"b", .method (.builder "string" []) "nullish" []⟩,
    ⟨"c", .builder "optional" [.schema (.builder "string" [])]⟩,
    ⟨"d", .method (.method (.builder "string" []) "optional" []) "describe" [.literal "'d'"]⟩]]

/-- After `required` only the first property has to be there. -/
theorem partial_required_looseObject : ∃ strict : List SchemaField,
    (method looseObject "required" []).fields? .output = some strict ∧
      (strict.map fun f => (f.name, f.shape.text)) =
        [("a", "string"), ("b", "string | null"), ("c", "string"), ("d", "string")] ∧
      (strict.map fun f => f.shape.optional) = [false, true, true, true] := by
  obtain ⟨entries, loose, strict, hentries, -, hstrict, -, -, -, htexts, hoptional⟩ :=
    partial_required .output (s := looseObject) rfl
  cases hentries
  exact ⟨strict, hstrict, htexts, hoptional⟩

end IpcWiring.Schema
