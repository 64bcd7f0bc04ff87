import IpcWiring.Schema.Shape

/-!
# Properties of object schemas

An object helper can be told what it does to expressions or to what they are rendered as. On
expressions, `partial` puts an `optional` call around every property and `required` takes the outer
ones off (`Schema.properties?`); `Schema.fields?` does the same to rendered fields. Both are the
helpers' work on some kind of property (`Helpers.reshape`), and rendering keeps what the helpers
know of a property (`Helpers.Maps`), so the fields are the properties rendered one by one
(`fields?_eq`).
An object schema is rendered as the object type of these fields (`shape_eq`), by induction on the
chain of methods: all that does not reshape it and keeps its properties is without effect.
-/

namespace IpcWiring

/-! ## Helpers on any kind of property -/

/-- What the object helpers need to know of a kind of property. -/
structure Helpers (α : Type) where
  name : α → String
  /-- The property as an outer `optional` call makes it. -/
  relaxed : α → α
  /-- The property without its outer `optional` calls. -/
  tightened : α → α

/-- What the first argument of an object helper gives it. -/
inductive Given (α : Type) where
  | absent
  | entries (properties : List α)
  | properties (properties? : Option (List α))
  | other

/-- Applies a function to each property that is given. -/
def Given.map {α β : Type} (f : α → β) : Given α → Given β
  | absent => .absent
  | entries as => .entries (as.map f)
  | properties as? => .properties (as?.map (List.map f))
  | other => .other

/-- The methods that leave the properties of an object schema as they are. -/
def neutralMethods : List String :=
  ["strict", "passthrough", "strip", "describe", "refine", "superRefine", "check", "meta"]

namespace Helpers

variable {α β : Type} {h : Helpers α} {h' : Helpers β} {f : α → β}

/-- Puts a property in the place of the first one of its name, or at the end. -/
def upsert (h : Helpers α) (as : List α) (a : α) : List α :=
  match as with
  | [] => [a]
  | b :: rest => if h.name b = h.name a then a :: rest else b :: h.upsert rest a

/-- The properties after a method on an object schema, or none if the result is no object schema
that can be listed. -/
def reshape (h : Helpers α) (method : String) (given : Given α) (base : List α) :
    Option (List α) :=
  match method, given with
  | "extend", .entries more => some (more.foldl h.upsert base)
  | "extend", .properties more? => more?.map (·.foldl h.upsert base)
  | "merge", .properties more? => more?.map (·.foldl h.upsert base)
  | "pick", .entries keys => some (base.filter fun a => keys.any (h.name · == h.name a))
  | "omit", .entries keys => some (base.filter fun a => !keys.any (h.name · == h.name a))
  | "partial", .absent => some (base.map h.relaxed)
  | "required", .absent => some (base.map h.tightened)
  | name, _ => if neutralMethods.contains name then some base else none

/-- The methods that reshape, one by one. -/
theorem mem_objectHelpers {method : String} : method ∈ Schema.objectHelpers ↔
    method = "extend" ∨ method = "merge" ∨ method = "pick" ∨ method = "omit" ∨
      method = "partial" ∨ method = "required" := by
  simp only [Schema.objectHelpers, List.mem_cons, List.not_mem_nil, or_false]

/-- A method that is no object helper leaves the properties as they are, or none can be listed. -/
theorem reshape_of_not_mem {method : String} (hm : method ∉ Schema.objectHelpers)
    (given : Given α) (base : List α) : h.reshape method given base =
      if neutralMethods.contains method then some base else none := by
  unfold reshape
  split <;> first | rfl | exact absurd (by decide) hm

/-! ## Functions between kinds of properties -/

/-- A function keeps what the helpers know of a property. -/
structure Maps (h : Helpers α) (h' : Helpers β) (f : α → β) : Prop where
  name : ∀ a, h'.name (f a) = h.name a
  relaxed : ∀ a, h'.relaxed (f a) = f (h.relaxed a)
  tightened : ∀ a, h'.tightened (f a) = f (h.tightened a)

namespace Maps

variable (hf : h.Maps h' f)

include hf

/-- A property is put in the same place. -/
theorem upsert (as : List α) (a : α) :
    h'.upsert (as.map f) (f a) = (h.upsert as a).map f := by
  induction as with
  | nil => rfl
  | cons b as ih =>
    simp only [List.map_cons, Helpers.upsert, hf.name, ih]
    split <;> rfl

/-- Properties are put in the same places. -/
theorem foldl_upsert (base more : List α) :
    (more.map f).foldl h'.upsert (base.map f) = (more.foldl h.upsert base).map f := by
  induction more generalizing base with
  | nil => rfl
  | cons a more ih => rw [List.map_cons, List.foldl_cons, hf.upsert, ih, List.foldl_cons]

/-- A method does the same to properties of both kinds. -/
theorem reshape (method : String) (given : Given α) (base : List α) :
    h'.reshape method (given.map f) (base.map f) =
      (h.reshape method given base).map (List.map f) := by
  by_cases hm : method ∈ Schema.objectHelpers
  · rcases mem_objectHelpers.1 hm with rfl | rfl | rfl | rfl | rfl | rfl <;> cases given <;>
      simp [Helpers.reshape, Given.map, neutralMethods, hf.foldl_upsert, hf.name, hf.relaxed,
        hf.tightened, Function.comp_def, List.filter_map]
  · rw [reshape_of_not_mem hm, reshape_of_not_mem hm]
    split <;> rfl

end Maps

end Helpers

namespace Schema

/-! ## Fields -/

/-- Rendered fields as properties. -/
def fieldHelpers : Helpers SchemaField where
  name f := f.name
  relaxed := SchemaField.relaxed
  tightened := SchemaField.tightened

/-- What an object helper is given, as fields. -/
def Patch.given : Patch → Given SchemaField
  | absent => .absent
  | .entries more => .entries more
  | .fields more? => .properties more?
  | other => .other

/-- Fields are put in their places like properties of any kind. -/
theorem upsert_eq : SchemaField.upsert = fieldHelpers.upsert := by
  funext fields f
  induction fields with
  | nil => rfl
  | cons g fields ih =>
    rw [SchemaField.upsert, Helpers.upsert, ih]
    rfl

/-- Fields are reshaped like properties of any kind. -/
theorem reshape_eq (name : String) (patch : Patch) (base : List SchemaField) :
    reshape name patch base = fieldHelpers.reshape name patch.given base := by
  by_cases hname : name ∈ objectHelpers
  · rcases Helpers.mem_objectHelpers.1 hname with rfl | rfl | rfl | rfl | rfl | rfl <;>
      cases patch <;> (simp only [reshape, upsert_eq]; rfl)
  · rw [Helpers.reshape_of_not_mem hname]
    unfold reshape
    split <;> first | rfl | exact absurd (by decide) hname

/-! ## Properties -/

/-- The schema without its outer `optional` calls. -/
def withoutOptional : Schema → Schema
  | method receiver "optional" _ => receiver.withoutOptional
  | s => s

/-- Schemas under their keys as properties. -/
def entryHelpers : Helpers SchemaEntry where
  name e := e.key
  relaxed e := ⟨e.key, .method e.value "optional" []⟩
  tightened e := ⟨e.key, e.value.withoutOptional⟩

/-- The properties that the arguments of an object builder declare. -/
def declared? : List SchemaArg → Option (List SchemaEntry)
  | [] => some []
  | .object entries :: _ => some entries
  | _ :: _ => none

mutual

/-- The properties of an object schema, in order; none if it is no object schema. -/
def properties? : Schema → Option (List SchemaEntry)
  | builder name args => if objectBuilders.contains name then declared? args else none
  | method receiver name args =>
    (properties? receiver).bind (entryHelpers.reshape name (given args))
  | ref _ => none
  | unknown => none

/-- What the arguments of an object helper give it. -/
def given : List SchemaArg → Given SchemaEntry
  | [] => .absent
  | .object entries :: _ => .entries entries
  | .schema s :: _ => .properties (properties? s)
  | _ :: _ => .other

end

/-- The field that a property is rendered as. -/
def field (mode : SchemaMode) (e : SchemaEntry) : SchemaField := ⟨e.key, e.value.shape mode⟩

/-! ## Rendering property by property -/

section

variable (mode : SchemaMode) (name : String) (args : List SchemaArg)

/-- The optionality of a builder lasts. -/
theorem lasting_builder : ((builder name args).shape mode).lasting =
    ((builder name args).shape mode).optional := by
  unfold shape
  split
  · rfl
  · split
    · split <;> rfl
    · split <;> rfl

variable {name} in
/-- The optionality of a method lasts, unless the method is `optional`. -/
theorem lasting_method (h : name ≠ "optional") (receiver : Schema) :
    ((method receiver name args).shape mode).lasting =
      ((method receiver name args).shape mode).optional := by
  unfold shape
  dsimp only
  split
  · split <;> rfl
  · split <;> first | rfl | exact absurd rfl h

/-- Without its outer `optional` calls, a schema is as optional as it lasts to be. -/
theorem shape_withoutOptional (s : Schema) : s.withoutOptional.shape mode =
    { s.shape mode with optional := (s.shape mode).lasting } := by
  fun_induction withoutOptional s with
  | case1 receiver args ih =>
    rw [ih]
    rfl
  | case2 s hs =>
    have hlasting : (s.shape mode).lasting = (s.shape mode).optional := by
      cases s with
      | builder name args => exact lasting_builder mode name args
      | method receiver name args =>
        exact lasting_method mode args (fun hname => hs receiver args (by rw [hname])) receiver
      | ref | unknown => rfl
    rw [hlasting]

/-- Rendering keeps what the helpers know of a property. -/
theorem maps_field : entryHelpers.Maps fieldHelpers (field mode) where
  name _ := rfl
  relaxed _ := rfl
  tightened e := by
    simp only [fieldHelpers, entryHelpers, field, SchemaField.tightened, shape_withoutOptional]

/-- The properties of an object argument are rendered one by one. -/
theorem entryFields_eq_map (entries : List SchemaEntry) :
    entryFields mode entries = entries.map (field mode) := by
  induction entries with
  | nil => rfl
  | cons e rest ih =>
    obtain ⟨key, value⟩ := e
    rw [entryFields, ih, List.map_cons]
    rfl

/-- The properties that are declared are rendered one by one. -/
theorem propertiesOf_eq_declared :
    propertiesOf mode args = (declared? args).map (List.map (field mode)) := by
  cases args with
  | nil => rfl
  | cons arg rest =>
    cases arg with
    | object entries => rw [propertiesOf, declared?, entryFields_eq_map, Option.map_some]
    | schema | array | literal | other => rfl

mutual

/-- The fields of an object schema are its properties, rendered one by one. -/
theorem fields?_eq : ∀ s, fields? mode s = (properties? s).map (List.map (field mode))
  | builder name args => by
    rw [fields?, properties?, propertiesOf_eq_declared]
    split <;> rfl
  | method receiver name args => by
    rw [fields?, properties?, fields?_eq receiver]
    cases properties? receiver with
    | none => rfl
    | some base =>
      simp only [Option.map_some, Option.bind_some]
      rw [reshape_eq, given_patch args, (maps_field mode).reshape]
  | ref _ | unknown => rfl

/-- An object helper is given the fields of the properties that it is given. -/
theorem given_patch : ∀ args, (patch mode args).given = (given args).map (field mode)
  | [] => rfl
  | .object entries :: _ => by simp only [patch, Patch.given, given, Given.map, entryFields_eq_map]
  | .schema s :: _ => by simp only [patch, Patch.given, given, Given.map, fields?_eq s]
  | .array _ :: _ | .literal _ :: _ | .other :: _ => rfl

end

end

/-! ## Nested object schemas -/

/-- The methods that change the type of any schema, or how optional it is. -/
def typeMethods : List String :=
  ["optional", "nullable", "nullish", "default", "catch", "prefault", "array", "or", "and"]

section

variable {mode : SchemaMode} {name : String}

/-- A method that is not known leaves the type as it is. -/
theorem shape_of_not_mem (htype : name ∉ typeMethods) (hobject : name ∉ objectHelpers)
    (receiver : Schema) (args : List SchemaArg) : (method receiver name args).shape mode =
      .of (receiver.shape mode).text (receiver.shape mode).optional := by
  conv => lhs; unfold shape
  rw [← List.contains_iff_mem] at hobject
  rw [if_neg hobject]
  split <;> first | rfl | exact absurd (by decide) htype

/-- A method that leaves the properties as they are leaves the type as it is. -/
theorem shape_neutral (h : neutralMethods.contains name = true) (receiver : Schema)
    (args : List SchemaArg) : (method receiver name args).shape mode =
      .of (receiver.shape mode).text (receiver.shape mode).optional := by
  have hnone : neutralMethods.all (fun m => !(typeMethods ++ objectHelpers).contains m) = true := by
    decide
  have hname := List.all_eq_true.1 hnone name (List.contains_iff_mem.1 h)
  rw [Bool.not_eq_true', ← Bool.not_eq_true, List.contains_iff_mem, List.mem_append,
    not_or] at hname
  exact shape_of_not_mem hname.1 hname.2 receiver args

/-- The builders that take account of their arguments, other than those of object schemas. -/
def typeBuilders : List String :=
  ["literal", "enum", "array", "union", "discriminatedUnion", "intersection", "tuple", "record",
    "optional", "nullable"]

/-- A builder that takes no account of its arguments has a constant type or an unknown one. -/
theorem shape_of_not_mem_typeBuilders (hname : name ∉ typeBuilders) (args : List SchemaArg) :
    (builder name args).shape mode =
      match constantText? name with
      | some text => .plain text
      | none =>
        if objectBuilders.contains name then
          match propertiesOf mode args with
          | some fields => .plain (SchemaField.objectText fields)
          | none => .plain "unknown"
        else .plain "unknown" := by
  unfold shape
  cases constantText? name with
  | some text => rfl
  | none =>
    dsimp only
    split
    · rfl
    · split <;> first | rfl | exact absurd (by decide) hname

/-- The builders of object schemas take account of their arguments. -/
theorem shape_objectBuilder (h : objectBuilders.contains name = true) (args : List SchemaArg) :
    (builder name args).shape mode =
      match propertiesOf mode args with
      | some fields => .plain (SchemaField.objectText fields)
      | none => .plain "unknown" := by
  rw [List.contains_iff_mem] at h
  simp only [objectBuilders, List.mem_cons, List.not_mem_nil, or_false] at h
  rcases h with rfl | rfl | rfl <;> rfl

/-- An object helper leaves an object type, or none that is known. -/
theorem shape_objectHelper (h : objectHelpers.contains name = true) (receiver : Schema)
    (args : List SchemaArg) : (method receiver name args).shape mode =
      match fields? mode (method receiver name args) with
      | some fields => .plain (SchemaField.objectText fields)
      | none => .plain "unknown" := by
  unfold shape
  exact if_pos h

/-- An object schema is rendered as the object type of its properties. -/
theorem shape_eq : ∀ {s : Schema} {entries : List SchemaEntry}, properties? s = some entries →
    s.shape mode = .plain (SchemaField.objectText (entries.map (field mode)))
  | builder name args, entries, h => by
    rw [properties?] at h
    split at h
    · next hname => rw [shape_objectBuilder hname, propertiesOf_eq_declared, h, Option.map_some]
    · cases h
  | method receiver name args, entries, h => by
    by_cases hname : objectHelpers.contains name = true
    · rw [shape_objectHelper hname, fields?_eq, h, Option.map_some]
    · -- What is no helper and still gives an object schema has left the receiver as it is.
      rw [properties?, Option.bind_eq_some_iff] at h
      obtain ⟨base, hbase, h⟩ := h
      rw [Helpers.reshape_of_not_mem fun hmem => hname (List.contains_iff_mem.2 hmem)] at h
      split at h
      · next hneutral =>
        cases h
        rw [shape_neutral hneutral, shape_eq hbase]
        rfl
      · cases h

end

/-- The flat fields of an object schema are those that its nested type is printed from: its
properties, rendered one by one. -/
theorem flat_eq_nested (mode : SchemaMode) (s : Schema) :
    s.fields? mode = (properties? s).map (List.map (field mode)) ∧
      ∀ entries, properties? s = some entries →
        (s.shape mode).optional = false ∧
          (s.shape mode).text = SchemaField.objectText (entries.map (field mode)) := by
  refine ⟨fields?_eq mode s, fun entries h => ?_⟩
  rw [shape_eq h]
  exact ⟨rfl, rfl⟩

/-- The schema `z.object({ id: z.string(), nick: z.string() }).extend({ role: z.enum(['a', 'b']) })
.omit({ id: true }).partial().strict()`. -/
def account : Schema :=
  .method (.method (.method (.method (.builder "object" [.object [
      ⟨"id", .builder "string" []⟩, ⟨"nick", .builder "string" []⟩]])
    "extend" [.object [⟨"role", .builder "enum" [.array [.literal "'a'", .literal "'b'"]]⟩]])
    "omit" [.object [⟨"id", .unknown⟩]])
    "partial" []) "strict" []

/-- Both of its renderings. -/
theorem flat_eq_nested_account : ∃ entries, properties? account = some entries ∧
    account.fields? .output =
      some [⟨"nick", ⟨"string", true, false⟩⟩, ⟨"role", ⟨"'a' | 'b'", true, false⟩⟩] ∧
    (account.shape .output).optional = false ∧
    (account.shape .output).text = "\x7b nick?: string; role?: 'a' | 'b' \x7d" := by
  obtain ⟨hfields, hnested⟩ := flat_eq_nested .output account
  obtain ⟨hoptional, htext⟩ := hnested _ rfl
  exact ⟨_, rfl, hfields.trans rfl, hoptional, htext.trans (by decide +kernel)⟩

end Schema

end IpcWiring
