import IpcWiring.Proofs.Schema.Grouping
import IpcWiring.Proofs.Schema.Properties

/-!
# The types of schemas

`Schema.type` makes of a schema the type that it describes, as a tree, by the same cases as
`Schema.shape` makes its text. Every constructor of types is written as the renderer writes it, so
the text is that of the tree (`renders_type`). How the text groups is then a question about trees:
it is read as the tree that is meant just if no part of an intersection is a union there
(`parse_shape`).
-/

namespace IpcWiring

open SchemaType (Everywhere IsLeaf IsKey isLeafToken)

/-! ## Types -/

/-- A rendered field with its type. -/
structure TypedField where
  field : SchemaField
  type : SchemaType

namespace TypedField

/-- The member of an object type. -/
def member (f : TypedField) : SchemaMember := ⟨f.field.name, f.field.shape.optional, f.type⟩

/-- Typed fields as properties. -/
def helpers : Helpers TypedField where
  name f := f.field.name
  relaxed f := { f with field := f.field.relaxed }
  tightened f := { f with field := f.field.tightened }

/-- The object type with these fields, or an unknown type. -/
def objectType : Option (List TypedField) → SchemaType
  | some fields => .object (fields.map member)
  | none => .leaf "unknown"

end TypedField

namespace Schema

/-- The union of types; the empty union is `never`. -/
def unionOf (options : List SchemaType) : SchemaType :=
  if options.isEmpty then .leaf "never" else .union options

mutual

/-- The type that a schema describes in `mode`, as a tree. -/
def type (mode : SchemaMode) : Schema → SchemaType
  | builder name args =>
    match constantText? name with
    | some text => .leaf text
    | none =>
      if objectBuilders.contains name then TypedField.objectType (typedProperties mode args)
      else match name, args with
        | "literal", .literal text :: _ => .leaf text
        | "enum", .array values :: _ => unionOf ((literals values).map .leaf)
        | "enum", _ => .leaf "string"
        | "array", args => .array (firstType mode args)
        | "union", .array options :: _ => unionOf (argTypes mode options)
        | "discriminatedUnion", _ :: .array options :: _ => unionOf (argTypes mode options)
        | "intersection", left :: rest => .intersection [argType mode left, firstType mode rest]
        | "intersection", [] => .intersection [.leaf "unknown", .leaf "unknown"]
        | "tuple", .array items :: _ => .tuple (argTypes mode items)
        | "tuple", _ => .array (.leaf "unknown")
        | "record", key :: value :: _ => .record (argType mode key) (argType mode value)
        | "record", args => .record (.leaf "string") (firstType mode args)
        | "optional", args => firstType mode args
        | "nullable", args => .union [firstType mode args, .leaf "null"]
        | _, _ => .leaf "unknown"
  | method receiver name args =>
    let inner := type mode receiver
    if objectHelpers.contains name then
      TypedField.objectType ((typedFields? mode receiver).bind
        (TypedField.helpers.reshape name (typedGiven mode args)))
    else match name with
      | "nullable" => .union [inner, .leaf "null"]
      | "nullish" => .union [inner, .leaf "null"]
      | "array" => .array inner
      | "or" => .union [inner, firstType mode args]
      | "and" => .intersection [inner, firstType mode args]
      | _ => inner
  | ref _ => .leaf "unknown"
  | unknown => .leaf "unknown"

/-- The typed fields of an object schema; none if it is no object schema. -/
def typedFields? (mode : SchemaMode) : Schema → Option (List TypedField)
  | builder name args =>
    if objectBuilders.contains name then typedProperties mode args else none
  | method receiver name args =>
    (typedFields? mode receiver).bind (TypedField.helpers.reshape name (typedGiven mode args))
  | ref _ => none
  | unknown => none

/-- The typed fields that the arguments of an object builder declare. -/
def typedProperties (mode : SchemaMode) : List SchemaArg → Option (List TypedField)
  | [] => some []
  | .object entries :: _ => some (typedEntries mode entries)
  | _ :: _ => none

/-- What the arguments of an object helper give it, as typed fields. -/
def typedGiven (mode : SchemaMode) : List SchemaArg → Given TypedField
  | [] => .absent
  | .object entries :: _ => .entries (typedEntries mode entries)
  | .schema s :: _ => .properties (typedFields? mode s)
  | _ :: _ => .other

/-- The typed fields that the properties of an object argument declare. -/
def typedEntries (mode : SchemaMode) : List SchemaEntry → List TypedField
  | [] => []
  | ⟨key, value⟩ :: rest => ⟨field mode ⟨key, value⟩, type mode value⟩ :: typedEntries mode rest

/-- The type of an argument. -/
def argType (mode : SchemaMode) : SchemaArg → SchemaType
  | .schema s => type mode s
  | .literal text => .leaf text
  | _ => .leaf "unknown"

/-- The type of the first argument; it is unknown if there is none. -/
def firstType (mode : SchemaMode) : List SchemaArg → SchemaType
  | [] => .leaf "unknown"
  | arg :: _ => argType mode arg

/-- The types of arguments. -/
def argTypes (mode : SchemaMode) : List SchemaArg → List SchemaType
  | [] => []
  | arg :: rest => argType mode arg :: argTypes mode rest

end

/-! ## Fields -/

section

variable (mode : SchemaMode)

/-- A field without its type is what the helpers know of it. -/
theorem maps_typedField : TypedField.helpers.Maps fieldHelpers TypedField.field where
  name _ := rfl
  relaxed _ := rfl
  tightened _ := rfl

/-- Typed fields are the fields that are rendered. -/
theorem entryFields_eq_typed (entries : List SchemaEntry) :
    entryFields mode entries = (typedEntries mode entries).map TypedField.field := by
  induction entries with
  | nil => rfl
  | cons e rest ih =>
    obtain ⟨key, value⟩ := e
    rw [entryFields, ih, typedEntries, List.map_cons]
    rfl

/-- The typed fields that are declared are the fields that are rendered. -/
theorem propertiesOf_eq_typed (args : List SchemaArg) :
    propertiesOf mode args = (typedProperties mode args).map (List.map TypedField.field) := by
  cases args with
  | nil => rfl
  | cons arg rest =>
    cases arg with
    | object entries => rw [propertiesOf, typedProperties, entryFields_eq_typed, Option.map_some]
    | schema | array | literal | other => rfl

mutual

/-- The typed fields of an object schema are the fields that are rendered. -/
theorem fields?_eq_typed :
    ∀ s, fields? mode s = (typedFields? mode s).map (List.map TypedField.field)
  | builder name args => by
    rw [fields?, typedFields?, propertiesOf_eq_typed]
    split <;> rfl
  | method receiver name args => by
    rw [fields?, typedFields?, fields?_eq_typed receiver]
    cases typedFields? mode receiver with
    | none => rfl
    | some base =>
      simp only [Option.map_some, Option.bind_some]
      rw [reshape_eq, patch_eq_typed args, maps_typedField.reshape]
  | ref _ | unknown => rfl

/-- An object helper is given the same fields. -/
theorem patch_eq_typed :
    ∀ args, (patch mode args).given = (typedGiven mode args).map TypedField.field
  | [] => rfl
  | .object entries :: _ => by
    simp only [patch, Patch.given, typedGiven, Given.map, entryFields_eq_typed]
  | .schema s :: _ => by
    simp only [patch, Patch.given, typedGiven, Given.map, fields?_eq_typed s]
  | .array _ :: _ | .literal _ :: _ | .other :: _ => rfl

end

end

end Schema

/-! ## Readable schemas -/

/-- The properties that an object helper is given. -/
def Given.all {α : Type} : Given α → List α
  | entries as => as
  | properties (some as) => as
  | _ => []

namespace Helpers

variable {α : Type} {h : Helpers α} {P : α → Prop}

/-- What holds of the properties put in their places holds of all that are there then. -/
theorem forall_mem_upsert {base : List α} {a : α} (hbase : ∀ b ∈ base, P b) (ha : P a) :
    ∀ b ∈ h.upsert base a, P b := by
  induction base with
  | nil => exact List.forall_mem_singleton.2 ha
  | cons b base ih =>
    obtain ⟨hb, hbase⟩ := List.forall_mem_cons.1 hbase
    rw [upsert]
    split
    · exact List.forall_mem_cons.2 ⟨ha, hbase⟩
    · exact List.forall_mem_cons.2 ⟨hb, ih hbase⟩

/-- What holds of the properties put in their places holds of all that are there then. -/
theorem forall_mem_foldl_upsert {base more : List α} (hbase : ∀ b ∈ base, P b)
    (hmore : ∀ a ∈ more, P a) : ∀ b ∈ more.foldl h.upsert base, P b := by
  induction more generalizing base with
  | nil => exact hbase
  | cons a more ih =>
    obtain ⟨ha, hmore⟩ := List.forall_mem_cons.1 hmore
    exact ih (forall_mem_upsert hbase ha) hmore

/-- What holds of the properties before a method holds of those after it, if it does not depend on
how optional they are. -/
theorem forall_mem_reshape (hrelaxed : ∀ {a}, P a → P (h.relaxed a))
    (htightened : ∀ {a}, P a → P (h.tightened a)) {method : String} {given : Given α}
    {base as : List α} (hgiven : ∀ a ∈ given.all, P a) (hbase : ∀ a ∈ base, P a)
    (has : h.reshape method given base = some as) : ∀ a ∈ as, P a := by
  unfold reshape at has
  split at has
  · cases has
    exact forall_mem_foldl_upsert hbase hgiven
  · obtain ⟨more, rfl, rfl⟩ := Option.map_eq_some_iff.1 has
    exact forall_mem_foldl_upsert hbase hgiven
  · obtain ⟨more, rfl, rfl⟩ := Option.map_eq_some_iff.1 has
    exact forall_mem_foldl_upsert hbase hgiven
  · cases has
    exact fun a ha => hbase a (List.mem_of_mem_filter ha)
  · cases has
    exact fun a ha => hbase a (List.mem_of_mem_filter ha)
  · cases has
    exact List.forall_mem_map.2 fun a ha => hrelaxed (hbase a ha)
  · cases has
    exact List.forall_mem_map.2 fun a ha => htightened (hbase a ha)
  · split at has
    · cases has
      exact hbase
    · cases has

end Helpers

namespace Schema

mutual

/-- The literals and keys in the schema can be read where they are rendered. -/
def Readable : Schema → Prop
  | builder _ args => ArgsReadable args
  | method receiver _ args => receiver.Readable ∧ ArgsReadable args
  | ref _ => True
  | unknown => True

/-- The literals and keys in an argument can be read. -/
def ArgReadable : SchemaArg → Prop
  | .schema s => s.Readable
  | .object entries => EntriesReadable entries
  | .array items => ArgsReadable items
  | .literal text => IsLeaf text
  | .other => True

/-- The literals and keys in arguments can be read. -/
def ArgsReadable : List SchemaArg → Prop
  | [] => True
  | arg :: rest => ArgReadable arg ∧ ArgsReadable rest

/-- The literals and keys in an object argument can be read. -/
def EntriesReadable : List SchemaEntry → Prop
  | [] => True
  | ⟨key, value⟩ :: rest => (IsKey key ∧ value.Readable) ∧ EntriesReadable rest

end

/-- Arguments can be read one by one. -/
theorem argsReadable_iff (args : List SchemaArg) :
    ArgsReadable args ↔ ∀ arg ∈ args, ArgReadable arg := by
  induction args with
  | nil => exact ⟨nofun, fun _ => trivial⟩
  | cons arg args ih => rw [ArgsReadable, ih, List.forall_mem_cons]

/-- The types of arguments are found one by one. -/
theorem argTypes_eq_map (mode : SchemaMode) (args : List SchemaArg) :
    argTypes mode args = args.map (argType mode) := by
  induction args with
  | nil => rfl
  | cons arg args ih => rw [argTypes, ih, List.map_cons]

end Schema

/-! ## Texts -/

/-- The text is that of the type, and the type can be read. -/
structure Renders (text : String) (t : SchemaType) : Prop where
  text : t.text = text
  readable : t.Readable

namespace Renders

variable {x y : String} {t u : SchemaType} {xs : List String} {ts : List SchemaType}

/-- A leaf is rendered as it is. -/
theorem leaf (h : IsLeaf x) : Renders x (.leaf x) := ⟨rfl, .intro h nofun⟩

/-- Types are rendered one by one. -/
theorem all (h : List.Forall₂ Renders xs ts) :
    ts.map SchemaType.text = xs ∧ ∀ t ∈ ts, t.Readable := by
  induction h with
  | nil => exact ⟨rfl, nofun⟩
  | cons ht _ ih =>
    exact ⟨by rw [List.map_cons, ht.text, ih.1], List.forall_mem_cons.2 ⟨ht.readable, ih.2⟩⟩

/-- An array is rendered as the array of what its elements are rendered as. -/
theorem array (h : Renders x t) : Renders (arrayOf x) (.array t) :=
  ⟨by rw [SchemaType.text, h.text], .intro trivial (List.forall_mem_singleton.2 h.readable)⟩

/-- A tuple is rendered as the tuple of what its items are rendered as. -/
theorem tuple (h : List.Forall₂ Renders xs ts) :
    Renders ("[" ++ Text.joinWith ", " xs ++ "]") (.tuple ts) := by
  obtain ⟨rfl, hreadable⟩ := all h
  exact ⟨by rw [SchemaType.text, SchemaType.texts_eq_map], .intro trivial hreadable⟩

/-- A record is rendered as the record of what its keys and values are rendered as. -/
theorem record (ht : Renders x t) (hu : Renders y u) :
    Renders ("Record<" ++ x ++ ", " ++ y ++ ">") (.record t u) :=
  ⟨by rw [SchemaType.text, ht.text, hu.text], .intro trivial
    (List.forall_mem_cons.2 ⟨ht.readable, List.forall_mem_singleton.2 hu.readable⟩)⟩

/-- A union of two is rendered with a mark between them. -/
theorem or (ht : Renders x t) (hu : Renders y u) : Renders (x ++ " | " ++ y) (.union [t, u]) := by
  obtain ⟨rfl, hreadable⟩ := ht
  obtain ⟨rfl, hreadable'⟩ := hu
  refine ⟨?_, .intro (List.cons_ne_nil t [u])
    (List.forall_mem_cons.2 ⟨hreadable, List.forall_mem_singleton.2 hreadable'⟩)⟩
  rw [SchemaType.text, SchemaType.texts_eq_map, SchemaType.joinWith_cons (List.cons_ne_nil u []),
    SchemaType.joinWith_single]

/-- An intersection of two is rendered with a mark between them. -/
theorem and (ht : Renders x t) (hu : Renders y u) :
    Renders (x ++ " & " ++ y) (.intersection [t, u]) := by
  obtain ⟨rfl, hreadable⟩ := ht
  obtain ⟨rfl, hreadable'⟩ := hu
  refine ⟨?_, .intro (List.cons_ne_nil t [u])
    (List.forall_mem_cons.2 ⟨hreadable, List.forall_mem_singleton.2 hreadable'⟩)⟩
  rw [SchemaType.text, SchemaType.texts_eq_map, SchemaType.joinWith_cons (List.cons_ne_nil u []),
    SchemaType.joinWith_single]

/-- Several alternatives are rendered with marks between them. -/
theorem unionOf (h : List.Forall₂ Renders xs ts) : Renders (unionText xs) (Schema.unionOf ts) := by
  obtain ⟨rfl, hreadable⟩ := all h
  cases ts with
  | nil => exact leaf (SchemaType.isLeaf_of_isTypeName (by decide))
  | cons t ts =>
    rw [Schema.unionOf, unionText, List.isEmpty_map, List.isEmpty_cons]
    refine ⟨?_, .intro (List.cons_ne_nil t ts) hreadable⟩
    rw [if_neg Bool.false_ne_true, if_neg Bool.false_ne_true, SchemaType.text,
      SchemaType.texts_eq_map]

/-- An unknown type can be read. -/
theorem unknown : Renders "unknown" (.leaf "unknown") :=
  leaf (SchemaType.isLeaf_of_isTypeName (by decide))

/-- The type of texts can be read. -/
theorem string : Renders "string" (.leaf "string") :=
  leaf (SchemaType.isLeaf_of_isTypeName (by decide))

/-- A union with `null` is rendered with `null` at the end. -/
theorem nullable (h : Renders x t) : Renders (x ++ " | null") (.union [t, .leaf "null"]) := by
  have hmark : x ++ " | null" = x ++ " | " ++ "null" := by
    rw [String.append_assoc]
    rfl
  rw [hmark]
  exact h.or (leaf (SchemaType.isLeaf_of_isTypeName (by decide)))

/-- A union with an unknown type is rendered with that at the end. -/
theorem or_unknown (h : Renders x t) :
    Renders (x ++ " | unknown") (.union [t, .leaf "unknown"]) := by
  have hmark : x ++ " | unknown" = x ++ " | " ++ "unknown" := by
    rw [String.append_assoc]
    rfl
  rw [hmark]
  exact h.or unknown

/-- An intersection with an unknown type is rendered with that at the end. -/
theorem and_unknown (h : Renders x t) :
    Renders (x ++ " & unknown") (.intersection [t, .leaf "unknown"]) := by
  have hmark : x ++ " & unknown" = x ++ " & " ++ "unknown" := by
    rw [String.append_assoc]
    rfl
  rw [hmark]
  exact h.and unknown

end Renders

/-- The key of the field can be read, and its text is that of its type. -/
structure TypedField.Good (f : TypedField) : Prop where
  key : IsKey f.field.name
  renders : Renders f.field.shape.text f.type

/-- An object type is rendered as the object type of its fields. -/
theorem Renders.object {fields : List TypedField} (h : ∀ f ∈ fields, f.Good) :
    Renders (SchemaField.objectText (fields.map TypedField.field))
      (.object (fields.map TypedField.member)) := by
  refine ⟨?_, .intro (List.forall_mem_map.2 fun f hf => (h f hf).key) ?_⟩
  · rw [SchemaType.text, SchemaType.memberTexts_eq_map, SchemaField.objectText, List.map_map,
      List.map_map]
    refine congrArg _ (List.map_congr_left fun f hf => ?_)
    have htext : f.type.text = f.field.shape.text := (h f hf).renders.text
    simp only [Function.comp_apply, TypedField.member, htext]
    rfl
  · rw [SchemaType.children, List.map_map]
    exact List.forall_mem_map.2 fun f hf => (h f hf).renders.readable

namespace Schema

/-- The texts of builders that take no account of their arguments are types. -/
theorem isLeaf_constant {name text : String} (h : constantText? name = some text) :
    IsLeaf text := by
  have hall : ∀ {names : List String}, names.all SchemaType.isTypeName = true →
      names.contains name = true → IsLeaf name := fun hnames hname =>
    SchemaType.isLeaf_of_isTypeName (List.all_eq_true.1 hnames name (List.contains_iff_mem.1 hname))
  unfold constantText? at h
  split at h
  · cases h
    exact SchemaType.isLeaf_of_isTypeName (by decide)
  split at h
  · cases h
    exact SchemaType.isLeaf_of_isTypeName (by decide)
  split at h
  · next hname =>
    cases h
    exact hall (by decide) hname
  split at h
  · cases h
    exact SchemaType.isLeaf_of_isTypeName (by decide)
  · cases h

section

variable {mode : SchemaMode}

/-- Typed fields are good if there are some. -/
def GoodFields (fields? : Option (List TypedField)) : Prop :=
  ∀ fields, fields? = some fields → ∀ f ∈ fields, f.Good

/-- Typed fields are rendered as an object type, or as an unknown type if there are none. -/
theorem renders_objectType {fields? : Option (List TypedField)} (h : GoodFields fields?) :
    Renders
      (match fields?.map (List.map TypedField.field) with
        | some fields => Shape.plain (SchemaField.objectText fields)
        | none => Shape.plain "unknown").text
      (TypedField.objectType fields?) := by
  cases fields? with
  | none => exact .unknown
  | some fields => exact .object (h fields rfl)

/-- What an argument is rendered as, in all its uses. -/
structure ArgRenders (mode : SchemaMode) (arg : SchemaArg) : Prop where
  renders : Renders (argText mode arg) (argType mode arg)
  items : ∀ {items}, arg = .array items →
    List.Forall₂ Renders (argTexts mode items) (argTypes mode items) ∧
      List.Forall₂ Renders (literals items) ((literals items).map .leaf)

/-- The type of the first argument, or an unknown type if there is none. -/
def firstText (mode : SchemaMode) : List SchemaArg → String
  | [] => "unknown"
  | arg :: _ => argText mode arg

/-- The first argument is rendered as its type. -/
theorem renders_firstType {args : List SchemaArg} (hargs : ∀ arg ∈ args, ArgRenders mode arg) :
    Renders (firstText mode args) (firstType mode args) := by
  cases args with
  | nil => exact .unknown
  | cons arg args => exact (hargs arg List.mem_cons_self).renders

/-- A builder of a constant type, of an object schema or of an unknown one is rendered as its
type. -/
theorem renders_of_not_mem {name : String} (hname : name ∉ typeBuilders) {args : List SchemaArg}
    (hfields : GoodFields (typedProperties mode args)) :
    Renders ((builder name args).shape mode).text ((builder name args).type mode) := by
  rw [shape_of_not_mem_typeBuilders hname]
  unfold type
  cases hconstant : constantText? name with
  | some text => exact .leaf (isLeaf_constant hconstant)
  | none =>
    dsimp only
    by_cases hobject : objectBuilders.contains name = true
    · rw [if_pos hobject, if_pos hobject, propertiesOf_eq_typed]
      exact renders_objectType hfields
    · rw [if_neg hobject, if_neg hobject]
      split <;> first | exact absurd (by decide) hname | exact .unknown

/-- A builder is rendered as its type if its arguments are. -/
theorem renders_builder (name : String) {args : List SchemaArg}
    (hargs : ∀ arg ∈ args, ArgRenders mode arg) (hfields : GoodFields (typedProperties mode args)) :
    Renders ((builder name args).shape mode).text ((builder name args).type mode) := by
  by_cases hname : name ∈ typeBuilders
  · have hfirst := renders_firstType hargs
    simp only [typeBuilders, List.mem_cons, List.not_mem_nil, or_false] at hname
    -- The builders come in the order of the list.
    rcases hname with rfl | rfl | rfl | rfl | rfl | rfl | rfl | rfl | rfl | rfl
    · match args with
      | .literal text :: _ => exact (hargs _ List.mem_cons_self).renders
      | [] | .schema _ :: _ | .object _ :: _ | .array _ :: _ | .other :: _ => exact .unknown
    · match args with
      | .array values :: _ => exact .unionOf ((hargs _ List.mem_cons_self).items rfl).2
      | [] | .schema _ :: _ | .object _ :: _ | .literal _ :: _ | .other :: _ => exact .string
    · match args with
      | [] => exact .array .unknown
      | arg :: _ => exact .array hfirst
    · match args with
      | .array options :: _ => exact .unionOf ((hargs _ List.mem_cons_self).items rfl).1
      | [] | .schema _ :: _ | .object _ :: _ | .literal _ :: _ | .other :: _ => exact .unknown
    · match args with
      | _ :: .array options :: _ =>
        exact .unionOf ((hargs _ (List.mem_cons_of_mem _ List.mem_cons_self)).items rfl).1
      | [] | [_] | _ :: .schema _ :: _ | _ :: .object _ :: _ | _ :: .literal _ :: _
      | _ :: .other :: _ => exact .unknown
    · match args with
      | [] => exact .and_unknown .unknown
      | [_] => exact .and_unknown hfirst
      | left :: right :: _ =>
        obtain ⟨hleft, hrest⟩ := List.forall_mem_cons.1 hargs
        exact .and hleft.renders (renders_firstType hrest)
    · match args with
      | .array items :: _ => exact .tuple ((hargs _ List.mem_cons_self).items rfl).1
      | [] | .schema _ :: _ | .object _ :: _ | .literal _ :: _ | .other :: _ =>
        exact .array .unknown
    · match args with
      | [] | [_] => exact .record .string hfirst
      | key :: value :: rest =>
        obtain ⟨hkey, hrest⟩ := List.forall_mem_cons.1 hargs
        exact .record hkey.renders (renders_firstType hrest)
    · cases args <;> exact hfirst
    · cases args <;> exact .nullable hfirst
  · exact renders_of_not_mem hname hfields

/-- Arguments are rendered one by one. -/
theorem rendersEach : ∀ {args : List SchemaArg}, (∀ arg ∈ args, ArgRenders mode arg) →
    List.Forall₂ Renders (argTexts mode args) (argTypes mode args)
  | [], _ => .nil
  | _ :: _, h =>
    .cons (h _ List.mem_cons_self).renders (rendersEach fun a ha => h a (List.mem_cons_of_mem _ ha))

/-- A method is rendered as its type if what it is called on and its argument are. -/
theorem renders_method {receiver : Schema} {name : String} {args : List SchemaArg}
    (hinner : Renders (receiver.shape mode).text (receiver.type mode))
    (hfirst : Renders (firstText mode args) (firstType mode args))
    (hfields : GoodFields (typedFields? mode (method receiver name args))) :
    Renders ((method receiver name args).shape mode).text
      ((method receiver name args).type mode) := by
  by_cases htype : name ∈ typeMethods
  · simp only [typeMethods, List.mem_cons, List.not_mem_nil, or_false] at htype
    rcases htype with rfl | rfl | rfl | rfl | rfl | rfl | rfl | rfl | rfl
    · cases args <;> exact hinner
    · cases args <;> exact hinner.nullable
    · cases args <;> exact hinner.nullable
    · cases args <;> exact hinner
    · cases args <;> exact hinner
    · cases args <;> exact hinner
    · cases args <;> exact hinner.array
    · match args with
      | [] => exact hinner.or_unknown
      | arg :: _ => exact hinner.or hfirst
    · match args with
      | [] => exact hinner.and_unknown
      | arg :: _ => exact hinner.and hfirst
  by_cases hobject : objectHelpers.contains name = true
  · rw [shape_objectHelper hobject, fields?_eq_typed]
    conv => rhs; unfold type
    rw [if_pos hobject]
    exact renders_objectType hfields
  · rw [shape_of_not_mem htype (mt List.contains_iff_mem.2 hobject)]
    unfold type
    rw [if_neg hobject]
    split <;> first | exact absurd (by decide) htype | exact hinner

/-- Typed fields stay good when they are reshaped. -/
theorem goodFields_reshape {base : Option (List TypedField)} (hbase : GoodFields base)
    (name : String) {given : Given TypedField} (hgiven : ∀ f ∈ given.all, f.Good) :
    GoodFields (base.bind (TypedField.helpers.reshape name given)) := by
  intro fields hfields
  obtain ⟨before, rfl, hreshape⟩ := Option.bind_eq_some_iff.1 hfields
  exact Helpers.forall_mem_reshape (fun h => ⟨h.key, h.renders⟩) (fun h => ⟨h.key, h.renders⟩)
    hgiven (hbase before rfl) hreshape

/-- Literals that can be read are rendered as they are. -/
theorem renders_literals : ∀ args : List SchemaArg, ArgsReadable args →
    List.Forall₂ Renders (literals args) ((literals args).map .leaf)
  | [], _ => .nil
  | .literal _ :: rest, h => .cons (.leaf h.1) (renders_literals rest h.2)
  | .schema _ :: rest, h | .object _ :: rest, h | .array _ :: rest, h | .other :: rest, h =>
    renders_literals rest h.2

end

section

variable (mode : SchemaMode)

mutual

/-- A schema whose literals and keys can be read is rendered as its type. -/
theorem renders_type : ∀ s : Schema, s.Readable → Renders (s.shape mode).text (s.type mode)
  | builder name args, h => renders_builder name (argRenders args h) (good_properties args h)
  | method receiver name args, h => renders_method (renders_type receiver h.1)
      (renders_firstType (argRenders args h.2))
      (goodFields_reshape (good_fields receiver h.1) name (good_given args h.2))
  | ref _, _ | unknown, _ => .unknown

/-- The typed fields of a readable schema are good. -/
theorem good_fields : ∀ s : Schema, s.Readable → GoodFields (typedFields? mode s)
  | builder name args, h => by
    rw [typedFields?]
    split
    · exact good_properties args h
    · nofun
  | method receiver name args, h =>
    goodFields_reshape (good_fields receiver h.1) name (good_given args h.2)
  | ref _, _ | unknown, _ => nofun

/-- The typed fields that readable arguments declare are good. -/
theorem good_properties : ∀ args, ArgsReadable args → GoodFields (typedProperties mode args)
  | [], _ => fun _ hfields => by
    cases hfields
    nofun
  | .object entries :: _, h => fun _ hfields => by
    cases hfields
    exact good_entries entries h.1
  | .schema _ :: _, _ | .array _ :: _, _ | .literal _ :: _, _ | .other :: _, _ => nofun

/-- The typed fields that readable arguments give an object helper are good. -/
theorem good_given : ∀ args, ArgsReadable args → ∀ f ∈ (typedGiven mode args).all, f.Good
  | [], _ => nofun
  | .object entries :: _, h => good_entries entries h.1
  | .schema s :: _, h => by
    have hfields := good_fields s h.1
    rw [typedGiven]
    cases hgiven : typedFields? mode s with
    | none => nofun
    | some fields => exact hfields fields hgiven
  | .array _ :: _, _ | .literal _ :: _, _ | .other :: _, _ => nofun

/-- The typed fields of readable properties are good. -/
theorem good_entries : ∀ entries, EntriesReadable entries → ∀ f ∈ typedEntries mode entries, f.Good
  | [], _ => nofun
  | ⟨_, value⟩ :: rest, h => List.forall_mem_cons.2
      ⟨⟨h.1.1, renders_type value h.1.2⟩, good_entries rest h.2⟩

/-- Readable arguments are rendered as their types. -/
theorem argRenders : ∀ args, ArgsReadable args → ∀ arg ∈ args, ArgRenders mode arg
  | [], _ => nofun
  | .schema s :: rest, h => List.forall_mem_cons.2
      ⟨⟨renders_type s h.1, nofun⟩, argRenders rest h.2⟩
  | .literal _ :: rest, h => List.forall_mem_cons.2
      ⟨⟨.leaf h.1, nofun⟩, argRenders rest h.2⟩
  | .array items :: rest, h => List.forall_mem_cons.2
      ⟨⟨.unknown, fun hitems => by
        cases hitems
        exact ⟨rendersEach (argRenders items h.1), renders_literals items h.1⟩⟩,
        argRenders rest h.2⟩
  | .object _ :: rest, h | .other :: rest, h => List.forall_mem_cons.2
      ⟨⟨.unknown, nofun⟩, argRenders rest h.2⟩

end

variable {s : Schema}

/-- The text of a readable schema is read as its type regrouped by precedence. -/
theorem parse_text_shape (h : s.Readable) :
    SchemaType.parse (s.shape mode).text = some (s.type mode).regrouped := by
  obtain ⟨htext, hreadable⟩ := renders_type mode s h
  rw [← htext]
  exact SchemaType.parse_readable hreadable

/-- The text of a schema is read as its type regrouped by precedence. That is the type that is meant
just if no part of an intersection is a union there. -/
theorem parse_shape (h : s.Readable) :
    SchemaType.parse (s.shape mode).text = some (s.type mode).regrouped ∧
      ((s.type mode).regrouped = (s.type mode).flat ↔ (s.type mode).flat.Grouped) :=
  ⟨parse_text_shape mode h, SchemaType.regrouped_eq_flat_iff (renders_type mode s h).readable⟩

end

/-- The schema `z.union([z.object({ id: z.string() }), z.object({ 'e-mail': z.string() })])
.and(z.array(z.enum(['a', 'b'])))`. -/
def contact : Schema :=
  .method (.builder "union" [.array [
      .schema (.builder "object" [.object [⟨"id", .builder "string" []⟩]]),
      .schema (.builder "object" [.object [⟨"e-mail", .builder "string" []⟩]])]])
    "and" [.schema (.builder "array" [
      .schema (.builder "enum" [.array [.literal "'a'", .literal "'b'"]])])]

/-- The array stays outside of its union, and the `&` tears the other union apart. -/
theorem parse_shape_contact : contact.Readable ∧
    SchemaType.parse (contact.shape .output).text = some (.union [
      .object [⟨"id", false, .leaf "string"⟩],
      .intersection [.object [⟨"e-mail", false, .leaf "string"⟩],
        .array (.union [.leaf "'a'", .leaf "'b'"])]]) ∧
    (contact.type .output).regrouped ≠ (contact.type .output).flat := by
  have hreadable : contact.Readable := by
    simp only [contact, Readable, ArgsReadable, ArgReadable, EntriesReadable, and_true]
    exact ⟨⟨SchemaType.isKey_word (w := ⟨'i', ['d'], by decide, by decide⟩) (by decide),
      SchemaType.isKey_quoted (by decide) (by simp)⟩,
      SchemaType.isLeaf_quoted ⟨false, ['a'], by simp⟩,
      SchemaType.isLeaf_quoted ⟨false, ['b'], by simp⟩⟩
  obtain ⟨hparse, hiff⟩ := parse_shape .output hreadable
  refine ⟨hreadable, hparse.trans rfl, fun heq => ?_⟩
  exact (hiff.1 heq).here _ rfl _ List.mem_cons_self trivial

end Schema

end IpcWiring
