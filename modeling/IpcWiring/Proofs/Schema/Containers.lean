import IpcWiring.Proofs.Schema.Optionality
import IpcWiring.Proofs.Schema.Typing

/-!
# Optional schemas in containers

Where a schema stands in a `Container`, which is a place that is no property of an object, its text
goes into the text around it and its optionality goes nowhere. Every schema has a required one with
the same text (`asRequired`), and the text around that place is read to the same type whichever of
the two stands there (`parse_plug`). So `undefined` is among what is described there only if the
required schema describes it.
-/

namespace IpcWiring.Schema

open SchemaType (unite)

/-! ## Required schemas -/

/-- The methods that say how optional a schema is and leave its text as it is. -/
def optionalityMethods : List String := "optional" :: defaultingMethods

/-- The schema that an argument is rendered as. -/
def ofArg : SchemaArg → Schema
  | .schema s => s
  | .literal text => .builder "literal" [.literal text]
  | _ => .unknown

/-- The schema without all that makes it optional. -/
def asRequired : Schema → Schema
  | builder "optional" (.schema s :: _) => s.asRequired
  | builder "optional" (arg :: _) => ofArg arg
  | builder "optional" [] => .unknown
  | builder name args => .builder name args
  | method receiver name args =>
    if optionalityMethods.contains name then receiver.asRequired
    else if name == "nullish" then .method receiver.asRequired "nullable" args
    else if name == "array" || objectHelpers.contains name then .method receiver name args
    else .method receiver.asRequired name args
  | s => s

section

variable (mode : SchemaMode)

/-- A method other than the object helpers makes its text of the text before. -/
theorem text_method_congr {s s' : Schema} (h : (s.shape mode).text = (s'.shape mode).text)
    {name : String} (hname : name ∉ objectHelpers) (args : List SchemaArg) :
    ((method s name args).shape mode).text = ((method s' name args).shape mode).text := by
  by_cases htype : name ∈ typeMethods
  · simp only [typeMethods, List.mem_cons, List.not_mem_nil, or_false] at htype
    rcases htype with rfl | rfl | rfl | rfl | rfl | rfl | rfl | rfl | rfl
    · exact h
    · exact congrArg (· ++ " | null") h
    · exact congrArg (· ++ " | null") h
    · exact h
    · exact h
    · exact h
    · exact congrArg arrayOf h
    · cases args with
      | nil => exact congrArg (· ++ " | unknown") h
      | cons arg _ => exact congrArg (· ++ " | " ++ argText mode arg) h
    · cases args with
      | nil => exact congrArg (· ++ " & unknown") h
      | cons arg _ => exact congrArg (· ++ " & " ++ argText mode arg) h
  · rw [shape_of_not_mem htype hname, shape_of_not_mem htype hname]
    exact h

/-- The required schema has the same text. -/
theorem text_asRequired (s : Schema) :
    (s.asRequired.shape mode).text = (s.shape mode).text := by
  fun_induction asRequired s with
  | case1 s args ih => exact ih
  | case2 arg args hs =>
    cases arg with
    | schema s => exact (hs s rfl).elim
    | object | array | literal | other => rfl
  | case3 | case4 => rfl
  | case5 receiver name args h ih =>
    rw [ih]
    simp only [optionalityMethods, defaultingMethods, List.contains_iff_mem, List.mem_cons,
      List.not_mem_nil, or_false] at h
    rcases h with rfl | rfl | rfl | rfl <;> rfl
  | case6 receiver name args h hnullish ih =>
    obtain rfl := beq_iff_eq.1 hnullish
    exact congrArg (· ++ " | null") ih
  | case7 => rfl
  | case8 receiver name args h hnullish hother ih =>
    rw [Bool.or_eq_true, not_or, List.contains_iff_mem] at hother
    exact text_method_congr mode ih hother.2 args
  | case9 => rfl

/-- A method without a say in it leaves the schema as optional as before, or makes it required. -/
theorem isOptional_of_not {name : String} (h : ¬ optionalityMethods.contains name = true)
    (hnullish : ¬ (name == "nullish") = true) (receiver : Schema) (args : List SchemaArg) :
    (method receiver name args).isOptional mode =
      if name == "array" || objectHelpers.contains name then false
      else receiver.isOptional mode := by
  rw [List.contains_iff_mem, optionalityMethods, List.mem_cons, not_or] at h
  obtain ⟨hoptional, hdefaulting⟩ := h
  have hloosening : ¬ looseningMethods.contains name = true := by
    rw [List.contains_iff_mem, looseningMethods, List.mem_pair, not_or]
    exact ⟨hoptional, mt beq_iff_eq.2 hnullish⟩
  rw [isOptional, if_neg hloosening, if_neg (mt List.contains_iff_mem.1 hdefaulting)]

/-- The required schema is not optional. -/
theorem isOptional_asRequired (s : Schema) : s.asRequired.isOptional mode = false := by
  fun_induction asRequired s with
  | case1 s args ih => exact ih
  | case2 arg args hs =>
    cases arg with
    | schema s => exact (hs s rfl).elim
    | object | array | literal | other => rfl
  | case3 => rfl
  | case4 name args hschema harg hnil =>
    refine beq_eq_false_iff_ne.2 fun hname => ?_
    cases args with
    | nil => exact hnil hname rfl
    | cons arg args => exact harg arg args hname rfl
  | case5 receiver name args h ih => exact ih
  | case6 receiver name args h hnullish ih => exact ih
  | case7 receiver name args h hnullish hother =>
    rw [isOptional_of_not mode h hnullish, if_pos hother]
  | case8 receiver name args h hnullish hother ih =>
    rw [isOptional_of_not mode h hnullish, if_neg hother]
    exact ih
  | case9 s _ _ _ hbuilder hmethod =>
    cases s with
    | ref | unknown => rfl
    | builder name args => exact (hbuilder name args rfl).elim
    | method receiver name args => exact (hmethod receiver name args rfl).elim

end

/-! ## Containers -/

/-- A place in a schema where another one stands that is no property of an object. -/
inductive Container where
  /-- `z.array(_)` -/
  | element (more : List SchemaArg)
  /-- `_.array()` -/
  | repeated (args : List SchemaArg)
  /-- `z.tuple([.., _, ..])` -/
  | item (before after more : List SchemaArg)
  /-- `z.union([.., _, ..])` -/
  | option (before after more : List SchemaArg)
  /-- `z.discriminatedUnion(key, [.., _, ..])` -/
  | tagged (key : SchemaArg) (before after more : List SchemaArg)
  /-- `_.or(operand)` -/
  | first (args : List SchemaArg)
  /-- `operand.or(_)` -/
  | second (operand : Schema) (more : List SchemaArg)
  /-- `z.record(_)` -/
  | value
  /-- `z.record(key, _)` -/
  | valueOf (key : SchemaArg) (more : List SchemaArg)
  /-- `z.nullable(_)` -/
  | nullable (more : List SchemaArg)

namespace Container

/-- The schema with another one in its place. -/
def plug (s : Schema) : Container → Schema
  | element more => .builder "array" (.schema s :: more)
  | repeated args => .method s "array" args
  | item before after more => .builder "tuple" (.array (before ++ .schema s :: after) :: more)
  | option before after more => .builder "union" (.array (before ++ .schema s :: after) :: more)
  | tagged key before after more =>
    .builder "discriminatedUnion" (key :: .array (before ++ .schema s :: after) :: more)
  | first args => .method s "or" args
  | second operand more => .method operand "or" (.schema s :: more)
  | value => .builder "record" [.schema s]
  | valueOf key more => .builder "record" (key :: .schema s :: more)
  | nullable more => .builder "nullable" (.schema s :: more)

/-- The types of arguments, as they are written. -/
def written (mode : SchemaMode) (args : List SchemaArg) : List SchemaType :=
  args.map fun arg => (argType mode arg).regrouped

/-- The type with another one in its place, as it is written. -/
def wrap (mode : SchemaMode) (t : SchemaType) : Container → SchemaType
  | element _ => .array t
  | repeated _ => .array t
  | item before after _ => .tuple (written mode before ++ t :: written mode after)
  | option before after _ => unite (written mode before ++ t :: written mode after)
  | tagged _ before after _ => unite (written mode before ++ t :: written mode after)
  | first args => unite [t, (firstType mode args).regrouped]
  | second operand _ => unite [(operand.type mode).regrouped, t]
  | value => .record (.leaf "string") t
  | valueOf key _ => .record (argType mode key).regrouped t
  | nullable _ => unite [t, .leaf "null"]

section

variable (mode : SchemaMode)

/-- The types of arguments with one among them, as they are written. -/
theorem settleAll_argTypes (before after : List SchemaArg) (s : Schema) :
    SchemaType.settleAll SchemaType.join (argTypes mode (before ++ .schema s :: after)) =
      written mode before ++ (s.type mode).regrouped :: written mode after := by
  rw [SchemaType.settleAll_eq_map, argTypes_eq_map, List.map_map, List.map_append, List.map_cons]
  rfl

/-- The union of some types with one among them, as it is written. -/
theorem regrouped_unionOf (before after : List SchemaArg) (s : Schema) :
    (unionOf (argTypes mode (before ++ .schema s :: after))).regrouped =
      unite (written mode before ++ (s.type mode).regrouped :: written mode after) := by
  have hsome : (argTypes mode (before ++ .schema s :: after)).isEmpty = false := by
    rw [argTypes_eq_map, List.isEmpty_map]
    exact List.isEmpty_eq_false_iff.2 (List.append_ne_nil_of_right_ne_nil before (by simp))
  rw [unionOf, hsome, if_neg Bool.false_ne_true, ← settleAll_argTypes]
  rfl

/-- The type of the whole is the type of the part with the rest around it. -/
theorem type_plug (k : Container) (s : Schema) :
    ((k.plug s).type mode).regrouped = k.wrap mode (s.type mode).regrouped := by
  cases k with
  | element | repeated | first | second | value | valueOf | nullable => rfl
  | item before after more =>
    rw [wrap, ← settleAll_argTypes]
    rfl
  | option before after more => exact regrouped_unionOf mode before after s
  | tagged key before after more => exact regrouped_unionOf mode before after s

/-- The part of a readable schema is readable. -/
theorem readable_of_plug {k : Container} {s : Schema} (h : (k.plug s).Readable) : s.Readable := by
  have hmem : ∀ {before after : List SchemaArg}, ArgsReadable (before ++ .schema s :: after) →
      s.Readable := fun {before after} hargs => (argsReadable_iff _).1 hargs (.schema s)
    (List.mem_append_right before List.mem_cons_self)
  cases k with
  | element | repeated | first | value | nullable => exact h.1
  | second | valueOf => exact h.2.1
  | item | option => exact hmem h.1
  | tagged => exact hmem h.2.1

end

end Container

/-- What is read at the place of a schema in a container is what is read from the schema itself, and
that is the same for a required schema: that the schema is optional is not to be seen there. -/
theorem parse_plug (mode : SchemaMode) {k : Container} {s : Schema} (h : (k.plug s).Readable) :
    ∃ t, SchemaType.parse (s.shape mode).text = some t ∧
      SchemaType.parse ((k.plug s).shape mode).text = some (k.wrap mode t) ∧
      SchemaType.parse (s.asRequired.shape mode).text = some t ∧
      (s.asRequired.shape mode).optional = false := by
  have hpart := parse_text_shape mode (Container.readable_of_plug h)
  refine ⟨_, hpart, ?_, ?_, ?_⟩
  · rw [parse_text_shape mode h, Container.type_plug]
  · rw [text_asRequired, hpart]
  · rw [optional_shape, isOptional_asRequired]

/-- Strings that may be left out, `z.string().optional().describe('tag')`. -/
def tag : Schema :=
  .method (.method (.builder "string" []) "optional" []) "describe" [.literal "'tag'"]

/-- An array of them is an array of strings. -/
theorem parse_plug_tags : (tag.shape .output).optional = true ∧
    SchemaType.parse (((Container.element []).plug tag).shape .output).text =
      some (.array (.leaf "string")) ∧
    SchemaType.parse (tag.asRequired.shape .output).text = some (.leaf "string") := by
  have hreadable : ((Container.element []).plug tag).Readable :=
    ⟨⟨⟨trivial, trivial⟩, SchemaType.isLeaf_quoted ⟨false, ['t', 'a', 'g'], by simp⟩, trivial⟩,
      trivial⟩
  obtain ⟨t, htag, htags, hrequired, -⟩ := parse_plug .output hreadable
  have ht : t = .leaf "string" := Option.some.inj (htag.symm.trans
    (parse_text_shape .output (Container.readable_of_plug hreadable)))
  subst ht
  exact ⟨rfl, htags, hrequired⟩

end IpcWiring.Schema
