import Mathlib.Data.List.Forall2
import IpcWiring.Proofs.Schema.Optionality

/-!
# Names in schemas

Two schemas are alike (`Schema.Like`) if they differ only in the names of the constants that they
refer to. Nothing is known of such a constant, so that schemas that are alike have the same shape
and the same fields (`Schema.Like.shape_fields_eq`).
-/

namespace IpcWiring.Schema

/-! ## Schemas that are alike -/

section

variable (N : String → String → Prop)

mutual

/-- The schemas differ only in names, which are related. -/
inductive Like : Schema → Schema → Prop
  | builder {name : String} {args args' : List SchemaArg}
    (arguments : List.Forall₂ LikeArg args args') : Like (.builder name args) (.builder name args')
  | method {name : String} {s s' : Schema} {args args' : List SchemaArg} (receiver : Like s s')
    (arguments : List.Forall₂ LikeArg args args') :
    Like (.method s name args) (.method s' name args')
  | ref {x x' : String} (name : N x x') : Like (.ref x) (.ref x')
  | unknown : Like .unknown .unknown

/-- The arguments differ only in names. -/
inductive LikeArg : SchemaArg → SchemaArg → Prop
  | schema {s s' : Schema} (schema : Like s s') : LikeArg (.schema s) (.schema s')
  | object {es es' : List SchemaEntry} (entries : List.Forall₂ LikeEntry es es') :
    LikeArg (.object es) (.object es')
  | array {args args' : List SchemaArg} (items : List.Forall₂ LikeArg args args') :
    LikeArg (.array args) (.array args')
  | literal (text : String) : LikeArg (.literal text) (.literal text)
  | other : LikeArg .other .other

/-- The properties differ only in names. -/
inductive LikeEntry : SchemaEntry → SchemaEntry → Prop
  | of {key : String} {s s' : Schema} (value : Like s s') : LikeEntry ⟨key, s⟩ ⟨key, s'⟩

end

end

mutual

/-- A schema is like itself if all names are kept. -/
theorem Like.refl : ∀ s, Like Eq s s
  | .builder _ args => .builder (likeArgs_refl args)
  | .method receiver _ args => .method (Like.refl receiver) (likeArgs_refl args)
  | .ref _ => .ref rfl
  | .unknown => .unknown

theorem LikeArg.refl : ∀ a, LikeArg Eq a a
  | .schema s => .schema (Like.refl s)
  | .object entries => .object (likeEntries_refl entries)
  | .array items => .array (likeArgs_refl items)
  | .literal text => .literal text
  | .other => .other

theorem likeArgs_refl : ∀ args, List.Forall₂ (LikeArg Eq) args args
  | [] => .nil
  | a :: args => .cons (LikeArg.refl a) (likeArgs_refl args)

theorem likeEntries_refl : ∀ entries, List.Forall₂ (LikeEntry Eq) entries entries
  | [] => .nil
  | ⟨_, value⟩ :: entries => .cons (.of (Like.refl value)) (likeEntries_refl entries)

end

/-! ## What a schema makes of its arguments -/

/-- No schema tells the arguments apart, each of them in a mode. -/
inductive Alike (mode mode' : SchemaMode) : SchemaArg → SchemaArg → Prop
  | schema {s s' : Schema} (shape : s.shape mode = s'.shape mode')
    (fields : s.fields? mode = s'.fields? mode') : Alike mode mode' (.schema s) (.schema s')
  | object {es es' : List SchemaEntry} (fields : entryFields mode es = entryFields mode' es') :
    Alike mode mode' (.object es) (.object es')
  | array {args args' : List SchemaArg} (texts : argTexts mode args = argTexts mode' args')
    (literals : literals args = literals args') : Alike mode mode' (.array args) (.array args')
  | literal (text : String) : Alike mode mode' (.literal text) (.literal text)
  | other : Alike mode mode' .other .other

section

variable {mode mode' : SchemaMode} {name : String} {a a' : SchemaArg} {args args' : List SchemaArg}

/-- Arguments that are not told apart have the same text. -/
theorem Alike.text_eq (h : Alike mode mode' a a') : argText mode a = argText mode' a' := by
  cases h with
  | schema hshape => simp only [argText, hshape]
  | _ => rfl

variable (h : List.Forall₂ (Alike mode mode') args args')

include h

/-- The texts of arguments that are not told apart. -/
theorem argTexts_eq : argTexts mode args = argTexts mode' args' := by
  induction h with
  | nil => rfl
  | cons ha _ ih => simp only [argTexts, ha.text_eq, ih]

/-- The literals among arguments that are not told apart. -/
theorem literals_eq : literals args = literals args' := by
  induction h with
  | nil => rfl
  | cons ha _ ih => cases ha <;> simp only [literals, ih]

/-- The fields of an object builder. -/
theorem propertiesOf_eq : propertiesOf mode args = propertiesOf mode' args' := by
  cases h with
  | nil => exact Eq.refl (some [])
  | cons ha _ =>
    cases ha with
    | object hfields => simp only [propertiesOf, hfields]
    | _ => simp only [propertiesOf]

/-- What an object helper is given. -/
theorem patch_eq : patch mode args = patch mode' args' := by
  cases h with
  | nil => exact Eq.refl Patch.absent
  | cons ha _ =>
    cases ha with
    | schema _ hfields => simp only [patch, hfields]
    | object hfields => simp only [patch, hfields]
    | _ => simp only [patch]

/-- The shape of a builder. -/
theorem shape_builder_eq : (builder name args).shape mode = (builder name args').shape mode' := by
  by_cases hname : name ∈ typeBuilders
  · have hunknown := Eq.refl (Shape.plain "unknown")
    simp only [typeBuilders, List.mem_cons, List.not_mem_nil, or_false] at hname
    cases h with
    | nil =>
      rcases hname with rfl | rfl | rfl | rfl | rfl | rfl | rfl | rfl | rfl | rfl
      · exact hunknown
      · exact Eq.refl (Shape.plain "string")
      · exact Eq.refl (Shape.plain (arrayOf "unknown"))
      · exact hunknown
      · exact hunknown
      · exact Eq.refl (Shape.plain "unknown & unknown")
      · exact Eq.refl (Shape.plain "unknown[]")
      · exact Eq.refl (Shape.plain "Record<string, unknown>")
      · exact Eq.refl (Shape.of "unknown" true)
      · exact Eq.refl (Shape.plain "unknown | null")
    | cons ha hrest =>
      have htext := ha.text_eq
      -- The builders come in the order of the list.
      rcases hname with rfl | rfl | rfl | rfl | rfl | rfl | rfl | rfl | rfl | rfl
      · cases ha with
        | literal text => exact Eq.refl (Shape.plain text)
        | _ => exact hunknown
      · cases ha with
        | array _ hliterals => exact congrArg (fun x => Shape.plain (unionText x)) hliterals
        | _ => exact Eq.refl (Shape.plain "string")
      · exact congrArg (fun x => Shape.plain (arrayOf x)) htext
      · cases ha with
        | array htexts => exact congrArg (fun x => Shape.plain (unionText x)) htexts
        | _ => exact hunknown
      · cases hrest with
        | nil => exact hunknown
        | cons hb =>
          cases hb with
          | array htexts => exact congrArg (fun x => Shape.plain (unionText x)) htexts
          | _ => exact hunknown
      · cases hrest with
        | nil => exact congrArg (fun x => Shape.plain (x ++ " & unknown")) htext
        | cons hb =>
          exact congrArg₂ (fun x y => Shape.plain (x ++ " & " ++ y)) htext hb.text_eq
      · cases ha with
        | array htexts =>
          exact congrArg (fun x => Shape.plain ("[" ++ Text.joinWith ", " x ++ "]")) htexts
        | _ => exact Eq.refl (Shape.plain "unknown[]")
      · cases hrest with
        | nil => exact congrArg (fun x => Shape.plain ("Record<string, " ++ x ++ ">")) htext
        | cons hb =>
          exact congrArg₂ (fun x y => Shape.plain ("Record<" ++ x ++ ", " ++ y ++ ">")) htext
            hb.text_eq
      · exact congrArg (fun x => Shape.of x true) htext
      · exact congrArg (fun x => Shape.plain (x ++ " | null")) htext
  · rw [shape_of_not_mem_typeBuilders hname, shape_of_not_mem_typeBuilders hname,
      propertiesOf_eq h]

variable {s s' : Schema} (hfields : s.fields? mode = s'.fields? mode')

include hfields

/-- The fields that a method leaves. -/
theorem fields?_method_eq :
    (method s name args).fields? mode = (method s' name args').fields? mode' := by
  unfold fields?
  rw [hfields, patch_eq h]

/-- The shape that a method leaves. One that sets a default looks at the mode itself. -/
theorem shape_method_eq (hshape : s.shape mode = s'.shape mode')
    (hmode : name ∈ defaultingMethods → mode = mode') :
    (method s name args).shape mode = (method s' name args').shape mode' := by
  by_cases htype : name ∈ typeMethods
  · simp only [typeMethods, List.mem_cons, List.not_mem_nil, or_false] at htype
    -- The methods come in the order of the list.
    rcases htype with rfl | rfl | rfl | rfl | rfl | rfl | rfl | rfl | rfl
    · cases h <;> exact congrArg (fun x => { x with optional := true }) hshape
    · cases h <;> exact congrArg (fun x => Shape.of (x.text ++ " | null") x.optional) hshape
    · cases h <;> exact congrArg (fun x => Shape.of (x.text ++ " | null") true) hshape
    · obtain rfl := hmode (by decide)
      cases h <;> exact congrArg (fun x => Shape.of x.text (mode == .input)) hshape
    · obtain rfl := hmode (by decide)
      cases h <;> exact congrArg (fun x => Shape.of x.text (mode == .input)) hshape
    · obtain rfl := hmode (by decide)
      cases h <;> exact congrArg (fun x => Shape.of x.text (mode == .input)) hshape
    · cases h <;> exact congrArg (fun x => Shape.plain (arrayOf x.text)) hshape
    · cases h with
      | nil => exact congrArg (fun x => Shape.of (x.text ++ " | unknown") x.optional) hshape
      | cons ha =>
        exact congrArg₂ (fun x y => Shape.of (x.text ++ " | " ++ y) x.optional) hshape ha.text_eq
    · cases h with
      | nil => exact congrArg (fun x => Shape.of (x.text ++ " & unknown") x.optional) hshape
      | cons ha =>
        exact congrArg₂ (fun x y => Shape.of (x.text ++ " & " ++ y) x.optional) hshape ha.text_eq
  by_cases hobject : objectHelpers.contains name = true
  · rw [shape_objectHelper hobject, shape_objectHelper hobject, fields?_method_eq h hfields]
  · have hmem := mt List.contains_iff_mem.2 hobject
    rw [shape_of_not_mem htype hmem, shape_of_not_mem htype hmem, hshape]

end

/-! ## Invariance -/

variable {N : String → String → Prop} (mode : SchemaMode)

mutual

/-- Schemas that differ only in names have the same shape and the same fields. -/
theorem Like.shape_fields_eq : ∀ {s s' : Schema}, Like N s s' →
    s.shape mode = s'.shape mode ∧ s.fields? mode = s'.fields? mode
  | .builder name args, _, .builder harguments => by
    have hargs := alike_of_forall₂ harguments
    refine ⟨shape_builder_eq hargs, ?_⟩
    unfold fields?
    rw [propertiesOf_eq hargs]
  | .method s name args, _, .method hreceiver harguments => by
    have hargs := alike_of_forall₂ harguments
    obtain ⟨hshape, hfields⟩ := hreceiver.shape_fields_eq
    exact ⟨shape_method_eq hargs hfields hshape fun _ => rfl, fields?_method_eq hargs hfields⟩
  | .ref _, _, .ref _ => ⟨rfl, rfl⟩
  | .unknown, _, .unknown => ⟨rfl, rfl⟩

/-- Arguments that differ only in names are not told apart. -/
theorem LikeArg.alike : ∀ {a a' : SchemaArg}, LikeArg N a a' → Alike mode mode a a'
  | .schema _, _, .schema hschema => .schema hschema.shape_fields_eq.1 hschema.shape_fields_eq.2
  | .object _, _, .object hentries => .object (entryFields_eq hentries)
  | .array _, _, .array hitems =>
    .array (argTexts_eq (alike_of_forall₂ hitems)) (literals_eq (alike_of_forall₂ hitems))
  | .literal _, _, .literal text => .literal text
  | .other, _, .other => .other

/-- Lists of arguments that differ only in names. -/
theorem alike_of_forall₂ : ∀ {args args' : List SchemaArg},
    List.Forall₂ (LikeArg N) args args' → List.Forall₂ (Alike mode mode) args args'
  | [], _, .nil => .nil
  | _ :: _, _, .cons ha hrest => .cons ha.alike (alike_of_forall₂ hrest)

/-- Properties that differ only in names declare the same fields. -/
theorem entryFields_eq : ∀ {es es' : List SchemaEntry}, List.Forall₂ (LikeEntry N) es es' →
    entryFields mode es = entryFields mode es'
  | [], _, .nil => rfl
  | ⟨key, value⟩ :: rest, _, .cons (.of hvalue) hrest => by
    simp only [entryFields, hvalue.shape_fields_eq.1, entryFields_eq hrest]

end

end IpcWiring.Schema
