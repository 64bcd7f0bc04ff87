import IpcWiring.Proofs.Schema.Names

/-!
# Both sides of a schema

What a schema takes in and what it gives out are told apart by one thing: a method that sets a
default makes a schema optional on its input side and required on the other one. So the input side
has the same properties in the same order, and asks for no more of them. Without a default anywhere
in a schema its two sides are the same (`Schema.shape_fields_eq_of_defaultFree`), by an induction
that goes through all arguments, since the modes tell none of them apart.
-/

namespace IpcWiring

/-- A field is for the same property as another one, and is optional if that one is. -/
structure SchemaField.Relaxes (f g : SchemaField) : Prop where
  name : f.name = g.name
  optional : g.shape.optional = true → f.shape.optional = true

namespace Schema

/-! ## Schemas without defaults -/

mutual

/-- No default is set in the schema. -/
def DefaultFree : Schema → Prop
  | builder _ args => ArgsDefaultFree args
  | method receiver name args =>
    name ∉ defaultingMethods ∧ receiver.DefaultFree ∧ ArgsDefaultFree args
  | ref _ => True
  | unknown => True

/-- No default is set in an argument. -/
def ArgDefaultFree : SchemaArg → Prop
  | .schema s => s.DefaultFree
  | .object entries => EntriesDefaultFree entries
  | .array items => ArgsDefaultFree items
  | .literal _ => True
  | .other => True

/-- No default is set in arguments. -/
def ArgsDefaultFree : List SchemaArg → Prop
  | [] => True
  | arg :: rest => ArgDefaultFree arg ∧ ArgsDefaultFree rest

/-- No default is set in the properties of an object argument. -/
def EntriesDefaultFree : List SchemaEntry → Prop
  | [] => True
  | ⟨_, value⟩ :: rest => value.DefaultFree ∧ EntriesDefaultFree rest

end

section

variable (mode mode' : SchemaMode)

mutual

/-- Without defaults a schema has the same shape and the same fields in all modes. -/
theorem shape_fields_eq_of_defaultFree : ∀ s : Schema, s.DefaultFree →
    s.shape mode = s.shape mode' ∧ s.fields? mode = s.fields? mode'
  | builder name args, h => by
    have hargs := alike_of_defaultFree args h
    refine ⟨shape_builder_eq hargs, ?_⟩
    unfold fields?
    rw [propertiesOf_eq hargs]
  | method receiver name args, h => by
    obtain ⟨hname, hreceiver, harguments⟩ := h
    have hargs := alike_of_defaultFree args harguments
    obtain ⟨hshape, hfields⟩ := shape_fields_eq_of_defaultFree receiver hreceiver
    exact ⟨shape_method_eq hargs hfields hshape fun hmem => absurd hmem hname,
      fields?_method_eq hargs hfields⟩
  | ref _, _ | unknown, _ => ⟨Eq.refl (Shape.plain "unknown"), Eq.refl none⟩

/-- The modes tell no arguments without defaults apart. -/
theorem alike_of_defaultFree : ∀ args : List SchemaArg, ArgsDefaultFree args →
    List.Forall₂ (Alike mode mode') args args
  | [], _ => .nil
  | .schema s :: rest, h =>
    have hs := shape_fields_eq_of_defaultFree s h.1
    .cons (.schema hs.1 hs.2) (alike_of_defaultFree rest h.2)
  | .object entries :: rest, h =>
    .cons (.object (entryFields_eq_of_defaultFree entries h.1)) (alike_of_defaultFree rest h.2)
  | .array items :: rest, h =>
    .cons (.array (argTexts_eq (alike_of_defaultFree items h.1)) rfl) (alike_of_defaultFree rest h.2)
  | .literal text :: rest, h => .cons (.literal text) (alike_of_defaultFree rest h.2)
  | .other :: rest, h => .cons .other (alike_of_defaultFree rest h.2)

/-- Properties without defaults declare the same fields in all modes. -/
theorem entryFields_eq_of_defaultFree : ∀ entries : List SchemaEntry, EntriesDefaultFree entries →
    entryFields mode entries = entryFields mode' entries
  | [], _ => by rw [entryFields, entryFields]
  | ⟨key, value⟩ :: rest, h => by
    rw [entryFields, entryFields, (shape_fields_eq_of_defaultFree value h.1).1,
      entryFields_eq_of_defaultFree rest h.2]

end

end

/-! ## Optional properties -/

/-- What is optional on the output side is optional on the input side. -/
theorem isOptional_input {s : Schema} (h : s.isOptional .output = true) :
    s.isOptional .input = true := by
  fun_induction isOptional .input s with
  | case1 name args => exact h
  | case2 receiver name args hloosens => rfl
  | case3 receiver name args hloosens hdefaults => rfl
  | case4 receiver name args hloosens hdefaults hplain =>
    rw [isOptional, if_neg hloosens, if_neg hdefaults, if_pos hplain] at h
    cases h
  | case5 receiver name args hloosens hdefaults hplain ih =>
    rw [isOptional, if_neg hloosens, if_neg hdefaults, if_neg hplain] at h
    exact ih h
  | case6 | case7 => cases h

/-- On the input side a property is the same one, and not less optional. -/
theorem relaxes_field (e : SchemaEntry) : (field .input e).Relaxes (field .output e) where
  name := rfl
  optional h := by
    have hentry : ∀ mode, (field mode e).shape.optional = e.value.isOptional mode := fun mode =>
      optional_shape mode e.value
    rw [hentry] at h ⊢
    exact isOptional_input h

/-- **The input side of a schema relaxes its output side.** Either both have no fields, or they have
fields for the same properties in the same order, and a field that is optional on the output side is
optional on the input side. Where no default is set, the sides have the same fields and the same
shape. -/
theorem input_relaxes_output (s : Schema) :
    Option.Rel (List.Forall₂ SchemaField.Relaxes) (s.fields? .input) (s.fields? .output) ∧
      (s.DefaultFree →
        s.fields? .input = s.fields? .output ∧ s.shape .input = s.shape .output) := by
  constructor
  · rw [fields?_eq, fields?_eq]
    cases properties? s with
    | none => exact .none
    | some entries =>
      refine .some ?_
      rw [List.forall₂_map_left_iff, List.forall₂_map_right_iff]
      exact List.forall₂_same.2 fun e _ => relaxes_field e
  · intro hfree
    obtain ⟨hshape, hfields⟩ := shape_fields_eq_of_defaultFree .input .output s hfree
    exact ⟨hfields, hshape⟩

/-- The schema `z.object({ owner: account, theme: z.string().default('dark') })`, where no default is
set in `account`. -/
def settings : Schema :=
  .builder "object" [.object [⟨"owner", account⟩,
    ⟨"theme", .method (.builder "string" []) "default" [.literal "'dark'"]⟩]]

/-- The last property has to be there on the output side only. The first one is the same on both
sides. -/
theorem input_relaxes_output_settings :
    Option.Rel (List.Forall₂ SchemaField.Relaxes) (settings.fields? .input)
        (settings.fields? .output) ∧
      ¬ settings.DefaultFree ∧ account.DefaultFree ∧
      account.shape .input = account.shape .output := by
  have hfree : account.DefaultFree := by
    simp [account, DefaultFree, ArgsDefaultFree, ArgDefaultFree, EntriesDefaultFree,
      defaultingMethods]
  have hset : ¬ settings.DefaultFree := by
    simp [settings, DefaultFree, ArgsDefaultFree, ArgDefaultFree, EntriesDefaultFree,
      defaultingMethods]
  exact ⟨(input_relaxes_output settings).1, hset, hfree, ((input_relaxes_output account).2 hfree).2⟩

end Schema

end IpcWiring
