import IpcWiring.Proofs.Extract.Flattening
import IpcWiring.Proofs.Program.Rendering

/-!
# Names in requests

A type of a file mentions the names that it records, but for a bound type parameter it mentions what
the type does that this one is bound to, in the file and scope where that was written (`Mentions`).
The fields of a request show types that need nothing unexported
(`exists_renders_of_mem_apiFunctions`). Each name that such a type mentions has an import with the
type, or it is foreign to the file where it stands (`Program.local_or_foreign`).

This is no more than the types record. A constraint on a type parameter of a method is part of the
text and is not recorded, and a type parameter of a function is declared nowhere, so that it is
foreign to its file.
-/

namespace IpcWiring

open Script

/-- A type of a file mentions, in a scope, a name of a file, in the scope that this one stands in: a
name that the type records and that is not bound, or one that the type mentions which a recorded
name is bound to. -/
inductive Mentions : Path → Scope → TypeExpr → Path → Scope → TypeName → Prop where
  | free {file : Path} {scope : Scope} {t : TypeExpr} {name : TypeName} (hname : name ∈ t.names)
      (hfree : name.isSimple = true → scope.find? name.head = none) :
      Mentions file scope t file scope name
  | bound {file origin : Path} {scope inner : Scope} {t : TypeExpr} {name other : TypeName}
      {b : Binding} (hname : name ∈ t.names) (hsimple : name.isSimple = true)
      (hb : scope.find? name.head = some b)
      (hother : Mentions b.file b.scope b.type origin inner other) :
      Mentions file scope t origin inner other

namespace Program

variable {p : Program} {file origin : Path} {scope inner : Scope} {t : TypeExpr} {name : TypeName}

/-- The file is a module that neither imports nor declares the name. -/
def IsForeign (p : Program) (file : Path) (name : String) : Prop :=
  ∃ m, p.module? file = some m ∧ m.imports.find? name = none ∧ m.declares name = false

/-- What a bound name needs is what the type needs that it is bound to. -/
theorem needOf_of_bound {b : Binding} (hsimple : name.isSimple = true)
    (hb : scope.find? name.head = some b) : p.needOf file scope name = b.rendered := by
  rw [needOf, if_pos hsimple, hb]

/-- A type is written in a module, unless it stands for an argument that is not given. -/
theorem exists_module_of_writes (h : p.Writes file t) :
    (∃ m, p.module? file = some m) ∨ t = .ofKeyword "unknown" 0 := by
  induction h with
  | param hm => exact .inl ⟨_, hm⟩
  | property hi | base hi | interfaceDefault hi => exact .inl (hi.imp fun m ⟨_, hm, _⟩ => hm)
  | «alias» ha | aliasDefault ha => exact .inl (ha.imp fun m ⟨_, hm, _⟩ => hm)
  | part _ hpart ih =>
    refine .inl (ih.resolve_right ?_)
    rintro rfl
    cases hpart with
    | paren h | intersection h | argument h | property h => cases h
  | missing => exact .inr rfl

/-- A name that a type mentions stands in a module and is not bound there, and the type has what it
needs. -/
theorem needOf_within_of_mentions (h : Mentions file scope t origin inner name)
    (ht : p.Writes file t) (hs : p.Fills scope) :
    (∃ m, p.module? origin = some m) ∧
      (name.isSimple = true → inner.find? name.head = none) ∧
      (p.needOf origin inner name).Within (p.renderIn file t scope) := by
  induction h with
  | free hname hfree =>
    refine ⟨(exists_module_of_writes ht).resolve_right ?_, hfree, needOf_within hname⟩
    rintro rfl
    cases hname
  | bound hname hsimple hb _ ih =>
    obtain ⟨htype, hscope, hrendered⟩ := hs.of_find? hb
    obtain ⟨hm, hfree, hwithin⟩ := ih htype hscope
    refine ⟨hm, hfree, hwithin.trans ?_⟩
    rw [← hrendered, ← needOf_of_bound hsimple hb]
    exact needOf_within hname

/-- A name that a type mentions has the local name of an import of the type, or it is foreign to the
file where it stands, if the type needs nothing unexported. -/
theorem local_or_foreign (h : Mentions file scope t origin inner name) (ht : p.Writes file t)
    (hs : p.Fills scope) (hexported : (p.renderIn file t scope).unexported = []) :
    name.head ∈ (p.renderIn file t scope).localNames ∨ p.IsForeign origin name.head := by
  obtain ⟨⟨m, hm⟩, hfree, hwithin⟩ := needOf_within_of_mentions h ht hs
  have hnone : (if name.isSimple then inner.find? name.head else none) = none :=
    ite_eq_right_iff.2 hfree
  rw [needOf, hnone] at hwithin
  dsimp only at hwithin
  cases hsource : p.sourceOf origin name with
  | imported i =>
    rw [hsource] at hwithin
    rw [← localName_of_sourceOf hsource]
    exact .inl (hwithin.localNames List.mem_cons_self)
  | unexported =>
    rw [hsource] at hwithin
    have hmem := hwithin.unexported List.mem_cons_self
    rw [hexported] at hmem
    cases hmem
  | elsewhere => exact .inr ⟨m, hm, elsewhere_of_sourceOf hsource hm⟩

end Program

/-! ## Requests -/

/-- A field has the text and imports of what is emitted for its type; the text admits `undefined` if
the field may be left out. -/
structure RequestField.Shows (f : RequestField) (r : Rendered) : Prop where
  imports : f.imports = r.imports
  text : f.typeText = if f.optional then withUndefined r.text else r.text

section
variable {rules : ApiRules} {p : Program} {m : SourceModule} {path : Path} {param : Param}
  {a : ApiFunction}

/-- A field that may be left out shows its type. -/
theorem shows_of (optional : Bool) (name : String) (r : Rendered) :
    (RequestField.of optional name r.text r.imports).Shows r := by
  cases optional <;> exact ⟨rfl, rfl⟩

/-- What is emitted for the type of a parameter. -/
theorem renders_renderParam {fallback : String}
    (hparam : ∀ t, param.type? = some t → p.Writes path t)
    (hfallback : fallback = "any" ∨ fallback = "any[]") :
    p.Renders (renderParam p path param fallback) := by
  rw [renderParam]
  cases ht : param.type? with
  | none => exact .untyped hfallback
  | some t => exact .type (hparam t ht) Program.fills_empty

/-- Every field that a parameter gives shows a rendered type, and what this needs without its being
exported is noted for the parameter. -/
theorem exists_renders_of_mem_paramPart {index : Nat} {f : RequestField}
    (hparam : ∀ t, param.type? = some t → p.Writes path t)
    (hf : f ∈ (paramPart p path param index).fields) :
    ∃ r, p.Renders r ∧ f.Shows r ∧ r.unexported ⊆ (paramPart p path param index).unexported := by
  unfold paramPart at hf ⊢
  dsimp only at hf ⊢
  split at hf
  · next hrest =>
    rw [if_pos hrest]
    rw [List.mem_singleton.1 hf]
    exact ⟨_, renders_renderParam hparam (.inr rfl), ⟨rfl, rfl⟩, List.Subset.refl _⟩
  · next hrest =>
    rw [if_neg hrest]
    cases hmembers : param.type?.bind (p.members? path) with
    | none =>
      rw [hmembers] at hf
      rw [List.mem_singleton.1 hf]
      exact ⟨_, renders_renderParam hparam (.inl rfl), shows_of .., List.Subset.refl _⟩
    | some members =>
      rw [hmembers] at hf
      obtain ⟨t, ht, hexpand⟩ := Option.bind_eq_some_iff.1 hmembers
      obtain ⟨x, hx, rfl⟩ := List.mem_map.1 hf
      refine ⟨x.type, Program.allRendered_members (hparam t ht) hexpand x hx, shows_of .., ?_⟩
      exact fun n hn => List.mem_flatMap.2 ⟨x, hx, hn⟩

/-- The fields of a request are fields that were put in. -/
theorem mem_of_mem_foldl_addField {request fields : List RequestField} {f : RequestField}
    (h : f ∈ fields.foldl Flattened.addField request) : f ∈ request ∨ f ∈ fields := by
  induction fields generalizing request with
  | nil => exact .inl h
  | cons g fields ih =>
    rcases ih h with h | h
    · rw [Flattened.addField] at h
      split at h
      · exact .inl h
      · rcases List.mem_append.1 h with h | h
        · exact .inl h
        · exact .inr (List.mem_cons.2 (.inl (List.mem_singleton.1 h)))
    · exact .inr (List.mem_cons_of_mem g h)

/-- A function is extracted only if its request needs nothing unexported. -/
theorem unexported_of_apiFunction {repeated : Bool} {f : FunctionDecl}
    (h : apiFunction rules p m path repeated f = .ok a) :
    (flatten p path f.params).unexported = [] := by
  simp only [apiFunction, bind, Except.bind, pure, Except.pure, throw, throwThe,
    MonadExceptOf.throw] at h
  repeat' split at h
  all_goals first | assumption | cases h

/-- Each field of an extracted function shows what is emitted for a type, and this needs nothing
unexported. -/
theorem exists_renders_of_mem_apiFunctions (hm : p.module? path = some m)
    (h : a ∈ (apiFunctions rules p path m).1) :
    ∀ field ∈ a.request, ∃ r, p.Renders r ∧ r.unexported = [] ∧ field.Shows r := by
  intro field hfield
  obtain ⟨f, hf, repeated, hok⟩ := exists_of_mem_apiFunctions h
  have hexported := unexported_of_apiFunction hok
  rw [(flatten_of_apiFunction hok).2.1] at hfield
  rw [flatten_eq] at hfield hexported
  obtain hnil | hfield := mem_of_mem_foldl_addField hfield
  · cases hnil
  obtain ⟨part, hpart, hfield⟩ := List.mem_flatMap.1 hfield
  obtain ⟨⟨param, index⟩, hparam, rfl⟩ := List.mem_map.1 hpart
  have hwrites : ∀ t, param.type? = some t → p.Writes path t := fun t ht =>
    .param hm hf (List.fst_mem_of_mem_zipIdx (List.mem_of_mem_drop hparam)) ht
  obtain ⟨r, hr, hshows, hunexported⟩ := exists_renders_of_mem_paramPart hwrites hfield
  have hnone : r.unexported = [] := List.subset_nil.1 fun n hn =>
    hexported ▸ List.mem_flatMap.2 ⟨_, hpart, hunexported hn⟩
  exact ⟨r, hr, hnone, hshows⟩

end

end IpcWiring
