import IpcWiring.Program.Schemas
import IpcWiring.Proofs.Program.Rendering
import Mathlib.Data.Set.Finite.List

/-!
# Inlined schemas

`Program.Inlines` is what it is to put the definitions of constants in the place of their names,
without any number of steps: a name that leads to a constant becomes the definition of the constant,
inlined in the file that declares it, a name that leads nowhere is kept, and so is all else. Its
levels count what is entered one inside the other.

`Program.inlineSchema` gives this schema with more steps than there are levels
(`Program.Inlines.inlineSchema_eq`). There is one, with some number of levels, just if the constants
that are reached through names have no cycle (`Program.exists_inlines_of_acc`,
`Program.Inlines.acyclic`): there are finitely many of them, so following names comes to an end.
-/

namespace IpcWiring

/-! ## Leaves -/

namespace Schema

mutual

/-- What a schema consists of besides calls: names of constants, and what is unknown. -/
def leaves : Schema → List Schema
  | builder _ args => argsLeaves args
  | method receiver _ args => receiver.leaves ++ argsLeaves args
  | ref name => [ref name]
  | unknown => [unknown]

/-- The leaves of arguments. -/
def argsLeaves : List SchemaArg → List Schema
  | [] => []
  | .schema s :: rest => s.leaves ++ argsLeaves rest
  | .object entries :: rest => entriesLeaves entries ++ argsLeaves rest
  | .array items :: rest => argsLeaves items ++ argsLeaves rest
  | .literal _ :: rest | .other :: rest => argsLeaves rest

/-- The leaves of properties. -/
def entriesLeaves : List SchemaEntry → List Schema
  | [] => []
  | ⟨_, value⟩ :: rest => value.leaves ++ entriesLeaves rest

end

end Schema

namespace Program

open Schema Relation

/-! ## What inlining is -/

mutual

/-- The schema of a file is inlined as `t`, at most `n` levels deep. A constant, a receiver, an
argument, a property value and an array are one level below where they stand. -/
inductive Inlines (p : Program) : Nat → Path → Schema → Schema → Prop where
  | found {n : Nat} {file : Path} {name : String} {c : FoundSchema} {t : Schema}
      (h : p.schemaLocal maxSteps file name = some c) (ht : Inlines p n c.file c.schema t) :
      Inlines p (n + 1) file (.ref name) t
  | kept {n : Nat} {file : Path} {name : String} (h : p.schemaLocal maxSteps file name = none) :
      Inlines p n file (.ref name) (.ref name)
  | builder {n : Nat} {file : Path} {name : String} {args args' : List SchemaArg}
      (h : InlinesArgs p n file args args') :
      Inlines p n file (.builder name args) (.builder name args')
  | method {n : Nat} {file : Path} {receiver receiver' : Schema} {name : String}
      {args args' : List SchemaArg} (hreceiver : Inlines p n file receiver receiver')
      (h : InlinesArgs p (n + 1) file args args') :
      Inlines p (n + 1) file (.method receiver name args) (.method receiver' name args')
  | unknown {n : Nat} {file : Path} : Inlines p n file .unknown .unknown

/-- The arguments are inlined one by one. -/
inductive InlinesArgs (p : Program) : Nat → Path → List SchemaArg → List SchemaArg → Prop where
  | nil {n : Nat} {file : Path} : InlinesArgs p n file [] []
  | schema {n : Nat} {file : Path} {s t : Schema} {rest rest' : List SchemaArg}
      (h : Inlines p n file s t) (hrest : InlinesArgs p (n + 1) file rest rest') :
      InlinesArgs p (n + 1) file (.schema s :: rest) (.schema t :: rest')
  | object {n : Nat} {file : Path} {entries entries' : List SchemaEntry}
      {rest rest' : List SchemaArg} (h : InlinesEntries p n file entries entries')
      (hrest : InlinesArgs p (n + 1) file rest rest') :
      InlinesArgs p (n + 1) file (.object entries :: rest) (.object entries' :: rest')
  | array {n : Nat} {file : Path} {items items' rest rest' : List SchemaArg}
      (h : InlinesArgs p n file items items') (hrest : InlinesArgs p (n + 1) file rest rest') :
      InlinesArgs p (n + 1) file (.array items :: rest) (.array items' :: rest')
  | literal {n : Nat} {file : Path} {text : String} {rest rest' : List SchemaArg}
      (hrest : InlinesArgs p n file rest rest') :
      InlinesArgs p n file (.literal text :: rest) (.literal text :: rest')
  | other {n : Nat} {file : Path} {rest rest' : List SchemaArg}
      (hrest : InlinesArgs p n file rest rest') :
      InlinesArgs p n file (.other :: rest) (.other :: rest')

/-- The property values are inlined one by one. -/
inductive InlinesEntries (p : Program) :
    Nat → Path → List SchemaEntry → List SchemaEntry → Prop where
  | nil {n : Nat} {file : Path} : InlinesEntries p n file [] []
  | cons {n : Nat} {file : Path} {key : String} {s t : Schema} {rest rest' : List SchemaEntry}
      (h : Inlines p n file s t) (hrest : InlinesEntries p n file rest rest') :
      InlinesEntries p n file (⟨key, s⟩ :: rest) (⟨key, t⟩ :: rest')

end

variable {p : Program}

/-! ## Enough steps -/

mutual

/-- More levels are no less. -/
theorem Inlines.mono : ∀ {n m : Nat} {file : Path} {s t : Schema}, p.Inlines n file s t → n ≤ m →
    p.Inlines m file s t
  | _, _ + 1, _, _, _, .found h ht, hnm => .found h (ht.mono (Nat.le_of_succ_le_succ hnm))
  | _, _, _, _, _, .kept h, _ => .kept h
  | _, _, _, _, _, .builder h, hnm => .builder (h.mono hnm)
  | _, _ + 1, _, _, _, .method hreceiver h, hnm =>
    .method (hreceiver.mono (Nat.le_of_succ_le_succ hnm)) (h.mono hnm)
  | _, _, _, _, _, .unknown, _ => .unknown

/-- More levels are no less for arguments. -/
theorem InlinesArgs.mono : ∀ {n m : Nat} {file : Path} {args args' : List SchemaArg},
    p.InlinesArgs n file args args' → n ≤ m → p.InlinesArgs m file args args'
  | _, _, _, _, _, .nil, _ => .nil
  | _, _ + 1, _, _, _, .schema h hrest, hnm =>
    .schema (h.mono (Nat.le_of_succ_le_succ hnm)) (hrest.mono hnm)
  | _, _ + 1, _, _, _, .object h hrest, hnm =>
    .object (h.mono (Nat.le_of_succ_le_succ hnm)) (hrest.mono hnm)
  | _, _ + 1, _, _, _, .array h hrest, hnm =>
    .array (h.mono (Nat.le_of_succ_le_succ hnm)) (hrest.mono hnm)
  | _, _, _, _, _, .literal hrest, hnm => .literal (hrest.mono hnm)
  | _, _, _, _, _, .other hrest, hnm => .other (hrest.mono hnm)

/-- More levels are no less for properties. -/
theorem InlinesEntries.mono : ∀ {n m : Nat} {file : Path} {entries entries' : List SchemaEntry},
    p.InlinesEntries n file entries entries' → n ≤ m → p.InlinesEntries m file entries entries'
  | _, _, _, _, _, .nil, _ => .nil
  | _, _, _, _, _, .cons h hrest, hnm => .cons (h.mono hnm) (hrest.mono hnm)

end

/-- A name takes one step to the constant that it leads to. -/
theorem inlineSchema_found {n : Nat} {file : Path} {name : String} {c : FoundSchema}
    (h : p.schemaLocal maxSteps file name = some c) :
    p.inlineSchema (n + 1) file (.ref name) = p.inlineSchema n c.file c.schema := by
  rw [inlineSchema, h]

mutual

/-- More steps than levels give the inlined schema. -/
theorem Inlines.inlineSchema_eq : ∀ {n steps : Nat} {file : Path} {s t : Schema},
    p.Inlines n file s t → n < steps → p.inlineSchema steps file s = t
  | _, _ + 1, _, _, _, .found h ht, hlt => by
    rw [inlineSchema_found h]
    exact ht.inlineSchema_eq (Nat.lt_of_succ_lt_succ hlt)
  | _, _ + 1, _, _, _, .kept h, _ => by rw [inlineSchema, h]
  | _, _ + 1, _, _, _, .builder h, hlt => by rw [inlineSchema, h.inlineArgs_eq hlt]
  | _, _ + 1, _, _, _, .method hreceiver h, hlt => by
    rw [inlineSchema, hreceiver.inlineSchema_eq (Nat.lt_of_succ_lt_succ hlt), h.inlineArgs_eq hlt]
  | _, _ + 1, _, _, _, .unknown, _ => by rw [inlineSchema]

/-- More steps than levels give the inlined arguments. -/
theorem InlinesArgs.inlineArgs_eq : ∀ {n steps : Nat} {file : Path} {args args' : List SchemaArg},
    p.InlinesArgs n file args args' → n < steps → p.inlineArgs steps file args = args'
  | _, _, _, _, _, .nil, _ => by rw [inlineArgs]
  | _, _ + 1, _, _, _, .schema h hrest, hlt => by
    rw [inlineArgs, hrest.inlineArgs_eq hlt]
    exact congrArg (SchemaArg.schema · :: _) (h.inlineSchema_eq (Nat.lt_of_succ_lt_succ hlt))
  | _, _ + 1, _, _, _, .object h hrest, hlt => by
    rw [inlineArgs, hrest.inlineArgs_eq hlt]
    exact congrArg (SchemaArg.object · :: _) (h.inlineEntries_eq (Nat.lt_of_succ_lt_succ hlt))
  | _, _ + 1, _, _, _, .array h hrest, hlt => by
    rw [inlineArgs, hrest.inlineArgs_eq hlt]
    exact congrArg (SchemaArg.array · :: _) (h.inlineArgs_eq (Nat.lt_of_succ_lt_succ hlt))
  | _, _, _, _, _, .literal hrest, hlt => by rw [inlineArgs, hrest.inlineArgs_eq hlt] <;> nofun
  | _, _, _, _, _, .other hrest, hlt => by rw [inlineArgs, hrest.inlineArgs_eq hlt] <;> nofun

/-- More steps than levels give the inlined properties. -/
theorem InlinesEntries.inlineEntries_eq : ∀ {n steps : Nat} {file : Path}
    {entries entries' : List SchemaEntry}, p.InlinesEntries n file entries entries' → n < steps →
      p.inlineEntries steps file entries = entries'
  | _, _, _, _, _, .nil, _ => by rw [inlineEntries]
  | _, _, _, _, _, .cons h hrest, hlt => by
    rw [inlineEntries, h.inlineSchema_eq hlt, hrest.inlineEntries_eq hlt]

end

/-- A schema is inlined in one way. -/
theorem Inlines.unique {n m : Nat} {file : Path} {s t u : Schema} (ht : p.Inlines n file s t)
    (hu : p.Inlines m file s u) : t = u := by
  have hsteps : n < n + m + 1 ∧ m < n + m + 1 := by omega
  rw [← ht.inlineSchema_eq hsteps.1, hu.inlineSchema_eq hsteps.2]

/-! ## Where there is no cycle -/

/-- The definition of the second constant is put in the place of a name in the first one. -/
def Refers (p : Program) (c d : FoundSchema) : Prop :=
  ∃ name, .ref name ∈ c.schema.leaves ∧ p.schemaLocal maxSteps c.file name = some d

/-- No constant that `c` reaches through names reaches itself. -/
def Acyclic (p : Program) (c : FoundSchema) : Prop :=
  ∀ d, ReflTransGen p.Refers c d → ¬ TransGen p.Refers d d

/-- The constant is declared in the module of its file. -/
def Declares (p : Program) (c : FoundSchema) : Prop :=
  ∃ m name, p.module? c.file = some m ∧ m.path = c.file ∧ m.schemas.find? name = some c.schema

section Existence

variable (file : Path)

mutual

/-- A schema can be inlined if what its names lead to can. -/
theorem exists_inlines_of_refs : ∀ s : Schema,
    (∀ name d, .ref name ∈ s.leaves → p.schemaLocal maxSteps file name = some d →
      ∃ n t, p.Inlines n d.file d.schema t) → ∃ n t, p.Inlines n file s t
  | .builder _ args, h => by
    obtain ⟨n, args', hargs⟩ := exists_inlinesArgs_of_refs args h
    exact ⟨n, _, .builder hargs⟩
  | .method receiver _ args, h => by
    obtain ⟨n, receiver', hreceiver⟩ := exists_inlines_of_refs receiver fun name d hname =>
      h name d (List.mem_append_left _ hname)
    obtain ⟨m, args', hargs⟩ := exists_inlinesArgs_of_refs args fun name d hname =>
      h name d (List.mem_append_right _ hname)
    exact ⟨n + m + 1, _, .method (hreceiver.mono (by omega)) (hargs.mono (by omega))⟩
  | .ref name, h => by
    cases hfound : p.schemaLocal maxSteps file name with
    | none => exact ⟨0, _, .kept hfound⟩
    | some d =>
      obtain ⟨n, t, ht⟩ := h name d (List.mem_singleton.2 rfl) hfound
      exact ⟨n + 1, t, .found hfound ht⟩
  | .unknown, _ => ⟨0, _, .unknown⟩

/-- Arguments can be inlined if what their names lead to can. -/
theorem exists_inlinesArgs_of_refs : ∀ args : List SchemaArg,
    (∀ name d, .ref name ∈ argsLeaves args → p.schemaLocal maxSteps file name = some d →
      ∃ n t, p.Inlines n d.file d.schema t) → ∃ n args', p.InlinesArgs n file args args'
  | [], _ => ⟨0, _, .nil⟩
  | .schema s :: rest, h => by
    obtain ⟨n, t, hs⟩ := exists_inlines_of_refs s fun name d hname =>
      h name d (List.mem_append_left _ hname)
    obtain ⟨m, rest', hrest⟩ := exists_inlinesArgs_of_refs rest fun name d hname =>
      h name d (List.mem_append_right _ hname)
    exact ⟨n + m + 1, _, .schema (hs.mono (by omega)) (hrest.mono (by omega))⟩
  | .object entries :: rest, h => by
    obtain ⟨n, entries', hentries⟩ := exists_inlinesEntries_of_refs entries fun name d hname =>
      h name d (List.mem_append_left _ hname)
    obtain ⟨m, rest', hrest⟩ := exists_inlinesArgs_of_refs rest fun name d hname =>
      h name d (List.mem_append_right _ hname)
    exact ⟨n + m + 1, _, .object (hentries.mono (by omega)) (hrest.mono (by omega))⟩
  | .array items :: rest, h => by
    obtain ⟨n, items', hitems⟩ := exists_inlinesArgs_of_refs items fun name d hname =>
      h name d (List.mem_append_left _ hname)
    obtain ⟨m, rest', hrest⟩ := exists_inlinesArgs_of_refs rest fun name d hname =>
      h name d (List.mem_append_right _ hname)
    exact ⟨n + m + 1, _, .array (hitems.mono (by omega)) (hrest.mono (by omega))⟩
  | .literal _ :: rest, h => by
    obtain ⟨n, rest', hrest⟩ := exists_inlinesArgs_of_refs rest h
    exact ⟨n, _, .literal hrest⟩
  | .other :: rest, h => by
    obtain ⟨n, rest', hrest⟩ := exists_inlinesArgs_of_refs rest h
    exact ⟨n, _, .other hrest⟩

/-- Properties can be inlined if what their names lead to can. -/
theorem exists_inlinesEntries_of_refs : ∀ entries : List SchemaEntry,
    (∀ name d, .ref name ∈ entriesLeaves entries → p.schemaLocal maxSteps file name = some d →
      ∃ n t, p.Inlines n d.file d.schema t) → ∃ n entries', p.InlinesEntries n file entries entries'
  | [], _ => ⟨0, _, .nil⟩
  | ⟨_, value⟩ :: rest, h => by
    obtain ⟨n, t, hs⟩ := exists_inlines_of_refs value fun name d hname =>
      h name d (List.mem_append_left _ hname)
    obtain ⟨m, rest', hrest⟩ := exists_inlinesEntries_of_refs rest fun name d hname =>
      h name d (List.mem_append_right _ hname)
    exact ⟨n + m, _, .cons (hs.mono (by omega)) (hrest.mono (by omega))⟩

end

end Existence

/-- A name leads to a schema that is declared where it says, in a file or among its exports. -/
theorem declares_steps (n : Nat) :
    (∀ file name c, p.schemaLocal n file name = some c → p.Declares c) ∧
      ∀ file name c, p.schemaExport n file name = some c → p.Declares c := by
  induction n with
  | zero => exact ⟨nofun, nofun⟩
  | succ n ih =>
    refine ⟨fun file name c hc => ?_, fun file name c hc => ?_⟩
    · rw [schemaLocal] at hc
      obtain ⟨m, hm, hc⟩ := Option.bind_eq_some_iff.1 hc
      cases hs : m.schemas.find? name with
      | some s =>
        rw [hs] at hc
        cases hc
        exact ⟨m, name, module?_path hm, rfl, hs⟩
      | none =>
        rw [hs] at hc
        obtain ⟨binding, -, hc⟩ := Option.bind_eq_some_iff.1 hc
        obtain ⟨imported, -, hc⟩ := Option.bind_eq_some_iff.1 hc
        obtain ⟨target, -, hc⟩ := Option.bind_eq_some_iff.1 hc
        exact ih.2 target imported c hc
    · rw [schemaExport] at hc
      obtain ⟨m, -, hc⟩ := Option.bind_eq_some_iff.1 hc
      cases hexport : m.exports.find? name with
      | some inner =>
        rw [hexport] at hc
        exact ih.1 file inner c hc
      | none =>
        rw [hexport] at hc
        obtain ⟨r, -, hc⟩ := List.exists_of_findSome?_eq_some hc
        cases r with
        | named as imported specifier =>
          dsimp only at hc
          split at hc
          · obtain ⟨target, -, hc⟩ := Option.bind_eq_some_iff.1 hc
            exact ih.2 target imported c hc
          · cases hc
        | all specifier =>
          obtain ⟨target, -, hc⟩ := Option.bind_eq_some_iff.1 hc
          exact ih.2 target name c hc
        | wholeModule as specifier => cases hc

/-- What is reached through names is declared. -/
theorem declares_of_transGen {c d : FoundSchema} (h : TransGen p.Refers c d) : p.Declares d := by
  obtain ⟨e, -, name, -, hfound⟩ := TransGen.tail'_iff.1 h
  exact (declares_steps maxSteps).1 e.file name d hfound

/-- There are finitely many declared constants. -/
theorem finite_declares (p : Program) : {c | p.Declares c}.Finite := by
  refine (List.finite_toSet (p.modules.flatMap fun m =>
    m.schemas.entries.map fun e => ⟨m.path, e.2⟩)).subset ?_
  rintro ⟨file, s⟩ ⟨m, name, hm, rfl, hs⟩
  exact List.mem_flatMap.2 ⟨m, List.mem_of_find?_eq_some hm,
    List.mem_map.2 ⟨(name, s), NameMap.mem_of_lookup hs, rfl⟩⟩

/-- Without cycles following names comes to an end: to come later on the way is a transitive relation
without reflexive pairs on finitely many constants. -/
theorem Acyclic.acc {c : FoundSchema} (h : p.Acyclic c) : Acc (flip p.Refers) c := by
  have hfinite : {d | ReflTransGen p.Refers c d}.Finite := by
    refine ((finite_declares p).insert c).subset fun d hd => ?_
    rcases reflTransGen_iff_eq_or_transGen.1 hd with rfl | hd
    · exact Set.mem_insert _ _
    · exact Set.mem_insert_of_mem _ (declares_of_transGen hd)
  let before (d e : {d | ReflTransGen p.Refers c d}) : Prop := TransGen p.Refers e.1 d.1
  have : Finite {d | ReflTransGen p.Refers c d} := hfinite
  have : IsTrans _ before := ⟨fun _ _ _ hde hef => hef.trans hde⟩
  have : Std.Irrefl before := ⟨fun d => h d.1 d.2⟩
  have hwf : WellFounded before := Finite.wellFounded_of_trans_of_irrefl before
  have hall : ∀ d : {d | ReflTransGen p.Refers c d}, Acc (flip p.Refers) d.1 := fun d => by
    induction d using hwf.induction with
    | _ d ih => exact .intro _ fun e he => ih ⟨e, d.2.tail he⟩ (.single he)
  exact hall ⟨c, .refl⟩

/-- A constant from which following names comes to an end can be inlined. -/
theorem exists_inlines_of_acc {c : FoundSchema} (h : Acc (flip p.Refers) c) :
    ∃ n t, p.Inlines n c.file c.schema t := by
  induction h with
  | intro c _ ih =>
    exact exists_inlines_of_refs c.file c.schema fun name d hname hfound =>
      ih d ⟨name, hname, hfound⟩

/-! ## Leaves of inlined schemas -/

/-- How leaves of a file become leaves of an inlined schema: what a name among the former leads to
is inlined less deep, and each of the latter is kept or belongs to such a definition. -/
structure Traced (p : Program) (n : Nat) (file : Path) (leaves leaves' : List Schema) : Prop where
  entered : ∀ name d, .ref name ∈ leaves → p.schemaLocal maxSteps file name = some d →
    ∃ m < n, ∃ t, p.Inlines m d.file d.schema t
  left : ∀ leaf ∈ leaves',
    (leaf ∈ leaves ∧ ∀ name, leaf = .ref name → p.schemaLocal maxSteps file name = none) ∨
      ∃ name d, .ref name ∈ leaves ∧ p.schemaLocal maxSteps file name = some d ∧
        ∃ m < n, ∃ t, p.Inlines m d.file d.schema t ∧ leaf ∈ t.leaves

namespace Traced

variable {n m : Nat} {file : Path} {ls ls' ms ms' : List Schema}

/-- Leaves may be entered deeper. -/
theorem mono (h : p.Traced n file ls ls') (hnm : n ≤ m) : p.Traced m file ls ls' where
  entered name d hname hd := by
    obtain ⟨k, hk, t, ht⟩ := h.entered name d hname hd
    exact ⟨k, by omega, t, ht⟩
  left leaf hleaf := by
    obtain hkept | ⟨name, d, hname, hd, k, hk, t, ht⟩ := h.left leaf hleaf
    · exact .inl hkept
    · exact .inr ⟨name, d, hname, hd, k, by omega, t, ht⟩

/-- Parts are traced one by one. -/
theorem append (h : p.Traced n file ls ls') (h' : p.Traced n file ms ms') :
    p.Traced n file (ls ++ ms) (ls' ++ ms') where
  entered name d hname hd :=
    (List.mem_append.1 hname).elim (h.entered name d · hd) (h'.entered name d · hd)
  left leaf hleaf := by
    rcases List.mem_append.1 hleaf with hleaf | hleaf
    · obtain ⟨hin, hkept⟩ | ⟨name, d, hname, hd⟩ := h.left leaf hleaf
      · exact .inl ⟨List.mem_append_left _ hin, hkept⟩
      · exact .inr ⟨name, d, List.mem_append_left _ hname, hd⟩
    · obtain ⟨hin, hkept⟩ | ⟨name, d, hname, hd⟩ := h'.left leaf hleaf
      · exact .inl ⟨List.mem_append_right _ hin, hkept⟩
      · exact .inr ⟨name, d, List.mem_append_right _ hname, hd⟩

/-- Nothing is traced to nothing. -/
theorem nil : p.Traced n file [] [] := ⟨nofun, nofun⟩

end Traced

mutual

/-- The leaves of an inlined schema are traced. -/
theorem Inlines.traced : ∀ {n : Nat} {file : Path} {s t : Schema}, p.Inlines n file s t →
    p.Traced n file s.leaves t.leaves
  | n + 1, file, .ref name, t, .found (c := c) h ht => by
    refine ⟨fun name' d hname hd => ?_, fun leaf hleaf => ?_⟩
    · obtain rfl := Schema.ref.inj (List.mem_singleton.1 hname)
      obtain rfl := Option.some.inj (h.symm.trans hd)
      exact ⟨n, by omega, t, ht⟩
    · exact .inr ⟨name, c, List.mem_singleton.2 rfl, h, n, by omega, t, ht, hleaf⟩
  | _, _, .ref name, _, .kept h => by
    refine ⟨fun name' d hname hd => ?_, fun leaf hleaf => .inl ⟨hleaf, fun name' hname => ?_⟩⟩
    · obtain rfl := Schema.ref.inj (List.mem_singleton.1 hname)
      rw [h] at hd
      cases hd
    · obtain rfl := Schema.ref.inj ((List.mem_singleton.1 hleaf).symm.trans hname)
      exact h
  | _, _, _, _, .builder h => h.traced
  | _, _, _, _, .method hreceiver h => (hreceiver.traced.mono (Nat.le_succ _)).append h.traced
  | _, _, _, _, .unknown => by
    refine ⟨fun name d hname => ?_, fun leaf hleaf => .inl ⟨hleaf, fun name hname => ?_⟩⟩
    · cases List.mem_singleton.1 hname
    · cases (List.mem_singleton.1 hleaf).symm.trans hname

/-- The leaves of inlined arguments are traced. -/
theorem InlinesArgs.traced : ∀ {n : Nat} {file : Path} {args args' : List SchemaArg},
    p.InlinesArgs n file args args' → p.Traced n file (argsLeaves args) (argsLeaves args')
  | _, _, _, _, .nil => .nil
  | _, _, _, _, .schema h hrest => (h.traced.mono (Nat.le_succ _)).append hrest.traced
  | _, _, _, _, .object h hrest => (h.traced.mono (Nat.le_succ _)).append hrest.traced
  | _, _, _, _, .array h hrest => (h.traced.mono (Nat.le_succ _)).append hrest.traced
  | _, _, _, _, .literal hrest => hrest.traced
  | _, _, _, _, .other hrest => hrest.traced

/-- The leaves of inlined properties are traced. -/
theorem InlinesEntries.traced : ∀ {n : Nat} {file : Path} {entries entries' : List SchemaEntry},
    p.InlinesEntries n file entries entries' →
      p.Traced n file (entriesLeaves entries) (entriesLeaves entries')
  | _, _, _, _, .nil => .nil
  | _, _, _, _, .cons h hrest => h.traced.append hrest.traced

end

/-- What a constant that can be inlined refers to is inlined less deep. -/
theorem Inlines.of_refers {n : Nat} {c d : FoundSchema} {t : Schema}
    (h : p.Inlines n c.file c.schema t) (hd : p.Refers c d) :
    ∃ m < n, ∃ u, p.Inlines m d.file d.schema u := by
  obtain ⟨name, hname, hfound⟩ := hd
  exact h.traced.entered name d hname hfound

/-- A constant that can be inlined does not reach itself. -/
theorem Inlines.not_transGen {n : Nat} {c : FoundSchema} {t : Schema}
    (h : p.Inlines n c.file c.schema t) : ¬ TransGen p.Refers c c := by
  induction n using Nat.strong_induction_on generalizing c t with
  | _ n ih =>
    intro hcycle
    -- The constant behind the first name of the cycle is on a cycle too.
    obtain ⟨d, hcd, hdc⟩ := TransGen.head'_iff.1 hcycle
    obtain ⟨m, hm, u, hu⟩ := h.of_refers hcd
    exact ih m hm hu (TransGen.tail' hdc hcd)

/-- A constant that can be inlined reaches no cycle. -/
theorem Inlines.acyclic {n : Nat} {c : FoundSchema} {t : Schema}
    (h : p.Inlines n c.file c.schema t) : p.Acyclic c := by
  intro d hd
  have hreached : ∃ m u, p.Inlines m d.file d.schema u := by
    induction hd with
    | refl => exact ⟨n, t, h⟩
    | tail _ hrefers ih =>
      obtain ⟨m, u, hu⟩ := ih
      obtain ⟨k, -, v, hv⟩ := hu.of_refers hrefers
      exact ⟨k, v, hv⟩
  obtain ⟨m, u, hu⟩ := hreached
  exact hu.not_transGen

/-- A leaf of an inlined constant is a leaf of a constant that is reached, and a name only if it
leads nowhere there. -/
theorem Inlines.leaf_of_mem {n : Nat} {c : FoundSchema} {t : Schema}
    (h : p.Inlines n c.file c.schema t) {leaf : Schema} (hleaf : leaf ∈ t.leaves) :
    ∃ d, ReflTransGen p.Refers c d ∧ leaf ∈ d.schema.leaves ∧
      ∀ name, leaf = .ref name → p.schemaLocal maxSteps d.file name = none := by
  induction n using Nat.strong_induction_on generalizing c t with
  | _ n ih =>
    obtain ⟨hin, hkept⟩ | ⟨name, d, hname, hd, m, hm, u, hu, hleaf⟩ := h.traced.left leaf hleaf
    · exact ⟨c, .refl, hin, hkept⟩
    · obtain ⟨e, hreaches, he⟩ := ih m hm hu hleaf
      exact ⟨e, .head ⟨name, hname, hd⟩ hreaches, he⟩

mutual

/-- A schema whose names lead nowhere is inlined as it is. -/
theorem Inlines.eq_self : ∀ {n : Nat} {file : Path} {s t : Schema}, p.Inlines n file s t →
    (∀ name, .ref name ∈ s.leaves → p.schemaLocal maxSteps file name = none) → t = s
  | _, _, .ref name, _, .found h _, hnone => by
    rw [hnone name (List.mem_singleton.2 rfl)] at h
    cases h
  | _, _, _, _, .kept _, _ => rfl
  | _, _, _, _, .builder h, hnone => by rw [h.eq_self hnone]
  | _, _, _, _, .method hreceiver h, hnone => by
    rw [hreceiver.eq_self fun name hname => hnone name (List.mem_append_left _ hname),
      h.eq_self fun name hname => hnone name (List.mem_append_right _ hname)]
  | _, _, _, _, .unknown, _ => rfl

/-- Arguments whose names lead nowhere are inlined as they are. -/
theorem InlinesArgs.eq_self : ∀ {n : Nat} {file : Path} {args args' : List SchemaArg},
    p.InlinesArgs n file args args' →
      (∀ name, .ref name ∈ argsLeaves args → p.schemaLocal maxSteps file name = none) →
        args' = args
  | _, _, _, _, .nil, _ => rfl
  | _, _, _, _, .schema h hrest, hnone => by
    rw [h.eq_self fun name hname => hnone name (List.mem_append_left _ hname),
      hrest.eq_self fun name hname => hnone name (List.mem_append_right _ hname)]
  | _, _, _, _, .object h hrest, hnone => by
    rw [h.eq_self fun name hname => hnone name (List.mem_append_left _ hname),
      hrest.eq_self fun name hname => hnone name (List.mem_append_right _ hname)]
  | _, _, _, _, .array h hrest, hnone => by
    rw [h.eq_self fun name hname => hnone name (List.mem_append_left _ hname),
      hrest.eq_self fun name hname => hnone name (List.mem_append_right _ hname)]
  | _, _, _, _, .literal hrest, hnone => by rw [hrest.eq_self hnone]
  | _, _, _, _, .other hrest, hnone => by rw [hrest.eq_self hnone]

/-- Properties whose names lead nowhere are inlined as they are. -/
theorem InlinesEntries.eq_self : ∀ {n : Nat} {file : Path} {entries entries' : List SchemaEntry},
    p.InlinesEntries n file entries entries' →
      (∀ name, .ref name ∈ entriesLeaves entries → p.schemaLocal maxSteps file name = none) →
        entries' = entries
  | _, _, _, _, .nil, _ => rfl
  | _, _, _, _, .cons h hrest, hnone => by
    rw [h.eq_self fun name hname => hnone name (List.mem_append_left _ hname),
      hrest.eq_self fun name hname => hnone name (List.mem_append_right _ hname)]

end

/-! ## Inlining is exact -/

/-- For every constant that reaches no cycle: what it reaches through names is declared where it was
found, and there is exactly one schema in which all of this stands in the place of its names.
`inlineSchema` gives that schema with more steps than it takes levels. Its leaves are leaves of
constants that were reached, and the names among them lead nowhere; a schema whose names lead
nowhere is given back as it is. -/
theorem inlineSchema_exact {c : FoundSchema} (hacyclic : p.Acyclic c) :
    (∀ d, TransGen p.Refers c d → p.Declares d) ∧
      ∃ t, (∃ levels, p.Inlines levels c.file c.schema t) ∧
        (∀ levels u, p.Inlines levels c.file c.schema u → u = t ∧
          ∀ steps, levels < steps → p.inlineSchema steps c.file c.schema = t) ∧
        (∀ leaf ∈ t.leaves, ∃ d, ReflTransGen p.Refers c d ∧ leaf ∈ d.schema.leaves ∧
          ∀ name, leaf = .ref name → p.schemaLocal maxSteps d.file name = none) ∧
        ((∀ name, .ref name ∈ c.schema.leaves → p.schemaLocal maxSteps c.file name = none) →
          t = c.schema) := by
  obtain ⟨levels, t, ht⟩ := exists_inlines_of_acc hacyclic.acc
  refine ⟨fun d hd => declares_of_transGen hd, t, ⟨levels, ht⟩, ?_, ?_, ?_⟩
  · intro levels' u hu
    refine ⟨hu.unique ht, fun steps hsteps => ?_⟩
    rw [hu.inlineSchema_eq hsteps]
    exact hu.unique ht
  · exact fun leaf hleaf => ht.leaf_of_mem hleaf
  · exact ht.eq_self

/-- The constant that declares a user. -/
def userConst : FoundSchema := ⟨⟨"/src/user.ts"⟩, .builder "object" [.object [⟨"id", .ref "Id"⟩]]⟩

/-- The file of the user, and another file in which the id is declared as a key. -/
def userAndId : Program where
  modules := [{ SourceModule.empty userConst.file with
      imports := ⟨[("Id", ⟨"./id", .named "Id"⟩)]⟩
      schemas := ⟨[("User", userConst.schema)]⟩ },
    { SourceModule.empty ⟨"/src/id.ts"⟩ with
      exports := ⟨[("Id", "Key")]⟩
      schemas := ⟨[("Key", .method (.builder "string" []) "uuid" [])]⟩ }]
  unreadable := []

/-- The id of a user is the key in the other file. -/
theorem inlineSchema_exact_user :
    userAndId.Acyclic userConst ∧
      userAndId.inlineSchema maxSteps userConst.file userConst.schema =
        .builder "object" [.object [⟨"id", .method (.builder "string" []) "uuid" []⟩]] := by
  have hid : userAndId.schemaLocal maxSteps ⟨"/src/user.ts"⟩ "Id" =
      some ⟨⟨"/src/id.ts"⟩, .method (.builder "string" []) "uuid" []⟩ := rfl
  have huser : userAndId.Inlines 3 userConst.file userConst.schema
      (.builder "object" [.object [⟨"id", .method (.builder "string" []) "uuid" []⟩]]) :=
    .builder (.object (.cons (.found hid (.method (.builder .nil) .nil)) .nil) .nil)
  obtain ⟨-, t, -, hexact, -⟩ := inlineSchema_exact huser.acyclic
  obtain ⟨rfl, hsteps⟩ := hexact 3 _ huser
  exact ⟨huser.acyclic, hsteps maxSteps (by decide)⟩

/-! ## Too many levels -/

/-- A schema with a number of calls of a method behind it. -/
def called (s : Schema) (method : String) : Nat → Schema
  | 0 => s
  | n + 1 => .method (called s method n) method []

/-- With no more steps than calls nothing is left of what they are called on. -/
theorem inlineSchema_called (p : Program) (file : Path) (s : Schema) (method : String)
    (n : Nat) : p.inlineSchema n file (called s method n) = called .unknown method n := by
  induction n with
  | zero => rw [inlineSchema, called]
  | succ n ih => rw [called, inlineSchema, ih, inlineArgs, called]

/-- A file of schema constants with their schemas. -/
def constants (schemas : List (String × Schema)) : Program where
  modules := [{ SourceModule.empty ⟨"/src/api.ts"⟩ with schemas := ⟨schemas⟩ }]
  unreadable := []

/-- A user, with seventeen calls behind its declaration. -/
def strictUser : Schema :=
  called (.builder "object" [.object [⟨"id", .builder "string" []⟩]]) "strict" 17

/-- Constants of which each one is the next, and the last one a string. -/
def chain : List String → List (String × Schema)
  | [] => []
  | [name] => [(name, .builder "string" [])]
  | name :: next :: rest => (name, .ref next) :: chain (next :: rest)

/-- Eighteen constants, of which each one names the one declared before it. -/
def longChain : List (String × Schema) :=
  (chain ["A", "B", "C", "D", "E", "F", "G", "H", "I", "J", "K", "L", "M", "N", "O", "P", "Q",
    "R"]).reverse

/-- Inlining ends after `maxSteps` levels. A user without any names in it loses its declaration
behind seventeen calls, and with it all fields, and of a chain of eighteen constants nothing is
left. So it is not exact for every constant that reaches no cycle. -/
theorem inlineSchema_cut :
    (strictUser.leaves = [] ∧
      (constants [("User", strictUser)]).inlineSchema maxSteps ⟨"/src/api.ts"⟩ strictUser =
        called .unknown "strict" 17 ∧
      (strictUser.fields? .output).isSome = true ∧
      ((called .unknown "strict" 17).fields? .output).isSome = false) ∧
    ((constants longChain).Inlines 17 ⟨"/src/api.ts"⟩ (.ref "B") (.builder "string" []) ∧
      (constants longChain).inlineSchema maxSteps ⟨"/src/api.ts"⟩ (.ref "B") = .unknown) ∧
    ¬ ∀ (p : Program) (c : FoundSchema) (levels : Nat) (t : Schema), p.Declares c → p.Acyclic c →
      p.Inlines levels c.file c.schema t → p.inlineSchema maxSteps c.file c.schema = t := by
  have hchain : (constants longChain).Inlines 17 ⟨"/src/api.ts"⟩ (.ref "B")
      (.builder "string" []) := by
    iterate 17 refine .found (by rfl) ?_
    exact .builder .nil
  have hnothing : (constants longChain).inlineSchema maxSteps ⟨"/src/api.ts"⟩ (.ref "B") =
      .unknown := by
    iterate 17 refine (inlineSchema_found (by rfl)).trans ?_
    rw [inlineSchema]
  refine ⟨⟨rfl, inlineSchema_called .., rfl, rfl⟩, ⟨hchain, hnothing⟩, fun hexact => ?_⟩
  have hdeclared : (constants longChain).Declares ⟨⟨"/src/api.ts"⟩, .ref "B"⟩ :=
    ⟨_, "A", rfl, rfl, rfl⟩
  have hstring := hexact _ ⟨⟨"/src/api.ts"⟩, .ref "B"⟩ 17 _ hdeclared hchain.acyclic hchain
  rw [hnothing] at hstring
  cases hstring

end Program

end IpcWiring
