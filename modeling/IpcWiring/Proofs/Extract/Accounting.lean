import IpcWiring.Proofs.Extract.Requests

/-!
# What becomes of every declaration

Extraction makes the checks of a declaration in a fixed order (`SkipReason.rank`). What it is for
one to fail is said apart from the others (`FunctionFails`, `AliasFails`), so that several can fail
together; a declaration is an entry if none does, and else it is skipped for the first one
(`settles_apiFunction`, `settles_apiEvent`). A function of a known name fails the first check of
all, whatever became of the one before it. So every declaration of a module is accounted for, once
and in order (`extraction_accounts`). Of type aliases with one name the module has but the last.
-/

namespace IpcWiring

open Script

/-! ## Checks -/

/-- The place of the check that a reason stands for, in the order in which the checks of a
declaration are made. -/
def SkipReason.rank : SkipReason → Nat
  | unreadableFile => 0
  | overload => 1
  | defaultExport | notExported => 2
  | ignored | notAFunctionType => 3
  | noParameters | unsupportedContextParameter | contextMismatch _ | returnNotVoid => 4
  | unexportedType _ | parameterCount _ => 5
  | parameterNotNamedReference => 6

/-- Of the checks that fail, the reason stands for the first one. -/
structure IsFirst (fails : SkipReason → Prop) (reason : SkipReason) : Prop where
  holds : fails reason
  least : ∀ other, fails other → other = reason ∨ reason.rank < other.rank

/-- A declaration is an entry if no check fails, and else it is skipped for the first one that
does. -/
inductive Settles {α : Type} (fails : SkipReason → Prop) (entry : α → Prop) :
    Except SkipReason α → Prop where
  | entry {a : α} (hnone : ∀ reason, ¬ fails reason) (ha : entry a) : Settles fails entry (.ok a)
  | skip {reason : SkipReason} (h : IsFirst fails reason) : Settles fails entry (.error reason)

/-- What it is for a check of a function to fail, by the reason. -/
inductive FunctionFails (rules : ApiRules) (p : Program) (m : SourceModule) (path : Path)
    (before : List FunctionDecl) (f : FunctionDecl) : SkipReason → Prop where
  | overload (h : ∃ g ∈ before, g.name = f.name) : FunctionFails rules p m path before f .overload
  | defaultExport (hown : m.exports.find? f.name ≠ some f.name)
      (hdefault : m.exports.find? "default" = some f.name) :
      FunctionFails rules p m path before f .defaultExport
  | notExported (hown : m.exports.find? f.name ≠ some f.name)
      (hdefault : m.exports.find? "default" ≠ some f.name) :
      FunctionFails rules p m path before f .notExported
  | ignored (h : f.name ∈ rules.ignoredIn path) :
      FunctionFails rules p m path before f .ignored
  | noParameters (h : f.params = []) : FunctionFails rules p m path before f .noParameters
  | unsupported {first : Param} {rest : List Param} (h : f.params = first :: rest)
      (hplain : ∀ name t, first.pattern = .name name → first.type? ≠ some t) :
      FunctionFails rules p m path before f .unsupportedContextParameter
  | mismatch {first : Param} {rest : List Param} {name : String} {t : TypeExpr}
      (h : f.params = first :: rest) (hpattern : first.pattern = .name name)
      (htype : first.type? = some t) (hother : p.declaredName path t ≠ some rules.contextName) :
      FunctionFails rules p m path before f
        (.contextMismatch ((p.declaredName path t).getD t.text))
  | unexported {n : String} {more : List String}
      (h : (flatten p path f.params).unexported = n :: more) :
      FunctionFails rules p m path before f (.unexportedType n)

/-- What it is for a check of a type alias to fail, by the reason. -/
inductive AliasFails (m : SourceModule) (a : AliasDecl) : SkipReason → Prop where
  | notExported (h : m.exports.find? a.name ≠ some a.name) : AliasFails m a .notExported
  | notAFunctionType (h : ∀ params result, a.type.stripParens.form ≠ .function params result) :
      AliasFails m a .notAFunctionType
  | returnNotVoid {params : List Param} {result : TypeExpr}
      (h : a.type.stripParens.form = .function params result)
      (hresult : isKeyword result "void" = false) : AliasFails m a .returnNotVoid
  | parameterCount {params : List Param} {result : TypeExpr}
      (h : a.type.stripParens.form = .function params result) (hcount : params.length ≠ 1) :
      AliasFails m a (.parameterCount params.length)
  | parameter {param : Param} {result : TypeExpr}
      (h : a.type.stripParens.form = .function [param] result)
      (hnamed : namedPayload? param = none) : AliasFails m a .parameterNotNamedReference

/-- The event of an alias of a function type that takes a value of a named type. -/
inductive EventOf (p : Program) (path : Path) (a : AliasDecl) : ApiEvent → Prop where
  | named {param : Param} {result : TypeExpr} {name : TypeName}
      (h : a.type.stripParens.form = .function [param] result)
      (hnamed : namedPayload? param = some name) :
      EventOf p path a ⟨a.name, name.text, p.importFor? path name.head⟩

section
variable {rules : ApiRules} {p : Program} {m : SourceModule} {path : Path}
  {before : List FunctionDecl} {f : FunctionDecl} {repeated : Bool}

/-- The checks of a function, one after another. -/
theorem apiFunction_eq : apiFunction rules p m path repeated f =
    if repeated then .error .overload
    else if m.exports.find? f.name ≠ some f.name then
      .error (if m.exports.find? "default" = some f.name then .defaultExport else .notExported)
    else if f.name ∈ rules.ignoredIn path then .error .ignored
    else match checkContext rules p path f.params with
      | .error reason => .error reason
      | .ok _ => match (flatten p path f.params).unexported with
        | n :: _ => .error (.unexportedType n)
        | [] => .ok (entryOf rules p m path f) := by
  have hexport : checkExport m f.name =
      if m.exports.find? f.name ≠ some f.name then
        .error (if m.exports.find? "default" = some f.name then .defaultExport else .notExported)
      else .ok () := by
    simp [checkExport, SourceModule.exportsAsItself, ite_not]
  rw [apiFunction, hexport]
  simp only [bind, Except.bind, List.contains_iff_mem]
  cases repeated with
  | true => rfl
  | false =>
    by_cases hown : m.exports.find? f.name ≠ some f.name
    · rw [if_pos hown, if_pos hown]
      rfl
    · rw [if_neg hown, if_neg hown]
      by_cases hignored : f.name ∈ rules.ignoredIn path
      · rw [if_pos hignored, if_pos hignored]
        rfl
      · rw [if_neg hignored, if_neg hignored]
        cases checkContext rules p path f.params with
        | error reason => rfl
        | ok _ => cases (flatten p path f.params).unexported <;> rfl

/-- At most one check of a rank fails. -/
theorem FunctionFails.unique {r s : SkipReason} (hr : FunctionFails rules p m path before f r)
    (hs : FunctionFails rules p m path before f s) (hrank : r.rank = s.rank) : r = s := by
  cases hr <;> cases hs <;> simp_all [SkipReason.rank]

/-- The check of the first parameter fails for its own reason, and it lets pass a function only if
none of these fails. -/
theorem checkContext_fails (rules : ApiRules) (p : Program) (m : SourceModule) (path : Path)
    (before : List FunctionDecl) (f : FunctionDecl) :
    (∀ reason, checkContext rules p path f.params = .error reason →
      FunctionFails rules p m path before f reason ∧ reason.rank = 4) ∧
    (checkContext rules p path f.params = .ok () →
      ∀ reason, FunctionFails rules p m path before f reason → reason.rank ≠ 4) := by
  refine ⟨fun reason h => ?_, fun h reason hreason hrank => ?_⟩
  · unfold checkContext at h
    split at h
    · next hparams =>
      cases h
      exact ⟨.noParameters hparams, rfl⟩
    · next first rest hparams =>
      split at h
      · next name t hpattern htype =>
        dsimp only at h
        split at h
        · cases h
        · next hother =>
          cases h
          exact ⟨.mismatch hparams hpattern htype (by simpa using hother), rfl⟩
      · next hplain =>
        cases h
        exact ⟨.unsupported hparams hplain, rfl⟩
  · cases hreason <;> simp_all [SkipReason.rank, checkContext]

/-- A function is skipped for a check that fails if none of a lower rank does. -/
theorem FunctionFails.settles {α : Type} {entry : α → Prop} {reason : SkipReason}
    (h : FunctionFails rules p m path before f reason)
    (hle : ∀ other, FunctionFails rules p m path before f other → reason.rank ≤ other.rank) :
    Settles (FunctionFails rules p m path before f) entry (.error reason) :=
  .skip ⟨h, fun other hother =>
    (Nat.eq_or_lt_of_le (hle other hother)).imp_left fun heq => hother.unique h heq.symm⟩

/-- A function is settled by its checks. -/
theorem settles_apiFunction (hrepeated : repeated = true ↔ ∃ g ∈ before, g.name = f.name) :
    Settles (FunctionFails rules p m path before f) (· = entryOf rules p m path f)
      (apiFunction rules p m path repeated f) := by
  rw [apiFunction_eq]
  by_cases hrep : ∃ g ∈ before, g.name = f.name
  · rw [if_pos (hrepeated.2 hrep)]
    exact (FunctionFails.overload hrep).settles fun other h => by cases h <;> simp [SkipReason.rank]
  rw [if_neg (mt hrepeated.1 hrep)]
  by_cases hown : m.exports.find? f.name ≠ some f.name
  · rw [if_pos hown]
    have hpast : ∀ other, FunctionFails rules p m path before f other → 2 ≤ other.rank :=
      fun other h => by cases h <;> simp_all [SkipReason.rank]
    by_cases hdefault : m.exports.find? "default" = some f.name
    · rw [if_pos hdefault]
      exact (FunctionFails.defaultExport hown hdefault).settles hpast
    · rw [if_neg hdefault]
      exact (FunctionFails.notExported hown hdefault).settles hpast
  rw [if_neg hown]
  by_cases hignored : f.name ∈ rules.ignoredIn path
  · rw [if_pos hignored]
    refine (FunctionFails.ignored hignored).settles fun other h => ?_
    cases h <;> simp_all [SkipReason.rank]
  rw [if_neg hignored]
  have hpast : ∀ other, FunctionFails rules p m path before f other → 4 ≤ other.rank :=
    fun other h => by cases h <;> simp_all [SkipReason.rank]
  obtain ⟨herror, hok⟩ := checkContext_fails rules p m path before f
  cases hcontext : checkContext rules p path f.params with
  | error reason =>
    obtain ⟨hfails, hrank⟩ := herror reason hcontext
    exact hfails.settles (hrank ▸ hpast)
  | ok _ =>
    have hlast : ∀ other, FunctionFails rules p m path before f other → 5 ≤ other.rank :=
      fun other h => (hpast other h).lt_of_ne' (hok hcontext other h)
    cases hunexported : (flatten p path f.params).unexported with
    | cons n more => exact (FunctionFails.unexported hunexported).settles hlast
    | nil =>
      refine .entry (fun reason h => ?_) rfl
      have hrank := hlast reason h
      cases h <;> simp_all [SkipReason.rank]

/-- The checks of a type alias, one after another. -/
theorem apiEvent_eq (p : Program) (m : SourceModule) (path : Path) (a : AliasDecl) :
    apiEvent p m path a =
      if m.exports.find? a.name ≠ some a.name then .error .notExported
      else match a.type.stripParens.form with
        | .function params result =>
          if isKeyword result "void" = false then .error .returnNotVoid
          else match params with
            | [param] => match namedPayload? param with
              | some name => .ok ⟨a.name, name.text, p.importFor? path name.head⟩
              | none => .error .parameterNotNamedReference
            | _ => .error (.parameterCount params.length)
        | _ => .error .notAFunctionType := by
  rw [apiEvent, SourceModule.exportsAsItself]
  by_cases hown : m.exports.find? a.name ≠ some a.name
  · rw [if_pos hown, if_pos (by simpa using hown)]
    rfl
  · rw [if_neg hown, if_neg (by simpa using hown)]
    cases a.type.stripParens.form with
    | function params result =>
      simp only [bind, Except.bind]
      cases isKeyword result "void" with
      | false => rfl
      | true =>
        obtain _ | ⟨param, _ | ⟨second, more⟩⟩ := params
        · rfl
        · cases namedPayload? param <;> rfl
        · rfl
    | _ => rfl

/-- A type alias is settled by its checks. -/
theorem settles_apiEvent (p : Program) (m : SourceModule) (path : Path) (a : AliasDecl) :
    Settles (AliasFails m a) (EventOf p path a) (apiEvent p m path a) := by
  rw [apiEvent_eq]
  by_cases hown : m.exports.find? a.name ≠ some a.name
  · rw [if_pos hown]
    refine .skip ⟨.notExported hown, fun other h => ?_⟩
    cases h <;> simp [SkipReason.rank]
  rw [if_neg hown]
  cases hform : a.type.stripParens.form with
  | function params result =>
    dsimp only
    by_cases hresult : isKeyword result "void" = false
    · rw [if_pos hresult]
      refine .skip ⟨.returnNotVoid hform hresult, fun other h => ?_⟩
      cases h <;> simp_all [SkipReason.rank]
    rw [if_neg hresult]
    obtain _ | ⟨param, _ | ⟨second, more⟩⟩ := params
    case cons.nil =>
      cases hnamed : namedPayload? param with
      | some name =>
        simp only [hnamed]
        refine .entry (fun reason h => ?_) (.named hform hnamed)
        cases h <;> simp_all
      | none =>
        simp only [hnamed]
        refine .skip ⟨.parameter hform hnamed, fun other h => ?_⟩
        cases h <;> simp_all [SkipReason.rank]
    all_goals
      refine .skip ⟨AliasFails.parameterCount hform (by simp), fun other h => ?_⟩
      cases h <;> simp_all [SkipReason.rank]
  | _ =>
    refine .skip ⟨.notAFunctionType (by simp [hform]), fun other h => ?_⟩
    cases h <;> simp_all [SkipReason.rank]

end

/-! ## Declarations of a file -/

section
variable {α δ : Type} {path : Path} {name : δ → String}
  {fails : List δ → δ → SkipReason → Prop} {entry : δ → α → Prop}

/-- Each declaration in turn, behind those before it, gives an entry if no check fails, and else is
skipped for the first check that does. Nothing else is extracted or skipped. -/
inductive Accounted (path : Path) (name : δ → String) (fails : List δ → δ → SkipReason → Prop)
    (entry : δ → α → Prop) : List δ → List δ → List α → List Skipped → Prop where
  | done {before : List δ} : Accounted path name fails entry before [] [] []
  | entry {before rest : List δ} {d : δ} {a : α} {entries : List α} {skipped : List Skipped}
      (hnone : ∀ reason, ¬ fails before d reason) (ha : entry d a)
      (hrest : Accounted path name fails entry (before ++ [d]) rest entries skipped) :
      Accounted path name fails entry before (d :: rest) (a :: entries) skipped
  | skip {before rest : List δ} {d : δ} {reason : SkipReason} {entries : List α}
      {skipped : List Skipped} (hfirst : IsFirst (fails before d) reason)
      (hrest : Accounted path name fails entry (before ++ [d]) rest entries skipped) :
      Accounted path name fails entry before (d :: rest) entries
        (⟨path, some (name d), reason⟩ :: skipped)

/-- A declaration that is settled is accounted for. -/
theorem Accounted.settled {before rest : List δ} {d : δ} {outcome : Except SkipReason α}
    {outcomes : List (String × Except SkipReason α)}
    (h : Settles (fails before d) (entry d) outcome)
    (hrest : Accounted path name fails entry (before ++ [d]) rest
      (partitionOutcomes path outcomes).1 (partitionOutcomes path outcomes).2) :
    Accounted path name fails entry before (d :: rest)
      (partitionOutcomes path ((name d, outcome) :: outcomes)).1
      (partitionOutcomes path ((name d, outcome) :: outcomes)).2 := by
  cases h with
  | entry hnone ha => exact .entry hnone ha hrest
  | skip hfirst => exact .skip hfirst hrest

end

section
variable {α : Type} {p : Program} {paths : List Path}

/-- The functions of a file are accounted for, those that are the default export first. -/
def FunctionsAccounted (rules : ApiRules) (p : Program) (path : Path) (m : SourceModule)
    (entries : List ApiFunction) (skipped : List Skipped) : Prop :=
  ∃ others, skipped =
      m.defaultFunctions.map (fun name => ⟨path, some name, .defaultExport⟩) ++ others ∧
    Accounted path (·.name) (FunctionFails rules p m path) (fun f a => a = entryOf rules p m path f)
      [] m.functions entries others

/-- The type aliases of a file are accounted for, in the order of the source. -/
def AliasesAccounted (p : Program) (path : Path) (m : SourceModule) (entries : List ApiEvent)
    (skipped : List Skipped) : Prop :=
  ∃ aliases, aliases.Perm m.aliases.values ∧ aliases.Pairwise (·.start ≤ ·.start) ∧
    Accounted path (·.name) (fun _ => AliasFails m) (EventOf p path) [] aliases entries skipped

/-- A file that cannot be read is skipped as a whole and has no record. Of any other file there is
one record, and its declarations are accounted for. -/
inductive FilesAccounted (p : Program)
    (accounted : Path → SourceModule → List α → List Skipped → Prop) :
    List Path → List (Record α) → List Skipped → Prop where
  | done : FilesAccounted p accounted [] [] []
  | unreadable {path : Path} {paths : List Path} {records : List (Record α)}
      {skipped : List Skipped} (hm : p.module? path = none)
      (hrest : FilesAccounted p accounted paths records skipped) :
      FilesAccounted p accounted (path :: paths) records
        (⟨path, none, .unreadableFile⟩ :: skipped)
  | readable {path : Path} {m : SourceModule} {paths : List Path} {entries : List α}
      {records : List (Record α)} {skipped more : List Skipped} (hm : p.module? path = some m)
      (hfile : accounted path m entries skipped)
      (hrest : FilesAccounted p accounted paths records more) :
      FilesAccounted p accounted (path :: paths) (⟨path, entries⟩ :: records) (skipped ++ more)

/-- The functions that are extracted from a file are accounted for. -/
theorem functionsAccounted_apiFunctions (rules : ApiRules) (p : Program) (path : Path)
    (m : SourceModule) : FunctionsAccounted rules p path m (apiFunctions rules p path m).1
      (apiFunctions rules p path m).2 := by
  refine ⟨_, rfl, ?_⟩
  -- the names that were seen are those of the declarations before
  suffices h : ∀ (fs before : List FunctionDecl) (seen : List String),
      (∀ n, n ∈ seen ↔ ∃ g ∈ before, g.name = n) → ∀ outcomes,
      (markRepeated seen fs).map
        (fun x => (x.2.name, apiFunction rules p m path x.1 x.2)) = outcomes →
      Accounted path (·.name) (FunctionFails rules p m path)
        (fun f a => a = entryOf rules p m path f) before fs
        (partitionOutcomes path outcomes).1 (partitionOutcomes path outcomes).2 from
    h _ _ _ (by simp) _ rfl
  intro fs
  induction fs with
  | nil =>
    rintro before seen - outcomes rfl
    exact .done
  | cons f fs ih =>
    rintro before seen hseen outcomes rfl
    refine .settled (settles_apiFunction ?_) (ih _ (f.name :: seen) (fun n => ?_) _ rfl)
    · rw [List.contains_iff_mem, hseen]
    · rw [List.mem_cons, hseen]
      simp [or_comm, or_and_right, exists_or, eq_comm]

/-- The events that are extracted from a file are accounted for. -/
theorem aliasesAccounted_apiEvents (p : Program) (path : Path) (m : SourceModule) :
    AliasesAccounted p path m (apiEvents p path m).1 (apiEvents p path m).2 := by
  have hsorted : (m.aliases.values.mergeSort fun a b => decide (a.start ≤ b.start)).Pairwise
      fun a b => decide (a.start ≤ b.start) = true :=
    List.pairwise_mergeSort (by simpa using fun a b c => Nat.le_trans)
      (by simpa using fun a b => Nat.le_total _ _) _
  refine ⟨m.aliases.values.mergeSort fun a b => a.start ≤ b.start, List.mergeSort_perm _ _,
    by simpa using hsorted, ?_⟩
  rw [apiEvents]
  generalize (m.aliases.values.mergeSort fun a b => decide (a.start ≤ b.start)) = aliases
  generalize ([] : List AliasDecl) = before
  induction aliases generalizing before with
  | nil => exact .done
  | cons a aliases ih => exact .settled (settles_apiEvent p m path a) (ih _)

/-- Files are accounted for if the declarations of each one are. -/
theorem filesAccounted_extractFiles
    {accounted : Path → SourceModule → List α → List Skipped → Prop}
    {extract : Path → SourceModule → List α × List Skipped}
    (h : ∀ path m, accounted path m (extract path m).1 (extract path m).2) :
    FilesAccounted p accounted paths (extractFiles p extract paths).records
      (extractFiles p extract paths).skipped := by
  induction paths with
  | nil => exact .done
  | cons path paths ih =>
    cases hm : p.module? path with
    | none =>
      have hcons := FilesAccounted.unreadable hm ih
      simpa [extractFiles, hm] using hcons
    | some m =>
      have hcons := FilesAccounted.readable hm (h path m) ih
      simpa [extractFiles, hm] using hcons

/-- A function is skipped as repeated just if one of its name stands before it. -/
theorem isFirst_overload_iff {rules : ApiRules} {m : SourceModule} {path : Path}
    {before : List FunctionDecl} {f : FunctionDecl} :
    IsFirst (FunctionFails rules p m path before f) .overload ↔ ∃ g ∈ before, g.name = f.name := by
  refine ⟨fun h => ?_, fun h => ⟨.overload h, fun other hother => ?_⟩⟩
  · cases h.holds
    assumption
  · cases hother <;> simp [SkipReason.rank]

/-- A module keeps the aliases of its statements just as they stand there if no two have one name,
and only then. -/
theorem values_aliases_eq_iff (path : Path) (statements : List Statement) :
    (SourceModule.ofStatements path statements).aliases.values =
        statements.filterMap Statement.alias? ↔
      ((statements.filterMap Statement.alias?).map (·.name)).Nodup := by
  refine ⟨fun h => h ▸ (SourceModule.aliasesNamed_ofStatements path statements).nodup_names,
    fun h => ?_⟩
  have haliases := congrArg (·.2.2.2.values) (SourceModule.declared_ofStatements path statements)
  refine haliases.trans ?_
  rw [NameMap.values, SourceModule.entries_putAliases h, List.map_map]
  exact List.map_id _

end

/-! ## Every declaration -/

/-- **Every declaration is an entry or skipped.** Of a file that cannot be read there is no record;
it is skipped as a whole. Of any other file all functions that are its default export are skipped,
and each of its other functions in turn is an entry if no check fails, and else skipped for the
first check that does; with a name that a function before it has, for this. The same holds of the
type aliases that a file keeps. A module has all the functions of its file, in order, but of its
aliases only the last one of each name, so all of them just if no two have one name. -/
theorem extraction_accounts (rules : ApiRules) (p : Program) (paths : List Path)
    (existing : List ApiRecord) :
    (∃ fresh, (extractApi rules p paths existing).records =
        Record.merge existing (paths.map Path.normalize) fresh ∧
      FilesAccounted p (FunctionsAccounted rules p) (paths.map Path.normalize) fresh
        (extractApi rules p paths existing).skipped) ∧
    FilesAccounted p (AliasesAccounted p) (paths.map Path.normalize)
      (extractEvents p paths).records (extractEvents p paths).skipped ∧
    (∀ (m : SourceModule) (path : Path) (before : List FunctionDecl) (f : FunctionDecl),
      IsFirst (FunctionFails rules p m path before f) .overload ↔
        ∃ g ∈ before, g.name = f.name) ∧
    ∀ (path : Path) (statements : List Statement),
      let m := SourceModule.ofStatements path statements
      m.functions = statements.filterMap Statement.function? ∧
      m.defaultFunctions = statements.filterMap Statement.defaultFunction? ∧
      (∀ n, m.aliases.find? n =
        (statements.filterMap Statement.alias?).reverse.find? (·.name == n)) ∧
      (m.aliases.values = statements.filterMap Statement.alias? ↔
        ((statements.filterMap Statement.alias?).map (·.name)).Nodup) := by
  refine ⟨⟨_, rfl, filesAccounted_extractFiles (functionsAccounted_apiFunctions rules p)⟩,
    filesAccounted_extractFiles (aliasesAccounted_apiEvents p),
    fun m path before f => isFirst_overload_iff, fun path statements => ?_⟩
  have hdeclared := SourceModule.declared_ofStatements path statements
  refine ⟨congrArg (·.2.1) hdeclared, congrArg (·.2.2.1) hdeclared, fun n => ?_,
    values_aliases_eq_iff path statements⟩
  have haliases := congrArg (·.2.2.2.find? n) hdeclared
  rw [SourceModule.find?_putAliases] at haliases
  exact haliases.trans (Option.or_none ..)

end IpcWiring
