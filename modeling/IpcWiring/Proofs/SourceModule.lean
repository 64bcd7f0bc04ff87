import Mathlib.Data.List.Induction
import IpcWiring.SourceModule

/-!
# The declarations of a module

A statement adds at most one of the declarations that extraction reads (`declared_addStatement`). So
a module has every function of the statements of its file, and every function that is their default
export, in order (`declared_ofStatements`). Type aliases are kept by their names, and a name stands
for the last one (`find?_putAliases`).
-/

namespace IpcWiring

open Script

/-- A value that is put in is found under its name, and those of other names stay. -/
theorem NameMap.find?_insert {α : Type} (map : NameMap α) (name n : String) (value : α) :
    (map.insert name value).find? n = if name == n then some value else map.find? n := by
  obtain ⟨entries⟩ := map
  rw [find?, find?, insert]
  induction entries with
  | nil =>
    rw [insertEntry, List.lookup_cons, BEq.comm]
    cases name == n <;> rfl
  | cons e rest ih =>
    obtain ⟨k, v⟩ := e
    rw [insertEntry]
    by_cases hk : k = name <;> by_cases hn : n = k <;> grind

/-- A value with a new name is put behind the others. -/
theorem NameMap.insertEntry_of_notMem {α : Type} {name : String} {value : α}
    {entries : List (String × α)} (h : name ∉ entries.map (·.1)) :
    insertEntry name value entries = entries ++ [(name, value)] := by
  induction entries with
  | nil => rfl
  | cons e rest ih =>
    obtain ⟨k, v⟩ := e
    rw [List.map_cons, List.mem_cons, not_or] at h
    rw [insertEntry, if_neg (by simpa using Ne.symm h.1), ih h.2, List.cons_append]

namespace Script.Statement

/-- The function that the statement declares. -/
def function? : Statement → Option FunctionDecl
  | declare _ (.function f) => some f
  | _ => none

/-- The name of the function that the statement makes the default export. -/
def defaultFunction? : Statement → Option String
  | exportDefaultFunction name? => some (name?.getD "default")
  | _ => none

/-- The type alias that the statement declares. -/
def alias? : Statement → Option AliasDecl
  | declare _ (.typeAlias a) => some a
  | _ => none

end Script.Statement

namespace SourceModule

open Statement

variable {library : List String} {m : SourceModule}

/-- Puts aliases under their names, a later one in the place of an earlier one. -/
def putAliases (map : NameMap AliasDecl) (aliases : List AliasDecl) : NameMap AliasDecl :=
  aliases.foldl (fun map a => map.insert a.name a) map

/-- A name stands for the last alias that was put there. -/
theorem find?_putAliases (map : NameMap AliasDecl) (aliases : List AliasDecl) (n : String) :
    (putAliases map aliases).find? n =
      (aliases.reverse.find? (·.name == n)).or (map.find? n) := by
  induction aliases using List.reverseRecOn with
  | nil => rfl
  | append_singleton aliases a ih =>
    rw [putAliases, List.foldl_append, List.reverse_append]
    refine (NameMap.find?_insert _ a.name n a).trans ?_
    rw [List.reverse_singleton, List.singleton_append, List.find?_cons]
    cases a.name == n with
    | true => rfl
    | false => exact ih

/-- Aliases with distinct names are all kept, in order. -/
theorem entries_putAliases {aliases : List AliasDecl} (h : (aliases.map (·.name)).Nodup) :
    (putAliases .empty aliases).entries = aliases.map fun a => (a.name, a) := by
  induction aliases using List.reverseRecOn with
  | nil => rfl
  | append_singleton aliases a ih =>
    rw [List.map_append, List.nodup_append] at h
    obtain ⟨hnodup, -, hnew⟩ := h
    have hkeys : (putAliases .empty aliases).entries.map (·.1) = aliases.map (·.name) := by
      rw [ih hnodup, List.map_map]
      rfl
    rw [putAliases, List.foldl_append, List.map_append]
    refine (NameMap.insertEntry_of_notMem fun hin => ?_).trans
      (congrArg (· ++ [(a.name, a)]) (ih hnodup))
    exact hnew a.name (hkeys ▸ hin) a.name (List.mem_singleton_self _) rfl

/-- The path of a module, with the declarations that extraction reads. -/
def declared (m : SourceModule) : Path × List FunctionDecl × List String × NameMap AliasDecl :=
  (m.path, m.functions, m.defaultFunctions, m.aliases)

/-- An exported name is no declaration. -/
theorem declared_addExport (exported : Bool) (name : String) :
    (m.addExport exported name).declared = m.declared := by
  cases exported <;> rfl

/-- Variables are neither functions nor types. -/
theorem declared_addVariables (exported : Bool) (vars : List (Option String × Option Expr)) :
    (vars.foldl (addVariable library exported) m).declared = m.declared := by
  induction vars generalizing m with
  | nil => rfl
  | cons v vars ih =>
    obtain ⟨_ | name, value?⟩ := v
    · exact ih
    · exact ih.trans (declared_addExport exported name)

/-- A statement adds just the function or alias that it declares. -/
theorem declared_addStatement (s : Statement) : (m.addStatement library s).declared =
    (m.path, m.functions ++ s.function?.toList, m.defaultFunctions ++ s.defaultFunction?.toList,
      putAliases m.aliases s.alias?.toList) := by
  have hnone : m.declared =
      (m.path, m.functions ++ [], m.defaultFunctions ++ [], putAliases m.aliases []) := by
    rw [List.append_nil, List.append_nil]
    rfl
  cases s with
  | declare exported d =>
    cases d with
    | values vars => exact (declared_addVariables exported vars).trans hnone
    | function f =>
      refine (declared_addExport exported f.name).trans ?_
      exact congrArg (fun names => (m.path, m.functions ++ [f], names, m.aliases))
        (List.append_nil _).symm
    | classLike name => exact (declared_addExport exported name).trans hnone
    | typeAlias a =>
      rw [declared, addStatement, addDeclaration]
      cases exported <;> simp [addExport, function?, defaultFunction?, alias?, putAliases]
    | interface i => exact (declared_addExport exported i.name).trans hnone
  | imports specifier items => exact hnone
  | exportNames names specifier? => cases specifier? <;> exact hnone
  | exportAll exported? specifier => cases exported? <;> exact hnone
  | exportDefaultFunction name? =>
    rw [show function? (.exportDefaultFunction name?) = none from rfl, Option.toList_none,
      List.append_nil]
    cases name? <;> rfl
  | other => exact hnone

/-- The module of some statements has every function that they declare or make the default export,
in order, and their aliases by name. -/
theorem declared_ofStatements (path : Path) (statements : List Statement) :
    (ofStatements path statements).declared =
      (path, statements.filterMap function?, statements.filterMap defaultFunction?,
        putAliases .empty (statements.filterMap alias?)) := by
  rw [ofStatements]
  generalize schemaLibraryNames statements = library
  induction statements using List.reverseRecOn with
  | nil => rfl
  | append_singleton statements s ih =>
    have hone : ∀ {β : Type} (f : Statement → Option β), [s].filterMap f = (f s).toList :=
      fun f => by rw [List.filterMap_cons]; cases f s <;> rfl
    rw [declared, Prod.mk.injEq, Prod.mk.injEq, Prod.mk.injEq] at ih
    obtain ⟨hpath, hfunctions, hdefaults, haliases⟩ := ih
    rw [List.foldl_append, List.foldl_cons, List.foldl_nil, declared_addStatement, hpath,
      hfunctions, hdefaults, haliases]
    simp only [List.filterMap_append, hone, putAliases, List.foldl_append]

end SourceModule

end IpcWiring
