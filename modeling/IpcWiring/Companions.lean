import IpcWiring.NameMap
import IpcWiring.Text.Words

/-!
# Companions

A function may have two companions among the exports of its file: a validator for its request, and
an error handler. They are declared by name, or found by a naming pattern in which `funcName` in
braces stands for the function's name and `FuncName` for that name capitalized.
-/

namespace IpcWiring

/-- The name that a pattern gives for a function. -/
def expandPattern (pattern function : String) : String :=
  Text.replaceAll "\x7bFuncName\x7d" (Text.capitalize function)
    (Text.replaceAll "\x7bfuncName\x7d" function pattern)

/-- A pair for the two kinds of companion: names, or patterns for names. -/
structure CompanionPair where
  validator? : Option String
  errorHandler? : Option String
deriving DecidableEq, Repr, Inhabited

namespace CompanionPair

/-- Nothing of either kind. -/
def none : CompanionPair := ⟨.none, .none⟩

/-- The patterns that hold unless others are given. -/
def defaultPatterns : CompanionPair :=
  ⟨some "\x7bfuncName\x7dValidator", some "\x7bfuncName\x7dErrorHandler"⟩

end CompanionPair

/-- How companions are found: the patterns, and the companions declared for a function, which come
first. -/
structure CompanionRules where
  patterns : CompanionPair
  declared : NameMap CompanionPair
deriving Inhabited

namespace CompanionRules

/-- The default patterns alone. -/
def default : CompanionRules := ⟨.defaultPatterns, .empty⟩

/-- The first of two names that is exported. -/
def choose (exported : List String) (declared? patternName? : Option String) : Option String :=
  let visible := fun (name? : Option String) => name?.filter exported.contains
  (visible declared?).or (visible patternName?)

/-- The companions of a function among the exported names of its file. -/
def companionsOf (rules : CompanionRules) (function : String) (exported : List String) :
    CompanionPair :=
  let declared := (rules.declared.find? function).getD .none
  let expand := fun (pattern? : Option String) => pattern?.map fun p => expandPattern p function
  { validator? := choose exported declared.validator? (expand rules.patterns.validator?)
    errorHandler? :=
      choose exported declared.errorHandler? (expand rules.patterns.errorHandler?) }

end CompanionRules

end IpcWiring
