import IpcWiring.Proofs.Program.Renaming

/-!
# One import under another local name

`Renaming.respell` keeps the names of a file but for one, which is spelled as another name that the
file does not use. If one import of one file gets another local name that way and the other files
stay as they are (`Program.Respelled`), the two programs are renamed (`Program.Respelled.renamed`).
-/

namespace IpcWiring

open Script

namespace Renaming

/-! ## Nothing is renamed -/

/-- The renaming that changes nothing. -/
def same : Renaming where
  name := Eq
  position := Eq
  position_zero := rfl
  name_iff := by rintro _ _ _ _ rfl rfl; rfl
  position_iff := by rintro _ _ _ _ rfl rfl; rfl

/-- A name is a version of itself. -/
theorem Name.refl (n : TypeName) : same.Name n n := ⟨rfl, rfl⟩

mutual

/-- A form is a version of itself. -/
theorem Form.refl : ∀ f, same.Form f f
  | .keyword name => .keyword name
  | .reference name args => .reference (.refl name) (exprs_refl args)
  | .object members _ => .object (members_refl members)
  | .union options => .union (exprs_refl options)
  | .intersection parts => .intersection (exprs_refl parts)
  | .paren inner => .paren (Expr.refl inner)
  | .function params result => .function (params_refl params) (Expr.refl result)
  | .query name => .query (.refl name)
  | .literal value => .literal value
  | .other => .other

/-- A type is a version of itself. -/
theorem Expr.refl : ∀ t, same.Expr t t
  | ⟨form, _, _, _⟩ => .of (Form.refl form) rfl (List.forall₂_same.2 fun n _ => .refl n)

theorem exprs_refl : ∀ ts, List.Forall₂ same.Expr ts ts
  | [] => .nil
  | t :: ts => .cons (Expr.refl t) (exprs_refl ts)

theorem members_refl : ∀ ms, List.Forall₂ same.Member ms ms
  | [] => .nil
  | ⟨_, _, type, _⟩ :: ms => .cons (.of (Expr.refl type) rfl) (members_refl ms)

theorem params_refl : ∀ ps, List.Forall₂ same.Param ps ps
  | [] => .nil
  | ⟨_, none, _⟩ :: ps => .cons (.of .none) (params_refl ps)
  | ⟨_, some type, _⟩ :: ps => .cons (.of (.some (Expr.refl type))) (params_refl ps)

end

/-- Type parameters are versions of themselves. -/
theorem typeParams_refl (ts : List Script.TypeParam) : List.Forall₂ same.TypeParam ts ts :=
  List.forall₂_same.2 fun _ _ => ⟨rfl, rel_refl Expr.refl _⟩

/-- A map is related to itself if its values are. -/
theorem nameMap_refl {α : Type} {N : String → String → Prop} {V : α → α → Prop}
    (hN : ∀ x, N x x) (hV : ∀ a, V a a) (m : NameMap α) : NameMap.Rel N V m m :=
  List.forall₂_same.2 fun _ _ => ⟨hN _, hV _⟩

/-- A file is a version of itself. -/
theorem Module.refl (m : SourceModule) : same.Module m m where
  path := rfl
  imports := nameMap_refl (fun _ => rfl) (fun _ => rfl) _
  exports := nameMap_refl (fun _ => rfl) (fun _ => rfl) _
  reexports := rfl
  functions := List.forall₂_same.2 fun _ _ => ⟨⟨rfl, rfl⟩, params_refl _⟩
  defaultFunctions := rfl
  interfaces := nameMap_refl (fun _ => ⟨rfl, rfl⟩)
    (fun _ => ⟨rfl, typeParams_refl _, members_refl _, exprs_refl _, rfl⟩) _
  aliases := nameMap_refl (fun _ => ⟨rfl, rfl⟩)
    (fun _ => ⟨rfl, typeParams_refl _, Expr.refl _⟩) _
  opaqueTypes := ⟨rfl, fun _ _ => rfl⟩
  values := ⟨rfl, fun _ _ => rfl⟩
  schemas := nameMap_refl (fun _ => ⟨rfl, rfl⟩) Schema.Like.refl _
  imported := fun hx _ => hx

/-! ## One name is renamed -/

/-- One name is spelled as another one that is not used; positions are those of a renaming. -/
def respell (ρ : Renaming) (x x' : String) : Renaming where
  name y y' := y = x ∧ y' = x' ∨ y = y' ∧ y ≠ x ∧ y ≠ x'
  position := ρ.position
  position_zero := ρ.position_zero
  position_iff := ρ.position_iff
  name_iff := by
    rintro y y' z z' (⟨rfl, rfl⟩ | ⟨rfl, hy, hy'⟩) (⟨rfl, rfl⟩ | ⟨rfl, hz, hz'⟩)
    · exact iff_of_true rfl rfl
    · exact iff_of_false hz.symm hz'.symm
    · exact iff_of_false hy hy'
    · exact Iff.rfl

end Renaming

namespace Program

variable {ρ : Renaming} {file : Path} {x x' : String} {p p' : Program}

/-- Only the renamed file has another spelling. -/
def respellIn (ρ : Renaming) (file : Path) (x x' : String) (g : Path) : Renaming :=
  if g == file then ρ.respell x x' else .same

/-- One name of one file has another spelling in the second program, and positions in that file
moved along with a renaming. -/
structure Respelled (ρ : Renaming) (file : Path) (x x' : String) (p p' : Program) : Prop where
  version : ∃ m m', p.module? file = some m ∧ p'.module? file = some m' ∧
    (ρ.respell x x').Module m m'
  others : ∀ g, (g == file) = false → p.module? g = p'.module? g

/-- The module of a path is that of the same components. -/
theorem module?_congr (p : Program) {f g : Path} (h : (f == g) = true) :
    p.module? f = p.module? g := by
  have hsame : (fun m : SourceModule => m.path == f) = fun m => m.path == g := funext fun m => by
    rw [Path.beq_eq_decide, Path.beq_eq_decide, Path.beq_iff.1 h]
  rw [module?, module?, hsame]

/-- A program in which a name is respelled is renamed. -/
theorem Respelled.renamed (h : p.Respelled ρ file x x' p') :
    p.Renamed (respellIn ρ file x x') p' := by
  obtain ⟨m, m', hm, hm', hmodule⟩ := h.version
  refine ⟨fun {f g} hfg => ?_, fun g => ?_, fun {g y y'} hnone hy => ?_⟩
  · rw [respellIn, respellIn, Path.beq_eq_decide, Path.beq_eq_decide, Path.beq_iff.1 hfg]
  · rw [respellIn]
    split
    · next hg =>
      rw [p.module?_congr hg, p'.module?_congr hg, hm, hm']
      exact .some hmodule
    · next hg =>
      rw [h.others g (by simpa using hg)]
      exact rel_refl Renaming.Module.refl _
  · rw [respellIn] at hy
    split at hy
    · next hg =>
      rw [p.module?_congr hg, hm] at hnone
      cases hnone
    · exact hy

end Program

end IpcWiring
