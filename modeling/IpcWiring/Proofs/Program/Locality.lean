import IpcWiring.Extract.Events
import IpcWiring.Proofs.Program.Agreement
import IpcWiring.Proofs.Program.Closure

/-!
# What is extracted from a file depends on what it reaches

What is extracted from a file is the same in every program that agrees on the files that the file
reaches (`Program.AgreeOn.apiFunctions`, `Program.AgreeOn.apiEvents`). Two kinds of programs do:
those of more roots, if every file that these reach has a module (`Disk.agreeOn_of_roots`), and
those of another disk that differs from the first one only in files that are not reached
(`Disk.AgreeBut.agreeOn`).
-/

namespace IpcWiring

open Script

namespace Program

section AgreeOn

variable {S : Path → Prop} {p q : Program} (h : AgreeOn S p q) {f : Path} (hf : S f)

include h hf

/-! ## Extracted entries -/

/-- A rendered parameter of a function of a file. -/
theorem AgreeOn.renderParam (param : Param) (fallback : String) :
    renderParam p f param fallback = renderParam q f param fallback := by
  simp only [IpcWiring.renderParam, render, h.renderIn hf]

/-- The flattened parameters of a function of a file. -/
theorem AgreeOn.flatten (params : List Param) : flatten p f params = flatten q f params := by
  have hadd : addParam p f = addParam q f := by
    funext a param index
    have hmembers : p.members? f = q.members? f := funext fun t => h.members? hf t
    simp only [addParam, h.renderParam hf, hmembers]
  simp only [IpcWiring.flatten, hadd]

/-- The check of the first parameter of a function of a file. -/
theorem AgreeOn.checkContext (rules : ApiRules) (params : List Param) :
    checkContext rules p f params = checkContext rules q f params := by
  simp only [IpcWiring.checkContext, h.declaredName hf]

/-- The functions of a file. -/
theorem AgreeOn.apiFunctions (rules : ApiRules) (m : SourceModule) :
    apiFunctions rules p f m = apiFunctions rules q f m := by
  simp only [IpcWiring.apiFunctions, apiFunction, h.checkContext hf, h.flatten hf]

/-- The events of a file. -/
theorem AgreeOn.apiEvents (m : SourceModule) : apiEvents p f m = apiEvents q f m := by
  simp only [IpcWiring.apiEvents, apiEvent, h.importFor? hf]

end AgreeOn

end Program

namespace Disk

variable {d e : Disk} {roots : List Path} {f : Path}

/-! ## Programs that agree on what a file reaches -/

/-- A single root with a full path. -/
theorem full_singleton (hf : f.Full) : ∀ r ∈ [f], r.Full := fun _ hr =>
  List.mem_singleton.1 hr ▸ hf

/-- Programs of one disk agree on what a file reaches, if specifiers lead to the same files in both,
and those are the files that it imports. -/
theorem Follows.agreeOn {others : List Path} (hd : d.Follows (roots.map Path.normalize))
    (he : d.Follows (others.map Path.normalize)) (hf : f.Resolved)
    (hroots : ∃ r ∈ roots.map Path.normalize, d.Reaches r f)
    (hothers : ∃ r ∈ others.map Path.normalize, d.Reaches r f)
    (htarget : ∀ {q m s}, d.Reaches f q → d.read q = some m → s ∈ m.dependencies →
      (d.load roots).targetOf q s = (d.load others).targetOf q s ∧
        ∀ g, (d.load roots).targetOf q s = some g → Specifier.resolve d.isFile q s = some g) :
    Program.AgreeOn (d.Reaches f) (d.load roots) (d.load others) := by
  have hbehind : ∀ {roots : List Path} {q}, (∃ r ∈ roots, d.Reaches r f) → d.Reaches f q →
      ∃ r ∈ roots, d.Reaches r q := fun ⟨r, hr, hreach⟩ hq => ⟨r, hr, hreach.trans hq⟩
  have hresolved : ∀ {q}, d.Reaches f q → q.Resolved := fun hq => resolved_of_reaches hq hf
  have hmodule : ∀ {q m}, d.Reaches f q → (d.load roots).module? q = some m → d.read q = some m :=
    fun hq hm => ((hd.module?_load_eq_some_iff (hresolved hq)).1 hm).2
  refine ⟨fun hq hm => hd.path_eq (hmodule hq hm), fun {q} hq => ?_,
    fun hq hm hs => (htarget hq (hmodule hq hm) hs).1, fun {q m s g} hq hm hs hg => ?_⟩
  · refine Option.ext fun m => ?_
    rw [hd.module?_load_eq_some_iff (hresolved hq), he.module?_load_eq_some_iff (hresolved hq)]
    exact and_congr_left fun _ => ⟨fun _ => hbehind hothers hq, fun _ => hbehind hroots hq⟩
  · have hm := hmodule hq hm
    exact hq.tail (hd.imports_of_resolve hm hs ((htarget hq hm hs).2 g hg))

/-- A program agrees with that of one of its roots on what this root reaches, if every file that the
roots reach has a module. -/
theorem agreeOn_of_roots (hd : d.Lawful) (hroots : ∀ r ∈ roots, r.Full)
    (hread : ∀ q, (∃ r ∈ roots, d.Reaches r q) → (d.read q).isSome = true) (hf : f ∈ roots) :
    Program.AgreeOn (d.Reaches f) (d.load roots) (d.load [f]) := by
  have hone := full_singleton (hroots f hf)
  have hroot : ∀ {roots : List Path}, (∀ r ∈ roots, r.Full) → f ∈ roots →
      ∃ r ∈ roots.map Path.normalize, d.Reaches r f := fun h hf =>
    ⟨f, (map_normalize fun r hr => (h r hr).resolved).symm ▸ hf, .refl⟩
  have hread' : ∀ q, (∃ r ∈ [f], d.Reaches r q) → (d.read q).isSome = true := by
    rintro q ⟨r, hr, hq⟩
    exact hread q ⟨r, List.mem_singleton.1 hr ▸ hf, hq⟩
  refine (hd.follows_normalize hroots).agreeOn (hd.follows_normalize hone) (hroots f hf).resolved
    (hroot hroots hf) (hroot hone List.mem_cons_self) fun hq hm hs => ?_
  rw [hd.targetOf_load hroots hread ⟨f, hf, hq⟩ hm hs,
    hd.targetOf_load hone hread' ⟨f, List.mem_cons_self, hq⟩ hm hs]
  exact ⟨rfl, fun g hg => hg⟩

/-- The programs of one root on two disks that agree but for files that it does not reach. -/
theorem AgreeBut.agreeOn {except : Path → Prop} (h : AgreeBut except d e) (hd : d.Lawful)
    (he : e.Lawful) (hf : f.Full) (hclear : ∀ q, e.Reaches f q → ¬ except q) :
    Program.AgreeOn (d.Reaches f) (d.load [f]) (e.load [f]) := by
  have hone := full_singleton hf
  have hiff : ∀ {q}, d.Reaches f q ↔ e.Reaches f q := h.reaches_iff he hf hclear
  have hfull : ∀ {q}, d.Reaches f q → q.Full := fun hq => hd.full_of_reaches hq hf
  have hsingle : ∀ {d : Disk} {q}, (∃ r ∈ [f], d.Reaches r q) ↔ d.Reaches f q := by
    simp
  have hread : ∀ {q}, d.Reaches f q → d.read q = e.read q := fun hq =>
    h.read_eq (hfull hq) (hclear _ (hiff.1 hq))
  have hloaded : ∀ q, q.Resolved → ((d.load [f]).isLoaded q = true ↔
      (e.load [f]).isLoaded q = true) := fun q hq => by
    rw [hd.isLoaded_load_iff hone hq, he.isLoaded_load_iff hone hq, hsingle, hsingle, ← hiff]
    exact and_congr_right fun hreach => by rw [hread hreach]
  have htarget : ∀ {q s}, (d.load [f]).targetOf q s = (e.load [f]).targetOf q s := fun {q s} =>
    Specifier.resolve_eq_of_imp (fun r hr => (hloaded r hr).1) fun r hr =>
      (hloaded r (Specifier.resolve_eq_some hr).2).2 (Specifier.resolve_eq_some hr).1
  refine ⟨fun hq hm => ?_, fun {q} hq => ?_, fun _ _ _ => htarget, fun _ _ _ hg => ?_⟩
  · exact hd.path_eq ((hd.module?_load_eq_some_iff hone (hfull hq).resolved).1 hm).2
  · refine Option.ext fun m => ?_
    rw [hd.module?_load_eq_some_iff hone (hfull hq).resolved,
      he.module?_load_eq_some_iff hone (hfull hq).resolved, hsingle, hsingle, ← hiff, hread hq]
  · obtain ⟨hload, hres⟩ := Specifier.resolve_eq_some hg
    exact hsingle.1 ((hd.isLoaded_load_iff hone hres).1 hload).1

end Disk

end IpcWiring
