import IpcWiring.Proofs.Program.Loading
import IpcWiring.Proofs.Program.Locality

/-!
# Where specifiers lead once a program is loaded

While a program is loaded, a specifier leads to the first of its candidates that is a file; later it
leads to the first one that has a module in the program (`Program.targetOf`). The two choices are
the same as long as the chosen file can be read. If it cannot, the specifier should lead nowhere
(`FileMap.readableTarget?`), but it falls through to another candidate that some root brought into
the program (`FileMap.FallsThrough`). This is the only way in which the later choice can differ, and
in which other roots can change what is extracted from a file (`FileMap.targets_agree`).
-/

namespace IpcWiring

namespace FileMap

variable (d : FileMap) {roots others : List Path} {f p : Path} {m : SourceModule}
  {specifier : String}

/-- The file that a specifier leads to while a program is loaded, if it can be read. -/
def readableTarget? (file : Path) (specifier : String) : Option Path :=
  (Specifier.resolve d.isFile file specifier).filter fun q => (d.read q).isSome

/-- The file that the specifier leads to cannot be read, but another of its candidates has a module
in the program. -/
def FallsThrough (roots : List Path) (file : Path) (specifier : String) : Prop :=
  ∃ q, Specifier.resolve d.isFile file specifier = some q ∧ d.read q = none ∧
    ∃ r ∈ Specifier.candidates (Specifier.target file specifier),
      (d.load roots).isLoaded r = true

/-- A file of a program is one of the file map. -/
theorem isFile_of_isLoaded (hp : p.Resolved) (h : (d.load roots).isLoaded p = true) :
    d.isFile p = true := by
  obtain ⟨-, hsome⟩ := ((d.follows _).isLoaded_load_iff hp).1 h
  obtain ⟨m, hm⟩ := Option.isSome_iff_exists.1 hsome
  exact d.isFile_of_read hm

/-- A specifier leads nowhere in a program if it leads nowhere while this is loaded. -/
theorem targetOf_eq_none (h : Specifier.resolve d.isFile p specifier = none) :
    (d.load roots).targetOf p specifier = none := by
  rw [← h]
  refine Specifier.resolve_eq_of_imp (fun q hq => d.isFile_of_isLoaded hq) fun q hq => ?_
  rw [h] at hq
  cases hq

/-- A specifier whose file cannot be read leads nowhere in a program just if no other candidate has
a module there. -/
theorem targetOf_eq_none_iff {q : Path} (hq : Specifier.resolve d.isFile p specifier = some q) :
    (d.load roots).targetOf p specifier = none ↔
      ¬ ∃ r ∈ Specifier.candidates (Specifier.target p specifier),
        (d.load roots).isLoaded r = true := by
  obtain ⟨hrelative, -⟩ := Specifier.mem_candidates_of_resolve hq
  rw [Program.targetOf, Specifier.resolve, if_pos hrelative, List.find?_eq_none]
  simp

/-- A specifier of a loaded module leads to the file that was chosen for it, if this can be read and
else nowhere, unless it falls through. -/
theorem targetOf_eq_iff (hp : d.Closure roots p) (hm : d.read p = some m)
    (hs : m.RefersTo specifier) :
    (d.load roots).targetOf p specifier = d.readableTarget? p specifier ↔
      ¬ d.FallsThrough roots p specifier := by
  have hdep := SourceModule.mem_dependencies_iff.2 hs
  have htarget := (d.follows _).targetOf_load (d.closure_iff.1 hp) hm hdep
  cases hq : Specifier.resolve d.isFile p specifier with
  | none =>
    rw [d.targetOf_eq_none hq, readableTarget?, hq]
    exact iff_of_true rfl fun ⟨_, hsome, _⟩ => by rw [hq] at hsome; cases hsome
  | some q =>
    cases hread : d.read q with
    | none =>
      have hnone : d.readableTarget? p specifier = none := by
        rw [readableTarget?, hq, Option.filter_some, hread]
        rfl
      rw [hnone, d.targetOf_eq_none_iff hq]
      refine not_congr ⟨fun hloaded => ⟨q, hq, hread, hloaded⟩, ?_⟩
      rintro ⟨-, -, -, hloaded⟩
      exact hloaded
    | some chosen =>
      have hsome : d.readableTarget? p specifier = some q := by
        rw [readableTarget?, hq, Option.filter_some, hread]
        rfl
      rw [hsome, htarget fun r hr => ?_, hq]
      · refine iff_of_true rfl ?_
        rintro ⟨r, hr, hnone, -⟩
        rw [hq] at hr
        cases hr
        rw [hread] at hnone
        cases hnone
      · rw [hq] at hr
        cases hr
        rw [hread]
        rfl

/-- Where a specifier falls through, the file that was chosen for it is reported as unreadable. -/
theorem exists_unreadable_of_fallsThrough (hp : d.Closure roots p) (hm : d.read p = some m)
    (hs : m.RefersTo specifier) (h : d.FallsThrough roots p specifier) :
    ∃ q ∈ (d.load roots).unreadable, Specifier.resolve d.isFile p specifier = some q := by
  obtain ⟨q, hq, hnone, -⟩ := h
  exact ⟨q, d.mem_unreadable_iff.2 ⟨.follow hp hm hs hq, hnone⟩, hq⟩

/-- No specifier of a file behind `f` falls through. -/
def NeverFallsThrough (roots : List Path) (f : Path) : Prop :=
  ∀ p m specifier, d.Reaches f p → d.read p = some m → m.RefersTo specifier →
    ¬ d.FallsThrough roots p specifier

/-- Two programs agree on what a file reaches if no specifier falls through in them. -/
theorem agreeOn (hroots : d.Closure roots f) (hothers : d.Closure others f)
    (h : d.NeverFallsThrough roots f) (h' : d.NeverFallsThrough others f) :
    Program.AgreeOn (d.Reaches f) (d.load roots) (d.load others) := by
  have htarget : ∀ {roots q m s}, d.Closure roots f → d.NeverFallsThrough roots f →
      d.Reaches f q → d.read q = some m → s ∈ m.dependencies →
        (d.load roots).targetOf q s = d.readableTarget? q s := fun {roots q m s} hf h hq hm hs => by
    have hrefers := SourceModule.mem_dependencies_iff.1 hs
    obtain ⟨r, hr, hreach⟩ := d.closure_iff.1 hf
    have hclosure : d.Closure roots q := d.closure_iff.2 ⟨r, hr, hreach.trans hq⟩
    exact (d.targetOf_eq_iff hclosure hm hrefers).2 (h q m s hq hm hrefers)
  refine (d.follows _).agreeOn (d.follows _) hroots.resolved (d.closure_iff.1 hroots)
    (d.closure_iff.1 hothers) fun hq hm hs => ?_
  rw [htarget hroots h hq hm hs, htarget hothers h' hq hm hs]
  exact ⟨rfl, fun g hg => (Option.filter_eq_some_iff.1 hg).1⟩

/-- **Where specifiers lead is settled by loading, unless they fall through.** A specifier that a
loaded module imports or exports from leads to the file that was chosen for it while loading, or
nowhere if that file could not be read, just if it does not fall through to another candidate; where
it does, the chosen file is reported as unreadable. A file behind which no specifier falls through
gives the same functions and events, and the same skipped declarations, whatever roots are loaded
with it. -/
theorem targets_agree (d : FileMap) (roots : List Path) :
    (∀ p m specifier, d.Closure roots p → d.read p = some m → m.RefersTo specifier →
      ((d.load roots).targetOf p specifier = d.readableTarget? p specifier ↔
        ¬ d.FallsThrough roots p specifier) ∧
      (d.FallsThrough roots p specifier → ∃ q ∈ (d.load roots).unreadable,
        Specifier.resolve d.isFile p specifier = some q)) ∧
    ∀ others f, d.Closure roots f → d.Closure others f → d.NeverFallsThrough roots f →
      d.NeverFallsThrough others f →
        (d.load roots).module? f = (d.load others).module? f ∧
          (∀ rules m, apiFunctions rules (d.load roots) f m =
            apiFunctions rules (d.load others) f m) ∧
          ∀ m, apiEvents (d.load roots) f m = apiEvents (d.load others) f m := by
  refine ⟨fun p m specifier hp hm hs =>
    ⟨d.targetOf_eq_iff hp hm hs, d.exists_unreadable_of_fallsThrough hp hm hs⟩,
    fun others f hroots hothers h h' => ?_⟩
  have hagree := d.agreeOn hroots hothers h h'
  exact ⟨hagree.module?_eq .refl, fun rules m => hagree.apiFunctions .refl rules m,
    fun m => hagree.apiEvents .refl m⟩

/-! ## A file that cannot be read, beside another candidate -/

/-- A file that imports a page, and two files for it, of which the first cannot be read. -/
def pages : FileMap := ofSources
  [(⟨"/src/api.ts"⟩, "import \x7b Page \x7d from './page';"),
    (⟨"/src/page.ts"⟩, "export function ((("),
    (⟨"/src/page.tsx"⟩, "export interface Page \x7b size: number \x7d")]

/-- The importing file refers to the page and to nothing else. -/
theorem exists_read_pages : ∃ m, pages.read ⟨"/src/api.ts"⟩ = some m ∧
    ∀ specifier, m.RefersTo specifier ↔ specifier = "./page" := by
  have hread : (pages.read ⟨"/src/api.ts"⟩).map (fun m => (m.imports.entries, m.reexports)) =
      some ([("Page", ⟨"./page", .named "Page"⟩)], []) := by decide +kernel
  obtain ⟨m, hm, hentries⟩ := Option.map_eq_some_iff.1 hread
  obtain ⟨himports, hreexports⟩ := Prod.mk.inj hentries
  have hvalues : m.imports.values = [⟨"./page", .named "Page"⟩] :=
    congrArg (List.map Prod.snd) himports
  refine ⟨m, hm, fun specifier => ?_⟩
  rw [SourceModule.RefersTo, hvalues, hreexports]
  simp [eq_comm]

/-- The import of the page leads to the first file for it. -/
theorem resolve_pages :
    Specifier.resolve pages.isFile ⟨"/src/api.ts"⟩ "./page" = some ⟨"/src/page.ts"⟩ := rfl

/-- The first file for the page cannot be read. -/
theorem read_pages : pages.read ⟨"/src/page.ts"⟩ = none :=
  Option.isNone_iff_eq_none.1 (by decide +kernel)

/-- The files that the import of the page can stand for. -/
theorem candidates_pages :
    Specifier.candidates (Specifier.target ⟨"/src/api.ts"⟩ "./page") =
      ["/src/page.ts", "/src/page.tsx", "/src/page.d.ts", "/src/page.mts", "/src/page.cts",
        "/src/page/index.ts", "/src/page/index.tsx"].map Path.mk := rfl

/-- The importing file alone loads itself and the file that cannot be read. -/
theorem closure_pages (h : pages.Closure [⟨"/src/api.ts"⟩] p) :
    p = ⟨"/src/api.ts"⟩ ∨ p = ⟨"/src/page.ts"⟩ := by
  obtain ⟨api, hapi, hrefers⟩ := exists_read_pages
  induction h with
  | root h => exact .inl (by rw [List.mem_singleton.1 h]; rfl)
  | follow _ hm hs hq ih =>
    rcases ih with rfl | rfl
    · obtain rfl := Option.some.inj (hapi.symm.trans hm)
      obtain rfl := (hrefers _).1 hs
      exact .inr (Option.some.inj (hq.symm.trans resolve_pages))
    · rw [read_pages] at hm
      cases hm

/-- With the second file for the page as a root, the import falls through to it; without that root
it leads nowhere. -/
theorem targets_agree_small :
    (pages.load [⟨"/src/api.ts"⟩, ⟨"/src/page.tsx"⟩]).targetOf ⟨"/src/api.ts"⟩ "./page" ≠
        pages.readableTarget? ⟨"/src/api.ts"⟩ "./page" ∧
      (pages.load [⟨"/src/api.ts"⟩]).targetOf ⟨"/src/api.ts"⟩ "./page" =
        pages.readableTarget? ⟨"/src/api.ts"⟩ "./page" := by
  obtain ⟨api, hapi, hrefers⟩ := exists_read_pages
  have hroot : ∀ {rest}, pages.Closure (⟨"/src/api.ts"⟩ :: rest) ⟨"/src/api.ts"⟩ := fun {_} =>
    .root (r := ⟨"/src/api.ts"⟩) List.mem_cons_self
  have hiff : ∀ rest, _ := fun rest =>
    ((targets_agree pages (⟨"/src/api.ts"⟩ :: rest)).1 _ _ "./page" hroot hapi
      ((hrefers _).2 rfl)).1
  refine ⟨fun heq => (hiff [⟨"/src/page.tsx"⟩]).1 heq ⟨_, resolve_pages, read_pages, ?_⟩,
    (hiff []).2 ?_⟩
  · have htsx : pages.Closure [⟨"/src/api.ts"⟩, ⟨"/src/page.tsx"⟩] ⟨"/src/page.tsx"⟩ :=
      .root (r := ⟨"/src/page.tsx"⟩) (List.mem_cons_of_mem _ List.mem_cons_self)
    have hread : (pages.read ⟨"/src/page.tsx"⟩).isSome = true := by decide +kernel
    exact ⟨⟨"/src/page.tsx"⟩, by simp [candidates_pages], ((pages.follows _).isLoaded_load_iff
      htsx.resolved).2 ⟨pages.closure_iff.1 htsx, hread⟩⟩
  · rintro ⟨-, -, -, r, hr, hloaded⟩
    have hresolved := Specifier.resolved_of_mem_candidates (Specifier.resolved_target _ _) hr
    obtain ⟨hreach, hsome⟩ := ((pages.follows _).isLoaded_load_iff hresolved).1 hloaded
    rcases closure_pages (pages.closure_iff.2 hreach) with rfl | rfl
    · exact absurd hr (by simp [candidates_pages])
    · rw [read_pages] at hsome
      cases hsome

end FileMap

end IpcWiring
