import IpcWiring.Proofs.Files.Writing

/-!
# When writing succeeds

Files can be written if nothing is in the way (`FileTree.IsFree`): no file stands where a directory
is needed, no directory where a file is to stand, and no file is to stand where another one needs a
directory. Then the directories that are missing can be made (`FileTree.exists_makeFirst`), and the
standard writer writes every file (`Writer.exists_writeAll`).
-/

namespace IpcWiring

namespace FileTree

variable {t u : FileTree}

/-! ## Making directories -/

/-- The paths on the way to a place below another one. -/
theorem leadingPaths_snoc (cs : List Component) (c : Component) :
    leadingPaths (cs ++ [c]) = Path.ofComponents (cs ++ [c]) :: leadingPaths cs := by
  have hmap : (List.range cs.length).map (fun n => Path.ofComponents ((cs ++ [c]).take (n + 1))) =
      (List.range cs.length).map fun n => Path.ofComponents (cs.take (n + 1)) := by
    refine List.map_congr_left fun n hn => ?_
    rw [List.take_append_of_le_length (List.mem_range.1 hn)]
  rw [leadingPaths, List.length_append, List.length_singleton, List.range_succ, List.map_append,
    hmap, List.map_singleton, List.reverse_append, List.take_of_length_le (by simp)]
  rfl

/-- Names that lead to no directory, and to no file on the way, lead nowhere. -/
theorem follow_eq_notFound : ∀ {names : List String} (place : Place),
    t.isDirectoryAt place = true → (∀ q, q <+: names → t.contentAt? (place ++ q) = none) →
      t.isDirectoryAt (place ++ names) = false →
        t.follow place (names.map .name) = .error .notFound
  | [], place, hdir, _, hmissing => by
    rw [List.append_nil, hdir] at hmissing
    cases hmissing
  | s :: names, place, hdir, hfree, hmissing => by
    rw [List.map_cons, follow, isDirectoryAt_iff.1 hdir]
    cases hnext : t.entryAt? (place ++ [s]) with
    | none => rfl
    | some e =>
      have hs : t.contentAt? (place ++ [s]) = none := hfree [s] (by simp)
      have hdir' : t.isDirectoryAt (place ++ [s]) = true := by
        have hsome : (t.entryAt? (place ++ [s])).isSome = true := by rw [hnext]; rfl
        rw [isSome_entryAt?_iff, hs] at hsome
        exact hsome.resolve_right Bool.false_ne_true
      refine follow_eq_notFound _ hdir' (fun q hq => ?_) (by simpa using hmissing)
      rw [List.append_assoc]
      exact hfree (s :: q) (List.cons_prefix_cons.2 ⟨rfl, hq⟩)

/-- Nothing but a missing directory keeps one from being made, if no file is in the way. -/
theorem makeDirectory_eq_notFound {init : List String} {s : String}
    (hnames : ∀ r ∈ init ++ [s], IsEntryName r) (hfree : ∀ q, q <+: init → t.contentAt? q = none)
    (hmissing : t.isDirectoryAt init = false) :
    t.makeDirectory (Path.ofComponents (.root :: (init ++ [s]).map .name)) = .error .notFound := by
  obtain ⟨hrooted, hplace⟩ := Path.rooted_ofComponents hnames
  have hcs := hrooted.components_eq
  rw [hplace] at hcs
  have hfollow := follow_eq_notFound (t := t) [] rfl hfree hmissing
  have htarget : t.target (Path.ofComponents (.root :: (init ++ [s]).map .name)) =
      .error .notFound := by
    rw [target, hcs, List.map_append, List.map_singleton, ← List.cons_append,
      List.getLast?_concat, List.dropLast_concat]
    simp only [follow, hfollow]
    rfl
  rw [makeDirectory, htarget]
  rfl

/-- A directory that is made where nothing is. -/
theorem WellFormed.exists_makeDirectory (h : t.WellFormed) {p : Path} (hp : p.Resolved)
    (ht : t.Takes p.place) (hnone : t.entryAt? p.place = none) :
    ∃ u, t.makeDirectory p = .ok u ∧ u.WellFormed ∧ u.isDirectoryAt p.place = true ∧
      ∀ q, ¬ q <+: p.place → u.entryAt? q = t.entryAt? q := by
  refine ⟨_, (h.makeDirectory_eq_ok_iff hp).2 ⟨ht, hnone, rfl⟩, h.put ht fun _ => rfl, ?_,
    fun q hq => ?_⟩
  · rw [isDirectoryAt_iff, entryAt?_put ht.ne_nil, if_pos rfl]
  · have hne : q ≠ p.place := fun he => hq (he ▸ List.prefix_refl _)
    rw [entryAt?_put ht.ne_nil, if_neg hne]

/-- What is there already is not made. -/
theorem WellFormed.makeDirectory_eq_alreadyExists (h : t.WellFormed) {p : Path} (hp : p.Resolved)
    (hne : p.place ≠ []) (hsome : (t.entryAt? p.place).isSome = true) :
    t.makeDirectory p = .error .alreadyExists := by
  have htarget := (h.target_eq_ok_iff hp.components hne).2 ⟨rfl, h.isDirectoryAt_dropLast hsome⟩
  rw [makeDirectory, htarget]
  simp [bind, Except.bind, hsome]

/-- A directory that is there need not be made. -/
theorem WellFormed.makeFirst_cons_of_isDirectoryAt (h : t.WellFormed) {p : Path} (hp : p.Resolved)
    (hne : p.place ≠ []) (hdir : t.isDirectoryAt p.place = true) (outer : List Path) :
    t.makeFirst (p :: outer) = .ok t := by
  have hcs : p.components ≠ [] := fun he => hne (by rw [Path.place, he]; rfl)
  have hthere : t.isDirectory p = true := (h.isDirectory_iff hp.components).2 ⟨hcs, hdir⟩
  rw [makeFirst, h.makeDirectory_eq_alreadyExists hp hne (isSome_entryAt?_iff.2 (.inl hdir))]
  simp [hthere]

/-- A directory is made after those around it. -/
theorem makeFirst_cons_of_notFound {p : Path} {outer : List Path}
    (hmissing : t.makeDirectory p = .error .notFound) (houter : t.makeFirst outer = .ok u)
    {v : FileTree} (hmade : u.makeDirectory p = .ok v) : t.makeFirst (p :: outer) = .ok v := by
  rw [makeFirst, hmissing]
  simp [houter, hmade, bind, Except.bind]

/-- A directory is made at once if it can be. -/
theorem makeFirst_cons_of_ok {p : Path} (outer : List Path) (hmade : t.makeDirectory p = .ok u) :
    t.makeFirst (p :: outer) = .ok u := by
  rw [makeFirst, hmade]

/-- The directories to a place can be made if no file is in the way; nothing else changes. -/
theorem WellFormed.exists_makeFirst (h : t.WellFormed) (names : List String)
    (hnames : ∀ s ∈ names, IsEntryName s) (hfree : ∀ q, q <+: names → t.contentAt? q = none) :
    ∃ u, t.makeFirst (leadingPaths (.root :: names.map .name)) = .ok u ∧ u.WellFormed ∧
      u.isDirectoryAt names = true ∧ ∀ q, ¬ q <+: names → u.entryAt? q = t.entryAt? q := by
  induction names using List.reverseRecOn with
  | nil => exact ⟨t, rfl, h, rfl, fun _ _ => rfl⟩
  | append_singleton init s ih =>
    have hinit : init <+: init ++ [s] := List.prefix_append _ _
    obtain ⟨hrooted, hplace⟩ := Path.rooted_ofComponents hnames
    have hres := hrooted.resolved
    have hmissing := makeDirectory_eq_notFound (t := t) hnames fun q hq => hfree q (hq.trans hinit)
    rw [List.map_append, List.map_singleton, ← List.cons_append, leadingPaths_snoc,
      List.cons_append, ← List.map_singleton, ← List.map_append]
    generalize Path.ofComponents (.root :: (init ++ [s]).map .name) = p at *
    have hne : p.place ≠ [] := by simp [hplace]
    have htakes : ∀ {t : FileTree}, t.isDirectoryAt init = true → t.Takes p.place := fun hdir =>
      ⟨hplace ▸ hnames, hne, by rwa [hplace, List.dropLast_concat]⟩
    have hlonger : ∀ q, ¬ q <+: init ++ [s] → ¬ q <+: init := fun q hq hpre =>
      hq (hpre.trans hinit)
    rw [← hplace]
    cases hentry : t.entryAt? p.place with
    | some e =>
      have hdir : t.isDirectoryAt p.place = true := by
        have hsome : (t.entryAt? p.place).isSome = true := by rw [hentry]; rfl
        rw [isSome_entryAt?_iff, hplace, hfree _ (List.prefix_refl _)] at hsome
        exact hplace ▸ hsome.resolve_right nofun
      exact ⟨t, h.makeFirst_cons_of_isDirectoryAt hres hne hdir _, h, hdir, fun _ _ => rfl⟩
    | none =>
      cases hdir : t.isDirectoryAt init with
      | true =>
        obtain ⟨u, hu, hprops⟩ := h.exists_makeDirectory hres (htakes hdir) hentry
        exact ⟨u, makeFirst_cons_of_ok _ hu, hprops⟩
      | false =>
        obtain ⟨u, hu, hwf, hinitdir, hsame⟩ := ih (fun r hr => hnames r (by simp [hr]))
          fun q hq => hfree q (hq.trans hinit)
        have hnone : u.entryAt? p.place = none := by
          rw [hsame, hentry]
          rw [hplace]
          exact fun hpre => absurd hpre.length_le (by simp)
        obtain ⟨v, hv, hvwf, hvdir, hvsame⟩ :=
          hwf.exists_makeDirectory hres (htakes hinitdir) hnone
        refine ⟨v, makeFirst_cons_of_notFound (hmissing hdir) hu hv, hvwf, hvdir, fun q hq => ?_⟩
        rw [hvsame q hq, hsame q (hlonger q (hplace ▸ hq))]

/-! ## Free places -/

/-- Nothing is in the way of files at some places: no file where a directory is needed, no directory
where a file is to stand, and no two of the places one below the other. -/
structure IsFree (t : FileTree) (places : List Place) : Prop where
  above : ∀ a ∈ places, ∀ q, q <+: a → q ≠ a → t.contentAt? q = none
  here : ∀ a ∈ places, t.isDirectoryAt a = false
  apart : ∀ a ∈ places, ∀ b ∈ places, a <+: b → a = b

/-- Nothing is in the way of places in a well-formed tree if no file of it stands above one of them,
and no directory at one. -/
theorem WellFormed.isFree (h : t.WellFormed) {places : List Place}
    (habove : ∀ a ∈ places, ∀ f ∈ t.files, f.1.isPrefixOf a = true → f.1 = a)
    (hhere : ∀ a ∈ places, t.isDirectoryAt a = false)
    (hapart : ∀ a ∈ places, ∀ b ∈ places, a.isPrefixOf b = true → a = b) : t.IsFree places where
  above a ha q hpre hne := by
    cases hc : t.contentAt? q with
    | none => rfl
    | some content =>
      exact absurd (habove a ha (q, content) (h.mem_files_iff.2 hc)
        (List.isPrefixOf_iff_prefix.2 hpre)) hne
  here := hhere
  apart a ha b hb hpre := hapart a ha b hb (List.isPrefixOf_iff_prefix.2 hpre)

/-- If nothing is in the way of files at some places nothing is in the way at some of them. -/
theorem IsFree.mono {places fewer : List Place} (h : t.IsFree places) (hsub : fewer ⊆ places) :
    t.IsFree fewer where
  above a ha := h.above a (hsub ha)
  here a ha := h.here a (hsub ha)
  apart a ha b hb := h.apart a (hsub ha) b (hsub hb)

/-- Writing at the places leaves nothing in their way. -/
theorem IsFree.of_writtenAt {places : List Place} (hfree : t.IsFree places)
    (h : WrittenAt places t u) : u.IsFree places where
  above a ha q hpre hne := by
    have hnone := hfree.above a ha q hpre hne
    have hdir : u.isDirectoryAt q = true → u.contentAt? q = none := fun hd => by
      rw [contentAt?, isDirectoryAt_iff.1 hd]
    cases hentry : t.entryAt? q with
    | some e =>
      have hsome : (t.entryAt? q).isSome = true := by rw [hentry]; rfl
      rw [isSome_entryAt?_iff, hnone] at hsome
      exact hdir (h.directories q (hsome.resolve_right Bool.false_ne_true))
    | none =>
      by_contra hcontent
      have hsome : (u.contentAt? q).isSome = true := Option.isSome_iff_ne_none.2 hcontent
      rcases h.adds q hentry (isSome_entryAt?_iff.2 (.inr hsome)) with ⟨hq, -⟩ | ⟨-, hd⟩
      · exact hne (hfree.apart q hq a ha hpre)
      · exact hcontent (hdir hd)
  here a ha := by
    cases hd : u.isDirectoryAt a with
    | false => rfl
    | true =>
      have hnofile : ¬ (u.contentAt? a).isSome = true := fun hc => by
        rw [isDirectoryAt_of_contentAt? a hc] at hd
        cases hd
      cases hentry : t.entryAt? a with
      | some e =>
        have hsome : (t.entryAt? a).isSome = true := by rw [hentry]; rfl
        rw [isSome_entryAt?_iff, hfree.here a ha] at hsome
        exact absurd (h.files a (hsome.resolve_left Bool.false_ne_true)) hnofile
      | none =>
        rcases h.adds a hentry (isSome_entryAt?_iff.2 (.inl hd)) with
          ⟨-, hc⟩ | ⟨⟨b, hb, hpre, hne⟩, -⟩
        · exact absurd hc hnofile
        · exact absurd (hfree.apart a ha b hb hpre) hne
  apart := hfree.apart

end FileTree

namespace Writer

open FileTree

variable {t : FileTree}

/-- The directory of a file can be made where nothing is in the way. -/
theorem exists_makeParent (h : t.WellFormed) {p : Path} (hp : p.Rooted) (hne : p.place ≠ [])
    (hfree : t.IsFree [p.place]) :
    ∃ u, t.makeParent p = .ok u ∧ u.WellFormed ∧ u.isDirectoryAt p.place.dropLast = true ∧
      u.entryAt? p.place = t.entryAt? p.place := by
  obtain ⟨dir, hparent, hdir, hplace, hcs⟩ := NamesEntry.parent? ⟨hp.resolved, hne⟩
  have hshorter : p.place.dropLast ≠ p.place := fun he => by
    have hlen := congrArg List.length he
    rw [List.length_dropLast] at hlen
    have := List.length_pos_iff.2 hne
    omega
  have habove : ∀ q, q <+: p.place.dropLast → t.contentAt? q = none := fun q hq => by
    refine hfree.above p.place List.mem_cons_self q (hq.trans (List.dropLast_prefix _)) fun he => ?_
    subst he
    exact hshorter (hq.eq_of_length_le (by simp)).symm
  rw [FileTree.makeParent, missingParent?, hparent, Option.filter_some]
  cases hthere : t.contains dir with
  | true =>
    have hsome := ((h.contains_iff hdir.components).1 hthere).2.1
    rw [hplace, isSome_entryAt?_iff, habove _ (List.prefix_refl _)] at hsome
    exact ⟨t, rfl, h, hsome.resolve_right Bool.false_ne_true, rfl⟩
  | false =>
    have hroot : dir.components = .root :: p.place.dropLast.map .name := by
      rw [hcs, hp.components_eq, List.dropLast_cons_of_ne_nil (by simpa using hne),
        List.map_dropLast]
    obtain ⟨u, hu, hwf, hudir, hsame⟩ := h.exists_makeFirst p.place.dropLast
      (fun s hs => hp.isEntryName s (List.dropLast_subset _ hs)) habove
    refine ⟨u, ?_, hwf, hudir, hsame _ fun hpre => ?_⟩
    · have hmade : t.makeDirectories dir = .ok u := by rw [makeDirectories, hroot, hu]
      simp [hmade, Except.mapError]
    · exact hshorter (hpre.eq_of_length_le (by simp)).symm

/-- A file can be written where nothing is in the way. -/
theorem exists_write (h : t.WellFormed) {p : Path} (hp : p.Rooted) (hne : p.place ≠ [])
    (hfree : t.IsFree [p.place]) (text : String) :
    ∃ r, (standard.write t p text).1 = .ok r := by
  obtain ⟨u, hu, hwf, hdir, hsame⟩ := exists_makeParent h hp hne hfree
  have hfile : u.isDirectoryAt p.place = false := by
    rw [isDirectoryAt, hsame, ← isDirectoryAt]
    exact hfree.here _ List.mem_cons_self
  have hwrite : u.write p text.toUTF8 = .ok _ := (hwf.write_eq_ok_iff hp.resolved).2
    ⟨⟨hp.isEntryName, hne, hdir⟩, hfile, rfl⟩
  have hmake : standard.makeParent t p = .ok u := by
    rw [Writer.makeParent, parentFault?]
    cases t.missingParent? p <;> exact hu
  rw [write, if_neg (by simp [standard])]
  split
  · exact ⟨_, rfl⟩
  · rw [hmake]
    simp only [put, hwrite]
    exact ⟨_, rfl⟩

/-- Files can be written where nothing is in the way. -/
theorem exists_writeAll : ∀ {outputs : List (Path × String)} {t : FileTree}, t.WellFormed →
    (∀ o ∈ outputs, o.1.Rooted ∧ o.1.place ≠ []) → t.IsFree (outputs.map (·.1.place)) →
      ∃ rs, (standard.writeAll t outputs).1 = .ok rs
  | [], _, _, _, _ => ⟨[], rfl⟩
  | (p, text) :: rest, t, h, hp, hfree => by
    obtain ⟨hroot, hne⟩ := hp _ List.mem_cons_self
    have hone : t.IsFree [p.place] :=
      ⟨fun a ha => hfree.above a (by simp_all), fun a ha => hfree.here a (by simp_all),
        fun a ha b hb _ => by simp_all⟩
    obtain ⟨r, hr⟩ := exists_write h hroot hne hone text
    have hwritten := writtenAt_write standard text h ⟨hroot.resolved, hne⟩
    have hrest := (hfree.of_writtenAt (hwritten.mono (by simp))).mono (List.subset_cons_self _ _)
    obtain ⟨rs, hrs⟩ := exists_writeAll hwritten.wellFormed
      (fun o ho => hp o (List.mem_cons_of_mem _ ho)) hrest
    rw [writeAll]
    rcases hstep : standard.write t p text with ⟨e | r, u⟩
    · rw [hstep] at hr
      cases hr
    · rw [hstep] at hrs
      simp only [hrs]
      exact ⟨_, rfl⟩

end Writer

end IpcWiring
