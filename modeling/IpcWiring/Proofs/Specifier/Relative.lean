import IpcWiring.Proofs.Path.Join
import IpcWiring.Proofs.Specifier

/-!
# Specifiers that lead back

`Specifier.relative` writes how a file is reached from a directory: up to the last directory that
the two share, then down, without the extension of the file. `Specifier.resolve` reads a specifier
by trying the files it can stand for. Both agree on the pieces of the specifier
(`Specifier.laterComponents_written`), going up undoes what the directory has behind the shared
part (`Path.normalComponents_returned`), and the extension left out is one of those tried
(`Specifier.mem_candidates_append`).

Two kinds of name are in the way. A first piece that starts with a dot keeps `./` from being
written in front of it, so the text is no relative specifier unless the piece is `.` or `..`; and a
last piece that is `.` or `..` once the extension is left out names a directory.
`Specifier.resolve_relative` tells for all directories and source files whether the specifier is
relative and whether it leads back.
-/

namespace IpcWiring

namespace Text

/-- The first piece is what stands before the first separator. -/
theorem head?_cutAt {α : Type} [DecidableEq α] {sep : α} (s : List α) :
    (cutAt sep s).head? = some (s.takeWhile (· ≠ sep)) := by
  induction s with
  | nil => rfl
  | cons c s ih =>
    rw [cutAt]
    by_cases hc : c = sep
    · simp [hc]
    · obtain ⟨piece, pieces, hs⟩ := List.exists_cons_of_ne_nil (cutAt_ne_nil sep s)
      rw [hs, List.head?_cons, Option.some.injEq] at ih
      simp [hc, hs, ih]

/-- What is put together starts with a dot if the first piece does. -/
theorem startsWith_dot_joinWith (s : String) (rest : List String) :
    startsWith "." (joinWith "/" (s :: rest)) = startsWith "." s := by
  have hdot : ∀ t : String, startsWith "." t = (t.toList.head? == some '.') := fun t => by
    have hlist : ".".toList = ['.'] := rfl
    rw [startsWith, hlist]
    cases t.toList <;> simp [List.isPrefixOf, eq_comm]
  rw [hdot, hdot]
  cases rest with
  | nil => rw [joinWith, String.intercalate_singleton]
  | cons t rest =>
    rw [joinWith, String.intercalate_cons_cons, String.toList_append, String.toList_append]
    cases hs : s.toList with
    | nil => simp
    | cons c cs => simp

/-- A text is what is left of it without an ending, and the ending. -/
theorem dropEnding?_eq_some {ending s t : String} (h : dropEnding? ending s = some t) :
    s = t ++ ending := by
  rw [dropEnding?] at h
  split at h
  · next hsuffix =>
    obtain ⟨front, hfront⟩ := List.isSuffixOf_iff_suffix.1 hsuffix
    obtain rfl := Option.some.inj h
    refine String.toList_injective ?_
    rw [String.toList_append, String.toList_ofList, ← hfront]
    simp
  · cases h

/-- Something stands before an ending that a text has. -/
theorem isSome_dropEnding?_append (s ending : String) :
    (dropEnding? ending (s ++ ending)).isSome = true := by
  have hsuffix : ending.toList.isSuffixOf (s ++ ending).toList = true :=
    List.isSuffixOf_iff_suffix.2 ⟨s.toList, (String.toList_append ..).symm⟩
  rw [dropEnding?, if_pos hsuffix]
  rfl

end Text

namespace Specifier

open Component IpcWiring.Path

/-! ## The pieces of a specifier -/

/-- The pieces of the specifier that leads from `dir` to `file`. -/
def pieces (dir file : Path) : List String :=
  let shared := sharedLength dir.components file.components
  mapLast stripExtension
    (List.replicate (dir.components.length - shared) ".." ++
      (file.components.drop shared).map Component.text)

/-- Pieces written one after another, with `./` in front unless they start with a dot. -/
def written (ps : List String) : String :=
  let joined := Text.joinWith "/" ps
  if Text.startsWith "." joined then joined else "./" ++ joined

/-- The specifier of a file is written from its pieces. -/
theorem relative_eq {dir file : Path} (hdir : dir.Full) (hfile : file.Full) :
    relative dir file = written (pieces dir file) := by
  rw [relative, hdir.resolved.normalize_eq, hfile.resolved.normalize_eq]
  rfl

/-- The piece starts with a dot and does not stand for a directory. -/
def IsHidden (s : String) : Prop := Text.startsWith "." s = true ∧ s ≠ "." ∧ s ≠ ".."

instance (s : String) : Decidable (IsHidden s) := inferInstanceAs (Decidable (_ ∧ _))

/-- A specifier is relative if its first piece is `.` or `..`. -/
theorem isRelative_iff (s : String) :
    isRelative s = true ↔
      (Text.splitOn '/' s).head? = some "." ∨ (Text.splitOn '/' s).head? = some ".." := by
  have hhead : (Text.splitOn '/' s).head? =
      some (String.ofList (s.toList.takeWhile (· ≠ '/'))) := by
    rw [Text.splitOn, List.head?_map, Text.head?_cutAt, Option.map_some]
  rw [hhead, Option.some.injEq, Option.some.injEq, isRelative, Text.startsWith, Text.startsWith]
  simp only [← String.toList_inj, Bool.or_eq_true, beq_iff_eq, String.toList_ofList]
  have hdots : ".".toList = ['.'] ∧ "..".toList = ['.', '.'] ∧ "./".toList = ['.', '/'] ∧
      "../".toList = ['.', '.', '/'] := ⟨rfl, rfl, rfl, rfl⟩
  rw [hdots.1, hdots.2.1, hdots.2.2.1, hdots.2.2.2]
  rcases s.toList with _ | ⟨c, _ | ⟨d, _ | ⟨e, cs⟩⟩⟩
  all_goals grind [List.takeWhile_nil, List.takeWhile_cons]

/-- What is written starts with a dot. -/
theorem isAbsolute_written (ps : List String) : (Path.mk (written ps)).isAbsolute = false := by
  have hdot : ∀ {t : String}, Text.startsWith "." t = true → (Path.mk t).isAbsolute = false := by
    intro t ht
    obtain ⟨rest, hrest⟩ := List.isPrefixOf_iff_prefix.1 ht
    have hlist : t.toList = '.' :: rest := hrest.symm
    rw [isAbsolute, hlist]
    rfl
  unfold written
  dsimp only
  split
  · next h => exact hdot h
  · refine hdot ?_
    rw [Text.startsWith, String.toList_append]
    rfl

/-- The pieces of what is written, with a `.` in front unless they start with a dot. -/
theorem splitOn_written {s : String} {rest : List String}
    (h : ∀ t ∈ s :: rest, '/' ∉ t.toList) :
    Text.splitOn '/' (written (s :: rest)) =
      if Text.startsWith "." s then s :: rest else "." :: s :: rest := by
  have hsplit := Text.splitOn_joinWith (List.cons_ne_nil s rest) h
  unfold written
  dsimp only
  rw [Text.startsWith_dot_joinWith]
  split
  · exact hsplit
  · have hfront : "./" ++ Text.joinWith "/" (s :: rest) =
        "." ++ "/" ++ Text.joinWith "/" (s :: rest) := rfl
    rw [hfront, Text.splitOn_append_separator, hsplit]
    rfl

/-- What is written stands for the components that its pieces stand for. -/
theorem laterComponents_written {ps : List String} (h : ∀ t ∈ ps, '/' ∉ t.toList) :
    laterComponents (written ps) = ps.filterMap (Component.ofSegment? false false) := by
  cases ps with
  | nil => decide
  | cons s rest =>
    rw [laterComponents, splitOn_written h]
    split
    · rfl
    · rw [List.filterMap_cons_none (by decide)]

/-- What is written is a relative specifier unless its first piece is hidden. -/
theorem isRelative_written {ps : List String} (h : ∀ t ∈ ps, '/' ∉ t.toList) :
    isRelative (written ps) = true ↔ ∀ s ∈ ps.head?, ¬IsHidden s := by
  cases ps with
  | nil =>
    have hrelative : isRelative (written []) = true := by decide
    simp [hrelative]
  | cons s rest =>
    rw [isRelative_iff, splitOn_written h, List.head?_cons]
    simp only [Option.mem_some_iff, forall_eq', IsHidden]
    split
    · next hdot =>
      simp only [List.head?_cons, Option.some.injEq, hdot, true_and]
      tauto
    · next hdot => simp [hdot]

/-- Where a written specifier leads from a directory. -/
theorem target_written {fromFile dir : Path} (hdir : dir.Full)
    (hfrom : fromFile.parent? = some dir) {ps : List String} (h : ∀ t ∈ ps, '/' ∉ t.toList) :
    target fromFile (written ps) =
      ofComponents (normalComponents
        (dir.components ++ ps.filterMap (Component.ofSegment? false false))) := by
  rw [target, hfrom, Option.getD_some, Path.normalize, hdir.components_join_text (isAbsolute_written ps),
    laterComponents_written h]

/-! ## The way from a directory to a file -/

/-- Two lists agree on what they share and differ right behind it. -/
theorem sharedLength_spec (start goal : List Component) :
    ∃ base back forth, start = base ++ back ∧ goal = base ++ forth ∧
      sharedLength start goal = base.length ∧
      ∀ a ∈ back.head?, ∀ b ∈ forth.head?, a ≠ b := by
  fun_induction sharedLength start goal with
  | case1 as a bs ih =>
    obtain ⟨base, back, forth, rfl, rfl, hlength, hdiffer⟩ := ih
    exact ⟨a :: base, back, forth, rfl, rfl, by simp [hlength], hdiffer⟩
  | case2 a as b bs hne => exact ⟨[], a :: as, b :: bs, rfl, rfl, rfl, by simpa using hne⟩
  | case3 start goal hnone =>
    refine ⟨[], start, goal, rfl, rfl, rfl, fun a ha b hb => ?_⟩
    obtain ⟨as, rfl⟩ := List.head?_eq_some_iff.1 ha
    obtain ⟨bs, rfl⟩ := List.head?_eq_some_iff.1 hb
    exact (hnone a as b bs rfl rfl).elim

/-- Only the last entry is changed. -/
theorem mapLast_concat (f : String → String) (ss : List String) (s : String) :
    mapLast f (ss ++ [s]) = ss ++ [f s] := by
  fun_induction mapLast f ss with
  | case1 => rfl
  | case2 t => rfl
  | case3 t rest hrest ih =>
    obtain ⟨u, us, rfl⟩ := List.exists_cons_of_ne_nil hrest
    exact congrArg (t :: ·) ih

/-- The way from `dir` to `file`: up by what `dir` has behind the shared part, then down. -/
theorem exists_way {dir file : Path} (hdir : dir.Full) (hfile : file.Full) :
    ∃ base back forth, dir.components = base ++ back ∧ file.components = base ++ forth ∧
      Component.root ∈ base ∧ Component.root ∉ back ∧
      (file.isWithin dir = true ↔ forth = []) ∧
      pieces dir file =
        mapLast stripExtension (List.replicate back.length ".." ++ forth.map Component.text) := by
  obtain ⟨start, hstart, hdirc⟩ := hdir.exists_steps
  obtain ⟨goal, hgoal, hfilec⟩ := hfile.exists_steps
  obtain ⟨base, back, forth, hs, hg, hlength, hdiffer⟩ := sharedLength_spec start goal
  have hback : ∀ c ∈ back, c.IsStep := fun c hc => hstart c (by simp [hs, hc])
  refine ⟨.root :: base, back, forth, by simp [hdirc, hs], by simp [hfilec, hg],
    List.mem_cons_self, fun hroot => hback _ hroot, ?_, ?_⟩
  · rw [isWithin, List.isPrefixOf_iff_prefix, hdirc, hfilec, hs, hg, List.cons_prefix_cons,
      List.prefix_append_right_inj]
    constructor
    · rintro ⟨-, rest, hrest⟩
      cases forth with
      | nil => rfl
      | cons b forth => exact (hdiffer b (by simp [← hrest]) b rfl rfl).elim
    · rintro rfl
      exact ⟨rfl, List.nil_prefix⟩
  · have hshared : sharedLength dir.components file.components = base.length + 1 := by
      rw [hdirc, hfilec, sharedLength, if_pos rfl, hlength]
    rw [pieces, hshared, hdirc, hfilec, hs, hg]
    simp

/-! ## The extension left out -/

/-- A source file has an ending that a specifier leaves out. -/
theorem exists_ending {file : Path} {name : String} (hname : file.fileName? = some name)
    (hsource : hasSourceExtension file = true) :
    ∃ ending ∈ droppedEndings, name = stripExtension name ++ ending := by
  obtain ⟨stem, ext, hext, rfl⟩ : ∃ stem, ∃ ext ∈ sourceExtensions, name = stem ++ ("." ++ ext) := by
    rw [hasSourceExtension, extension?, hname, Option.bind_some] at hsource
    cases hsplit : splitFileName name with
    | mk stem ext? =>
      rw [hsplit] at hsource
      cases ext? with
      | none => cases hsource
      | some ext =>
        refine ⟨stem, ext, by simpa using hsource, ?_⟩
        rw [splitFileName_eq hsplit, String.append_assoc]
  have hdropped : "." ++ ext ∈ droppedEndings := by
    clear hname
    revert ext
    decide
  have hsome : (droppedEndings.findSome? fun ending =>
      Text.dropEnding? ending (stem ++ ("." ++ ext))).isSome = true :=
    List.findSome?_isSome_iff.2 ⟨_, hdropped, Text.isSome_dropEnding?_append _ _⟩
  obtain ⟨bare, hbare⟩ := Option.isSome_iff_exists.1 hsome
  obtain ⟨ending, hending, hdrop⟩ := List.exists_of_findSome?_eq_some hbare
  refine ⟨ending, hending, ?_⟩
  rw [stripExtension, hbare]
  exact Text.dropEnding?_eq_some hdrop

/-- A name without its extension has no separator if the name has none. -/
theorem not_mem_stripExtension {name : String} (h : '/' ∉ name.toList) :
    '/' ∉ (stripExtension name).toList := by
  cases hbare : droppedEndings.findSome? fun ending => Text.dropEnding? ending name with
  | none => rwa [stripExtension, hbare]
  | some bare =>
    obtain ⟨ending, -, hdrop⟩ := List.exists_of_findSome?_eq_some hbare
    rw [Text.dropEnding?_eq_some hdrop, String.toList_append, List.mem_append] at h
    rw [stripExtension, hbare]
    exact fun hmem => h (.inl hmem)

/-- With an ending that specifiers leave out behind it a path is one of its candidates. -/
theorem mem_candidates_append (t : Path) {ending : String} (h : ending ∈ droppedEndings) :
    ⟨t.text ++ ending⟩ ∈ candidates t := by
  have hext : ∃ ext ∈ appendedExtensions, ending = "." ++ ext := by
    revert ending
    decide
  obtain ⟨ext, hmem, rfl⟩ := hext
  rw [candidates, ← String.append_assoc]
  simp only [List.mem_append, List.mem_map]
  exact .inl (.inl (.inr ⟨ext, hmem, rfl⟩))

/-- An ending behind a full path is part of its last component. -/
theorem components_append_text {p : Path} (h : p.Full) {cs : List Component} {c : Component}
    (hp : p.components = cs ++ [c]) (hc : c ≠ .root) {ending : String}
    (he : '/' ∉ ending.toList) (hlen : 3 ≤ ending.length) :
    (Path.mk (p.text ++ ending)).components = cs ++ [.name (c.text ++ ending)] := by
  rcases h.append_text_eq with ⟨-, hroot⟩ | ⟨init, d, hsteps, hcs, lead, hlead, hwrite⟩
  · rw [hroot] at hp
    have hlast : Component.root = c := by simpa using congrArg List.getLast? hp
    exact absurd hlast.symm hc
  · rw [hcs] at hp
    obtain ⟨rfl, hlast⟩ := List.append_inj' hp rfl
    obtain rfl := List.singleton_inj.1 hlast
    have hentry : IsEntryName (d.text ++ ending) :=
      isEntryName_append (hsteps d (by simp)).not_mem_text he hlen
    rw [hlead, String.append_assoc, hwrite]
    refine components_ofComponents_root fun e he => ?_
    rcases List.mem_append.1 he with he | he
    · exact hsteps e (List.mem_append_left _ he)
    · rw [List.mem_singleton.1 he]
      exact hentry

/-- The names that a candidate can have below the path that it is tried for. -/
def namesBelow : List String :=
  appendedExtensions.map ("." ++ ·) ++ ["index.ts", "index.tsx"]

/-- A candidate has no more components than the path that it is tried for, or it lies directly
below. -/
theorem components_of_mem_candidates {t p : Path} (ht : t.Full) (hp : p ∈ candidates t) :
    p.components.length ≤ t.components.length ∨
      ∃ s ∈ namesBelow, p.components = t.components ++ [.name s] := by
  have hres := ht.resolved
  rw [candidates] at hp
  simp only [List.mem_append, List.mem_map] at hp
  rcases hp with ((hp | ⟨ext, hext, rfl⟩) | ⟨ext, hext, rfl⟩) | ⟨name, hname, rfl⟩
  · split at hp
    · rw [List.mem_singleton.1 hp]
      exact .inl (Nat.le_refl _)
    · cases hp
  · obtain ⟨hsep, hlong⟩ := ending_of_mem hext
    rw [String.append_assoc]
    rcases ht.append_text_eq with ⟨rfl, hroot⟩ | ⟨init, c, hsteps, hcs, -⟩
    · refine .inr ⟨"." ++ ext, List.mem_append_left _ (List.mem_map_of_mem hext), ?_⟩
      rw [hroot, components_root_append]
      clear hsep hlong
      revert ext
      decide
    · have hc : c ≠ .root := by
        rintro rfl
        exact hsteps .root (by simp)
      rw [components_append_text ht hcs hc hsep hlong, hcs]
      simp
  · have hending := ending_of_mem (mem_of_mem_rewrittenExtensions hext)
    exact .inl (hres.withExtension hending.1 hending.2).2.le
  · have hentry : IsEntryName name := by
      revert name
      decide
    exact .inr ⟨name, List.mem_append_right _ hname, hres.components_join hentry⟩

/-! ## The way back -/

/-- Where a resolved file is the only one, a specifier leads to it if it is one of the files that
the specifier can stand for. -/
theorem resolve_beq_iff {file fromFile : Path} (hfile : file.Resolved) (specifier : String) :
    resolve (· == file) fromFile specifier = some file ↔
      isRelative specifier = true ∧ file ∈ candidates (target fromFile specifier) := by
  constructor
  · exact mem_candidates_of_resolve
  · rintro ⟨hrelative, hmem⟩
    rw [resolve, if_pos hrelative]
    cases hfind : (candidates (target fromFile specifier)).find? (· == file) with
    | none => exact absurd (beq_iff.2 rfl) (List.find?_eq_none.1 hfind file hmem)
    | some p =>
      have hp := resolved_of_mem_candidates (resolved_target _ _) (List.mem_of_find?_eq_some hfind)
      have hsame : (p == file) = true := List.find?_some (p := (· == file)) hfind
      rw [(hp.beq_iff_eq hfile).1 hsame]

/-- The specifier of a file that is the directory itself or above it goes up only. -/
theorem mapLast_replicate (n : Nat) :
    mapLast stripExtension (List.replicate n "..") = List.replicate n ".." := by
  cases n with
  | zero => rfl
  | succ n =>
    rw [List.replicate_succ', mapLast_concat]
    rfl

/-- Each step up is read as one. -/
theorem filterMap_replicate_up (n : Nat) :
    (List.replicate n "..").filterMap (Component.ofSegment? false false) =
      List.replicate n .up := by
  induction n with
  | zero => rfl
  | succ n ih =>
    rw [List.replicate_succ, List.replicate_succ, List.filterMap_cons_some (by rfl), ih]

/-- Steps up in front of pieces bring no separator in. -/
theorem not_mem_up_append {n : Nat} {down : List String} (h : ∀ t ∈ down, '/' ∉ t.toList) :
    ∀ t ∈ List.replicate n ".." ++ down, '/' ∉ t.toList := by
  intro t ht
  rcases List.mem_append.1 ht with ht | ht
  · rw [List.eq_of_mem_replicate ht]
    decide
  · exact h t ht

/-- Going up as far as the shared part and then down leads to what lies below the shared part. -/
theorem target_way {dir fromFile : Path} (hdir : dir.Full) (hfrom : fromFile.parent? = some dir)
    {base back : List Component} (hway : dir.components = base ++ back)
    (hback : Component.root ∉ back) {down : List String} (hdown : ∀ t ∈ down, '/' ∉ t.toList) :
    target fromFile (written (List.replicate back.length ".." ++ down)) =
      ofComponents (normalComponents
        (base ++ down.filterMap (Component.ofSegment? false false))) := by
  have hresolved : Component.Resolved (base ++ back) := hway ▸ hdir.resolved.components
  rw [target_written hdir hfrom (not_mem_up_append hdown), hway, List.filterMap_append, filterMap_replicate_up,
    normalComponents_returned hresolved hback]

section Back

variable {file : Path} {cs : List Component} {bare ending : String}

/-- The directory of a full path is full. -/
theorem full_ofComponents_dir {name : String} (hfile : file.Full)
    (hc : file.components = cs ++ [.name name]) :
    Component.Resolved cs ∧ (ofComponents cs).Full := by
  have hcs : Component.Resolved cs := by simpa [hc] using hfile.resolved.components.dropLast
  exact ⟨hcs, full_ofComponents hcs (by simpa [hc] using hfile.absolute)⟩

/-- An ending that specifiers leave out is no separator and long enough for a name. -/
theorem ending_of_mem_droppedEndings (h : ending ∈ droppedEndings) :
    '/' ∉ ending.toList ∧ 3 ≤ ending.length := by
  revert ending
  decide

/-- A path whose last component with the ending is that of the file has the file among its
candidates. -/
theorem mem_candidates_of_components {t : Path} {c : Component} (hfile : file.Full)
    (hc : file.components = cs ++ [.name (c.text ++ ending)]) (hending : ending ∈ droppedEndings)
    (ht : t.Full) (htc : t.components = cs ++ [c]) (hroot : c ≠ .root) :
    file ∈ candidates t := by
  obtain ⟨hsep, hlong⟩ := ending_of_mem_droppedEndings hending
  have happended := components_append_text ht htc hroot hsep hlong
  have hsame : file = ⟨t.text ++ ending⟩ :=
    hfile.resolved.eq_of_components_eq (ht.resolved.append_text hsep hlong)
      (hc.trans happended.symm)
  rw [hsame]
  exact mem_candidates_append t hending

/-- The directory of a file does not stand for the file if the name of the file is an ending behind
a dot. -/
theorem not_mem_candidates_dir (hfile : file.Full)
    (hc : file.components = cs ++ [.name ("." ++ ending)]) (hending : ending ∈ droppedEndings) :
    file ∉ candidates (ofComponents cs) := by
  intro hmem
  obtain ⟨hcs, hdir⟩ := full_ofComponents_dir hfile hc
  have hbelow := components_of_mem_candidates hdir hmem
  rw [components_ofComponents_of_resolved hcs, hc] at hbelow
  rcases hbelow with hlength | ⟨s, hs, hsame⟩
  · rw [List.length_append, List.length_singleton] at hlength
    omega
  · have hname : "." ++ ending = s := by simpa using hsame
    rw [← hname] at hs
    clear hc hsame hname
    revert ending
    decide

/-- The path above the directory of a file stands for the file just in the root. -/
theorem mem_candidates_up_iff (hfile : file.Full)
    (hc : file.components = cs ++ [.name (".." ++ ending)]) (hending : ending ∈ droppedEndings) :
    file ∈ candidates (ofComponents (normalComponents (cs ++ [.up]))) ↔
      file.components.length = 2 := by
  obtain ⟨hcs, hdir⟩ := full_ofComponents_dir hfile hc
  obtain ⟨steps, hsteps, hroot⟩ := hdir.exists_steps
  rw [components_ofComponents_of_resolved hcs] at hroot
  rcases List.eq_nil_or_concat steps with rfl | ⟨init, c, rfl⟩
  · -- A `..` behind the root stays, and the ending makes it the name of the file.
    have hup : normalComponents (cs ++ [.up]) = cs ++ [.up] := hroot ▸ rfl
    have hresolved : Component.Resolved (cs ++ [.up]) :=
      ⟨[.root, .up], by simp [Component.fronts], [], List.forall_mem_nil _, by simp [hroot]⟩
    have ht := full_ofComponents hresolved (by simp [hroot])
    have htc := components_ofComponents_of_resolved hresolved
    rw [hup, hc, hroot]
    rw [hroot] at hc ht htc
    exact iff_of_true (mem_candidates_of_components hfile hc hending ht htc (by decide)) rfl
  · -- Elsewhere it takes the last component back, which leaves too few of them.
    rw [List.concat_eq_append, ← List.cons_append] at hroot
    have hlast : Component.root ∉ [c] := by
      intro hmem
      obtain rfl := List.mem_singleton.1 hmem
      exact hsteps .root (by simp)
    have hinit : Component.Resolved (.root :: init) := by
      have hdropped := hcs.dropLast
      rwa [hroot, List.dropLast_concat] at hdropped
    have hup : normalComponents (cs ++ [.up]) = .root :: init := by
      have hreturned := normalComponents_returned (hroot ▸ hcs) hlast []
      rwa [List.append_nil, List.append_nil, normalComponents_of_resolved hinit, ← hroot]
        at hreturned
    have ht := full_ofComponents hinit (by simp)
    have htc := components_ofComponents_of_resolved hinit
    have hlong : file.components.length = init.length + 3 := by simp [hc, hroot]
    rw [hup]
    refine iff_of_false (fun hmem => ?_) (by omega)
    rcases components_of_mem_candidates ht hmem with hlength | ⟨s, -, hsame⟩
    · rw [htc, hlong, List.length_cons] at hlength
      omega
    · rw [hsame, htc] at hlong
      simp at hlong

end Back

/-- Whether the file is found where its specifier leads: the name without its extension is not that
of a directory, except for `..` in the root. -/
theorem mem_candidates_iff {file : Path} {cs : List Component} {bare ending : String}
    (hfile : file.Full) (hc : file.components = cs ++ [.name (bare ++ ending)])
    (hending : ending ∈ droppedEndings) (hbare : bare ≠ "") :
    file ∈ candidates (ofComponents (normalComponents
        (cs ++ [bare].filterMap (Component.ofSegment? false false)))) ↔
      bare ≠ "." ∧ (bare = ".." → file.components.length = 2) := by
  obtain ⟨hcs, hdir⟩ := full_ofComponents_dir hfile hc
  by_cases hhere : bare = "."
  · subst hhere
    have hnone : ["."].filterMap (Component.ofSegment? false false) = [] := by decide
    rw [hnone, List.append_nil, normalComponents_of_resolved hcs]
    exact iff_of_false (not_mem_candidates_dir hfile hc hending) fun h => h.1 rfl
  · by_cases hup : bare = ".."
    · subst hup
      have hone : [".."].filterMap (Component.ofSegment? false false) = [.up] := by decide
      rw [hone, mem_candidates_up_iff hfile hc hending]
      simp
    · have hsep : '/' ∉ bare.toList := by
        have hall := hfile.resolved.not_mem_name hc
        rw [String.toList_append, List.mem_append] at hall
        exact fun h => hall (.inl h)
      have hentry : IsEntryName bare := ⟨hbare, hhere, hup, hsep⟩
      have hstep : ∀ c ∈ [Component.name bare], c.IsStep := by simpa [Component.IsStep] using hentry
      have hone : [bare].filterMap (Component.ofSegment? false false) = [.name bare] :=
        filterMap_text_steps hstep false
      have hresolved := hcs.snoc hentry
      have htc := components_ofComponents_of_resolved hresolved
      have ht := full_ofComponents hresolved
        (List.mem_append_left _ (by simpa [hc] using hfile.absolute))
      rw [hone, normalComponents_of_resolved hresolved]
      have hroot : Component.name bare ≠ .root := Component.noConfusion
      exact iff_of_true (mem_candidates_of_components hfile hc hending ht htc hroot)
        ⟨hhere, fun h => absurd h hup⟩

/-- The pieces of a specifier go up from the directory and then down to the file, unless the file is
the directory or above it. -/
theorem exists_pieces {dir file : Path} {name : String} (hdir : dir.Full) (hfile : file.Full)
    (hname : file.fileName? = some name) :
    ∃ base back down, dir.components = base ++ back ∧ Component.root ∉ back ∧
      pieces dir file = List.replicate back.length ".." ++ down ∧ (∀ t ∈ down, '/' ∉ t.toList) ∧
      (file.isWithin dir = true ∧ file.components = base ∧ down = [] ∨
        file.isWithin dir = false ∧ ∃ init, (∀ c ∈ init, c.IsStep) ∧
          file.components = base ++ init ++ [.name name] ∧
          down = init.map Component.text ++ [stripExtension name]) := by
  obtain ⟨base, back, forth, hdirc, hfilec, hbase, hback, hwithin, hpieces⟩ :=
    exists_way hdir hfile
  rcases List.eq_nil_or_concat forth with rfl | ⟨init, c, rfl⟩
  · rw [List.map_nil, List.append_nil, mapLast_replicate] at hpieces
    rw [List.append_nil] at hfilec
    exact ⟨base, back, [], hdirc, hback, by rw [hpieces, List.append_nil], List.forall_mem_nil _,
      .inl ⟨hwithin.2 rfl, hfilec, rfl⟩⟩
  · rw [List.concat_eq_append] at hfilec hwithin hpieces
    obtain ⟨cs, hcs⟩ := components_of_fileName? hname
    have hlast : c = .name name := by
      rw [hfilec, ← List.append_assoc] at hcs
      exact List.singleton_inj.1 (List.append_inj' hcs rfl).2
    rw [hlast, List.map_append, List.map_singleton, ← List.append_assoc, mapLast_concat,
      List.append_assoc] at hpieces
    have hsteps : ∀ d ∈ init, d.IsStep := by
      obtain ⟨steps, hsteps, hroot⟩ := hfile.exists_steps
      obtain ⟨first, rest, rfl⟩ := List.exists_cons_of_ne_nil (List.ne_nil_of_mem hbase)
      rw [hfilec, List.cons_append, List.cons.injEq] at hroot
      exact fun d hd => hsteps d (by simp [← hroot.2, hd])
    have hsep : ∀ t ∈ init.map Component.text ++ [stripExtension name], '/' ∉ t.toList := by
      intro t ht
      rcases List.mem_append.1 ht with ht | ht
      · obtain ⟨d, hd, rfl⟩ := List.mem_map.1 ht
        exact (hsteps d hd).not_mem_text
      · rw [List.mem_singleton.1 ht]
        exact not_mem_stripExtension (hfile.resolved.not_mem_name hcs)
    refine ⟨base, back, _, hdirc, hback, hpieces, hsep, .inr ⟨?_, init, hsteps, ?_, rfl⟩⟩
    · rw [← Bool.not_eq_true, hwithin]
      simp
    · rw [hfilec, hlast, List.append_assoc]

/-- For every full directory and every full path of a source file whose name is not an ending alone:
the specifier that is written for the file in the directory is relative unless its first piece
starts with a dot and is neither `.` nor `..`. A module in the directory finds the file under it,
where there is no other, just if it is relative and the name of the file without its extension is
neither `.` nor, below the root, `..`, or the file is the directory or above it. -/
theorem resolve_relative {dir file fromFile : Path} {name : String} (hdir : dir.Full)
    (hfile : file.Full) (hfrom : fromFile.parent? = some dir)
    (hname : file.fileName? = some name) (hsource : hasSourceExtension file = true)
    (hstem : stripExtension name ≠ "") :
    (isRelative (relative dir file) = true ↔ ∀ s ∈ (pieces dir file).head?, ¬IsHidden s) ∧
      (resolve (· == file) fromFile (relative dir file) = some file ↔
        (∀ s ∈ (pieces dir file).head?, ¬IsHidden s) ∧
          (file.isWithin dir = true ∨ stripExtension name ≠ "." ∧
            (stripExtension name = ".." → file.components.length = 2))) := by
  obtain ⟨ending, hending, hsplit⟩ := exists_ending hname hsource
  obtain ⟨base, back, down, hway, hback, hpieces, hsep, hdown⟩ := exists_pieces hdir hfile hname
  have hpieceSep : ∀ t ∈ pieces dir file, '/' ∉ t.toList := hpieces ▸ not_mem_up_append hsep
  have hfound : file ∈ candidates (target fromFile (written (pieces dir file))) ↔
      file.isWithin dir = true ∨ stripExtension name ≠ "." ∧
        (stripExtension name = ".." → file.components.length = 2) := by
    rw [hpieces, target_way hdir hfrom hway hback hsep]
    rcases hdown with ⟨hwithin, rfl, rfl⟩ | ⟨hwithin, init, hsteps, hfilec, rfl⟩
    · rw [List.filterMap_nil, List.append_nil,
        normalComponents_of_resolved hfile.resolved.components, hfile.resolved.written]
      refine iff_of_true ?_ (.inl hwithin)
      rw [candidates, if_pos hsource]
      simp
    · rw [hsplit] at hfilec
      rw [List.filterMap_append, filterMap_text_steps hsteps, ← List.append_assoc,
        mem_candidates_iff hfile hfilec hending hstem, hwithin]
      simp
  rw [resolve_beq_iff hfile.resolved, relative_eq hdir hfile, isRelative_written hpieceSep, hfound]
  exact ⟨Iff.rfl, Iff.rfl⟩

/-- A module in `/app/src` finds `/app/api/users.ts` under the specifier written for it; what is
written for `/app/src/.config/api.ts` is no relative specifier, and what is written for
`/app/src/..ts` leads elsewhere. -/
theorem resolve_relative_small :
    resolve (· == ⟨"/app/api/users.ts"⟩) ⟨"/app/src/main.ts"⟩
        (relative ⟨"/app/src"⟩ ⟨"/app/api/users.ts"⟩) = some ⟨"/app/api/users.ts"⟩ ∧
      isRelative (relative ⟨"/app/src"⟩ ⟨"/app/src/.config/api.ts"⟩) ≠ true ∧
      resolve (· == ⟨"/app/src/..ts"⟩) ⟨"/app/src/main.ts"⟩
        (relative ⟨"/app/src"⟩ ⟨"/app/src/..ts"⟩) ≠ some ⟨"/app/src/..ts"⟩ := by
  have hdir : (Path.mk "/app/src").Full := full_iff.2 ⟨rfl, congrArg Path.mk (by decide +kernel)⟩
  have hfrom : (Path.mk "/app/src/main.ts").parent? = some ⟨"/app/src"⟩ := by rfl
  refine ⟨?_, ?_, ?_⟩
  · have hfile : (Path.mk "/app/api/users.ts").Full :=
      full_iff.2 ⟨rfl, congrArg Path.mk (by decide +kernel)⟩
    have hname : (Path.mk "/app/api/users.ts").fileName? = some "users.ts" := by decide +kernel
    obtain ⟨-, hfound⟩ := resolve_relative hdir hfile hfrom hname (by decide +kernel)
      (by decide +kernel)
    exact hfound.2 (by decide +kernel)
  · have hfile : (Path.mk "/app/src/.config/api.ts").Full :=
      full_iff.2 ⟨rfl, congrArg Path.mk (by decide +kernel)⟩
    have hname : (Path.mk "/app/src/.config/api.ts").fileName? = some "api.ts" := by decide +kernel
    obtain ⟨hrelative, -⟩ := resolve_relative hdir hfile hfrom hname (by decide +kernel)
      (by decide +kernel)
    rw [ne_eq, hrelative]
    decide +kernel
  · have hfile : (Path.mk "/app/src/..ts").Full :=
      full_iff.2 ⟨rfl, congrArg Path.mk (by decide +kernel)⟩
    have hname : (Path.mk "/app/src/..ts").fileName? = some "..ts" := by decide +kernel
    obtain ⟨-, hfound⟩ := resolve_relative hdir hfile hfrom hname (by decide +kernel)
      (by decide +kernel)
    rw [ne_eq, hfound]
    decide +kernel

end Specifier

end IpcWiring
