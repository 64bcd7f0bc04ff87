import Mathlib.Data.List.Find
import IpcWiring.Proofs.Path.Resolved
import IpcWiring.Specifier

/-!
# Candidates of a specifier

The files that a relative specifier can stand for all have resolved paths
(`Specifier.resolved_of_mem_candidates`), so a file that it leads to is known by its components.
-/

namespace IpcWiring

/-- What stands before and after the last separator makes up the text. -/
theorem Text.eq_of_splitAtLast? {sep : Char} {s before after : String}
    (h : splitAtLast? sep s = some (before, after)) :
    s = before ++ String.singleton sep ++ after := by
  have hall := List.takeWhile_append_dropWhile (p := (· ≠ sep)) (l := s.toList.reverse)
  have hdrop : s.toList.reverse.drop (s.toList.reverse.takeWhile (· ≠ sep)).length =
      s.toList.reverse.dropWhile (· ≠ sep) := by
    conv_lhs => arg 2; rw [← hall]
    exact List.drop_left
  unfold splitAtLast? at h
  dsimp only at h
  rw [hdrop] at h
  split at h
  · cases h
  · next c front hfront =>
    obtain ⟨rfl, rfl⟩ := Prod.mk.inj (Option.some.inj h)
    have hc : c = sep := by
      have hhead := List.head?_dropWhile_not (· ≠ sep) s.toList.reverse
      rw [hfront] at hhead
      simpa using hhead
    rw [hfront, hc] at hall
    have hs := congrArg List.reverse hall
    rw [List.reverse_reverse] at hs
    refine String.toList_injective (hs.symm.trans ?_)
    simp

/-- A name with a long enough ending is a name of an entry. -/
theorem isEntryName_append {s ending : String} (hs : '/' ∉ s.toList) (he : '/' ∉ ending.toList)
    (hlen : 3 ≤ ending.length) : IsEntryName (s ++ ending) := by
  have hlong : 3 ≤ (s ++ ending).length := by rw [String.length_append]; omega
  refine ⟨fun h => ?_, fun h => ?_, fun h => ?_, ?_⟩
  · rw [h] at hlong; revert hlong; decide
  · rw [h] at hlong; revert hlong; decide
  · rw [h] at hlong; revert hlong; decide
  · rw [String.toList_append, List.mem_append]
    exact fun h => h.elim hs he

namespace Path

/-- Writing more behind a resolved path gives a resolved path. -/
theorem Resolved.append_text {p : Path} (h : p.Resolved) {ending : String}
    (he : '/' ∉ ending.toList) (hlen : 3 ≤ ending.length) :
    (Path.mk (p.text ++ ending)).Resolved := by
  have hsnoc : ∀ {cs : List Component} {s : String}, Component.Resolved cs → '/' ∉ s.toList →
      Component.Resolved (cs ++ [.name (s ++ ending)]) := fun hcs hs =>
    hcs.snoc (isEntryName_append hs he hlen)
  have hnil : Component.Resolved [] := ⟨[], by simp [Component.fronts], [], nofun, rfl⟩
  have hroot : Component.Resolved [.root] := ⟨[.root], by simp [Component.fronts], [], nofun, rfl⟩
  obtain ⟨front, hf, names, hnames, hcs⟩ := h.components
  rcases List.eq_nil_or_concat names with rfl | ⟨init, s, rfl⟩
  · rw [← h.written, hcs, List.map_nil, List.append_nil]
    simp only [Component.fronts, List.mem_cons, List.not_mem_nil, or_false] at hf
    rcases hf with rfl | rfl | rfl | rfl
    · have hres := resolved_ofComponents (hsnoc (s := "") hnil (by simp))
      simpa [ofComponents, Text.joinWith, Component.text] using hres
    · have hres := resolved_ofComponents (hsnoc (s := "") hroot (by simp))
      simpa [ofComponents, Text.joinWith, Component.text] using hres
    · have hres := resolved_ofComponents (hsnoc (s := "..") hnil (by decide))
      simpa [ofComponents, Text.joinWith, Component.text] using hres
    · have hres := resolved_ofComponents (hsnoc (s := "..") hroot (by decide))
      have htext : (ofComponents [.root, .up]).text = "/" ++ ".." := rfl
      rw [htext, String.append_assoc]
      simpa [ofComponents, Text.joinWith, Component.text] using hres
  · rw [List.concat_eq_append, List.map_append, List.map_singleton, ← List.append_assoc] at hcs
    obtain ⟨lead, hlead⟩ := exists_ofComponents_snoc (front ++ init.map .name)
    have hdrop : Component.Resolved (front ++ init.map .name) := by
      simpa [hcs] using h.components.dropLast
    have hs : '/' ∉ s.toList := (hnames s (by simp)).2.2.2
    have hres := resolved_ofComponents (hsnoc hdrop hs)
    rw [hlead] at hres
    rw [← h.written, hcs, hlead, String.append_assoc]
    exact hres

/-- The stem of a file name and its extension make up the name. -/
theorem splitFileName_eq {name stem ext : String} (h : splitFileName name = (stem, some ext)) :
    name = stem ++ "." ++ ext := by
  unfold splitFileName at h
  split at h
  · cases h
  · cases h
  · next hsplit =>
    obtain ⟨rfl, hext⟩ := Prod.mk.inj h
    obtain rfl := Option.some.inj hext
    exact Text.eq_of_splitAtLast? hsplit

/-- The stem of a file name has no separator if the name has none. -/
theorem not_mem_splitFileName {name : String} (h : '/' ∉ name.toList) :
    '/' ∉ (splitFileName name).1.toList := by
  cases hsplit : splitFileName name with
  | mk stem ext? =>
    cases ext? with
    | none =>
      have hstem : stem = name := by
        unfold splitFileName at hsplit
        split at hsplit <;> cases hsplit <;> rfl
      exact hstem ▸ h
    | some ext =>
      rw [splitFileName_eq hsplit] at h
      intro hc
      refine h ?_
      simp only [String.toList_append, List.mem_append]
      exact .inl (.inl hc)

/-- A path with a file name ends in it. -/
theorem components_of_fileName? {p : Path} {s : String} (h : p.fileName? = some s) :
    ∃ cs, p.components = cs ++ [.name s] := by
  rw [fileName?] at h
  split at h <;> cases h
  next hlast => exact List.getLast?_eq_some_iff.1 hlast

/-- The last component of a resolved path is no separator. -/
theorem Resolved.not_mem_name {p : Path} (h : p.Resolved) {cs : List Component} {s : String}
    (hp : p.components = cs ++ [.name s]) : '/' ∉ s.toList := by
  obtain ⟨steps, hsteps, hc | hc⟩ := h.components.steps
  · exact (hsteps (.name s) (by rw [← hc, hp]; simp)).2.2.2
  · have hin : Component.name s ∈ Component.root :: steps := by rw [← hc, hp]; simp
    exact (hsteps _ ((List.mem_cons.1 hin).resolve_left nofun)).2.2.2

/-- Writing another extension gives a resolved path with as many components. -/
theorem Resolved.withExtension {p : Path} (h : p.Resolved) {ext : String}
    (he : '/' ∉ ("." ++ ext).toList) (hlen : 3 ≤ ("." ++ ext).length) :
    (p.withExtension ext).Resolved ∧
      (p.withExtension ext).components.length = p.components.length := by
  cases hname : p.fileName? with
  | none =>
    have hsame : p.withExtension ext = p := by
      rw [Path.withExtension, fileStem?, hname]
      rfl
    rw [hsame]
    exact ⟨h, rfl⟩
  | some s =>
    obtain ⟨cs, hp⟩ := components_of_fileName? hname
    have hcs : Component.Resolved cs := by simpa [hp] using h.components.dropLast
    have hdir := resolved_ofComponents hcs
    have hentry : IsEntryName ((splitFileName s).1 ++ ("." ++ ext)) :=
      isEntryName_append (not_mem_splitFileName (h.not_mem_name hp)) he hlen
    have hwith : p.withExtension ext =
        (ofComponents cs).join ⟨(splitFileName s).1 ++ ("." ++ ext)⟩ := by
      rw [Path.withExtension, fileStem?, hname, h.parent?_eq hp, Option.map_some]
      simp only [String.append_assoc]
    rw [hwith]
    refine ⟨hdir.join hentry, ?_⟩
    rw [hdir.components_join hentry, components_ofComponents_of_resolved hcs, hp,
      List.length_append, List.length_append]
    rfl

end Path

namespace Specifier

/-- A specifier points at a resolved path. -/
theorem resolved_target (fromFile : Path) (specifier : String) :
    (target fromFile specifier).Resolved :=
  Path.resolved_normalize _

/-- What is written behind a specifier, or in place of its extension, is no separator and long
enough for a name. -/
theorem ending_of_mem {ext : String} (h : ext ∈ appendedExtensions) :
    '/' ∉ ("." ++ ext).toList ∧ 3 ≤ ("." ++ ext).length := by
  revert ext
  decide

/-- The extensions that take the place of a script extension are among those tried behind a
specifier. -/
theorem mem_of_mem_rewrittenExtensions {p : Path} {ext : String}
    (h : ext ∈ rewrittenExtensions p) : ext ∈ appendedExtensions := by
  unfold rewrittenExtensions at h
  unfold appendedExtensions
  split at h <;> simp only [List.mem_cons, List.not_mem_nil, or_false] at h ⊢ <;> tauto

/-- The files that a resolved path can stand for have resolved paths. -/
theorem resolved_of_mem_candidates {base p : Path} (h : base.Resolved) (hp : p ∈ candidates base) :
    p.Resolved := by
  rw [candidates] at hp
  simp only [List.mem_append, List.mem_map] at hp
  rcases hp with ((hp | ⟨ext, hext, rfl⟩) | ⟨ext, hext, rfl⟩) | ⟨name, hname, rfl⟩
  · split at hp
    · rw [List.mem_singleton.1 hp]
      exact h
    · cases hp
  · rw [String.append_assoc]
    exact h.append_text (ending_of_mem hext).1 (ending_of_mem hext).2
  · have hending := ending_of_mem (mem_of_mem_rewrittenExtensions hext)
    exact (h.withExtension hending.1 hending.2).1
  · refine h.join ?_
    simp only [List.mem_cons, List.not_mem_nil, or_false] at hname
    rcases hname with rfl | rfl <;> decide

/-- A specifier leads to a file with a resolved path. -/
theorem resolve_eq_some {isFile : Path → Bool} {fromFile p : Path} {specifier : String}
    (h : resolve isFile fromFile specifier = some p) : isFile p = true ∧ p.Resolved := by
  rw [resolve] at h
  split at h
  · exact ⟨List.find?_some h,
      resolved_of_mem_candidates (resolved_target _ _) (List.mem_of_find?_eq_some h)⟩
  · cases h

/-- A specifier leads to one of the files that it can stand for. -/
theorem mem_candidates_of_resolve {isFile : Path → Bool} {fromFile p : Path} {specifier : String}
    (h : resolve isFile fromFile specifier = some p) :
    isRelative specifier = true ∧ p ∈ candidates (target fromFile specifier) := by
  rw [resolve] at h
  split at h
  · next hrelative => exact ⟨hrelative, List.mem_of_find?_eq_some h⟩
  · cases h

/-- A specifier leads to the same file where the files that it can stand for are the same. -/
theorem resolve_congr {isFile isFile' : Path → Bool} {fromFile : Path} {specifier : String}
    (h : isRelative specifier = true → ∀ p ∈ candidates (target fromFile specifier),
      isFile p = isFile' p) :
    resolve isFile fromFile specifier = resolve isFile' fromFile specifier := by
  rw [resolve, resolve]
  split
  · next hrelative => exact List.find?_congr (h hrelative)
  · rfl

/-- Of two tests the stricter one finds the same first element if it holds of what the other one
finds. -/
theorem find?_eq_of_imp {α : Type} {p q : α → Bool} : ∀ {xs : List α},
    (∀ x ∈ xs, p x = true → q x = true) → (∀ x, xs.find? q = some x → p x = true) →
      xs.find? p = xs.find? q
  | [], _, _ => rfl
  | x :: xs, himp, hfirst => by
    rw [List.find?_cons, List.find?_cons]
    cases hq : q x with
    | true => rw [hfirst x (by rw [List.find?_cons, hq])]
    | false =>
      have hp : p x = false := by
        cases hp : p x with
        | false => rfl
        | true => rw [himp x List.mem_cons_self hp] at hq; cases hq
      rw [hp]
      exact find?_eq_of_imp (fun y hy => himp y (List.mem_cons_of_mem x hy)) fun y hy =>
        hfirst y (by rw [List.find?_cons, hq]; exact hy)

/-- Where there are fewer files, a specifier leads to the same one if that is among them. -/
theorem resolve_eq_of_imp {isFile isFile' : Path → Bool} {fromFile : Path} {specifier : String}
    (himp : ∀ p : Path, p.Resolved → isFile p = true → isFile' p = true)
    (hfirst : ∀ p, resolve isFile' fromFile specifier = some p → isFile p = true) :
    resolve isFile fromFile specifier = resolve isFile' fromFile specifier := by
  rw [resolve] at hfirst ⊢
  rw [resolve]
  split
  · next hrelative =>
    rw [if_pos hrelative] at hfirst
    exact find?_eq_of_imp (fun p hp =>
      himp p (resolved_of_mem_candidates (resolved_target _ _) hp)) hfirst
  · rfl

end Specifier

end IpcWiring
