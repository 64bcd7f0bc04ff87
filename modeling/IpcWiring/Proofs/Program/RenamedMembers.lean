import Mathlib.Data.List.SplitBy
import IpcWiring.Program.Members
import IpcWiring.Proofs.Program.Renaming

/-!
# Members under renamed imports

Two versions of a type (`Renaming.Expr`) have the same members: of the same names, in the same
order, and with the same unexported names in their types (`Program.Renamed.members?`). Only the
texts and the imports of their types are spelled differently. The schema constants on the way are
inlined in the same places (`Program.Renamed.inlineSchema_like`), and type parameters are bound to
two versions of the same arguments (`Bindings.Renamed`).
-/

namespace IpcWiring

open Script

variable {R : Path → Renaming}

/-! ## Related lists -/

/-- Related lists are split alike. -/
theorem splitBy_rel {α β : Type} {V : α → β → Prop} {r : α → α → Bool} {r' : β → β → Bool}
    (hr : ∀ {a b c d}, V a b → V c d → r a c = r' b d) {as : List α} {bs : List β}
    (h : List.Forall₂ V as bs) : List.Forall₂ (List.Forall₂ V) (as.splitBy r) (bs.splitBy r') := by
  -- The loop holds the element before the rest, the run before it backwards, and the earlier runs.
  have hloop : ∀ {as bs a b run run' runs runs'}, List.Forall₂ V as bs → V a b →
      List.Forall₂ V run run' → List.Forall₂ (List.Forall₂ V) runs runs' →
        List.Forall₂ (List.Forall₂ V) (List.splitBy.loop r as a run runs)
          (List.splitBy.loop r' bs b run' runs') := by
    intro as bs a b run run' runs runs' h hlast hrun hruns
    induction h generalizing a b run run' runs runs' with
    | nil => exact List.rel_reverse (.cons (List.rel_reverse (.cons hlast hrun)) hruns)
    | cons hnext _ ih =>
      rw [List.splitBy.loop, List.splitBy.loop, hr hlast hnext]
      split
      · exact ih hnext (.cons hlast hrun) hruns
      · exact ih hnext .nil (.cons (List.rel_reverse (.cons hlast hrun)) hruns)
  cases h with
  | nil => exact .nil
  | cons hfirst hrest => exact hloop hrest hfirst .nil .nil

/-- Related lists are sorted alike. -/
theorem mergeSort_rel {α β : Type} {V : α → β → Prop} {r : α → α → Bool} {r' : β → β → Bool}
    {as : List α} {bs : List β} (h : List.Forall₂ V as bs)
    (hr : ∀ a ∈ as, ∀ c ∈ as, ∀ {b d}, V a b → V c d → r a c = r' b d) :
    List.Forall₂ V (as.mergeSort r) (bs.mergeSort r') := by
  obtain ⟨hlength, hzip⟩ := List.forall₂_iff_zip.1 h
  have hfst : (as.zip bs).map Prod.fst = as := List.map_fst_zip hlength.le
  have hsnd : (as.zip bs).map Prod.snd = bs := List.map_snd_zip hlength.ge
  have hleft : ((as.zip bs).mergeSort fun x y => r x.1 y.1).map Prod.fst = as.mergeSort r := by
    rw [List.map_mergeSort (s := r) fun _ _ _ _ => rfl, hfst]
  have hright : ((as.zip bs).mergeSort fun x y => r x.1 y.1).map Prod.snd = bs.mergeSort r' := by
    rw [List.map_mergeSort (s := r') fun x hx y hy =>
      hr x.1 (List.of_mem_zip hx).1 y.1 (List.of_mem_zip hy).1 (hzip hx) (hzip hy), hsnd]
  rw [← hleft, ← hright, List.forall₂_map_left_iff, List.forall₂_map_right_iff, List.forall₂_same]
  exact fun x hx => hzip (List.mem_mergeSort.1 hx)

/-! ## Schemas -/

namespace Program.Renamed

variable {p p' : Program} (h : p.Renamed R p')

include h

/-- Two versions of a schema are alike once the constants in them are replaced. -/
theorem inlineSchema_like (n : Nat) (file : Path) (s : Schema) :
    ∀ {s' : Schema}, Schema.Like (R file).name s s' →
      Schema.Like (fun _ _ => True) (p.inlineSchema n file s) (p'.inlineSchema n file s') := by
  -- One case for each equation of the three functions, in their order.
  refine Program.inlineSchema.induct p
    (fun n file s => ∀ {s'}, Schema.Like (R file).name s s' →
      Schema.Like (fun _ _ => True) (p.inlineSchema n file s) (p'.inlineSchema n file s'))
    (fun n file args => ∀ {args'}, List.Forall₂ (Schema.LikeArg (R file).name) args args' →
      List.Forall₂ (Schema.LikeArg fun _ _ => True) (p.inlineArgs n file args)
        (p'.inlineArgs n file args'))
    (fun n file entries => ∀ {entries'},
      List.Forall₂ (Schema.LikeEntry (R file).name) entries entries' →
        List.Forall₂ (Schema.LikeEntry fun _ _ => True) (p.inlineEntries n file entries)
          (p'.inlineEntries n file entries'))
    ?_ ?_ ?_ ?_ ?_ ?_ ?_ ?_ ?_ ?_ ?_ ?_ ?_ n file s
  · intro file s s' _
    simp only [Program.inlineSchema]
    exact .unknown
  · intro file n name found hfound ih s' hs
    cases hs with
    | @ref _ x' hname =>
      have hrel := (h.schema_steps maxSteps).1 hname
      rw [hfound] at hrel
      cases hfound' : p'.schemaLocal maxSteps file x' with
      | none => rw [hfound'] at hrel; cases hrel
      | some found' =>
        rw [hfound'] at hrel
        cases hrel with
        | some hrel =>
          simp only [Program.inlineSchema, hfound, hfound']
          rw [← hrel.file]
          exact ih hrel.schema
  · intro file n name hnone s' hs
    cases hs with
    | @ref _ x' hname =>
      have hrel := (h.schema_steps maxSteps).1 hname
      rw [hnone] at hrel
      cases hnone' : p'.schemaLocal maxSteps file x' with
      | none =>
        simp only [Program.inlineSchema, hnone, hnone']
        exact .ref trivial
      | some found' => rw [hnone'] at hrel; cases hrel
  · intro file n name args ih s' hs
    cases hs with
    | builder harguments =>
      simp only [Program.inlineSchema]
      exact .builder (ih harguments)
  · intro file n receiver name args ihReceiver ihArgs s' hs
    cases hs with
    | method hreceiver harguments =>
      simp only [Program.inlineSchema]
      exact .method (ihReceiver hreceiver) (ihArgs harguments)
  · intro file n s' hs
    cases hs
    simp only [Program.inlineSchema]
    exact .unknown
  · intro n file args' hargs
    cases hargs
    simp only [Program.inlineArgs]
    exact .nil
  · intro n file s rest ihSchema ihRest args' hargs
    cases hargs with
    | cons ha hrest => cases ha with
      | schema hs =>
        simp only [Program.inlineArgs]
        exact .cons (.schema (ihSchema hs)) (ihRest hrest)
  · intro n file entries rest ihEntries ihRest args' hargs
    cases hargs with
    | cons ha hrest => cases ha with
      | object hentries =>
        simp only [Program.inlineArgs]
        exact .cons (.object (ihEntries hentries)) (ihRest hrest)
  · intro n file items rest ihItems ihRest args' hargs
    cases hargs with
    | cons ha hrest => cases ha with
      | array hitems =>
        simp only [Program.inlineArgs]
        exact .cons (.array (ihItems hitems)) (ihRest hrest)
  · intro n file arg rest hschema hobject harray ihRest args' hargs
    cases hargs with
    | cons ha hrest => cases ha with
      | schema _ => exact (hschema _ rfl).elim
      | object _ => exact (hobject _ rfl).elim
      | array _ => exact (harray _ rfl).elim
      | literal text =>
        simp only [Program.inlineArgs]
        exact .cons (.literal text) (ihRest hrest)
      | other =>
        simp only [Program.inlineArgs]
        exact .cons .other (ihRest hrest)
  · intro n file entries' hentries
    cases hentries
    simp only [Program.inlineEntries]
    exact .nil
  · intro n file key value rest ihValue ihRest entries' hentries
    cases hentries with
    | cons he hrest => cases he with
      | of hvalue =>
        simp only [Program.inlineEntries]
        exact .cons (.of (ihValue hvalue)) (ihRest hrest)

end Program.Renamed

/-! ## Scopes -/

mutual

/-- Two versions of a type argument; of its rendered text only the unexported names matter. -/
inductive Binding.Renamed (R : Path → Renaming) : Binding → Binding → Prop
  | of {r r' : Rendered} {file : Path} {t t' : TypeExpr} {scope scope' : Scope}
    (unexported : r.unexported = r'.unexported) (type : (R file).Expr t t')
    (bindings : Bindings.Renamed R file scope.bindings scope'.bindings) :
    Binding.Renamed R ⟨r, file, t, scope⟩ ⟨r', file, t', scope'⟩

/-- Two versions of type parameters of a file with what they are bound to. -/
inductive Bindings.Renamed (R : Path → Renaming) :
    Path → List (String × Binding) → List (String × Binding) → Prop
  | nil {file : Path} : Bindings.Renamed R file [] []
  | cons {file : Path} {x x' : String} {b b' : Binding} {bs bs' : List (String × Binding)}
    (name : (R file).name x x') (binding : Binding.Renamed R b b')
    (rest : Bindings.Renamed R file bs bs') :
    Bindings.Renamed R file ((x, b) :: bs) ((x', b') :: bs')

end

/-- Two versions of a scope of a file. -/
def Scope.Renamed (R : Path → Renaming) (file : Path) (s s' : Scope) : Prop :=
  Bindings.Renamed R file s.bindings s'.bindings

/-- The scope without type parameters. -/
theorem Scope.renamed_empty {file : Path} : Scope.empty.Renamed R file .empty := .nil

/-- What a type parameter is bound to. -/
theorem Scope.Renamed.find? {file : Path} {s s' : Scope} (h : s.Renamed R file s')
    {x x' : String} (hx : (R file).name x x') :
    Option.Rel (Binding.Renamed R) (s.find? x) (s'.find? x') := by
  have hlookup : ∀ {bs bs'}, Bindings.Renamed R file bs bs' →
      Option.Rel (Binding.Renamed R) (bs.lookup x) (bs'.lookup x') := fun {bs bs'} h => by
    induction bs generalizing bs' with
    | nil => cases h; exact .none
    | cons b bs ih =>
      cases h with
      | @cons _ y y' _ _ _ _ hy hbinding hrest =>
        rw [List.lookup_cons, List.lookup_cons]
        by_cases hxy : x = y
        · rw [beq_iff_eq.2 hxy, beq_iff_eq.2 (((R file).name_iff hx hy).1 hxy)]
          exact .some hbinding
        · rw [beq_eq_false_iff_ne.2 hxy,
            beq_eq_false_iff_ne.2 (mt ((R file).name_iff hx hy).2 hxy)]
          exact ih hrest
  exact hlookup h

/-- One more name is bound. -/
theorem Scope.Renamed.bind {file : Path} {s s' : Scope} (h : s.Renamed R file s') {x x' : String}
    (hx : (R file).name x x') {b b' : Binding} (hb : b.Renamed R b') :
    (s.bind x b).Renamed R file (s'.bind x' b') :=
  .cons hx hb h

/-- What a type name is bound to, if it can be a type parameter. -/
theorem Scope.Renamed.find?_name {file : Path} {s s' : Scope} (h : s.Renamed R file s')
    {n n' : TypeName} (hn : (R file).Name n n') :
    Option.Rel (Binding.Renamed R) (if n.isSimple then s.find? n.head else none)
      (if n'.isSimple then s'.find? n'.head else none) := by
  have hsimple : n.isSimple = n'.isSimple := by rw [TypeName.isSimple, TypeName.isSimple, hn.rest]
  rw [hsimple]
  split
  exacts [h.find? hn.head, .none]

/-! ## Names in rendered types -/

namespace Program.Renamed

variable {p p' : Program} (h : p.Renamed R p') {file : Path}

/-- A name that is kept is exported under the same name. -/
theorem exportNameOf?_eq {ρ : Renaming} {m m' : SourceModule} (hm : ρ.Module m m') {x : String}
    (hx : ρ.name x x) : m.exportNameOf? x = m'.exportNameOf? x := by
  have hitself : m.exportsAsItself x = m'.exportsAsItself x := hm.exports_beq_eq hx x
  have hnames : ∀ {es es' : List (String × String)},
      List.Forall₂ (fun e e' => e.1 = e'.1 ∧ ρ.name e.2 e'.2) es es' →
        (es.filter (·.2 == x)).map (·.1) = (es'.filter (·.2 == x)).map (·.1) := fun h => by
    induction h with
    | nil => rfl
    | @cons e e' _ _ he _ ih =>
      have hvalue : (e.2 == x) = (e'.2 == x) :=
        Bool.eq_iff_iff.2 (by simpa using ρ.name_iff he.2 hx)
      rw [List.filter_cons, List.filter_cons, hvalue]
      split
      · rw [List.map_cons, List.map_cons, he.1, ih]
      · exact ih
  rw [SourceModule.exportNameOf?, SourceModule.exportNameOf?, hitself, hnames hm.exports]

include h

/-- A name has the same kind of source in both programs; one that is not exported is kept. -/
theorem sourceOf_cases {n n' : TypeName} (hn : (R file).Name n n') :
    (∃ i i', p.sourceOf file n = .imported i ∧ p'.sourceOf file n' = .imported i') ∨
      (p.sourceOf file n = .unexported ∧ p'.sourceOf file n' = .unexported ∧ n.head = n'.head) ∨
      (p.sourceOf file n = .elsewhere ∧ p'.sourceOf file n' = .elsewhere) := by
  unfold sourceOf
  rcases h.module?_cases file with ⟨hm, hm'⟩ | ⟨m, m', hm, hm', hmodule, hpath⟩
  · rw [hm, hm']
    exact .inr (.inr ⟨rfl, rfl⟩)
  have hhead : (R m.path).name n.head n'.head := hpath.symm ▸ hn.head
  rw [hm, hm']
  dsimp only
  rw [← hmodule.find?_imports hhead, ← hmodule.declares_eq hhead]
  cases hb : m.imports.find? n.head with
  | some binding => exact .inl ⟨_, _, rfl, rfl⟩
  | none =>
    have hsame := hmodule.eq_of_find?_imports hhead hb
    dsimp only
    rw [← hsame, ← exportNameOf?_eq hmodule (hsame ▸ hhead)]
    cases m.declares n.head with
    | false => exact .inr (.inr ⟨rfl, rfl⟩)
    | true =>
      cases m.exportNameOf? n.head with
      | none => exact .inr (.inl ⟨rfl, rfl, rfl⟩)
      | some exported => exact .inl ⟨_, _, rfl, rfl⟩

/-- A name adds the same unexported names in both programs. -/
theorem needName_unexported {s s' : Scope} (hs : s.Renamed R file s') {n n' : TypeName}
    (hn : (R file).Name n n') {r r' : Rendered} (hr : r.unexported = r'.unexported) :
    (p.needName file s r n).unexported = (p'.needName file s' r' n').unexported := by
  unfold needName
  have hbound := hs.find?_name hn
  dsimp only
  generalize (if n.isSimple then s.find? n.head else none) = b?,
    (if n'.isSimple then s'.find? n'.head else none) = b'? at hbound
  cases hbound with
  | some hb =>
    cases hb with
    | of hunexported =>
      dsimp only
      rw [hr, hunexported]
  | none =>
    dsimp only
    rcases h.sourceOf_cases hn with ⟨i, i', hi, hi'⟩ | ⟨hi, hi', hhead⟩ | ⟨hi, hi'⟩
    · rw [hi, hi']
      exact hr
    · rw [hi, hi', hr, hhead]
    · rw [hi, hi']
      exact hr

/-- Two versions of a type leave the same names unexported. -/
theorem renderIn_unexported {s s' : Scope} (hs : s.Renamed R file s') {t t' : TypeExpr}
    (ht : (R file).Expr t t') :
    (p.renderIn file t s).unexported = (p'.renderIn file t' s').unexported := by
  have hfold : ∀ {ns ns' : List TypeName}, List.Forall₂ (R file).Name ns ns' →
      ∀ {r r' : Rendered}, r.unexported = r'.unexported →
        (ns.foldl (p.needName file s) r).unexported =
          (ns'.foldl (p'.needName file s') r').unexported := fun hns => by
    induction hns with
    | nil => exact fun hr => hr
    | cons hn _ ih => exact fun hr => ih (h.needName_unexported hs hn hr)
  cases ht with
  | of _ _ hnames => exact hfold hnames rfl

/-! ## Type parameters -/

/-- What a type parameter is bound to. -/
theorem bindingOf_renamed {s s' : Scope} (hs : s.Renamed R file s') {declFile : Path}
    {ds ds' : Scope} (hds : ds.Renamed R declFile ds') {arg arg' : Option TypeExpr}
    (harg : Option.Rel (R file).Expr arg arg') {param param' : TypeParam}
    (hparam : (R declFile).TypeParam param param') :
    Binding.Renamed R (p.bindingOf file s declFile ds arg param)
      (p'.bindingOf file s' declFile ds' arg' param') := by
  unfold bindingOf
  cases harg with
  | some harg => exact .of (h.renderIn_unexported hs harg) harg hs
  | none =>
    have hdefault := hparam.default?
    generalize param.default? = t?, param'.default? = t'? at hdefault
    cases hdefault with
    | some ht => exact .of (h.renderIn_unexported hds ht) ht hds
    | none => exact .of rfl (.of (.keyword "unknown") (R declFile).position_zero .nil) .nil

/-- The scope of a declaration whose parameters are bound. -/
theorem bindParams_renamed {s s' : Scope} (hs : s.Renamed R file s') {declFile : Path}
    {ds ds' : Scope} (hds : ds.Renamed R declFile ds') {args args' : List TypeExpr}
    (hargs : List.Forall₂ (R file).Expr args args') {params params' : List TypeParam}
    (hparams : List.Forall₂ (R declFile).TypeParam params params') :
    (p.bindParams file s declFile ds args params).Renamed R declFile
      (p'.bindParams file s' declFile ds' args' params') := by
  induction hparams generalizing args args' ds ds' with
  | nil => exact hds
  | cons hparam _ ih =>
    have hhead : Option.Rel (R file).Expr args.head? args'.head? := by
      cases hargs with
      | nil => exact .none
      | cons ha _ => exact .some ha
    have htail : List.Forall₂ (R file).Expr args.tail args'.tail := by
      cases hargs with
      | nil => exact .nil
      | cons _ hrest => exact hrest
    unfold bindParams
    exact ih (hds.bind hparam.name (h.bindingOf_renamed hs hds hhead hparam)) htail

/-- A type is declared or imported under a name in both programs, or in neither. -/
theorem shadows_eq {x x' : String} (hx : (R file).name x x') :
    p.shadows file x = p'.shadows file x' := by
  unfold shadows
  rcases h.module?_cases file with ⟨hm, hm'⟩ | ⟨m, m', hm, hm', hmodule, hpath⟩
  · rw [hm, hm']
  · have hx := hpath.symm ▸ hx
    rw [hm, hm']
    dsimp only
    rw [hmodule.declaresType_eq hx, NameMap.contains, NameMap.contains, hmodule.find?_imports hx]

/-- A name that nothing in the file shadows is kept. -/
theorem eq_of_shadows {x x' : String} (hx : (R file).name x x')
    (hnot : p.shadows file x = false) : x = x' := by
  rcases h.module?_cases file with ⟨hm, -⟩ | ⟨m, m', hm, -, hmodule, hpath⟩
  · exact h.unloaded hm hx
  · rw [shadows, hm] at hnot
    dsimp only at hnot
    rw [Bool.or_eq_false_iff, NameMap.contains, Option.isSome_eq_false_iff,
      Option.isNone_iff_eq_none] at hnot
    exact hmodule.eq_of_find?_imports (hpath.symm ▸ hx) hnot.2

/-- A helper of the schema library is one in both programs. -/
theorem schemaModeOf?_eq {n n' : TypeName} (hn : (R file).Name n n') :
    p.schemaModeOf? file n = p'.schemaModeOf? file n' := by
  obtain ⟨head, rest⟩ := n
  obtain ⟨head', rest'⟩ := n'
  obtain ⟨hhead, hrest⟩ := hn
  obtain rfl : rest = rest' := hrest
  unfold schemaModeOf?
  rcases h.module?_cases file with ⟨hm, hm'⟩ | ⟨m, m', hm, hm', hmodule, hpath⟩
  · rw [hm, hm']
    rfl
  have hhead : (R m.path).name head head' := hpath.symm ▸ hhead
  rw [hm, hm']
  simp only [bind, Option.bind_some]
  rw [← hmodule.find?_imports hhead, ← hmodule.declares_eq hhead]
  cases hb : m.imports.find? head with
  | some binding => rfl
  | none => rw [hmodule.eq_of_find?_imports hhead hb]

end Program.Renamed

/-! ## Members -/

/-- Two versions of a member; of its rendered type only the unexported names matter. -/
structure MemberInfo.Renamed (R : Path → Renaming) (m m' : MemberInfo) : Prop where
  name : m.name = m'.name
  optional : m.optional = m'.optional
  unexported : m.type.unexported = m'.type.unexported
  origin : m.origin = m'.origin
  position : (R m.origin).position m.position m'.position

/-- Two versions of a list of members. -/
def MembersRenamed (R : Path → Renaming) (ms ms' : List MemberInfo) : Prop :=
  List.Forall₂ (MemberInfo.Renamed R) ms ms'

namespace MembersRenamed

variable {ms ms' : List MemberInfo}

/-- Members that are missing are the same in both versions. -/
theorem addMissing (h : MembersRenamed R ms ms') {more more' : List MemberInfo}
    (hmore : MembersRenamed R more more') :
    MembersRenamed R (MemberInfo.addMissing ms more) (MemberInfo.addMissing ms' more') := by
  refine List.rel_foldl (fun known known' hknown m m' hm => ?_) h hmore
  rw [any_eq_of_forall₂ hknown fun n n' hn => by rw [hn.name, hm.name]]
  split
  · exact hknown
  · exact List.rel_append hknown (.cons hm .nil)

/-- Several lists of members are put together alike. -/
theorem foldl_addMissing (h : MembersRenamed R ms ms') {lists lists' : List (List MemberInfo)}
    (hlists : List.Forall₂ (MembersRenamed R) lists lists') :
    MembersRenamed R (lists.foldl MemberInfo.addMissing ms)
      (lists'.foldl MemberInfo.addMissing ms') :=
  List.rel_foldl (fun _ _ hms _ _ hl => hms.addMissing hl) h hlists

/-- Members are picked by name alike. -/
theorem filter (h : MembersRenamed R ms ms') (test : String → Bool) :
    MembersRenamed R (ms.filter fun m => test m.name) (ms'.filter fun m => test m.name) := by
  induction h with
  | nil => exact .nil
  | cons hm _ ih =>
    rw [List.filter_cons, List.filter_cons, hm.name]
    split
    exacts [.cons hm ih, ih]

/-- All members are made optional, or none. -/
theorem withOptional (h : MembersRenamed R ms ms') (optional : Bool) :
    MembersRenamed R (ms.map ({ · with optional := optional }))
      (ms'.map ({ · with optional := optional })) :=
  List.rel_map (fun _ _ hm => { hm with optional := rfl }) h

/-- A utility type does the same to both versions. -/
theorem applyUtility (h : MembersRenamed R ms ms') (utility : String)
    (keys? : Option (List String)) :
    Option.Rel (MembersRenamed R) (Program.applyUtility utility ms keys?)
      (Program.applyUtility utility ms' keys?) := by
  have hkeys : Option.Rel Eq keys? keys? := rel_refl (fun _ => rfl) keys?
  unfold Program.applyUtility
  split
  · exact .some (h.withOptional true)
  · exact .some (h.withOptional false)
  · exact .some h
  · exact rel_map hkeys fun keys _ heq => heq ▸ h.filter keys.contains
  · exact rel_map hkeys fun keys _ heq => heq ▸ h.filter fun name => !keys.contains name
  · exact .none

/-- Members of one run are declared in the same file. -/
theorem origin_of_mem_splitBy {run : List MemberInfo}
    (hrun : run ∈ ms.splitBy (·.origin == ·.origin)) {m n : MemberInfo} (hm : m ∈ run)
    (hn : n ∈ run) : (m.origin == n.origin) = true := by
  let same (m n : MemberInfo) : Prop := m.origin.components = n.origin.components
  have htrans : Trans same same same := ⟨Eq.trans⟩
  have hsymm : Std.Symm same := ⟨fun _ _ => Eq.symm⟩
  have hchain : run.IsChain same :=
    (List.isChain_of_mem_splitBy hrun).imp fun _ _ heq => Path.beq_iff.1 heq
  have hall : ∀ m ∈ run, ∀ n ∈ run, same m n :=
    (List.isChain_iff_pairwise.1 hchain).forall_of_forall fun _ _ => Eq.refl _
  exact Path.beq_iff.2 (hall m hm n hn)

/-- Positions are in the same order in both versions, so the runs are sorted alike. -/
theorem sortRuns (h : MembersRenamed R ms ms')
    (hR : ∀ {f g : Path}, (f == g) = true → R f = R g) :
    MembersRenamed R (MemberInfo.sortRuns ms) (MemberInfo.sortRuns ms') := by
  have hruns : List.Forall₂ (MembersRenamed R) (ms.splitBy (·.origin == ·.origin))
      (ms'.splitBy (·.origin == ·.origin)) :=
    splitBy_rel (fun hm hn => by rw [hm.origin, hn.origin]) h
  obtain ⟨hlength, hzip⟩ := List.forall₂_iff_zip.1 hruns
  refine List.rel_flatten (List.forall₂_map_left_iff.2 <| List.forall₂_map_right_iff.2 <|
    List.forall₂_iff_zip.2 ⟨hlength, fun {run run'} hin => ?_⟩)
  refine mergeSort_rel (hzip hin) fun m hm n hn {m' n'} hmm hnn => ?_
  have horigin := hR (origin_of_mem_splitBy (List.of_mem_zip hin).1 hm hn)
  exact decide_eq_decide.2 ((R m.origin).position_iff hmm.position (horigin ▸ hnn.position))

end MembersRenamed

namespace Program.Renamed

variable {p p' : Program} (h : p.Renamed R p') {file : Path} {s s' : Scope}

include h

/-- Two versions of a property give two versions of a member. -/
theorem memberIn_renamed (hs : s.Renamed R file s') {m m' : Member} (hm : (R file).Member m m') :
    (p.memberIn file s m).Renamed R (p'.memberIn file s' m') := by
  cases hm with
  | of htype hstart => exact ⟨rfl, rfl, h.renderIn_unexported hs htype, rfl, hstart⟩

/-- Two versions of the properties of a declaration. -/
theorem members_renamed (hs : s.Renamed R file s') {ms ms' : List Member}
    (hms : List.Forall₂ (R file).Member ms ms') :
    MembersRenamed R (ms.map (p.memberIn file s)) (ms'.map (p'.memberIn file s')) :=
  List.rel_map (fun _ _ hm => h.memberIn_renamed hs hm) hms

/-- A schema constant has the same members in both programs. -/
theorem schemaMembers?_renamed {i i' : Nat} (hi : (R file).position i i')
    {args args' : List TypeExpr} (hargs : List.Forall₂ (R file).Expr args args')
    (mode : SchemaMode) :
    Option.Rel (MembersRenamed R) (p.schemaMembers? file i args mode)
      (p'.schemaMembers? file i' args' mode) := by
  unfold schemaMembers?
  cases hargs with
  | nil => exact .none
  | @cons arg arg' _ _ harg _ =>
    simp only [bind, List.head?_cons, Option.bind_some]
    have hform := harg.stripParens.form
    generalize arg.stripParens.form = f, arg'.stripParens.form = f' at hform
    cases hform with
    | @query n n' hname =>
      dsimp only
      have hsimple : n.isSimple = n'.isSimple := by
        rw [TypeName.isSimple, TypeName.isSimple, hname.rest]
      rw [hsimple]
      split
      · exact .none
      · refine rel_bind ((h.schema_steps maxSteps).1 hname.head) fun found found' hfound => ?_
        have hlike := h.inlineSchema_like maxSteps found.file found.schema hfound.schema
        rw [← hfound.file, (hlike.shape_fields_eq mode).2]
        refine rel_bind (V := Eq) (rel_refl (fun _ => rfl) _) fun fields _ hfields => ?_
        subst hfields
        exact .some (List.rel_map (R := Eq) (fun _ _ heq => heq ▸ ⟨rfl, rfl, rfl, rfl, hi⟩)
          (List.forall₂_same.2 fun _ _ => rfl))
    | _ => exact .none

/-- The string literals of two versions of a union. -/
theorem stringKeys?_eq (n : Nat) {t t' : TypeExpr} (hs : s.Renamed R file s')
    (ht : (R file).Expr t t') : p.stringKeys? n file s t = p'.stringKeys? n file s' t' := by
  induction n generalizing file s s' t t' with
  | zero => rfl
  | succ n ih =>
    unfold stringKeys?
    have hform := ht.form
    generalize t.form = f, t'.form = f' at hform
    cases hform with
    | literal value => rfl
    | paren hinner =>
      dsimp only
      exact ih hs hinner
    | union hoptions =>
      dsimp only
      rw [mapM_eq_of_forall₂ hoptions fun _ _ hoption => ih hs hoption]
    | @reference name name' args args' hname hargs =>
      cases hargs with
      | cons => rfl
      | nil =>
        dsimp only
        have hbound := hs.find?_name hname
        generalize (if name.isSimple then s.find? name.head else none) = b?,
          (if name'.isSimple then s'.find? name'.head else none) = b'? at hbound
        cases hbound with
        | some hb => cases hb with
          | of _ htype hbindings =>
            dsimp only
            exact ih hbindings htype
        | none =>
          dsimp only
          have hsymbol := h.resolve (n + 1) hname
          generalize p.resolve (n + 1) file name = a, p'.resolve (n + 1) file name' = a' at hsymbol
          cases hsymbol with
          | none => rfl
          | some hsymbol =>
            cases hsymbol with
            | typeAlias decl =>
              dsimp only
              rw [isEmpty_eq_of_forall₂ decl.typeParams, ih Scope.renamed_empty decl.type]
            | interface | opaqueType | external => rfl
    | _ => rfl

/-- A name is that of a utility type in both programs, or in neither, because it is kept if nothing
shadows it. -/
theorem isUtility_eq {n n' : TypeName} (hn : (R file).Name n n') :
    (n.isSimple && utilityTypes.contains n.head && !p.shadows file n.head) =
      (n'.isSimple && utilityTypes.contains n'.head && !p'.shadows file n'.head) := by
  rw [TypeName.isSimple, TypeName.isSimple, hn.rest, ← h.shadows_eq hn.head]
  cases hshadows : p.shadows file n.head with
  | true => simp
  | false => rw [h.eq_of_shadows hn.head hshadows]

/-- The keys that a utility type is given. -/
theorem utilityKeys_eq (n : Nat) (hs : s.Renamed R file s') {args args' : List TypeExpr}
    (hargs : List.Forall₂ (R file).Expr args args') :
    (args[1]?).bind (p.stringKeys? n file s) = (args'[1]?).bind (p'.stringKeys? n file s') := by
  cases hargs with
  | nil => simp only [List.getElem?_nil, Option.bind_none]
  | cons _ hrest => cases hrest with
    | nil => simp only [List.getElem?_cons_succ, List.getElem?_nil, Option.bind_none]
    | cons hkey _ =>
      simp only [List.getElem?_cons_succ, List.getElem?_cons_zero, Option.bind_some]
      exact h.stringKeys?_eq n hs hkey

/-- Two versions of a type have two versions of the same members. -/
theorem expand_renamed (n : Nat) {t t' : TypeExpr} (hs : s.Renamed R file s')
    (ht : (R file).Expr t t') :
    Option.Rel (MembersRenamed R) (p.expand n file s t) (p'.expand n file s' t') := by
  induction n generalizing file s s' t t' with
  | zero => exact .none
  | succ n ih =>
    unfold expand
    have hstart : (R file).position t.start t'.start := by
      cases ht with
      | of _ hstart => exact hstart
    have hform := ht.form
    generalize t.form = f, t'.form = f' at hform
    cases hform with
    | object hmembers =>
      dsimp only
      split
      exacts [.none, .some (h.members_renamed hs hmembers)]
    | paren hinner =>
      dsimp only
      exact ih hs hinner
    | intersection hparts =>
      dsimp only
      exact rel_bind (rel_mapM hparts fun _ _ hpart => ih hs hpart) fun _ _ hlists =>
        .some (MembersRenamed.foldl_addMissing .nil hlists)
    | @reference name name' args args' hname hargs =>
      dsimp only
      have hbound := hs.find?_name hname
      generalize (if name.isSimple then s.find? name.head else none) = b?,
        (if name'.isSimple then s'.find? name'.head else none) = b'? at hbound
      cases hbound with
      | some hb => cases hb with
        | of _ htype hbindings =>
          dsimp only
          exact ih hbindings htype
      | none =>
        dsimp only
        split
        · next hcond =>
          rw [if_pos (h.isUtility_eq hname ▸ hcond)]
          rw [Bool.and_eq_true, Bool.not_eq_true'] at hcond
          rw [← h.eq_of_shadows hname.head hcond.2, h.utilityKeys_eq n hs hargs]
          cases hargs with
          | nil => exact .none
          | cons harg _ =>
            simp only [bind, List.head?_cons, Option.bind_some]
            exact rel_bind (ih hs harg) fun ms ms' hms => hms.applyUtility name.head _
        · next hcond =>
          rw [if_neg (h.isUtility_eq hname ▸ hcond), ← h.schemaModeOf?_eq hname]
          cases p.schemaModeOf? file name with
          | some mode => exact h.schemaMembers?_renamed hstart hargs mode
          | none =>
            dsimp only
            have hsymbol := h.resolve (n + 1) hname
            generalize p.resolve (n + 1) file name = a, p'.resolve (n + 1) file name' = a'
              at hsymbol
            cases hsymbol with
            | none => exact .none
            | some hsymbol =>
              cases hsymbol with
              | @interface path i i' decl =>
                have hinner := h.bindParams_renamed hs Scope.renamed_empty hargs decl.typeParams
                dsimp only
                rw [decl.isOpaque]
                split
                · exact .none
                · refine .some (MembersRenamed.foldl_addMissing
                    (h.members_renamed hinner decl.members) ?_)
                  exact List.rel_filterMap (fun t t' ht => ih hinner ht) decl.bases
              | typeAlias decl =>
                dsimp only
                exact ih (h.bindParams_renamed hs Scope.renamed_empty hargs decl.typeParams)
                  decl.type
              | opaqueType | external => exact .none
    | _ => exact .none

/-- Two versions of a type have the same members, up to the texts and imports of their types. -/
theorem members? {t t' : TypeExpr} (ht : (R file).Expr t t') :
    Option.Rel (MembersRenamed R) (p.members? file t) (p'.members? file t') :=
  rel_map (h.expand_renamed maxSteps Scope.renamed_empty ht) fun _ _ hms => hms.sortRuns h.congr

end Program.Renamed

end IpcWiring
