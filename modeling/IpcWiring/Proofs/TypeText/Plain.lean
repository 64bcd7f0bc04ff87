import Mathlib.Data.List.Basic
import IpcWiring.Proofs.TypeText.Pass

/-!
# Plain phrases

In a plain phrase (`Phrase.Plain`) no type parameter stands where the characters around it tell
something else, no type parameter of a method gets in the way of another one, and what a parameter
stands for binds strongly enough or is grouped. The text with the bound names replaced is then the
text of the substituted phrase (`Phrase.becomes_subst`), that phrase fits (`Phrase.fits_subst`), and
no name is captured in it (`Phrase.freeNames_subst`).
-/

namespace IpcWiring.TypeText

/-! ## Phrases that are told from their places -/

/-- The word is no type parameter that is bound. -/
def Word.IsFree (σ : Arguments) (w : Word) : Prop := σ.lookup w.text = none

/-- The key is not the name of a type parameter that is bound. -/
def Key.IsFree (σ : Arguments) : Key → Prop
  | word w => w.IsFree σ
  | quoted _ => True

namespace Phrase

/-- The type name that a phrase starts with. -/
def start? (t : Phrase) : Option Word :=
  match t.atoms.head? with
  | some (.word .use w) => some w
  | _ => none

mutual

/-- Everything in the phrase is told from its place: a bound type parameter is no key of a method or
of a readonly property, has no type arguments and is not qualified, is not the first word of the
rest of a tuple and is not an optional element behind another one. The type parameters of a method
are not bound, and they capture no free name of what is put in behind them. What a type parameter is
bound to sits where it stands, unless it is grouped. -/
def Plain (σ : Arguments) : Place → Phrase → Prop
  | p, use name => ∀ t, σ.lookup name.text = some t → t.grouped.Sits p
  | _, applied head _ args => head.IsFree σ ∧ PlainEach σ .type args
  | _, quoted _ => True
  | _, paren inner => Plain σ .type inner
  | _, array element => Plain σ .tight element
  | _, tuple elements =>
    (∀ t ∈ elements.tail, ∀ name, t = optional (use name) → name.IsFree σ) ∧
      PlainEach σ .element elements
  | _, optional element => Plain σ .tight element
  | _, spread elements => (∀ name ∈ elements.start?, name.IsFree σ) ∧ Plain σ .type elements
  | _, union left right => Plain σ .union left ∧ Plain σ .intersection right
  | _, intersection left right => Plain σ .intersection left ∧ Plain σ .operand right
  | _, operator _ operand => Plain σ .operand operand
  | _, conditional check extended positive negative =>
    Plain σ .union check ∧ Plain σ .extended extended ∧ Plain σ .type positive ∧
      Plain σ .type negative
  | p, function parameters result => PlainEach σ .parameter parameters ∧ Plain σ p.result result
  | _, parameter _ _ type => Plain σ .type type
  | _, object members => PlainEach σ .member members
  | _, property isReadonly key _ type =>
    (isReadonly = true → key.IsFree σ) ∧ Plain σ .type type
  | _, method key isOptional generics parameters result =>
    (isOptional = false → key.IsFree σ) ∧
      (∀ name ∈ (method key isOptional generics parameters result).freeNames,
        ∀ own ∈ genericNames generics, own ∉ σ.freeNames name) ∧
      PlainEach σ .generic generics ∧ PlainEach σ .parameter parameters ∧ Plain σ .type result
  | _, generic name => name.IsFree σ
  | _, bounded name constraint => name.IsFree σ ∧ Plain σ .type constraint

/-- Everything in some phrases is told from its place. -/
def PlainEach (σ : Arguments) : Place → List Phrase → Prop
  | _, [] => True
  | p, t :: ts => Plain σ p t ∧ PlainEach σ p ts

end

/-- Everything in some phrases is told from its place if that is so in each. -/
theorem plainEach_iff {σ : Arguments} {p : Place} {ts : List Phrase} :
    PlainEach σ p ts ↔ ∀ t ∈ ts, Plain σ p t := by
  induction ts with
  | nil => exact iff_of_true trivial nofun
  | cons t ts ih => rw [PlainEach, ih, List.forall_mem_cons]

end Phrase

/-! ## The substituted phrase -/

namespace Arguments

/-- The arguments as they are put in the place of type parameters. -/
def grouped (σ : Arguments) : Arguments := σ.map fun (name, t) => (name, t.grouped)

variable {σ : Arguments}

/-- Grouping keeps the parameters. -/
theorem lookup_grouped (name : String) :
    σ.grouped.lookup name = (σ.lookup name).map Phrase.grouped := by
  induction σ with
  | nil => rfl
  | cons b σ ih =>
    rw [grouped, List.map_cons, List.lookup_cons, List.lookup_cons]
    cases name == b.1 with
    | true => rfl
    | false => exact ih

/-- Grouping goes with leaving parameters out. -/
theorem without_grouped (σ : Arguments) (names : List String) :
    σ.grouped.without names = (σ.without names).grouped := by
  rw [without, grouped, List.filter_map, grouped, without]
  rfl

/-- Parameters that are not bound hide nothing. -/
theorem without_eq (σ : Arguments) {names : List String}
    (h : ∀ name ∈ names, σ.lookup name = none) : σ.without names = σ := by
  refine List.filter_eq_self.2 fun b hb => ?_
  simp only [Bool.not_eq_true', List.contains_eq_mem, decide_eq_false_iff_not]
  intro hname
  have hnone := List.lookup_eq_none_iff.1 (h b.1 hname) b hb
  rw [bne_self_eq_false] at hnone
  cases hnone

end Arguments

/-- A new text is the old one with its bound type names replaced. -/
def Becomes (σ : Arguments) (new old : List Atom) : Prop :=
  spell new = old.flatMap (Atom.replaced σ)

namespace Becomes

variable {σ : Arguments} {new old new' old' : List Atom}

/-- Texts one after the other. -/
theorem append (h : Becomes σ new old) (h' : Becomes σ new' old') :
    Becomes σ (new ++ new') (old ++ old') := by
  rw [Becomes, spell_append, List.flatMap_append, h, h']

/-- An atom that is no type name. -/
theorem atom {a : Atom} (h : a.replaced σ = a.chars) : Becomes σ [a] [a] := by
  rw [Becomes, spell, List.flatMap_singleton, List.flatMap_singleton, h]

/-- A mark. -/
theorem mark (c : Char) : Becomes σ [.mark c] [.mark c] := atom rfl

/-- Marks. -/
theorem marks (cs : List Char) : Becomes σ (marks cs) (marks cs) := by
  induction cs with
  | nil => rfl
  | cons c cs ih => exact (mark c).append ih

/-- A word that is no type. -/
theorem fixed (w : Word) : Becomes σ [.word .fixed w] [.word .fixed w] := atom rfl

/-- A key. -/
theorem key (k : Key) : Becomes σ [k.atom] [k.atom] := by
  cases k with
  | word w => exact fixed w
  | quoted q => exact atom rfl

/-- A question mark, if there is one. -/
theorem questionIf (isOptional : Bool) :
    Becomes σ (Phrase.questionIf isOptional) (Phrase.questionIf isOptional) := by
  cases isOptional with
  | true => exact mark '?'
  | false => rfl

section

variable {ts : List Phrase} {f : Phrase → Phrase}
  (h : ∀ t ∈ ts, Becomes σ (f t).atoms t.atoms)

include h

/-- Texts with marks between them. -/
theorem separated (sep : List Char) :
    Becomes σ (separated sep ((ts.map f).map Phrase.atoms))
      (separated sep (ts.map Phrase.atoms)) := by
  cases ts with
  | nil => rfl
  | cons first rest =>
    obtain ⟨hfirst, hrest⟩ := List.forall_mem_cons.1 h
    refine hfirst.append ?_
    clear h hfirst
    induction rest with
    | nil => rfl
    | cons next rest ih =>
      obtain ⟨hnext, hrest⟩ := List.forall_mem_cons.1 hrest
      exact ((marks sep).append hnext).append (ih hrest)

/-- Parameters. -/
theorem listed : Becomes σ (Phrase.listed ((ts.map f).map Phrase.atoms))
    (Phrase.listed (ts.map Phrase.atoms)) :=
  ((mark '(').append (separated h _)).append (mark ')')

/-- Type arguments. -/
theorem angled : Becomes σ (Phrase.angled ((ts.map f).map Phrase.atoms))
    (Phrase.angled (ts.map Phrase.atoms)) := by
  cases ts with
  | nil => rfl
  | cons => exact ((mark '<').append (separated h _)).append (mark '>')

/-- Members. -/
theorem braced : Becomes σ (Phrase.braced ((ts.map f).map Phrase.atoms))
    (Phrase.braced (ts.map Phrase.atoms)) := by
  cases ts with
  | nil => exact marks _
  | cons => exact ((marks _).append (separated h _)).append (marks _)

end

end Becomes

namespace Phrase

variable {σ : Arguments} {p : Place} {t : Phrase}

/-- The type parameters of a plain method are not bound. -/
theorem lookup_genericNames {generics : List Phrase} (h : ∀ t ∈ generics, Plain σ .generic t) :
    ∀ name ∈ genericNames generics, σ.lookup name = none := by
  intro name hname
  obtain ⟨t, ht, heq⟩ := List.mem_filterMap.1 hname
  have hplain := h t ht
  split at heq
  · obtain rfl := Option.some.inj heq
    exact hplain
  · obtain rfl := Option.some.inj heq
    exact hplain.1
  · cases heq

/-- The text of the substituted phrase is the text with the bound type names replaced. -/
theorem becomes_subst (h : Plain σ p t) : Becomes σ (t.subst σ.grouped).atoms t.atoms := by
  have hblank : Becomes σ [.mark ' '] [.mark ' '] := .mark ' '
  have hcolon : Becomes σ (marks [':', ' ']) (marks [':', ' ']) := .marks _
  induction t using Phrase.induct generalizing p with
  | use name =>
    rw [subst, σ.lookup_grouped]
    cases hlookup : σ.lookup name.text with
    | none => exact .atom (by simp [Atom.replaced, hlookup, Atom.chars])
    | some b =>
      change b.grouped.chars = _
      rw [chars_grouped]
      simp [atoms, Atom.replaced, hlookup]
  | applied head path args ih =>
    rw [subst, atoms, atoms, atomsEach_eq_map, atomsEach_eq_map, substEach_eq_map]
    have hargs := plainEach_iff.1 h.2
    refine .append (.append (.atom rfl) ?_) (.angled fun t ht => ih t ht (hargs t ht))
    clear h hargs
    induction path with
    | nil => rfl
    | cons w path ih => exact ((Becomes.mark '.').append (.fixed w)).append ih
  | quoted q => exact .atom rfl
  | paren inner ih => exact ((Becomes.mark '(').append (ih h)).append (.mark ')')
  | array element ih => exact (ih h).append (.marks _)
  | tuple elements ih =>
    rw [subst, atoms, atoms, atomsEach_eq_map, atomsEach_eq_map, substEach_eq_map]
    have helements := plainEach_iff.1 h.2
    exact ((Becomes.mark '[').append (.separated (fun t ht => ih t ht (helements t ht)) _)).append
      (.mark ']')
  | optional element ih => exact (ih h).append (.mark '?')
  | spread elements ih => exact (Becomes.marks _).append (ih h.2)
  | union left right ihl ihr => exact ((ihl h.1).append (.marks _)).append (ihr h.2)
  | intersection left right ihl ihr => exact ((ihl h.1).append (.marks _)).append (ihr h.2)
  | operator op operand ih => exact (Becomes.fixed op.word).append (hblank.append (ih h))
  | conditional check extended positive negative ihc ihe ihp ihn =>
    obtain ⟨hc, he, hp, hn⟩ := h
    have hextends := hblank.append ((Becomes.fixed Keyword.extends.word).append
      (hblank.append (ihe he)))
    exact (((((ihc hc).append hextends).append (.marks _)).append (ihp hp)).append
      (.marks _)).append (ihn hn)
  | function parameters result ihp ihr =>
    rw [subst, atoms, atoms, atomsEach_eq_map, atomsEach_eq_map, substEach_eq_map]
    have hparameters := plainEach_iff.1 h.1
    exact ((Becomes.listed fun t ht => ihp t ht (hparameters t ht)).append (.marks _)).append
      (ihr h.2)
  | parameter modifier name type ih =>
    have hname : Becomes σ [.word .fixed name] [.word .fixed name] := .fixed name
    cases modifier with
    | plain => exact (hname.append hcolon).append (ih h)
    | optional => exact ((hname.append (.mark '?')).append hcolon).append (ih h)
    | rest => exact (((Becomes.marks _).append hname).append hcolon).append (ih h)
  | object members ih =>
    rw [subst, atoms, atoms, atomsEach_eq_map, atomsEach_eq_map, substEach_eq_map]
    have hmembers := plainEach_iff.1 h
    exact .braced fun t ht => ih t ht (hmembers t ht)
  | property isReadonly key isOptional type ih =>
    have hkey : Becomes σ (key.atom :: questionIf isOptional) (key.atom :: questionIf isOptional) :=
      (Becomes.key key).append (.questionIf isOptional)
    cases isReadonly with
    | false => exact (hkey.append hcolon).append (ih h.2)
    | true =>
      have hreadonly := (Becomes.fixed Keyword.readonly.word).append hblank
      exact ((hreadonly.append hkey).append hcolon).append (ih h.2)
  | method key isOptional generics parameters result ihg ihp ihr =>
    obtain ⟨-, -, hgenerics, hparameters, hresult⟩ := h
    have hgenerics := plainEach_iff.1 hgenerics
    have hparameters := plainEach_iff.1 hparameters
    rw [subst, σ.without_grouped, σ.without_eq (lookup_genericNames hgenerics), atoms, atoms]
    simp only [atomsEach_eq_map, substEach_eq_map]
    have hkey : Becomes σ (key.atom :: questionIf isOptional) (key.atom :: questionIf isOptional) :=
      (Becomes.key key).append (.questionIf isOptional)
    exact (((hkey.append (.angled fun t ht => ihg t ht (hgenerics t ht))).append
      (.listed fun t ht => ihp t ht (hparameters t ht))).append hcolon).append (ihr hresult)
  | generic name => exact .fixed name
  | bounded name constraint ih =>
    exact (Becomes.fixed name).append (hblank.append
      ((Becomes.fixed Keyword.extends.word).append (hblank.append (ih h.2))))

/-- Parentheses around a phrase take no names. -/
theorem freeNames_grouped (t : Phrase) : t.grouped.freeNames = t.freeNames := by
  rw [grouped]
  split
  · rw [freeNames]
  · rfl

/-- The type parameters of a method stay. -/
theorem genericNames_substEach (σ : Arguments) {generics : List Phrase}
    (h : ∀ t ∈ generics, Fits .generic t) :
    genericNames (substEach σ generics) = genericNames generics := by
  rw [substEach_eq_map, genericNames, List.filterMap_map, genericNames]
  refine List.filterMap_congr fun t ht => ?_
  have hfits := h t ht
  cases t with
  | generic | bounded => rfl
  | quoted => cases hfits
  | _ => cases hfits.1

/-- What is kept of texts that are put in is put in for what is kept. -/
theorem filter_flatMap_eq {f : String → List String} {keeps : String → Bool} {names : List String}
    (hkeeps : ∀ name ∈ names, keeps name = true → ∀ n ∈ f name, keeps n = true)
    (hdrops : ∀ name ∈ names, keeps name = false → ∀ n ∈ f name, keeps n = false) :
    (names.flatMap f).filter keeps = (names.filter keeps).flatMap f := by
  induction names with
  | nil => rfl
  | cons name names ih =>
    rw [List.forall_mem_cons] at hkeeps hdrops
    rw [List.flatMap_cons, List.filter_append, List.filter_cons, ih hkeeps.2 hdrops.2]
    cases hname : keeps name with
    | true =>
      rw [List.filter_eq_self.2 (hkeeps.1 hname)]
      rfl
    | false =>
      have hnil : (f name).filter keeps = [] := List.filter_eq_nil_iff.2 fun n hn => by
        rw [hdrops.1 hname n hn]
        exact Bool.false_ne_true
      rw [hnil]
      rfl

/-- The free names of the substituted phrase are those of what its free names stand for: no name is
captured. What is put in may be grouped or not. -/
theorem freeNames_subst_of {τ : Arguments} (hnames : ∀ n, τ.freeNames n = σ.freeNames n)
    (hfree : ∀ n, σ.lookup n = none → τ.lookup n = none) (hfits : Fits p t) (h : Plain σ p t) :
    (t.subst τ).freeNames = t.freeNames.flatMap σ.freeNames := by
  have heach : ∀ {p : Place} {ts : List Phrase}, (∀ t ∈ ts, ∀ {p}, Fits p t → Plain σ p t →
      (t.subst τ).freeNames = t.freeNames.flatMap σ.freeNames) → FitsEach p ts → PlainEach σ p ts →
        freeNamesEach (substEach τ ts) = (freeNamesEach ts).flatMap σ.freeNames :=
    fun {p ts} ih hfits h => by
      rw [freeNamesEach_eq_flatMap, freeNamesEach_eq_flatMap, substEach_eq_map, List.flatMap_map,
        List.flatMap_assoc]
      exact List.flatMap_congr fun t ht =>
        ih t ht (fitsEach_iff.1 hfits t ht) (plainEach_iff.1 h t ht)
  induction t using Phrase.induct generalizing p with
  | use name =>
    rw [subst, freeNames, List.flatMap_singleton, ← hnames, Arguments.freeNames]
    cases τ.lookup name.text with
    | none => rfl
    | some b => rfl
  | applied head path args ih =>
    have hhead : σ.freeNames head.text = [head.text] := by rw [Arguments.freeNames, h.1]
    rw [subst, freeNames, freeNames, List.flatMap_cons, hhead, heach ih hfits.2.2.2 h.2]
    rfl
  | quoted | generic => rfl
  | paren _ ih | array _ ih | optional _ ih | parameter _ _ _ ih => exact ih hfits.2 h
  | operator _ _ ih => exact ih hfits.2.2 h
  | spread _ ih | property _ _ _ _ ih | bounded _ _ ih => exact ih hfits.2 h.2
  | tuple elements ih => exact heach ih hfits.2 h.2
  | object members ih => exact heach ih hfits.2 h
  | union left right ihl ihr | intersection left right ihl ihr =>
    simp only [subst, freeNames, List.flatMap_append, ihl hfits.2.1 h.1, ihr hfits.2.2 h.2]
  | conditional check extended positive negative ihc ihe ihp ihn =>
    obtain ⟨-, hcheck, hextended, hpositive, hnegative⟩ := hfits
    obtain ⟨hc, he, hp, hn⟩ := h
    simp only [subst, freeNames, List.flatMap_append, ihc hcheck hc, ihe hextended he,
      ihp hpositive hp, ihn hnegative hn]
  | function parameters result ihp ihr =>
    simp only [subst, freeNames, List.flatMap_append, heach ihp hfits.2.1 h.1,
      ihr hfits.2.2 h.2]
  | method key isOptional generics parameters result ihg ihp ihr =>
    obtain ⟨-, hgenerics, hparameters, hresult⟩ := hfits
    obtain ⟨-, hcapture, hg, hps, hr⟩ := h
    have hown := lookup_genericNames (plainEach_iff.1 hg)
    -- Names that the method declares are left out before or after names are put in: none of them is
    -- bound, and none of them comes in.
    rw [freeNames] at hcapture
    rw [subst, τ.without_eq fun name hname => hfree name (hown name hname), freeNames, freeNames,
      genericNames_substEach τ (fitsEach_iff.1 hgenerics), heach ihg hgenerics hg,
      heach ihp hparameters hps, ihr hresult hr, ← List.flatMap_append, ← List.flatMap_append]
    refine filter_flatMap_eq (fun name hname hnot n hn => ?_) fun name _ hmem n hn => ?_
    · have hname' := hcapture name (List.mem_filter.2 ⟨hname, hnot⟩)
      simp only [Bool.not_eq_true', List.contains_eq_mem, decide_eq_false_iff_not]
      exact fun hown => hname' n hown hn
    · simp only [Bool.not_eq_false', List.contains_iff_mem] at hmem
      rw [Arguments.freeNames, hown name hmem, List.mem_singleton] at hn
      rw [hn]
      simpa using hmem

/-- The free names of the substituted phrase. -/
theorem freeNames_subst (hfits : Fits p t) (h : Plain σ p t) :
    (t.subst σ).freeNames = t.freeNames.flatMap σ.freeNames :=
  freeNames_subst_of (fun _ => rfl) (fun _ h => h) hfits h

/-- The free names of the substituted phrase, with what is put in grouped. -/
theorem freeNames_subst_grouped (hfits : Fits p t) (h : Plain σ p t) :
    (t.subst σ.grouped).freeNames = t.freeNames.flatMap σ.freeNames := by
  refine freeNames_subst_of (fun n => ?_) (fun n hn => ?_) hfits h
  · rw [Arguments.freeNames, Arguments.freeNames, σ.lookup_grouped]
    cases σ.lookup n with
    | none => rfl
    | some b => exact b.freeNames_grouped
  · rw [σ.lookup_grouped, hn, Option.map_none]

/-- Nothing is put in the place of no type parameters. -/
theorem subst_nil (t : Phrase) : t.subst [] = t := by
  have heach : ∀ {ts : List Phrase}, (∀ t ∈ ts, t.subst [] = t) → substEach [] ts = ts :=
    fun {ts} h => by
      rw [substEach_eq_map]
      exact (List.map_congr_left h).trans (List.map_id _)
  induction t using Phrase.induct with
  | use | quoted | generic => rfl
  | applied head path args ih => rw [subst, heach ih]
  | tuple elements ih | object members ih => rw [subst, heach ih]
  | function parameters result ihp ihr => rw [subst, heach ihp, ihr]
  | method key isOptional generics parameters result ihg ihp ihr =>
    rw [subst, Arguments.without, List.filter_nil, heach ihg, heach ihp, ihr]
  | paren _ ih | array _ ih | optional _ ih | spread _ ih | operator _ _ ih
  | parameter _ _ _ ih | property _ _ _ _ ih | bounded _ _ ih => rw [subst, ih]
  | union _ _ ihl ihr | intersection _ _ ihl ihr => rw [subst, ihl, ihr]
  | conditional _ _ _ _ ihc ihe ihp ihn => rw [subst, ihc, ihe, ihp, ihn]

/-- Grouping what is put in the place of type parameters adds parentheses only. -/
theorem bare_subst (σ : Arguments) (t : Phrase) :
    (t.subst σ.grouped).bare = (t.subst σ).bare := by
  have heach : ∀ {σ : Arguments} {ts : List Phrase},
      (∀ t ∈ ts, ∀ σ : Arguments, (t.subst σ.grouped).bare = (t.subst σ).bare) →
        bareEach (substEach σ.grouped ts) = bareEach (substEach σ ts) := fun {σ ts} h => by
    rw [bareEach_eq_map, bareEach_eq_map, substEach_eq_map, substEach_eq_map, List.map_map,
      List.map_map]
    exact List.map_congr_left fun t ht => h t ht σ
  induction t using Phrase.induct generalizing σ with
  | use name =>
    rw [subst, subst, σ.lookup_grouped]
    cases σ.lookup name.text with
    | none => rfl
    | some b => exact b.bare_grouped
  | applied head path args ih => simp only [subst, bare, heach ih]
  | tuple elements ih | object members ih => simp only [subst, bare, heach ih]
  | function parameters result ihp ihr => simp only [subst, bare, heach ihp, ihr]
  | method key isOptional generics parameters result ihg ihp ihr =>
    simp only [subst, bare, Arguments.without_grouped, heach ihg, heach ihp, ihr]
  | quoted | generic => rfl
  | paren _ ih | array _ ih | optional _ ih | spread _ ih | operator _ _ ih
  | parameter _ _ _ ih | property _ _ _ _ ih | bounded _ _ ih => simp only [subst, bare, ih]
  | union _ _ ihl ihr | intersection _ _ ihl ihr => simp only [subst, bare, ihl, ihr]
  | conditional _ _ _ _ ihc ihe ihp ihn => simp only [subst, bare, ihc, ihe, ihp, ihn]

/-- The substituted phrases may stand at a place if each of them may. -/
theorem fitsEach_subst {ts : List Phrase}
    (h : ∀ t ∈ ts, Fits p t → Plain σ p t → Fits p (t.subst σ.grouped)) (hfits : FitsEach p ts)
    (hplain : PlainEach σ p ts) : FitsEach p (substEach σ.grouped ts) := by
  rw [substEach_eq_map]
  refine fitsEach_iff.2 (List.forall_mem_map.2 fun t ht => ?_)
  exact h t ht (fitsEach_iff.1 hfits t ht) (plainEach_iff.1 hplain t ht)

/-- The substituted phrase may stand where the phrase may. -/
theorem fits_subst (hσ : ∀ b ∈ σ, Fits .type b.2 ∧ IsQuiet b.2.atoms) (hfits : Fits p t)
    (h : Plain σ p t) : Fits p (t.subst σ.grouped) := by
  induction t using Phrase.induct generalizing p with
  | use name =>
    rw [subst, σ.lookup_grouped]
    cases hlookup : σ.lookup name.text with
    | none => exact hfits
    | some b =>
      obtain ⟨before, after, rfl, -⟩ := List.lookup_eq_some_iff.1 hlookup
      obtain ⟨hb, hquiet⟩ := hσ (name.text, b) (by simp)
      exact fits_grouped hfits.1 hb hquiet (h b hlookup)
  | applied head path args ih =>
    obtain ⟨hp, hname, hsome, hargs⟩ := hfits
    have hsome' : path ≠ [] ∨ substEach σ.grouped args ≠ [] := by
      rwa [substEach_eq_map, ne_eq, ne_eq, List.map_eq_nil_iff]
    exact ⟨hp, hname, hsome', fitsEach_subst (fun t ht => ih t ht) hargs h.2⟩
  | quoted q => exact hfits
  | paren inner ih => exact ⟨hfits.1, ih hfits.2 h⟩
  | array element ih => exact ⟨hfits.1, ih hfits.2 h⟩
  | tuple elements ih =>
    exact ⟨hfits.1, fitsEach_subst (fun t ht => ih t ht) hfits.2 h.2⟩
  | optional element ih => exact ⟨hfits.1, ih hfits.2 h⟩
  | spread elements ih => exact ⟨hfits.1, ih hfits.2 h.2⟩
  | union left right ihl ihr => exact ⟨hfits.1, ihl hfits.2.1 h.1, ihr hfits.2.2 h.2⟩
  | intersection left right ihl ihr => exact ⟨hfits.1, ihl hfits.2.1 h.1, ihr hfits.2.2 h.2⟩
  | operator op operand ih => exact ⟨hfits.1, hfits.2.1, ih hfits.2.2 h⟩
  | conditional check extended positive negative ihc ihe ihp ihn =>
    obtain ⟨hp, hcheck, hextended, hpositive, hnegative⟩ := hfits
    obtain ⟨hc, he, hpos, hneg⟩ := h
    exact ⟨hp, ihc hcheck hc, ihe hextended he, ihp hpositive hpos, ihn hnegative hneg⟩
  | function parameters result ihp ihr =>
    obtain ⟨hp, hparameters, hresult⟩ := hfits
    exact ⟨hp, fitsEach_subst (fun t ht => ihp t ht) hparameters h.1, ihr hresult h.2⟩
  | parameter modifier name type ih => exact ⟨hfits.1, ih hfits.2 h⟩
  | object members ih => exact ⟨hfits.1, fitsEach_subst (fun t ht => ih t ht) hfits.2 h⟩
  | property isReadonly key isOptional type ih => exact ⟨hfits.1, ih hfits.2 h.2⟩
  | method key isOptional generics parameters result ihg ihp ihr =>
    obtain ⟨hp, hgenerics, hparameters, hresult⟩ := hfits
    obtain ⟨-, -, hg, hps, hr⟩ := h
    rw [subst, σ.without_grouped, σ.without_eq (lookup_genericNames (plainEach_iff.1 hg))]
    exact ⟨hp, fitsEach_subst (fun t ht => ihg t ht) hgenerics hg,
      fitsEach_subst (fun t ht => ihp t ht) hparameters hps, ihr hresult hr⟩
  | generic name => exact hfits
  | bounded name constraint ih => exact ⟨hfits.1, ih hfits.2 h.2⟩

end Phrase

end IpcWiring.TypeText
