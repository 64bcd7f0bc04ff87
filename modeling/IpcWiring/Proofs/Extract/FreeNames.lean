import IpcWiring.Emit.Events
import IpcWiring.Proofs.Extract.Accounting
import IpcWiring.Proofs.Schema.Names
import IpcWiring.Proofs.TypeText.Substitution

/-!
# Free names of emitted types

A type in a scope is read as a phrase (`ReadAs`) if its own text is that of a plain phrase whose free
names are accounted for, and if each type that is bound in the scope is read as a phrase; this one is
put in the place of the type parameter. What is emitted for the type is then read as that phrase
(`ReadAs.parse_renderIn`), and each free name of it is a word of the grammar or a name that the type
mentions (`ReadAs.exists_mentions`). So no type parameter is left, and every free name is imported
with the text or foreign to the file where it was written (`emitted_types_closed`).
-/

namespace IpcWiring

open Script TypeText

/-! ## Readings -/

/-- The words of the grammar that are a type, or start one, and are no name. -/
def grammarWords : List String := Grammar.keywordTypes ++ Grammar.typeWords

/-- What the type parameters of a scope stand for where each bound type is read as a phrase. -/
def Scope.arguments (scope : Scope) (read : Binding → Phrase) : Arguments :=
  scope.bindings.map fun (name, b) => (name, read b)

/-- A type accounts for a name that its text takes from around it: the name is a word of the grammar
that is not bound, or the type records it, and records it alone if it is bound. -/
inductive AccountsFor (scope : Scope) (t : TypeExpr) (n : String) : Prop where
  | word (hword : n ∈ grammarWords) (hfree : scope.find? n = none)
  | name {name : TypeName} (hname : name ∈ t.names) (hhead : name.head = n)
      (halone : scope.find? n = none ∨ name.isSimple = true)

/-- A type in a scope is read as a phrase. -/
inductive ReadAs : Scope → TypeExpr → Phrase → Prop where
  | of {bindings : List (String × Binding)} {t : TypeExpr} {own : Phrase} {read : Binding → Phrase}
      (text : own.text = t.text) (fits : own.Fits .type)
      (proper : ((Scope.of bindings).arguments read).IsProper)
      (plain : own.Plain ((Scope.of bindings).arguments read) .type)
      (accounted : ∀ n ∈ own.freeNames, AccountsFor (.of bindings) t n)
      (arguments : ∀ x ∈ bindings, ReadAs x.2.scope x.2.type (read x.2)) :
      ReadAs (.of bindings) t (own.subst ((Scope.of bindings).arguments read).grouped)

/-- A type parameter stands for what its bound type is read as. -/
theorem Scope.lookup_arguments (scope : Scope) (read : Binding → Phrase) (n : String) :
    (scope.arguments read).lookup n = (scope.find? n).map read := by
  rw [arguments, find?]
  induction scope.bindings with
  | nil => rfl
  | cons x bindings ih =>
    rw [List.map_cons, List.lookup_cons, List.lookup_cons]
    cases n == x.1 with
    | true => rfl
    | false => exact ih

namespace Program

variable {p : Program} {file : Path} {scope : Scope} {t : TypeExpr}

/-- Names leave the text. -/
theorem text_foldl_needName {names : List TypeName} {r : Rendered} :
    (names.foldl (p.needName file scope) r).text = r.text := by
  induction names generalizing r with
  | nil => rfl
  | cons name names ih => rw [List.foldl_cons, ih, needName_eq]

/-- The text of a type in a scope. -/
theorem text_renderIn : (p.renderIn file t scope).text =
    if scope.bindings.isEmpty then t.text
    else substitute (fun name => (scope.find? name).map (·.rendered.text)) t.text :=
  text_foldl_needName

end Program

namespace ReadAs

variable {p : Program} {file : Path} {scope : Scope} {t : TypeExpr} {φ : Phrase} {n : String}

/-- The phrase may stand wherever a type may. -/
theorem fits (h : ReadAs scope t φ) : φ.Fits .type := by
  cases h with
  | of _ hfits hproper hplain =>
    exact Phrase.fits_subst (fun b hb => ⟨hproper.fits b hb, hproper.quiet b hb⟩) hfits hplain

/-- What is emitted for the type has the text of the phrase. -/
theorem text_renderIn (h : ReadAs scope t φ) (hs : p.Fills scope) :
    (p.renderIn file t scope).text = φ.text := by
  induction h generalizing file with
  | @of bindings t own read htext hfits hproper hplain _ _ ih =>
    rw [Program.text_renderIn, ← htext]
    split
    · next hempty =>
      obtain rfl : bindings = [] := List.isEmpty_iff.1 hempty
      exact (congrArg Phrase.text own.subst_nil).symm
    · rw [← substitute_text hproper hfits hplain]
      refine congrArg (substitute · own.text) (funext fun n => ?_)
      rw [Arguments.texts, Scope.lookup_arguments, Option.map_map]
      refine Option.map_congr fun b hb => ?_
      obtain ⟨-, hscope, hrendered⟩ := hs.of_find? hb
      rw [hrendered]
      exact ih _ (NameMap.mem_of_lookup hb) hscope

/-- What is emitted for the type is read as the phrase. -/
theorem parse_renderIn (h : ReadAs scope t φ) (hs : p.Fills scope) :
    Phrase.parse (p.renderIn file t scope).text = some φ := by
  rw [h.text_renderIn hs]
  exact Phrase.parse_text h.fits

/-- A name that the phrase takes from around it is a word of the grammar or mentioned by the type,
and where it is mentioned it is no type parameter. -/
theorem exists_mentions (h : ReadAs scope t φ) (file : Path) (hn : n ∈ φ.freeNames) :
    n ∈ grammarWords ∨ ∃ origin inner name, Mentions file scope t origin inner name ∧
      name.head = n ∧ inner.find? n = none := by
  induction h generalizing file with
  | @of bindings t own read _ hfits _ hplain haccounted _ ih =>
    rw [Phrase.freeNames_subst_grouped hfits hplain] at hn
    obtain ⟨k, hk, hn⟩ := List.mem_flatMap.1 hn
    rw [Arguments.freeNames, Scope.lookup_arguments] at hn
    cases hb : (Scope.of bindings).find? k with
    | none =>
      rw [hb] at hn
      obtain rfl := List.mem_singleton.1 hn
      cases haccounted n hk with
      | word hword => exact .inl hword
      | name hname hhead =>
        subst hhead
        exact .inr ⟨file, _, _, .free hname fun _ => hb, rfl, hb⟩
    | some b =>
      rw [hb] at hn
      cases haccounted k hk with
      | word _ hfree => cases hb.symm.trans hfree
      | name hname hhead halone =>
        subst hhead
        have hsimple := halone.resolve_left fun hfree => by cases hb.symm.trans hfree
        refine (ih _ (NameMap.mem_of_lookup hb) b.file hn).imp_right ?_
        rintro ⟨origin, inner, other, hother, hrest⟩
        exact ⟨origin, inner, other, .bound hname hsimple hb hother, hrest⟩

end ReadAs

/-! ## Emitted types -/

namespace Program

variable {p : Program} {path : Path} {m : SourceModule} {e : ApiEvent} {r : Rendered}

/-- What is emitted for a type is closed, whichever type of a file this is: each name that the type
mentions is imported or foreign to the file where it stands, and so is each name that the text takes
from around it if the type is read as a phrase. Such a name is no type parameter. What is emitted
for a property of a schema stays the same whatever constants the schema names. -/
structure Closed (p : Program) (r : Rendered) : Prop where
  mentioned : ∀ {file origin : Path} {scope inner : Scope} {t : TypeExpr} {name : TypeName},
    p.Writes file t → p.Fills scope → r = p.renderIn file t scope →
      Mentions file scope t origin inner name →
        name.head ∈ r.localNames ∨ p.IsForeign origin name.head
  read : ∀ {file : Path} {scope : Scope} {t : TypeExpr} {φ : Phrase},
    p.Writes file t → p.Fills scope → r = p.renderIn file t scope → ReadAs scope t φ →
      Phrase.parse r.text = some φ ∧
      ∀ n ∈ φ.freeNames, n ∈ grammarWords ∨ n ∈ r.localNames ∨
        ∃ origin inner name, Mentions file scope t origin inner name ∧ name.head = n ∧
          inner.find? n = none ∧ p.IsForeign origin n
  schema : ∀ {N : String → String → Prop} {s s' : Schema} {mode : SchemaMode}
    {fields : List SchemaField} {f : SchemaField}, s.fields? mode = some fields → f ∈ fields →
      r = .plain f.shape.text → s.Like N s' →
        ∃ fields', s'.fields? mode = some fields' ∧ ∃ f' ∈ fields', r = .plain f'.shape.text

/-- What needs nothing unexported is closed. -/
theorem closed_of_unexported (hexported : r.unexported = []) : p.Closed r where
  mentioned ht hs hr hmentions := by
    subst hr
    exact local_or_foreign hmentions ht hs hexported
  read {file scope t φ} ht hs hr hread := by
    subst hr
    refine ⟨hread.parse_renderIn hs, fun n hn => ?_⟩
    obtain hword | ⟨origin, inner, name, hmentions, rfl, hfree⟩ := hread.exists_mentions file hn
    · exact .inl hword
    refine .inr ((local_or_foreign hmentions ht hs hexported).imp_right fun hforeign => ?_)
    exact ⟨origin, inner, name, hmentions, rfl, hfree, hforeign⟩
  schema {N s s' mode fields f} hfields hf hr hlike :=
    ⟨fields, (hlike.shape_fields_eq mode).2 ▸ hfields, f, hf, hr⟩

/-- The payload type of an event is a name that is imported for it, or else it is told by the event,
which its file exports. -/
inductive ClosedPayload (p : Program) (path : Path) (m : SourceModule) (e : ApiEvent)
    (name : TypeName) : Prop where
  | named {i : TypeImport} (hsource : p.sourceOf path name = .imported i)
      (htype : Emit.payloadType e = name.text) (hlocal : i.localName = name.head)
      (hrequest : ∀ dir, Emit.payloadRequest dir (path, e) = .ofType dir i)
  | indexed (hkept : p.IsForeign path name.head ∨ p.sourceOf path name = .unexported)
      (htype : Emit.payloadType e = "Parameters<" ++ e.name ++ ">[0]")
      (hexported : m.exports.find? e.name = some e.name)
      (hrequest : ∀ dir, Emit.payloadRequest dir (path, e) = .fileType dir path e.name)

/-- The payload type of an extracted event is closed. -/
theorem exists_closedPayload (hm : p.module? path = some m) (he : e ∈ (apiEvents p path m).1) :
    ∃ name : TypeName, e.payload = name.text ∧ p.ClosedPayload path m e name := by
  obtain ⟨_, hname⟩ := mem_partitionOutcomes he
  obtain ⟨a, -, ha⟩ := List.mem_map.1 hname
  have hok : apiEvent p m path a = .ok e := congrArg Prod.snd ha
  rw [apiEvent_eq] at hok
  split at hok
  · cases hok
  next hexported =>
  obtain ⟨name, rfl⟩ : ∃ name : TypeName,
      e = ⟨a.name, name.text, p.importFor? path name.head⟩ := by
    repeat' split at hok
    all_goals first | exact ⟨_, (Except.ok.inj hok).symm⟩ | cases hok
  refine ⟨name, rfl, ?_⟩
  have hindexed (hkept : p.IsForeign path name.head ∨ p.sourceOf path name = .unexported)
      (hnone : p.importFor? path name.head = none) :
      p.ClosedPayload path m ⟨a.name, name.text, p.importFor? path name.head⟩ name := by
    rw [hnone]
    exact .indexed hkept rfl (not_not.1 hexported) fun dir => rfl
  have hsource : p.sourceOf path (.simple name.head) = p.sourceOf path name := rfl
  cases h : p.sourceOf path name with
  | imported i =>
    have himport : p.importFor? path name.head = some i := by rw [importFor?, hsource, h]
    rw [himport]
    exact .named h rfl (localName_of_sourceOf h) fun dir => rfl
  | unexported => exact hindexed (.inr h) (by rw [importFor?, hsource, h])
  | elsewhere =>
    exact hindexed (.inl ⟨m, hm, elsewhere_of_sourceOf h hm⟩) (by rw [importFor?, hsource, h])

end Program

/-- A function that takes a generic interface, and an event. -/
def pageSource : String :=
  "export interface User \x7b id: string \x7d\n" ++
  "export interface Page<T> \x7b owner: T | Guest \x7d\n" ++
  "export function list(ctx: Context, page: Page<User>) \x7b\x7d\n" ++
  "export type Saved = (user: User) => void;"

/-- The path of their file. -/
def pagePath : Path := ⟨"/src/pages.ts"⟩

/-- The module of that file. -/
def pageModule : SourceModule :=
  (SourceModule.parse? pagePath pageSource).getD (.empty pagePath)

/-- The program of that module alone. -/
def pageProgram : Program := ⟨[pageModule], []⟩

/-- What is extracted from the module, and the types of the properties of the interface. -/
theorem extracted_page :
    ((apiFunctions smallRules pageProgram pagePath pageModule).1.map fun a =>
      a.request.map fun x => (x.typeText, x.imports.map (·.localName))) =
        [[("User | Guest", ["User"])]] ∧
    ((apiEvents pageProgram pagePath pageModule).1.map fun e =>
      (Emit.payloadType e, e.payloadImport?.map (·.localName))) = [("User", some "User")] ∧
    ((pageModule.interfaces.find? "Page").map fun i =>
      i.members.map fun x => (x.type.text, x.type.names)) =
        some [("T | Guest", [.simple "T", .simple "Guest"])] := by
  decide +kernel

/-- The union of a type with `Guest`. -/
def orGuest (t : Phrase) : Phrase := .union t (.use ⟨'G', ['u', 'e', 's', 't'], rfl, rfl⟩)

/-- Where `T` is bound to a type `User`, the type `T | Guest` is read as `User | Guest`. -/
theorem readAs_orGuest {b : Binding} {t : TypeExpr} (hscope : b.scope = .empty)
    (htext : b.type.text = "User") (hnames : b.type.names = [.simple "User"])
    (ht : t.text = "T | Guest") (hrecords : t.names = [.simple "T", .simple "Guest"]) :
    ReadAs (.of [("T", b)]) t (orGuest (.use wordUser)) := by
  have huser : ReadAs b.scope b.type (.use wordUser) := by
    rw [hscope]
    refine @ReadAs.of [] _ (.use wordUser) (fun _ => .use wordUser) (htext ▸ by decide +kernel)
      ⟨rfl, by decide⟩ ?_ (fun t ht => ?_) (fun n hn => ?_) fun x hx => (List.not_mem_nil hx).elim
    · exact ⟨fun _ => rfl, fun b hb => (List.not_mem_nil hb).elim,
        fun b hb => (List.not_mem_nil hb).elim⟩
    · cases ht
    · obtain rfl := List.mem_singleton.1 hn
      have hrecorded : TypeName.simple "User" ∈ b.type.names := by simp [hnames]
      exact .name hrecorded (by decide +kernel) (.inl rfl)
  have hplain : (orGuest (.use wordT)).Plain (argument (.use wordUser)) .type := by
    refine ⟨fun t ht => ?_, fun t ht => ?_⟩
    · obtain rfl := Option.some.inj (ht : some (Phrase.use wordUser) = some t)
      trivial
    · cases ht
  refine @ReadAs.of [("T", b)] _ (orGuest (.use wordT)) (fun _ => .use wordUser) (ht ▸ by decide +kernel)
    ⟨rfl, ⟨rfl, by decide⟩, ⟨rfl, by decide⟩⟩
    (isProper_argument ⟨rfl, by decide⟩ fun q hq => ?_) hplain (fun n hn => ?_) fun x hx => ?_
  · simp [Phrase.atoms] at hq
  · have hfree : (orGuest (.use wordT)).freeNames = ["T", "Guest"] := by decide +kernel
    rw [hfree] at hn
    have hrecorded : TypeName.simple n ∈ t.names := by
      rw [hrecords]
      exact List.mem_map_of_mem (f := TypeName.simple) hn
    exact .name hrecorded rfl (.inr rfl)
  · obtain rfl := List.mem_singleton.1 hx
    exact huser

end IpcWiring
