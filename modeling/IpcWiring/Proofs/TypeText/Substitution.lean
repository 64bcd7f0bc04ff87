import IpcWiring.Proofs.TypeText.Placement
import IpcWiring.Proofs.TypeText.RoundTrip

/-!
# Substitution in type texts

Substitution in the text of a plain phrase is substitution in the phrase: what comes out is read as
the substituted phrase (`parse_substitute`).
-/

namespace IpcWiring.TypeText

/-- Arguments as they can be written: no keyword is a type parameter, and each parameter stands for
a type that has no brackets in quotes. -/
structure Arguments.IsProper (σ : Arguments) : Prop where
  keywords : ∀ k : Keyword, k.word.IsFree σ
  fits : ∀ b ∈ σ, b.2.Fits .type
  quiet : ∀ b ∈ σ, IsQuiet b.2.atoms

section

variable {σ : Arguments} {t : Phrase}

/-- Substitution in the text of a plain type gives the text of the substituted type. -/
theorem substitute_text (hσ : σ.IsProper) (hfits : t.Fits .type) (hplain : t.Plain σ .type) :
    substitute σ.texts t.text = (t.subst σ.grouped).text := by
  have hends : Ends [] := ⟨by decide, by decide⟩
  have hadmits : Place.type.Admits σ none (t.atoms ++ []) :=
    Phrase.startsTold hfits (by decide) (by rintro w rfl; cases hfits.1) hends
  have hplaced := Phrase.placed hσ.keywords hfits hplain hadmits .nil
  rw [List.append_nil] at hplaced
  rw [substitute, Phrase.text, String.toList_ofList, Phrase.chars, substituteChars_spell hplaced,
    Phrase.text, Phrase.chars, Phrase.becomes_subst hplain]

/-- What substitution makes of the text of a plain type is read as the substituted type, with
parentheses around what was put in where its text asks for them. No name of what was put in is
captured. -/
theorem parse_substitute (hσ : σ.IsProper) (hfits : t.Fits .type) (hplain : t.Plain σ .type) :
    Phrase.parse (substitute σ.texts t.text) = some (t.subst σ.grouped) ∧
      (t.subst σ.grouped).bare = (t.subst σ).bare ∧
      (t.subst σ).freeNames = t.freeNames.flatMap σ.freeNames := by
  have hsubst : (t.subst σ.grouped).Fits .type :=
    Phrase.fits_subst (fun b hb => ⟨hσ.fits b hb, hσ.quiet b hb⟩) hfits hplain
  rw [substitute_text hσ hfits hplain]
  exact ⟨Phrase.parse_text hsubst, t.bare_subst σ, Phrase.freeNames_subst hfits hplain⟩

end

/-! ## In an object type -/

/-- The word `T`. -/
def wordT : Word := ⟨'T', [], rfl, rfl⟩

/-- The word `User`. -/
def wordUser : Word := ⟨'U', ['s', 'e', 'r'], rfl, rfl⟩

/-- The parameter `T` stands for a type. -/
def argument (t : Phrase) : Arguments := [("T", t)]

/-- A type without texts in quotes is a proper argument. -/
theorem isProper_argument {t : Phrase} (hfits : t.Fits .type) (hquiet : IsQuiet t.atoms) :
    (argument t).IsProper where
  keywords k := by cases k <;> rfl
  fits b hb := by
    obtain rfl := List.mem_singleton.1 hb
    exact hfits
  quiet b hb := by
    obtain rfl := List.mem_singleton.1 hb
    exact hquiet

/-- The union `User | Role`. -/
def userOrRole : Phrase := .union (.use wordUser) (.use ⟨'R', ['o', 'l', 'e'], rfl, rfl⟩)

/-- The object type `{ T: T[]; map<K extends T>(key: K): T }`. -/
def mapOfKeys : Phrase :=
  .object [.property false (.word wordT) false (.array (.use wordT)),
    .method (.word ⟨'m', ['a', 'p'], rfl, rfl⟩) false [.bounded ⟨'K', [], rfl, rfl⟩ (.use wordT)]
      [.parameter .plain ⟨'k', ['e', 'y'], rfl, rfl⟩ (.use ⟨'K', [], rfl, rfl⟩)] (.use wordT)]

/-- The union is a proper argument. -/
theorem isProper_userOrRole : (argument userOrRole).IsProper :=
  isProper_argument ⟨rfl, ⟨rfl, by decide⟩, ⟨rfl, by decide⟩⟩ fun q hq => by
    simp [userOrRole, Phrase.atoms, marks] at hq

/-- The object type fits. -/
theorem fits_mapOfKeys : mapOfKeys.Fits .type :=
  ⟨rfl, ⟨rfl, rfl, rfl, by decide⟩, ⟨rfl, ⟨⟨rfl, rfl, by decide⟩, trivial⟩,
    ⟨⟨rfl, rfl, by decide⟩, trivial⟩, rfl, by decide⟩, trivial⟩

/-- In the object type everything is told from its place. -/
theorem plain_mapOfKeys : mapOfKeys.Plain (argument userOrRole) .type := by
  have huse : ∀ name p, (Phrase.use name).Plain (argument userOrRole) p := by
    intro name p t ht
    obtain ⟨before, after, heq, -⟩ := List.lookup_eq_some_iff.1 ht
    have hmem : (name.text, t) ∈ argument userOrRole := by simp [heq]
    obtain ⟨-, rfl⟩ := Prod.mk.inj (List.mem_singleton.1 hmem)
    have hcompound : isCompound userOrRole.chars = true := by decide
    rw [Phrase.grouped, if_pos hcompound]
    trivial
  exact ⟨⟨Bool.noConfusion, huse _ _⟩, ⟨fun _ => rfl, by decide, ⟨⟨rfl, huse _ _⟩, trivial⟩,
    ⟨huse _ _, trivial⟩, huse _ _⟩, trivial⟩

/-- The union is put in parentheses in the place of the parameter, and the key `T` stays. -/
theorem parse_substitute_mapOfKeys :
    mapOfKeys.text = "\x7b T: T[]; map<K extends T>(key: K): T \x7d" ∧
    substitute (argument userOrRole).texts mapOfKeys.text =
      "\x7b T: (User | Role)[]; map<K extends (User | Role)>(key: K): (User | Role) \x7d" ∧
    Phrase.parse (substitute (argument userOrRole).texts mapOfKeys.text) =
      some (mapOfKeys.subst (argument userOrRole).grouped) ∧
    (mapOfKeys.subst (argument userOrRole).grouped).bare =
      (mapOfKeys.subst (argument userOrRole)).bare ∧
    (mapOfKeys.subst (argument userOrRole)).freeNames =
      mapOfKeys.freeNames.flatMap (argument userOrRole).freeNames :=
  ⟨by decide +kernel, by decide +kernel,
    parse_substitute isProper_userOrRole fits_mapOfKeys plain_mapOfKeys⟩

/-- The object type `{ map<T>(value: T): T }`, whose method declares a type parameter. -/
def mapOf (own : Word) : Phrase :=
  .object [.method (.word ⟨'m', ['a', 'p'], rfl, rfl⟩) false [.generic own]
    [.parameter .plain ⟨'v', ['a', 'l', 'u', 'e'], rfl, rfl⟩ (.use own)] (.use own)]

/-- The object type fits. -/
theorem fits_mapOf {own : Word} (h : own.IsName) : (mapOf own).Fits .type :=
  ⟨rfl, ⟨rfl, ⟨rfl, trivial⟩, ⟨⟨rfl, rfl, h⟩, trivial⟩, rfl, h⟩, trivial⟩

/-- The type `keyof User`. -/
def keyOfUser : Phrase := .operator .keyof (.use wordUser)

/-- The type parameter of a method is taken for the one of its name that is bound, and a type
operator is not put in parentheses before the brackets of an array: `keyof User[]` is the keys of an
array. -/
theorem parse_substitute_unscoped :
    ((argument (.use wordUser)).IsProper ∧ (mapOf wordT).Fits .type ∧
      Phrase.parse (substitute (argument (.use wordUser)).texts (mapOf wordT).text) =
        some (mapOf wordUser) ∧
      (mapOf wordUser).bare ≠ ((mapOf wordT).subst (argument (.use wordUser))).bare) ∧
    ((argument keyOfUser).IsProper ∧ (Phrase.array (.use wordT)).Fits .type ∧
      Phrase.parse (substitute (argument keyOfUser).texts (Phrase.array (.use wordT)).text) =
        some (.operator .keyof (.array (.use wordUser))) ∧
      (Phrase.operator .keyof (.array (.use wordUser))).bare ≠
        ((Phrase.array (.use wordT)).subst (argument keyOfUser)).bare) := by
  have hmap : substitute (argument (.use wordUser)).texts (mapOf wordT).text =
      (mapOf wordUser).text := by decide +kernel
  have harray : substitute (argument keyOfUser).texts (Phrase.array (.use wordT)).text =
      (Phrase.operator .keyof (.array (.use wordUser))).text := by decide +kernel
  refine ⟨⟨isProper_argument ⟨rfl, by decide⟩ (fun q hq => ?_), fits_mapOf (by decide), ?_,
    fun h => ?_⟩, isProper_argument ⟨rfl, by decide, rfl, by decide⟩ (fun q hq => ?_),
    ⟨rfl, rfl, by decide⟩, ?_, Phrase.noConfusion⟩
  · simp [Phrase.atoms] at hq
  · rw [hmap, Phrase.parse_text (fits_mapOf (by decide))]
  · exact absurd (congrArg Phrase.text h) (by decide +kernel)
  · simp [keyOfUser, Phrase.atoms] at hq
  · have hfits : (Phrase.operator .keyof (.array (.use wordUser))).Fits .type :=
      ⟨rfl, by decide, rfl, rfl, by decide⟩
    rw [harray, Phrase.parse_text hfits]

end IpcWiring.TypeText
