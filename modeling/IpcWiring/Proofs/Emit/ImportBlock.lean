import Mathlib.Data.List.Nodup
import IpcWiring.Emit.ImportBlock

/-!
# What an import block binds

A block that grants requests one after another binds a local name to what the first request for it
asks for (`ImportBlock.originOf?_ofRequests`), and binds no local name twice
(`ImportBlock.nodup_localNames`). A name that some request wants as a value is imported as one if it
stands for what that request asks for (`ImportBlock.bindsValue_ofRequests`).
-/

namespace IpcWiring.Emit

/-- What the request wants its local name to stand for. -/
def ImportRequest.origin (r : ImportRequest) : ImportOrigin := ⟨r.specifier, r.imported?⟩

/-! ## Lines -/

namespace ImportLine

variable {line : ImportLine} {specifier x : String} {n : ImportedName}

/-- The local names that the line binds, in order. -/
def localNames : ImportLine → List String
  | whole _ name => [name]
  | names _ ns => ns.map (·.localName)

/-- The line binds the local name to a value. -/
def bindsValue (x : String) : ImportLine → Bool
  | whole .. => false
  | names _ ns => ns.any fun n => n.localName = x && n.isValue

/-- A local name has an origin in a line just if the line binds it. -/
theorem isSome_originOf?_iff : (line.originOf? x).isSome ↔ x ∈ line.localNames := by
  cases line with
  | whole s name => by_cases h : name = x <;> simp [originOf?, localNames, h, Ne.symm]
  | names s ns => simp [originOf?, localNames]

/-- A line of another module does not bind a name to an export of the module. -/
theorem isNamesOf_of_originOf? {imported : String}
    (h : line.originOf? x = some ⟨specifier, some imported⟩) : line.isNamesOf specifier = true := by
  cases line with
  | whole s name =>
    rw [originOf?] at h
    split at h <;> cases h
  | names s ns =>
    obtain ⟨m, -, hm⟩ := Option.map_eq_some_iff.1 h
    cases hm
    simp [isNamesOf]

/-- A line of names of the module is its specifier with names. -/
theorem eq_names_of_isNamesOf (h : line.isNamesOf specifier = true) :
    ∃ ns, line = names specifier ns := by
  cases line with
  | whole s name => cases h
  | names s ns => exact ⟨ns, by rw [of_decide_eq_true h]⟩

/-- A name that is added has its origin in the line, the others keep theirs. -/
theorem originOf?_addName (h : line.isNamesOf specifier = true) :
    (line.addName n).originOf? x = (line.originOf? x).or
      (if n.localName = x then some ⟨specifier, some n.imported⟩ else none) := by
  obtain ⟨ns, rfl⟩ := eq_names_of_isNamesOf h
  simp only [addName, originOf?, List.find?_append, List.find?_cons, List.find?_nil]
  cases ns.find? (·.localName = x) with
  | some m => rfl
  | none => by_cases hx : n.localName = x <;> simp [hx]

/-- A name that becomes a value keeps its origin. -/
theorem originOf?_upgrade {y : String} : (line.upgrade y).originOf? x = line.originOf? x := by
  cases line with
  | whole s name => rfl
  | names s ns =>
    simp only [upgrade, originOf?, List.find?_map, Option.map_map]
    have hname : ((fun m : ImportedName => decide (m.localName = x)) ∘
        fun m => if m.localName = y then { m with isValue := true } else m) =
        fun m => decide (m.localName = x) :=
      funext fun m => by by_cases h : m.localName = y <;> simp [h]
    rw [hname]
    refine congrArg (Option.map · _) (funext fun m => ?_)
    by_cases h : m.localName = y <;> simp [h]

/-- A name that becomes a value keeps its place. -/
theorem localNames_upgrade {y : String} : (line.upgrade y).localNames = line.localNames := by
  cases line with
  | whole s name => rfl
  | names s ns =>
    simp only [upgrade, localNames, List.map_map]
    refine List.map_congr_left fun m _ => ?_
    by_cases h : m.localName = y <;> simp [h]

/-- A value stays a value when another name becomes one. -/
theorem bindsValue_upgrade {y : String} (h : line.bindsValue x = true) :
    (line.upgrade y).bindsValue x = true := by
  cases line with
  | whole s name => cases h
  | names s ns =>
    obtain ⟨m, hm, hx⟩ := List.any_eq_true.1 h
    refine List.any_eq_true.2 ⟨_, List.mem_map_of_mem hm, ?_⟩
    by_cases hy : m.localName = y <;> simp_all

/-- A name that the line binds is a value after it became one. -/
theorem bindsValue_upgrade_self (h : line.isNamesOf specifier = true) (hx : x ∈ line.localNames) :
    (line.upgrade x).bindsValue x = true := by
  obtain ⟨ns, rfl⟩ := eq_names_of_isNamesOf h
  obtain ⟨m, hm, rfl⟩ := List.mem_map.1 hx
  exact List.any_eq_true.2 ⟨_, List.mem_map_of_mem hm, by simp⟩

end ImportLine

/-! ## Blocks -/

namespace ImportBlock

variable {b : ImportBlock} {r : ImportRequest} {rs : List ImportRequest} {x : String}
  {lines : List ImportLine} {specifier : String} {n : ImportedName}

/-- The local names that the block binds, in order. -/
def localNames (b : ImportBlock) : List String := b.lines.flatMap ImportLine.localNames

/-- The block binds the local name to a value. -/
def bindsValue (b : ImportBlock) (x : String) : Bool := b.lines.any (·.bindsValue x)

/-- A local name has an origin just if the block binds it. -/
theorem isSome_originOf?_iff : (b.originOf? x).isSome ↔ x ∈ b.localNames := by
  simp [originOf?, localNames, List.findSome?_isSome_iff, ImportLine.isSome_originOf?_iff]

/-- A new name in the lines has its origin there, the others keep theirs. -/
theorem findSome?_insertName (hnew : lines.findSome? (·.originOf? n.localName) = none) :
    (insertName specifier n lines).findSome? (·.originOf? x) =
      (lines.findSome? (·.originOf? x)).or
        (if n.localName = x then some ⟨specifier, some n.imported⟩ else none) := by
  induction lines with
  | nil => by_cases h : n.localName = x <;> simp [insertName, ImportLine.originOf?, h]
  | cons line rest ih =>
    obtain ⟨hline, hrest⟩ := by simpa using hnew
    have hrest : rest.findSome? (·.originOf? n.localName) = none := by simpa using hrest
    rw [insertName]
    split
    · next hs =>
      simp only [List.findSome?_cons, ImportLine.originOf?_addName hs]
      by_cases hx : n.localName = x
      · subst hx
        simp [hline, hrest]
      · cases line.originOf? x <;> simp [hx]
    · simp only [List.findSome?_cons, ih hrest]
      cases line.originOf? x <;> rfl

/-- A new name is one more among the local names of the lines. -/
theorem localNames_insertName : ((insertName specifier n lines).flatMap
    ImportLine.localNames).Perm (n.localName :: lines.flatMap ImportLine.localNames) := by
  induction lines with
  | nil => simp [insertName, ImportLine.localNames]
  | cons line rest ih =>
    rw [insertName]
    split
    · next hs =>
      obtain ⟨ns, rfl⟩ := ImportLine.eq_names_of_isNamesOf hs
      simp only [List.flatMap_cons, ImportLine.addName, ImportLine.localNames, List.map_append,
        List.map_cons, List.map_nil, List.append_assoc, List.singleton_append]
      exact List.perm_middle
    · rw [List.flatMap_cons, List.flatMap_cons]
      exact (ih.append_left _).trans List.perm_middle

/-- A new name leaves the values in the lines. -/
theorem any_bindsValue_insertName (h : lines.any (·.bindsValue x) = true) :
    (insertName specifier n lines).any (·.bindsValue x) = true := by
  induction lines with
  | nil => cases h
  | cons line rest ih =>
    rw [List.any_cons, Bool.or_eq_true] at h
    rw [insertName]
    split
    · next hs =>
      obtain ⟨ns, rfl⟩ := ImportLine.eq_names_of_isNamesOf hs
      rw [List.any_cons, Bool.or_eq_true]
      refine h.imp_left fun h => ?_
      simp only [ImportLine.bindsValue] at h
      simp [ImportLine.addName, ImportLine.bindsValue, h]
    · rw [List.any_cons, Bool.or_eq_true]
      exact h.imp_right ih

/-- A new name that is a value is one in the lines. -/
theorem any_bindsValue_insertName_self (h : n.isValue = true) :
    (insertName specifier n lines).any (·.bindsValue n.localName) = true := by
  induction lines with
  | nil => simp [insertName, ImportLine.bindsValue, h]
  | cons line rest ih =>
    rw [insertName]
    split
    · next hs =>
      obtain ⟨ns, rfl⟩ := ImportLine.eq_names_of_isNamesOf hs
      simp [ImportLine.addName, ImportLine.bindsValue, h]
    · rw [List.any_cons, ih, Bool.or_true]

/-! ## One request -/

/-- A free local name gets its origin from the request, the others keep theirs. -/
theorem originOf?_bind (hnew : b.originOf? r.localName = none) : (b.bind r).originOf? x =
    (b.originOf? x).or (if r.localName = x then some r.origin else none) := by
  obtain ⟨specifier, imported?, localName, isValue⟩ := r
  cases imported? with
  | none =>
    simp only [bind, originOf?, List.findSome?_append, List.findSome?_cons, List.findSome?_nil,
      ImportLine.originOf?, ImportRequest.origin]
    by_cases hx : localName = x <;> simp [hx]
  | some imported => exact findSome?_insertName hnew

/-- The block binds what it did when a name becomes a value. -/
theorem originOf?_upgrade {y : String} : (b.upgrade specifier y).originOf? x = b.originOf? x := by
  rw [originOf?, upgrade, List.findSome?_map, originOf?]
  congr 1
  funext line
  rw [Function.comp_apply]
  split
  · exact ImportLine.originOf?_upgrade
  · rfl

/-- A request gives its local name an origin if that has none, and changes no other. -/
theorem originOf?_add : (b.add r).originOf? x =
    (b.originOf? x).or (if r.localName = x then some r.origin else none) := by
  rw [add]
  cases h : b.originOf? r.localName with
  | none => exact originOf?_bind h
  | some origin =>
    have hkeep : b.originOf? x =
        (b.originOf? x).or (if r.localName = x then some r.origin else none) := by
      by_cases hx : r.localName = x
      · rw [← hx, h, Option.some_or]
      · rw [if_neg hx, Option.or_none]
    dsimp only
    split
    · exact originOf?_upgrade.trans hkeep
    · exact hkeep

/-- A request binds no name twice. -/
theorem nodup_localNames_add (h : b.localNames.Nodup) : (b.add r).localNames.Nodup := by
  rw [add]
  cases ho : b.originOf? r.localName with
  | none =>
    have hnew : r.localName ∉ b.localNames := fun hin => by
      rw [← isSome_originOf?_iff, ho] at hin
      cases hin
    obtain ⟨specifier, imported?, localName, isValue⟩ := r
    cases imported? with
    | none =>
      simp only [bind, localNames, List.flatMap_append, List.flatMap_cons, List.flatMap_nil,
        ImportLine.localNames, List.append_nil]
      exact (List.nodup_append_comm.1 (List.nodup_cons.2 ⟨hnew, h⟩))
    | some imported => exact localNames_insertName.nodup_iff.2 (List.nodup_cons.2 ⟨hnew, h⟩)
  | some origin =>
    dsimp only
    split
    · simp only [upgrade, localNames, List.flatMap_map]
      convert h using 2
      refine List.flatMap_congr fun line _ => ?_
      split
      · exact ImportLine.localNames_upgrade
      · rfl
    · exact h

/-- Values stay values. -/
theorem bindsValue_add (h : b.bindsValue x = true) : (b.add r).bindsValue x = true := by
  rw [add]
  split
  · rw [bind]
    split
    · simp only [bindsValue, List.any_append, Bool.or_eq_true]
      exact .inl h
    · exact any_bindsValue_insertName h
  · split
    · obtain ⟨line, hline, hx⟩ := List.any_eq_true.1 h
      refine List.any_eq_true.2 ⟨_, List.mem_map_of_mem hline, ?_⟩
      split
      · exact ImportLine.bindsValue_upgrade hx
      · exact hx
    · exact h

/-- A request for a value makes its local name one, if that stands for what it asks for. -/
theorem bindsValue_add_self {imported : String} (hvalue : r.isValue = true)
    (hname : r.imported? = some imported)
    (horigin : (b.add r).originOf? r.localName = some r.origin) :
    (b.add r).bindsValue r.localName = true := by
  rw [originOf?_add, if_pos rfl] at horigin
  rw [add]
  cases h : b.originOf? r.localName with
  | none =>
    rw [bind, hname]
    exact any_bindsValue_insertName_self (n := ⟨imported, r.localName, r.isValue⟩) hvalue
  | some origin =>
    rw [h, Option.some_or] at horigin
    obtain rfl := Option.some.inj horigin
    -- the line that binds the name is one of its module, so it is upgraded
    obtain ⟨line, hline, ho⟩ := List.exists_of_findSome?_eq_some h
    rw [ImportRequest.origin, hname] at ho
    have hs := ImportLine.isNamesOf_of_originOf? ho
    have hx : r.localName ∈ line.localNames := by rw [← ImportLine.isSome_originOf?_iff, ho]; rfl
    simp only [ImportRequest.origin, hvalue, decide_true, Bool.and_self, if_true]
    refine List.any_eq_true.2 ⟨_, List.mem_map_of_mem hline, ?_⟩
    rw [if_pos hs]
    exact ImportLine.bindsValue_upgrade_self hs hx

/-! ## Lists of requests -/

/-- After some requests a local name has the origin that it had, or else that of the first request
for it. -/
theorem originOf?_foldl_add : (rs.foldl add b).originOf? x =
    (b.originOf? x).or ((rs.find? (·.localName = x)).map ImportRequest.origin) := by
  induction rs generalizing b with
  | nil => simp
  | cons r rs ih =>
    rw [List.foldl_cons, ih, originOf?_add, Option.or_assoc, List.find?_cons]
    by_cases hx : r.localName = x <;> simp [hx]

/-- A local name stands for what the first request for it asks for. -/
theorem originOf?_ofRequests : (ofRequests rs).originOf? x =
    (rs.find? (·.localName = x)).map ImportRequest.origin :=
  originOf?_foldl_add.trans (Option.none_or)

/-- The local names are those that are asked for. -/
theorem mem_localNames_ofRequests : x ∈ (ofRequests rs).localNames ↔ ∃ r ∈ rs, r.localName = x := by
  rw [← isSome_originOf?_iff, originOf?_ofRequests]
  simp

/-- A block binds no local name twice. -/
theorem nodup_localNames : (ofRequests rs).localNames.Nodup := by
  suffices h : ∀ b : ImportBlock, b.localNames.Nodup → (rs.foldl add b).localNames.Nodup from
    h empty List.nodup_nil
  induction rs with
  | nil => exact fun _ h => h
  | cons r rs ih => exact fun b h => ih _ (nodup_localNames_add h)

/-- A name that a request wants as a value is one, if it stands for what the request asks for. -/
theorem bindsValue_ofRequests {imported : String} (hr : r ∈ rs) (hvalue : r.isValue = true)
    (hname : r.imported? = some imported)
    (horigin : (ofRequests rs).originOf? r.localName = some r.origin) :
    (ofRequests rs).bindsValue r.localName = true := by
  obtain ⟨before, after, rfl⟩ := List.append_of_mem hr
  have hkeep : ∀ (rs : List ImportRequest) (b : ImportBlock), b.bindsValue r.localName = true →
      (rs.foldl add b).bindsValue r.localName = true := by
    intro rs
    induction rs with
    | nil => exact fun _ h => h
    | cons q rs ih => exact fun b h => ih _ (bindsValue_add h)
  rw [ofRequests, List.foldl_append, List.foldl_cons] at horigin ⊢
  refine hkeep after _ (bindsValue_add_self hvalue hname ?_)
  -- the request's name is bound once the request was granted or dropped, and stays as it is
  rw [originOf?_foldl_add, originOf?_add, if_pos rfl] at horigin
  rw [originOf?_add, if_pos rfl]
  cases h : (before.foldl add empty).originOf? r.localName with
  | none => rfl
  | some origin =>
    rw [h] at horigin
    simpa using horigin

end ImportBlock

end IpcWiring.Emit
