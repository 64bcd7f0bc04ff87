import IpcWiring.Proofs.Distinct
import IpcWiring.Proofs.Emit.ImportBlock

/-!
# The lines of an import block

Only the first request for a local name adds something to a block. It adds its name to the line of
its module, or a line behind the others if there is none (`ImportBlock.keys_add`,
`ImportBlock.namesOf_add`). A later request can make a name a value and changes nothing else. So a
block is told by its requests (`ImportBlock.grants_ofRequests`).
-/

namespace IpcWiring.Emit

/-! ## Requests and their lines -/

namespace ImportRequest

/-- The line that a request is for: that of the names of its module, or one for the local name
alone. -/
def line (r : ImportRequest) : String × Option String :=
  (r.specifier, if r.imported?.isSome then none else some r.localName)

/-- The name that a request has in the line of the names of a module, as it is exported and as it is
called. -/
def nameOf? (specifier : String) (r : ImportRequest) : Option (String × String) :=
  if r.specifier = specifier then r.imported?.map (·, r.localName) else none

/-- The requests that add something: the first one for each local name. -/
def granted (requests : List ImportRequest) : List ImportRequest :=
  firstsBy localName requests

end ImportRequest

namespace ImportLine

variable {line : ImportLine} {specifier x : String} {n : ImportedName}

/-- What a line is for: the names of a module, or a local name alone. -/
def key : ImportLine → String × Option String
  | whole specifier name => (specifier, some name)
  | names specifier _ => (specifier, none)

/-- The names of a module in the line, as they are exported and as they are called. -/
def namesOf (specifier : String) : ImportLine → List (String × String)
  | whole .. => []
  | names s ns => if s = specifier then ns.map fun n => (n.imported, n.localName) else []

/-- What the line binds: local names, what they stand for, and whether they are values. -/
def bindings : ImportLine → List (String × ImportOrigin × Bool)
  | whole specifier name => [(name, ⟨specifier, none⟩, false)]
  | names specifier ns => ns.map fun n => (n.localName, ⟨specifier, some n.imported⟩, n.isValue)

/-- The lines of the names of a module. -/
theorem isNamesOf_iff : line.isNamesOf specifier = true ↔ line.key = (specifier, none) := by
  cases line <;> simp [isNamesOf, key]

/-- A line of other names has no names of the module. -/
theorem namesOf_of_not_isNamesOf (h : line.isNamesOf specifier = false) :
    line.namesOf specifier = [] := by
  cases line with
  | whole s name => rfl
  | names s ns => exact if_neg (of_decide_eq_false h)

/-- A line with one more name is for the same. -/
theorem key_addName : (line.addName n).key = line.key := by cases line <;> rfl

/-- A line where a name became a value is for the same. -/
theorem key_upgrade : (line.upgrade x).key = line.key := by cases line <;> rfl

/-- A name that became a value is called as before. -/
theorem namesOf_upgrade : (line.upgrade x).namesOf specifier = line.namesOf specifier := by
  cases line with
  | whole s name => rfl
  | names s ns =>
    simp only [upgrade, namesOf, List.map_map]
    have hsame : ((fun n : ImportedName => (n.imported, n.localName)) ∘
        fun n => if n.localName = x then { n with isValue := true } else n) =
        fun n => (n.imported, n.localName) := by
      funext n
      rw [Function.comp_apply]
      split <;> rfl
    rw [hsame]

/-- The local names that are bound. -/
theorem map_fst_bindings : line.bindings.map Prod.fst = line.localNames := by
  cases line with
  | whole s name => rfl
  | names s ns => simp only [bindings, localNames, List.map_map]; rfl

/-- A local name that the line binds stands for what the first binding of it says. -/
theorem originOf?_eq : line.originOf? x =
    (line.bindings.find? (·.1 = x)).map (·.2.1) := by
  cases line with
  | whole s name => by_cases h : name = x <;> simp [originOf?, bindings, h]
  | names s ns => simp only [originOf?, bindings, List.find?_map, Option.map_map]; rfl

/-- The line binds a name to a value just if some binding of it does. -/
theorem bindsValue_iff : line.bindsValue x = true ↔ ∃ o, (x, o, true) ∈ line.bindings := by
  cases line with
  | whole s name => simp [bindsValue, bindings]
  | names s ns => simp [bindsValue, bindings]

/-- A name is a value of the upgraded line only if it was one before or is the upgraded one. -/
theorem bindsValue_of_upgrade {y : String} (h : (line.upgrade y).bindsValue x = true) :
    line.bindsValue x = true ∨ (y = x ∧ x ∈ line.localNames) := by
  cases line with
  | whole s name => cases h
  | names s ns =>
    obtain ⟨n, hn, hx⟩ := List.any_eq_true.1 h
    obtain ⟨m, hm, rfl⟩ := List.mem_map.1 hn
    by_cases hy : m.localName = y
    · rw [if_pos hy] at hx
      obtain rfl : m.localName = x := of_decide_eq_true (Bool.and_eq_true_iff.1 hx).1
      exact .inr ⟨hy.symm, List.mem_map_of_mem hm⟩
    · rw [if_neg hy] at hx
      exact .inl (List.any_eq_true.2 ⟨m, hm, hx⟩)

end ImportLine

/-! ## One request -/

namespace ImportBlock

variable {b : ImportBlock} {r : ImportRequest} {rs : List ImportRequest} {x : String}
  {lines : List ImportLine} {specifier : String} {n : ImportedName}

/-- What the lines are for, in order. -/
def keys (b : ImportBlock) : List (String × Option String) := b.lines.map ImportLine.key

/-- The names of a module in the block, as they are exported and as they are called. -/
def namesOf (b : ImportBlock) (specifier : String) : List (String × String) :=
  b.lines.flatMap (·.namesOf specifier)

/-- What the block binds, line by line. -/
def bindings (b : ImportBlock) : List (String × ImportOrigin × Bool) :=
  b.lines.flatMap ImportLine.bindings

/-- A name goes to the line of its module, or to a new line at the end if there is none. -/
theorem map_key_insertName : (insertName specifier n lines).map ImportLine.key =
    if (specifier, none) ∈ lines.map ImportLine.key then lines.map ImportLine.key
    else lines.map ImportLine.key ++ [(specifier, none)] := by
  induction lines with
  | nil => rfl
  | cons line rest ih =>
    rw [insertName]
    by_cases hs : line.isNamesOf specifier = true
    · rw [if_pos hs, List.map_cons, List.map_cons, ImportLine.key_addName,
        ImportLine.isNamesOf_iff.1 hs, if_pos List.mem_cons_self]
    · have hne : ¬ (specifier, none) = line.key := fun h => hs (ImportLine.isNamesOf_iff.2 h.symm)
      rw [if_neg hs, List.map_cons, List.map_cons, ih]
      simp only [List.mem_cons, hne, false_or]
      split <;> rfl

/-- Lines that are for something else than the names of a module have none of these. -/
theorem flatMap_namesOf_eq_nil (h : (specifier, none) ∉ lines.map ImportLine.key) :
    lines.flatMap (·.namesOf specifier) = [] := by
  rw [List.flatMap_eq_nil_iff]
  intro line hline
  refine ImportLine.namesOf_of_not_isNamesOf (Bool.eq_false_iff.2 fun hs => h ?_)
  rw [← ImportLine.isNamesOf_iff.1 hs]
  exact List.mem_map_of_mem hline

/-- A name goes behind the other names of its module, and leaves those of other modules. -/
theorem flatMap_namesOf_insertName (h : (lines.map ImportLine.key).Nodup) :
    (insertName specifier n lines).flatMap (·.namesOf x) =
      lines.flatMap (·.namesOf x) ++ if specifier = x then [(n.imported, n.localName)] else [] := by
  induction lines with
  | nil => by_cases hx : specifier = x <;> simp [insertName, ImportLine.namesOf, hx]
  | cons line rest ih =>
    obtain ⟨hline, hrest⟩ := List.nodup_cons.1 h
    rw [insertName]
    by_cases hs : line.isNamesOf specifier = true
    · rw [if_pos hs]
      rw [ImportLine.isNamesOf_iff.1 hs] at hline
      obtain ⟨ns, rfl⟩ := ImportLine.eq_names_of_isNamesOf hs
      by_cases hx : specifier = x
      · subst hx
        rw [List.flatMap_cons, List.flatMap_cons, flatMap_namesOf_eq_nil hline]
        simp [ImportLine.addName, ImportLine.namesOf]
      · simp [ImportLine.addName, ImportLine.namesOf, hx]
    · rw [if_neg hs, List.flatMap_cons, List.flatMap_cons, ih hrest, List.append_assoc]

/-- A name is a value of the lines with one name more only if it was one before or is the new
one. -/
theorem any_bindsValue_of_insertName
    (h : (insertName specifier n lines).any (·.bindsValue x) = true) :
    lines.any (·.bindsValue x) = true ∨ (n.localName = x ∧ n.isValue = true) := by
  induction lines with
  | nil => simpa [insertName, ImportLine.bindsValue] using h
  | cons line rest ih =>
    rw [insertName] at h
    rw [List.any_cons, Bool.or_eq_true]
    split at h
    · next hs =>
      obtain ⟨ns, rfl⟩ := ImportLine.eq_names_of_isNamesOf hs
      rw [List.any_cons, Bool.or_eq_true] at h
      obtain h | h := h
      · simp only [ImportLine.addName, ImportLine.bindsValue, List.any_append, Bool.or_eq_true,
          List.any_cons, List.any_nil, Bool.or_false, Bool.and_eq_true, decide_eq_true_eq] at h
        exact h.imp_left .inl
      · exact .inl (.inr h)
    · rw [List.any_cons, Bool.or_eq_true] at h
      obtain h | h := h
      · exact .inl (.inl h)
      · exact (ih h).imp_left .inr

/-- No request asked for a name that is not bound. -/
theorem originOf?_eq_none_iff : b.originOf? x = none ↔ x ∉ b.localNames := by
  rw [← isSome_originOf?_iff, Bool.not_eq_true, Option.isSome_eq_false_iff,
    Option.isNone_iff_eq_none]

/-- What the upgraded lines are for. -/
theorem keys_upgrade : (b.upgrade specifier x).keys = b.keys := by
  simp only [upgrade, keys, List.map_map]
  refine List.map_congr_left fun line _ => ?_
  rw [Function.comp_apply]
  split
  · exact ImportLine.key_upgrade
  · rfl

/-- The names in the upgraded lines. -/
theorem namesOf_upgrade {y : String} : (b.upgrade specifier y).namesOf x = b.namesOf x := by
  simp only [upgrade, namesOf, List.flatMap_map]
  refine List.flatMap_congr fun line _ => ?_
  split
  · exact ImportLine.namesOf_upgrade
  · rfl

/-- A request for a bound name leaves the lines, but for values. -/
theorem add_of_mem (h : r.localName ∈ b.localNames) :
    b.add r = b ∨ b.add r = b.upgrade r.specifier r.localName := by
  rw [add]
  split
  · next hnone => exact absurd h (originOf?_eq_none_iff.1 hnone)
  · split
    · exact .inr rfl
    · exact .inl rfl

/-- A request for a free name binds it. -/
theorem add_of_notMem (h : r.localName ∉ b.localNames) : b.add r = b.bind r := by
  rw [add, originOf?_eq_none_iff.2 h]

/-- A request adds its line at the end if its name is free and there is no such line. -/
theorem keys_add : (b.add r).keys =
    if r.localName ∈ b.localNames ∨ r.line ∈ b.keys then b.keys else b.keys ++ [r.line] := by
  by_cases hbound : r.localName ∈ b.localNames
  · rw [if_pos (.inl hbound)]
    obtain h | h := add_of_mem hbound
    · rw [h]
    · rw [h, keys_upgrade]
  · rw [add_of_notMem hbound]
    obtain ⟨specifier, imported?, localName, isValue⟩ := r
    simp only [hbound, false_or]
    cases imported? with
    | none =>
      -- no line is for a local name that is free
      have hfree : (specifier, some localName) ∉ b.keys := by
        intro hmem
        obtain ⟨line, hline, hkey⟩ := List.mem_map.1 hmem
        refine hbound (List.mem_flatMap.2 ⟨line, hline, ?_⟩)
        cases line with
        | whole s name =>
          obtain ⟨-, rfl⟩ := by simpa [ImportLine.key] using hkey
          exact List.mem_singleton_self name
        | names s ns => simp [ImportLine.key] at hkey
      exact List.map_append.trans (if_neg hfree).symm
    | some imported => exact map_key_insertName

/-- A request adds its name behind the others of its module if the name is free. -/
theorem namesOf_add (h : b.keys.Nodup) : (b.add r).namesOf specifier =
    if r.localName ∈ b.localNames then b.namesOf specifier
    else b.namesOf specifier ++ (r.nameOf? specifier).toList := by
  by_cases hbound : r.localName ∈ b.localNames
  · rw [if_pos hbound]
    obtain h | h := add_of_mem hbound
    · rw [h]
    · rw [h, namesOf_upgrade]
  · rw [if_neg hbound, add_of_notMem hbound]
    obtain ⟨s, imported?, localName, isValue⟩ := r
    cases imported? with
    | none => simp [bind, namesOf, ImportLine.namesOf, ImportRequest.nameOf?]
    | some imported =>
      refine (flatMap_namesOf_insertName h).trans ?_
      rw [ImportRequest.nameOf?]
      dsimp only
      split <;> rfl

/-- A name becomes a value only by a request that asks for one, for what the name stands for. -/
theorem bindsValue_of_add (h : (b.add r).bindsValue x = true) : b.bindsValue x = true ∨
    (r.localName = x ∧ r.isValue = true ∧ (b.add r).originOf? x = some r.origin) := by
  have horigin := originOf?_add (b := b) (r := r) (x := x)
  rw [add] at h
  cases hb : b.originOf? r.localName with
  | none =>
    rw [hb] at h
    suffices hx : b.bindsValue x = true ∨ (r.localName = x ∧ r.isValue = true) by
      refine hx.imp_right fun hown => ⟨hown.1, hown.2, ?_⟩
      rw [horigin, if_pos hown.1, ← hown.1, hb, Option.none_or]
    dsimp only at h
    rw [bind] at h
    split at h
    · simp only [bindsValue, List.any_append, List.any_cons, List.any_nil, ImportLine.bindsValue,
        Bool.or_false] at h
      exact .inl h
    · exact any_bindsValue_of_insertName h
  | some origin =>
    rw [hb] at h
    dsimp only at h
    split at h
    · next hasked =>
      obtain ⟨ho, hvalue⟩ := Bool.and_eq_true_iff.1 hasked
      obtain ⟨line, hline, hx⟩ := List.any_eq_true.1 h
      obtain ⟨line, hmem, rfl⟩ := List.mem_map.1 hline
      split at hx
      · obtain hx | ⟨hname, -⟩ := ImportLine.bindsValue_of_upgrade hx
        · exact .inl (List.any_eq_true.2 ⟨line, hmem, hx⟩)
        · refine .inr ⟨hname, hvalue, ?_⟩
          rw [horigin, ← hname, hb, of_decide_eq_true ho]
          rfl
      · exact .inl (List.any_eq_true.2 ⟨line, hmem, hx⟩)
    · exact .inl h

/-! ## Lists of requests -/

/-- One request more is granted behind the others. -/
theorem ofRequests_concat : ofRequests (rs ++ [r]) = (ofRequests rs).add r := by
  rw [ofRequests, List.foldl_append, List.foldl_cons, List.foldl_nil]
  rfl

/-- The local names are those that were asked for. -/
theorem localName_mem_iff : x ∈ (ofRequests rs).localNames ↔
    x ∈ rs.map ImportRequest.localName := by
  rw [mem_localNames_ofRequests, List.mem_map]

/-- There is a line for each thing that granted requests are for, in the order of the first of
them. -/
theorem keys_ofRequests : (ofRequests rs).keys =
    (firstsBy ImportRequest.line (ImportRequest.granted rs)).map ImportRequest.line := by
  induction rs using List.reverseRecOn with
  | nil => rfl
  | append_singleton rs r ih =>
    rw [ofRequests_concat, keys_add, ImportRequest.granted, firstsBy_concat]
    by_cases hbound : r.localName ∈ rs.map ImportRequest.localName
    · rw [if_pos (.inl (localName_mem_iff.2 hbound)), if_pos hbound, ih]
      rfl
    · have hfree := mt localName_mem_iff.1 hbound
      rw [if_neg hbound, firstsBy_append_singleton, ih]
      simp only [hfree, false_or]
      by_cases hline : r.line ∈ (firstsBy ImportRequest.line (ImportRequest.granted rs)).map
          ImportRequest.line
      · rw [if_pos hline, ImportRequest.granted] at *
        rw [if_pos hline]
      · rw [if_neg hline, ImportRequest.granted] at *
        rw [if_neg hline, List.map_append, List.map_singleton]

/-- No two lines are for the same. -/
theorem nodup_keys : (ofRequests rs).keys.Nodup := by
  rw [keys_ofRequests]
  exact nodup_map_firstsBy

/-- The names of a module are those of granted requests, in their order. -/
theorem namesOf_ofRequests : (ofRequests rs).namesOf specifier =
    (ImportRequest.granted rs).filterMap (ImportRequest.nameOf? specifier) := by
  induction rs using List.reverseRecOn with
  | nil => rfl
  | append_singleton rs r ih =>
    rw [ofRequests_concat, namesOf_add nodup_keys, ImportRequest.granted, firstsBy_concat]
    by_cases hbound : r.localName ∈ rs.map ImportRequest.localName
    · rw [if_pos (localName_mem_iff.2 hbound), if_pos hbound, ih]
      rfl
    · rw [if_neg (mt localName_mem_iff.1 hbound), if_neg hbound, List.filterMap_append, ih]
      cases hname : r.nameOf? specifier <;> simp [hname, ImportRequest.granted]

/-- A value was asked for as one, by a request for what it stands for. -/
theorem exists_of_bindsValue (h : (ofRequests rs).bindsValue x = true) :
    ∃ r ∈ rs, r.localName = x ∧ r.isValue = true ∧
      (ofRequests rs).originOf? x = some r.origin := by
  induction rs using List.reverseRecOn with
  | nil => cases h
  | append_singleton rs r ih =>
    rw [ofRequests_concat] at h ⊢
    obtain h | ⟨hname, hvalue, horigin⟩ := bindsValue_of_add h
    · obtain ⟨q, hq, hname, hvalue, horigin⟩ := ih h
      refine ⟨q, List.mem_append_left _ hq, hname, hvalue, ?_⟩
      rw [originOf?_add, horigin, Option.some_or]
    · exact ⟨r, List.mem_append_right _ (List.mem_singleton_self r), hname, hvalue, horigin⟩

/-! ## Bindings -/

/-- The local names that are bound, line by line. -/
theorem map_fst_bindings : b.bindings.map Prod.fst = b.localNames := by
  rw [bindings, List.map_flatMap, localNames]
  exact List.flatMap_congr fun line _ => ImportLine.map_fst_bindings

/-- Where no name is bound twice, each stands for what its binding says, and is a value just if its
binding says so. -/
theorem of_mem_bindings {o : ImportOrigin} {isValue : Bool} (hnodup : b.localNames.Nodup)
    (h : (x, o, isValue) ∈ b.bindings) :
    b.originOf? x = some o ∧ (isValue = true ↔ b.bindsValue x = true) := by
  rw [← map_fst_bindings] at hnodup
  have hsame : ∀ c ∈ b.bindings, c.1 = x → c = (x, o, isValue) := fun c hc hx =>
    List.inj_on_of_nodup_map hnodup hc h hx
  have hmem : ∀ line ∈ b.lines, ∀ c ∈ line.bindings, c ∈ b.bindings := fun line hline c hc =>
    List.mem_flatMap.2 ⟨line, hline, hc⟩
  constructor
  · have hbound : (b.originOf? x).isSome := by
      rw [isSome_originOf?_iff, ← map_fst_bindings]
      exact List.mem_map_of_mem h
    obtain ⟨found, hfound⟩ := Option.isSome_iff_exists.1 hbound
    obtain ⟨line, hline, horigin⟩ := List.exists_of_findSome?_eq_some hfound
    rw [ImportLine.originOf?_eq] at horigin
    obtain ⟨c, hc, rfl⟩ := Option.map_eq_some_iff.1 horigin
    have hx : c.1 = x := by simpa using List.find?_some hc
    rw [hfound, hsame c (hmem line hline c (List.mem_of_find?_eq_some hc)) hx]
  · rw [bindsValue, List.any_eq_true]
    simp only [ImportLine.bindsValue_iff]
    constructor
    · rintro rfl
      obtain ⟨line, hline, hc⟩ := List.mem_flatMap.1 h
      exact ⟨line, hline, o, hc⟩
    · rintro ⟨line, hline, o', hc⟩
      have heq := hsame _ (hmem line hline _ hc) rfl
      exact (Prod.mk.inj (Prod.mk.inj heq).2).2.symm

/-- A block tells the requests that it grants. -/
structure Grants (rs : List ImportRequest) (b : ImportBlock) : Prop where
  /-- A local name is bound once. -/
  once : b.localNames.Nodup
  /-- It stands for what the first request for it asks for. -/
  first : ∀ x, b.originOf? x = (rs.find? (·.localName = x)).map ImportRequest.origin
  /-- A name of a module is a value just if some request asks for it as one. -/
  value : ∀ specifier names, .names specifier names ∈ b.lines → ∀ n ∈ names,
    (n.isValue = true ↔ ∃ r ∈ rs, r.isValue = true ∧ r.localName = n.localName ∧
      r.origin = ⟨specifier, some n.imported⟩)
  /-- No two lines are for the names of one module. -/
  lines : ∀ specifier, (b.lines.filter (·.isNamesOf specifier)).length ≤ 1
  /-- Every line binds a name. -/
  full : ∀ line ∈ b.lines, line.localNames ≠ []
  /-- The lines stand in the order of the first granted requests for them. -/
  order : b.keys =
    (firstsBy ImportRequest.line (ImportRequest.granted rs)).map ImportRequest.line
  /-- The names in a line stand in the order of the granted requests for them. -/
  names : ∀ specifier names, .names specifier names ∈ b.lines →
    (names.map fun n => (n.imported, n.localName)) =
      (ImportRequest.granted rs).filterMap (ImportRequest.nameOf? specifier)
  /-- The block is empty just if nothing was asked for. -/
  empty : b.isEmpty = true ↔ rs = []

/-- A line of names of a module has all of them. -/
theorem namesOf_eq_of_mem {names : List ImportedName} (hnodup : b.keys.Nodup)
    (h : .names specifier names ∈ b.lines) :
    b.namesOf specifier = names.map fun n => (n.imported, n.localName) := by
  obtain ⟨before, after, hlines⟩ := List.append_of_mem h
  rw [keys, hlines, List.map_append, List.map_cons, List.nodup_middle] at hnodup
  have hother : (specifier, none) ∉ (before ++ after).map ImportLine.key := by
    rw [List.map_append]
    exact (List.nodup_cons.1 hnodup).1
  rw [List.map_append, List.mem_append, not_or] at hother
  rw [namesOf, hlines, List.flatMap_append, List.flatMap_cons, flatMap_namesOf_eq_nil hother.1,
    flatMap_namesOf_eq_nil hother.2, List.nil_append, List.append_nil, ImportLine.namesOf,
    if_pos rfl]

/-- A block has at most one line for the names of a module. -/
theorem length_filter_isNamesOf_le (hnodup : b.keys.Nodup) :
    (b.lines.filter (·.isNamesOf specifier)).length ≤ 1 := by
  have hcount : (b.lines.filter (·.isNamesOf specifier)).length =
      b.keys.count (specifier, none) := by
    rw [← List.countP_eq_length_filter, List.count, keys, List.countP_map]
    congr 1
    funext line
    rw [Function.comp_apply, Bool.eq_iff_iff, ImportLine.isNamesOf_iff, beq_iff_eq]
  rw [hcount]
  exact List.nodup_iff_count_le_one.1 hnodup _

/-- Every line binds a name. -/
theorem localNames_ne_nil {line : ImportLine} (h : line ∈ (ofRequests rs).lines) :
    line.localNames ≠ [] := by
  cases line with
  | whole specifier name => exact List.cons_ne_nil name []
  | names specifier names =>
    have hkey : (specifier, none) ∈ (ImportRequest.granted rs).map ImportRequest.line := by
      rw [← mem_map_firstsBy, ← keys_ofRequests]
      exact List.mem_map_of_mem h
    obtain ⟨r, hr, hline⟩ := List.mem_map.1 hkey
    obtain ⟨rfl, hsome⟩ := Prod.mk.inj hline
    -- the request that the line was made for has a name in it
    obtain ⟨imported, himported⟩ : ∃ imported, r.imported? = some imported := by
      rw [← Option.isSome_iff_exists]
      by_contra hnone
      rw [if_neg hnone] at hsome
      cases hsome
    have hname : (imported, r.localName) ∈ names.map fun n => (n.imported, n.localName) := by
      rw [← namesOf_eq_of_mem nodup_keys h, namesOf_ofRequests]
      exact List.mem_filterMap.2 ⟨r, hr, by rw [ImportRequest.nameOf?, if_pos rfl, himported]; rfl⟩
    obtain ⟨n, hn, -⟩ := List.mem_map.1 hname
    exact List.ne_nil_of_mem (List.mem_map_of_mem hn)

/-- A block has no lines just if nothing was asked for. -/
theorem isEmpty_ofRequests : (ofRequests rs).isEmpty = true ↔ rs = [] := by
  rw [isEmpty, List.isEmpty_iff, ← List.map_eq_nil_iff (f := ImportLine.key)]
  change (ofRequests rs).keys = [] ↔ rs = []
  rw [keys_ofRequests, List.map_eq_nil_iff, firstsBy_eq_nil_iff, ImportRequest.granted,
    firstsBy_eq_nil_iff]

/-- **The first request for a name wins.** Whatever requests follow one another - values and types
of modules and files, and the imports of type texts - the block grants the first one for each local
name, in order, and a later one for the same export can make the name a value. -/
theorem grants_ofRequests (rs : List ImportRequest) : (ofRequests rs).Grants rs where
  once := nodup_localNames
  first _ := originOf?_ofRequests
  value specifier names hline n hn := by
    have hbinding : (n.localName, ⟨specifier, some n.imported⟩, n.isValue) ∈
        (ofRequests rs).bindings :=
      List.mem_flatMap.2 ⟨_, hline, List.mem_map_of_mem hn⟩
    obtain ⟨horigin, hvalue⟩ := of_mem_bindings nodup_localNames hbinding
    rw [hvalue]
    constructor
    · intro hbinds
      obtain ⟨r, hr, hname, hasks, hr'⟩ := exists_of_bindsValue hbinds
      exact ⟨r, hr, hasks, hname, Option.some.inj (hr'.symm.trans horigin)⟩
    · rintro ⟨r, hr, hasks, hname, hr'⟩
      have himported : r.imported? = some n.imported := congrArg ImportOrigin.imported? hr'
      rw [← hname, ← hr'] at horigin
      rw [← hname]
      exact bindsValue_ofRequests hr hasks himported horigin
  lines _ := length_filter_isNamesOf_le nodup_keys
  full _ := localNames_ne_nil
  order := keys_ofRequests
  names _ _ hline := by rw [← namesOf_eq_of_mem nodup_keys hline, namesOf_ofRequests]
  empty := isEmpty_ofRequests

example : (ofRequests [.moduleType "electron" "app", .moduleType "express" "app",
    .moduleValue "electron" "app"]).lines = [.names "electron" [⟨"app", "app", true⟩]] := by
  decide +kernel

end ImportBlock

end IpcWiring.Emit
