import IpcWiring.Proofs.Schema.Reading

/-!
# How types group where they are written

A type whose leaves and keys can be read (`SchemaType.Readable`) is read as what it is regrouped to:
`regrouped` gives a proper type with the same text in which no part of an intersection is a union
(`parse_readable`). What is meant is a proper type with that text as well, so the two are the same
just if no part of an intersection is a union there either (`regrouped_eq_flat_iff`).
-/

namespace IpcWiring.SchemaType

/-- A type whose leaves and keys can be read, and whose unions and intersections have operands. -/
def IsReadable : SchemaType → Prop
  | leaf text => IsLeaf text
  | object members => ∀ m ∈ members, IsKey m.name
  | union options => options ≠ []
  | intersection parts => parts ≠ []
  | _ => True

/-- The type and all types inside of it are readable. -/
def Readable : SchemaType → Prop := Everywhere IsReadable

section

variable {P : SchemaType → Prop} {t : SchemaType} {ts us : List SchemaType}

/-- The property holds everywhere in the types inside. -/
theorem Everywhere.inside : Everywhere P t → ∀ u ∈ t.children, Everywhere P u
  | intro _ inside => inside

/-! ## Operands -/

/-- What holds of single operands and of what is made of several holds of what gathers them. -/
theorem gather_of {Q : SchemaType → Prop} {made : List SchemaType → SchemaType}
    {operands : SchemaType → List SchemaType} (hne : ts ≠ []) (hoperands : ∀ t, operands t ≠ [])
    (h : ∀ t ∈ ts, ∀ u ∈ operands t, P u) (hone : ∀ {u}, P u → Q u)
    (hmade : ∀ {us}, 2 ≤ us.length → (∀ u ∈ us, P u) → Q (made us)) :
    Q (gather made operands ts) := by
  have hall : ∀ u ∈ ts.flatMap operands, P u := fun u hu =>
    (List.mem_flatMap.1 hu).elim fun t ht => h t ht.1 u ht.2
  have hsome : ts.flatMap operands ≠ [] := by
    obtain ⟨t, ts, rfl⟩ := List.exists_cons_of_ne_nil hne
    rw [List.flatMap_cons]
    exact fun hnil => hoperands t (List.append_eq_nil_iff.1 hnil).1
  unfold gather collapse
  split
  · next u hu => exact hone (hall u (hu ▸ List.mem_singleton_self u))
  · next hmany =>
    refine hmade (Nat.lt_of_le_of_ne (List.length_pos_iff.2 hsome) fun hlength => ?_) hall
    obtain ⟨u, hu⟩ := List.length_eq_one_iff.1 hlength.symm
    exact hmany u hu

/-- The alternatives of a proper type are proper, and none of them is a union. -/
theorem Proper.alternatives (h : t.Proper) : ∀ u ∈ t.alternatives, u.Proper ∧ ¬ u.IsUnion := by
  unfold SchemaType.alternatives
  split
  · exact fun u hu => ⟨h.inside u hu, h.here.2 u hu⟩
  · next hone =>
    refine List.forall_mem_singleton.2 ⟨h, fun hunion => ?_⟩
    cases t with
    | union ts =>
      obtain ⟨u, us, rfl⟩ := List.exists_cons_of_ne_nil
        (List.ne_nil_of_length_pos (Nat.lt_of_lt_of_le Nat.zero_lt_two h.here.1))
      exact hone u us rfl
    | leaf | array | tuple | record | object | intersection => exact hunion

/-- The parts of a proper type are proper, and none of them is an intersection. -/
theorem Proper.parts (h : t.Proper) : ∀ u ∈ t.parts, u.Proper ∧ ¬ u.IsIntersection := by
  unfold SchemaType.parts
  split
  · exact fun u hu => ⟨h.inside u hu, h.here.2 u hu⟩
  · next hone =>
    refine List.forall_mem_singleton.2 ⟨h, fun hintersection => ?_⟩
    cases t with
    | intersection ts =>
      obtain ⟨u, us, rfl⟩ := List.exists_cons_of_ne_nil
        (List.ne_nil_of_length_pos (Nat.lt_of_lt_of_le Nat.zero_lt_two h.here.1))
      exact hone u us rfl
    | leaf | array | tuple | record | object | union => exact hintersection

/-- The union of proper types is proper. -/
theorem proper_unite (hne : ts ≠ []) (h : ∀ t ∈ ts, t.Proper) : (unite ts).Proper :=
  gather_of hne alternatives_ne_nil (fun t ht => (h t ht).alternatives) And.left
    fun hlength hus => .intro ⟨hlength, fun u hu => (hus u hu).2⟩ fun u hu => (hus u hu).1

/-- The intersection of proper types is proper. -/
theorem proper_meet (hne : ts ≠ []) (h : ∀ t ∈ ts, t.Proper) : (meet ts).Proper :=
  gather_of hne parts_ne_nil (fun t ht => (h t ht).parts) And.left
    fun hlength hus => .intro ⟨hlength, fun u hu => (hus u hu).2⟩ fun u hu => (hus u hu).1

/-! ## Types that group as they are written -/

/-- A proper type that groups as it is written. -/
def Sound (t : SchemaType) : Prop := t.Proper ∧ t.Grouped

/-- The alternatives of a sound type are sound, and none of them is a union. -/
theorem Sound.alternatives (h : t.Sound) : ∀ u ∈ t.alternatives, u.Sound ∧ ¬ u.IsUnion := by
  have hgrouped : ∀ u ∈ t.alternatives, u.Grouped := by
    unfold SchemaType.alternatives
    split
    · exact h.2.inside
    · exact List.forall_mem_singleton.2 h.2
  exact fun u hu =>
    ⟨⟨(h.1.alternatives u hu).1, hgrouped u hu⟩, (h.1.alternatives u hu).2⟩

/-- The parts of a sound type that is no union are sound, and none of them is a union. -/
theorem Sound.parts (h : t.Sound) (ht : ¬ t.IsUnion) :
    ∀ u ∈ t.parts, u.Grouped ∧ ¬ u.IsUnion := by
  unfold SchemaType.parts
  split
  · exact fun u hu => ⟨h.2.inside u hu, h.2.here _ rfl u hu⟩
  · exact List.forall_mem_singleton.2 ⟨h.2, ht⟩

/-- The union of sound types is sound. -/
theorem sound_unite (hne : ts ≠ []) (h : ∀ t ∈ ts, t.Sound) : (unite ts).Sound :=
  ⟨proper_unite hne fun t ht => (h t ht).1,
    gather_of hne alternatives_ne_nil (fun t ht u hu => ((h t ht).alternatives u hu).1.2) id
      fun _ hus => .intro nofun hus⟩

/-- The intersection of sound types that are no unions is sound, and it is no union. -/
theorem sound_meet (hne : ts ≠ []) (h : ∀ t ∈ ts, t.Sound ∧ ¬ t.IsUnion) :
    (meet ts).Sound ∧ ¬ (meet ts).IsUnion := by
  have hmeet : (meet ts).Grouped ∧ ¬ (meet ts).IsUnion :=
    gather_of hne parts_ne_nil (fun t ht => (h t ht).1.parts (h t ht).2) id fun _ hus =>
      ⟨.intro (fun us hus' u hu => by
        cases hus'
        exact (hus u hu).2) fun u hu => (hus u hu).1, id⟩
  exact ⟨⟨proper_meet hne fun t ht => (h t ht).1.1, hmeet.1⟩, hmeet.2⟩

/-- Alternatives are sound with others behind an `&`. -/
theorem sound_glue : ∀ {ts us : List SchemaType}, (∀ t ∈ ts, t.Sound ∧ ¬ t.IsUnion) →
    (∀ u ∈ us, u.Sound ∧ ¬ u.IsUnion) → ∀ t ∈ glue ts us, t.Sound ∧ ¬ t.IsUnion
  | [t], u :: us, hts, hus => by
    obtain ⟨hu, hus⟩ := List.forall_mem_cons.1 hus
    have ht := hts t (List.mem_singleton_self t)
    exact List.forall_mem_cons.2 ⟨sound_meet (List.cons_ne_nil t [u])
      (List.forall_mem_cons.2 ⟨ht, List.forall_mem_singleton.2 hu⟩), hus⟩
  | [t], [], hts, _ => hts
  | t :: t' :: ts, us, hts, hus => by
    obtain ⟨ht, hts⟩ := List.forall_mem_cons.1 hts
    exact List.forall_mem_cons.2 ⟨ht, sound_glue hts hus⟩
  | [], us, _, hus => by
    unfold glue
    exact hus

/-- Sound types are sound with an `&` between each two of them. -/
theorem sound_join : ∀ {ts : List SchemaType}, ts ≠ [] → (∀ t ∈ ts, t.Sound) → (join ts).Sound
  | [t], _, h => h t (List.mem_singleton_self t)
  | t :: u :: us, _, h => by
    obtain ⟨ht, hus⟩ := List.forall_mem_cons.1 h
    have hrest := sound_join (List.cons_ne_nil u us) hus
    exact sound_unite (glue_ne_nil (alternatives_ne_nil _))
      fun v hv => (sound_glue ht.alternatives hrest.alternatives v hv).1

/-! ## Settled types -/

/-- What the constructors of types keep holds of a settled type. -/
theorem settle_of {both : List SchemaType → SchemaType}
    (htight : ∀ t : SchemaType, t.Tight → t.IsReadable → (∀ u ∈ t.children, P u) → P t)
    (hunite : ∀ {ts}, ts ≠ [] → (∀ t ∈ ts, P t) → P (unite ts))
    (hboth : ∀ {ts}, ts ≠ [] → (∀ t ∈ ts, P t) → P (both ts)) (h : t.Readable) :
    P (t.settle both) := by
  induction t using induct with
  | h t ih =>
    obtain ⟨hhere, hinside⟩ := h
    have hchildren : ∀ u ∈ t.children, P (u.settle both) := fun u hu => ih u hu (hinside u hu)
    have hall : ∀ {ts : List SchemaType}, (∀ u ∈ ts, P (u.settle both)) →
        ∀ u ∈ settleAll both ts, P u := fun {ts} hts => by
      rw [settleAll_eq_map]
      exact List.forall_mem_map.2 hts
    have hne : ∀ {ts : List SchemaType}, ts ≠ [] → settleAll both ts ≠ [] := fun {ts} hts => by
      rw [settleAll_eq_map]
      exact mt List.map_eq_nil_iff.1 hts
    cases t with
    | leaf text => exact htight _ ⟨id, id⟩ hhere nofun
    | array element =>
      exact htight _ ⟨id, id⟩ trivial (List.forall_mem_map.2 hchildren)
    | tuple items => exact htight _ ⟨id, id⟩ trivial (hall hchildren)
    | record key value =>
      exact htight _ ⟨id, id⟩ trivial (List.forall_mem_map.2 hchildren)
    | object members =>
      rw [settle, settleMembers_eq_map]
      refine htight _ ⟨id, id⟩ (List.forall_mem_map.2 hhere) ?_
      rw [children, List.map_map]
      exact List.forall_mem_map.2 fun m hm => hchildren m.type (List.mem_map_of_mem hm)
    | union options => exact hunite (hne hhere) (hall hchildren)
    | intersection parts => exact hboth (hne hhere) (hall hchildren)

/-- What is meant is proper. -/
theorem proper_flat (h : t.Readable) : t.flat.Proper := by
  refine settle_of (fun t ht hhere hinside => .intro ?_ hinside) proper_unite proper_meet h
  cases t with
  | union => exact (ht.1 trivial).elim
  | intersection => exact (ht.2 trivial).elim
  | leaf | array | tuple | record | object => exact hhere

/-- What is written is sound. -/
theorem sound_regrouped (h : t.Readable) : t.regrouped.Sound := by
  refine settle_of (fun t ht hhere hinside => ⟨.intro ?_ fun u hu => (hinside u hu).1,
    .intro ?_ fun u hu => (hinside u hu).2⟩) sound_unite sound_join h
  · cases t with
    | union => exact (ht.1 trivial).elim
    | intersection => exact (ht.2 trivial).elim
    | leaf | array | tuple | record | object => exact hhere
  · rintro ts rfl
    exact (ht.2 trivial).elim

/-- A type that can be read is read as what is written. -/
theorem parse_readable (h : t.Readable) : parse t.text = some t.regrouped := by
  obtain ⟨hproper, hgrouped⟩ := sound_regrouped h
  rw [← text_regrouped]
  exact parse_text hproper hgrouped

/-- What is written is what is meant just if that has no union as a part of an intersection. -/
theorem regrouped_eq_flat_iff (h : t.Readable) : t.regrouped = t.flat ↔ t.flat.Grouped := by
  refine ⟨fun heq => heq ▸ (sound_regrouped h).2, fun hgrouped => ?_⟩
  have hflat := parse_text (proper_flat h) hgrouped
  rw [text_flat, parse_readable h] at hflat
  exact Option.some.inj hflat

end

end IpcWiring.SchemaType
