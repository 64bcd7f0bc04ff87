import IpcWiring.Proofs.Path.Resolved

/-!
# Where paths lead

Following the components of a path leads from one directory to another (`Directories.walk`). All
that counts of them is the path's course: how often a `..` finds no name in front of it that it
takes back, and which names are left (`Path.Course`). Climbing leads above the directory where a
relative path starts, and nowhere from the root, which is its own parent.

`Path.normalize` keeps the names of the course, but of the climbs only whether their number is odd,
since a `..` that was kept is taken back by the next one. One invariant carries this over the whole
path: what is kept so far is written from the course so far (`Path.foldl_normalizeStep`). So
normalizing moves no absolute path and no path that climbs at most once, and it moves all others
(`Path.normalize_leads`).
-/

namespace IpcWiring

/-! ## Directories -/

/-- Directories as paths lead through them. The root is its own parent. -/
structure Directories (D : Type) where
  root : D
  parent : D → D
  entry : D → String → D
  parent_root : parent root = root
  parent_entry : ∀ d s, parent (entry d s) = d

namespace Directories

variable {D : Type} (t : Directories D)

/-- The directory that a component leads to. -/
def follow (d : D) : Component → D
  | .root => t.root
  | .here => d
  | .up => t.parent d
  | .name s => t.entry d s

/-- The directory that components lead to one after another. -/
def walk (d : D) (cs : List Component) : D := cs.foldl t.follow d

/-- Components behind others go on where these have led. -/
theorem walk_append (d : D) (cs ds : List Component) :
    t.walk d (cs ++ ds) = t.walk (t.walk d cs) ds := List.foldl_append

/-- One more component leads on from where the others have led. -/
theorem walk_snoc (d : D) (cs : List Component) (c : Component) :
    t.walk d (cs ++ [c]) = t.follow (t.walk d cs) c := by
  rw [walk_append]
  rfl

/-- No number of `..` leads above the root. -/
theorem walk_ups_root (n : Nat) : t.walk t.root (List.replicate n .up) = t.root := by
  induction n with
  | zero => rfl
  | succ n ih =>
    rw [List.replicate_succ']
    rw [walk_snoc, ih]
    exact t.parent_root

/-- Directories by the names that lead to them from the root, the innermost one first. -/
def named : Directories (List String) where
  root := []
  parent := List.tail
  entry d s := s :: d
  parent_root := rfl
  parent_entry _ _ := rfl

/-- Each `..` takes one name off. -/
theorem walk_named_ups (d : List String) (n : Nat) :
    named.walk d (List.replicate n .up) = d.drop n := by
  induction n with
  | zero => rfl
  | succ n ih =>
    rw [List.replicate_succ', walk_snoc, ih]
    exact List.tail_drop

/-- Each name is put in front. -/
theorem walk_named_names (d names : List String) :
    named.walk d (names.map .name) = names.reverse ++ d := by
  induction names generalizing d with
  | nil => rfl
  | cons s names ih =>
    rw [List.map_cons, List.reverse_cons, List.append_assoc]
    exact ih (s :: d)

end Directories

/-- Components lead to the same directory as others, from wherever one starts. -/
def SameWay (cs ds : List Component) : Prop :=
  ∀ (D : Type) (t : Directories D) (d : D), t.walk d cs = t.walk d ds

namespace Path

/-! ## Courses -/

/-- What counts of where a path leads: how often a `..` finds no name in front of it that it takes
back, and the names that are left, the last one first. -/
structure Course where
  climbs : Nat
  names : List String
deriving DecidableEq, Repr

namespace Course

/-- The course with one more component. -/
def step (c : Course) : Component → Course
  | .root | .here => c
  | .up =>
    match c.names with
    | [] => ⟨c.climbs + 1, []⟩
    | _ :: before => ⟨c.climbs, before⟩
  | .name s => ⟨c.climbs, s :: c.names⟩

/-- The course as components. -/
def components (c : Course) : List Component :=
  List.replicate c.climbs .up ++ c.names.reverse.map .name

/-- The course without pairs of climbs. -/
def paired (c : Course) : Course := ⟨c.climbs % 2, c.names⟩

/-- One more name stands at the end. -/
theorem components_name (n : Nat) (s : String) (names : List String) :
    (Course.mk n (s :: names)).components = (Course.mk n names).components ++ [.name s] := by
  simp only [components, List.reverse_cons, List.map_append, List.map_singleton, List.append_assoc]

/-- One more component leads on from where the course leads. -/
theorem walk_step {D : Type} (t : Directories D) (d : D) (c : Course) {x : Component}
    (hx : x ≠ .root) : t.walk d (c.step x).components = t.follow (t.walk d c.components) x := by
  obtain ⟨n, names⟩ := c
  cases x with
  | root => exact absurd rfl hx
  | here => rfl
  | name s => rw [step, components_name, t.walk_snoc]
  | up =>
    cases names with
    | nil =>
      simp only [step, components, List.reverse_nil, List.map_nil, List.append_nil]
      rw [List.replicate_succ', t.walk_snoc]
    | cons s before =>
      rw [components_name, t.walk_snoc]
      exact (t.parent_entry _ s).symm

/-- Components lead to where their course leads. -/
theorem walk_foldl {D : Type} (t : Directories D) (d : D) (c : Course) {cs : List Component}
    (h : .root ∉ cs) :
    t.walk d (cs.foldl step c).components = t.walk (t.walk d c.components) cs := by
  induction cs generalizing c with
  | nil => rfl
  | cons x cs ih =>
    obtain ⟨hx, hcs⟩ := not_or.1 (mt List.mem_cons.2 h)
    rw [List.foldl_cons, ih (c.step x) hcs, walk_step t d c (Ne.symm hx)]
    rfl

/-! ## Normalizing -/

/-- The components of a course, the last one first. -/
theorem reverse_components (c : Course) :
    c.components.reverse = c.names.map .name ++ List.replicate c.climbs .up := by
  simp only [components, List.reverse_append, List.reverse_replicate, ← List.map_reverse,
    List.reverse_reverse]

variable {front : List Component}

/-- Behind a front a step keeps what is written from the course so far. A `..` that finds no name
takes a `..` back if one was kept. -/
theorem normalizeStep_paired (hfront : front = [] ∨ front = [.root]) (c : Course) {x : Component}
    (hx : x ≠ .root) : normalizeStep (c.paired.components.reverse ++ front) x =
      (c.step x).paired.components.reverse ++ front := by
  obtain ⟨n, names⟩ := c
  cases x with
  | root => exact absurd rfl hx
  | here => rfl
  | name s =>
    rw [reverse_components, reverse_components]
    rfl
  | up =>
    rw [reverse_components, reverse_components]
    cases names with
    | cons s before => rfl
    | nil =>
      rcases Nat.mod_two_eq_zero_or_one n with hn | hn
      · have hsucc : (n + 1) % 2 = 1 := by omega
        simp only [paired, step, hn, hsucc]
        rcases hfront with rfl | rfl <;> rfl
      · have hsucc : (n + 1) % 2 = 0 := by omega
        simp only [paired, step, hn, hsucc]
        rcases hfront with rfl | rfl <;> rfl

/-- Behind a front normalizing keeps what is written from the course. -/
theorem foldl_normalizeStep (hfront : front = [] ∨ front = [.root]) (c : Course)
    {cs : List Component} (h : .root ∉ cs) :
    cs.foldl normalizeStep (c.paired.components.reverse ++ front) =
      (cs.foldl step c).paired.components.reverse ++ front := by
  induction cs generalizing c with
  | nil => rfl
  | cons x cs ih =>
    obtain ⟨hx, hcs⟩ := not_or.1 (mt List.mem_cons.2 h)
    rw [List.foldl_cons, normalizeStep_paired hfront c (Ne.symm hx), ih (c.step x) hcs]
    rfl

/-- Courses are known by their components. -/
theorem components_inj {c d : Course} (h : c.components = d.components) : c = d := by
  have hcount : ∀ e : Course, e.components.count .up = e.climbs := by
    intro e
    simp [components, List.count_append, List.count_eq_zero]
  have hclimbs : c.climbs = d.climbs := by rw [← hcount c, h, hcount d]
  obtain ⟨n, xs⟩ := c
  obtain ⟨m, ys⟩ := d
  obtain rfl : n = m := hclimbs
  have hnames : xs.reverse = ys.reverse :=
    (List.map_inj_right fun _ _ => Component.name.inj).1 (List.append_cancel_left h)
  rw [List.reverse_inj.1 hnames]

end Course

/-- The course of the path. -/
def course (p : Path) : Course := p.components.foldl Course.step ⟨0, []⟩

/-- What stands in front of the steps of the path. -/
def front (p : Path) : List Component := if p.isAbsolute then [.root] else []

/-- Behind its front a path has no root. -/
theorem components_eq_front (p : Path) : ∃ rest, p.components = p.front ++ rest ∧ .root ∉ rest := by
  have hsteps : ∀ {cs : List Component}, (∀ c ∈ cs, c.IsStep) → .root ∉ cs := fun h hroot =>
    h .root hroot
  obtain ⟨steps, hs, h | h | h⟩ := components_eq p
  · have hp : p.isAbsolute ≠ true := fun hp => hsteps hs (h ▸ root_mem_components hp)
    exact ⟨steps, by rw [front, if_neg hp, h]; rfl, hsteps hs⟩
  · have hp : p.isAbsolute = true := isAbsolute_of_root_mem (by simp [h])
    exact ⟨steps, by rw [front, if_pos hp, h]; rfl, hsteps hs⟩
  · have hroot : Component.root ∉ .here :: steps := by simpa using hsteps hs
    have hp : p.isAbsolute ≠ true := fun hp => hroot (h ▸ root_mem_components hp)
    exact ⟨.here :: steps, by rw [front, if_neg hp, h]; rfl, hroot⟩

/-- The front of a path has no part in its course. -/
theorem course_eq {p : Path} {rest : List Component} (h : p.components = p.front ++ rest) :
    p.course = rest.foldl Course.step ⟨0, []⟩ := by
  rw [course, h, List.foldl_append, front]
  split <;> rfl

/-- A path leads to where its front and its course lead. -/
theorem sameWay_course (p : Path) : SameWay p.components (p.front ++ p.course.components) := by
  intro D t d
  obtain ⟨rest, hrest, hroot⟩ := components_eq_front p
  rw [course_eq hrest, hrest, t.walk_append, t.walk_append, Course.walk_foldl t _ _ hroot]
  rfl

/-- Normalizing keeps the front of a path and its course without pairs of climbs. -/
theorem components_normalize_eq_course (p : Path) :
    p.normalize.components = p.front ++ p.course.paired.components := by
  obtain ⟨rest, hrest, hroot⟩ := components_eq_front p
  have hfront : p.front = [] ∨ p.front = [.root] := by
    rw [front]
    split <;> simp
  have hkept : p.front.foldl normalizeStep [] =
      (Course.mk 0 []).paired.components.reverse ++ p.front := by
    rcases hfront with h | h <;> rw [h] <;> rfl
  rw [components_normalize, normalComponents, course_eq hrest, hrest, List.foldl_append, hkept,
    Course.foldl_normalizeStep hfront _ hroot, List.reverse_append, List.reverse_reverse]
  rcases hfront with h | h <;> rw [h] <;> rfl

/-! ## Where normalized paths lead -/

section

variable {p q : Path}

/-- From the root on, climbs lead nowhere. -/
theorem walk_front_of_absolute (hp : p.isAbsolute = true) {D : Type} (t : Directories D) (d : D)
    (c : Course) : t.walk d (p.front ++ c.components) = t.walk t.root (c.names.reverse.map .name) := by
  rw [front, if_pos hp, Course.components, t.walk_append, t.walk_append]
  exact congrArg (t.walk · _) (t.walk_ups_root c.climbs)

/-- Absolute paths lead to the same place just if the names of their courses are the same. -/
theorem sameWay_iff_of_absolute (hp : p.isAbsolute = true) (hq : q.isAbsolute = true) :
    SameWay p.components q.components ↔ p.course.names = q.course.names := by
  have hwalk : ∀ {r : Path}, r.isAbsolute = true → ∀ (D : Type) (t : Directories D) (d : D),
      t.walk d r.components = t.walk t.root (r.course.names.reverse.map .name) := fun hr D t d =>
    (sameWay_course _ D t d).trans (walk_front_of_absolute hr t d _)
  constructor
  · intro h
    have hnamed := h _ Directories.named []
    rw [hwalk hp, hwalk hq, Directories.walk_named_names, Directories.walk_named_names] at hnamed
    simpa [Directories.named] using hnamed
  · intro h D t d
    rw [hwalk hp, hwalk hq, h]

/-- Normalizing moves a path just if it is relative and climbs more than once. -/
theorem sameWay_normalize_iff :
    SameWay p.normalize.components p.components ↔ p.isAbsolute = true ∨ p.course.climbs ≤ 1 := by
  have hcourse : SameWay p.normalize.components p.components ↔
      SameWay (p.front ++ p.course.paired.components) (p.front ++ p.course.components) := by
    rw [components_normalize_eq_course]
    exact forall_congr' fun D => forall_congr' fun t => forall_congr' fun d => by
      rw [sameWay_course p D t d]
  rw [hcourse]
  by_cases hp : p.isAbsolute = true
  · refine iff_of_true (fun D t d => ?_) (.inl hp)
    rw [walk_front_of_absolute hp, walk_front_of_absolute hp]
    rfl
  · rw [front, if_neg hp, List.nil_append, List.nil_append, or_iff_right hp]
    constructor
    · intro h
      -- Below the root by as many names as the path climbs, the two ways end at different heights.
      have hheight := congrArg List.length
        (h _ Directories.named (List.replicate p.course.climbs "a"))
      simp only [Course.components, Directories.walk_append, Directories.walk_named_ups,
        Directories.walk_named_names, List.length_append, List.length_drop, List.length_replicate,
        Course.paired] at hheight
      omega
    · intro h
      have hpaired : p.course.paired = p.course := by
        rw [Course.paired, Nat.mod_eq_of_lt (Nat.lt_succ_of_le h)]
      intro D t d
      rw [hpaired]

/-- Absolute paths are normalized alike just if their courses have the same names and climbs that
are both odd or both even. -/
theorem normalize_eq_iff_of_absolute (hp : p.isAbsolute = true) (hq : q.isAbsolute = true) :
    p.normalize = q.normalize ↔
      p.course.names = q.course.names ∧ p.course.climbs % 2 = q.course.climbs % 2 := by
  constructor
  · intro h
    have hcomponents := congrArg Path.components h
    rw [components_normalize_eq_course, components_normalize_eq_course, front, front, if_pos hp,
      if_pos hq] at hcomponents
    have hcourse := Course.components_inj (List.append_cancel_left hcomponents)
    exact (Course.mk.inj hcourse).symm
  · rintro ⟨hnames, hclimbs⟩
    refine (resolved_normalize p).eq_of_components_eq (resolved_normalize q) ?_
    rw [components_normalize_eq_course, components_normalize_eq_course, front, front, if_pos hp,
      if_pos hq, Course.paired, Course.paired, hnames, hclimbs]

end

/-- **Where normalizing leads.** A path leads to where its course leads behind its front.
Normalizing keeps both but for pairs of climbs. So it moves no absolute path, and a relative one
just if that climbs more than once. Absolute paths are normalized alike just if they lead to the
same place and climb above the root an odd number of times both or neither. -/
theorem normalize_leads (p : Path) :
    SameWay p.components (p.front ++ p.course.components) ∧
      p.normalize.components = p.front ++ p.course.paired.components ∧
      (SameWay p.normalize.components p.components ↔
        p.isAbsolute = true ∨ p.course.climbs ≤ 1) ∧
      ∀ q : Path, p.isAbsolute = true → q.isAbsolute = true →
        (p.normalize = q.normalize ↔ SameWay p.components q.components ∧
          p.course.climbs % 2 = q.course.climbs % 2) := by
  refine ⟨sameWay_course p, components_normalize_eq_course p, sameWay_normalize_iff, ?_⟩
  intro q hp hq
  rw [sameWay_iff_of_absolute hp hq]
  exact normalize_eq_iff_of_absolute hp hq

/-- Both climbs of `../../shared` are lost. From the root `/../a` and `/../../a` lead to the same
place, and only the first one keeps a climb. -/
theorem normalize_leads_small :
    ¬ SameWay (Path.mk "../../shared").normalize.components
        (Path.mk "../../shared").components ∧
      SameWay (Path.mk "/../a").components (Path.mk "/../../a").components ∧
      (Path.mk "/../a").normalize ≠ (Path.mk "/../../a").normalize := by
  have hmoved : ¬ ((Path.mk "../../shared").isAbsolute = true ∨
      (Path.mk "../../shared").course.climbs ≤ 1) := by
    decide +kernel
  have hsame : SameWay (Path.mk "/../a").components (Path.mk "/../../a").components :=
    (sameWay_iff_of_absolute rfl rfl).2 (by decide +kernel)
  have hodd : (Path.mk "/../a").course.climbs % 2 ≠ (Path.mk "/../../a").course.climbs % 2 := by
    decide +kernel
  obtain ⟨-, -, hmoves, -⟩ := normalize_leads ⟨"../../shared"⟩
  obtain ⟨-, -, -, halike⟩ := normalize_leads ⟨"/../a"⟩
  exact ⟨fun h => hmoved (hmoves.1 h), hsame, fun h => hodd ((halike _ rfl rfl).1 h).2⟩

end Path

end IpcWiring
