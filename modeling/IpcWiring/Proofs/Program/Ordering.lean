import Mathlib.Data.List.SplitBy
import IpcWiring.Proofs.Program.Bounds

/-!
# The order of members

Members keep the order in which they are met, but for runs of members from one file, which are
sorted by position. Sorting one run after another in place (`MemberInfo.sortFrom`) leaves at each
step a front that is done and a rest that is untouched, and the rest starts a new run, since a run
is taken as far as it goes (`sortFrom_append`). What is sorted within a run moves no end of a run, so
that each run can be looked at by itself (`sortRuns_append`, `sortRuns_of_run`).
-/

namespace IpcWiring.MemberInfo

variable {ms ns run before after : List MemberInfo} {m n : MemberInfo}

/-! ## Runs -/

/-- The members are declared in one file. -/
def OneFile (run : List MemberInfo) : Prop := ∀ m ∈ run, ∀ n ∈ run, (m.origin == n.origin) = true

instance (run : List MemberInfo) : Decidable (OneFile run) :=
  inferInstanceAs (Decidable (∀ m ∈ run, ∀ n ∈ run, _))

/-- The files that members are declared in, one by one. -/
def origins (ms : List MemberInfo) : List (List Component) := ms.map (·.origin.components)

/-- The members of the second list start a file other than the one in which the first list ends. -/
def StartsFile (ms ns : List MemberInfo) : Prop :=
  ∀ m ∈ ms.getLast?, ∀ n ∈ ns.head?, (m.origin == n.origin) = false

instance (ms ns : List MemberInfo) : Decidable (StartsFile ms ns) :=
  inferInstanceAs (Decidable (∀ m ∈ ms.getLast?, ∀ n ∈ ns.head?, _))

/-- The members are a whole run of those of one file, with others before and after it. -/
structure IsRun (before run after : List MemberInfo) : Prop where
  ne_nil : run ≠ []
  oneFile : OneFile run
  starts : StartsFile before run
  ends : StartsFile run after

/-- The members of a run in the order of their declarations, those of one position in the order in
which they stand in the run. -/
structure StablySorted (run sorted : List MemberInfo) : Prop where
  perm : sorted.Perm run
  ascending : sorted.Pairwise fun m n => m.position ≤ n.position
  stable : ∀ position, sorted.filter (·.position == position) =
    run.filter (·.position == position)

/-- A run sorted by position. -/
def byPosition (run : List MemberInfo) : List MemberInfo :=
  run.mergeSort (·.position ≤ ·.position)

/-- The order of positions is transitive. -/
theorem position_trans (a b c : MemberInfo) (hab : decide (a.position ≤ b.position) = true)
    (hbc : decide (b.position ≤ c.position) = true) : decide (a.position ≤ c.position) = true :=
  decide_eq_true (Nat.le_trans (of_decide_eq_true hab) (of_decide_eq_true hbc))

/-- Of two members one does not come after the other. -/
theorem position_total (a b : MemberInfo) :
    (decide (a.position ≤ b.position) || decide (b.position ≤ a.position)) = true := by
  rw [← Bool.decide_or, decide_eq_true_eq]
  exact Nat.le_total _ _

/-- Sorting by position is stable. -/
theorem stablySorted_byPosition (run : List MemberInfo) : StablySorted run (byPosition run) where
  perm := List.mergeSort_perm run _
  ascending := (List.pairwise_mergeSort position_trans position_total run).imp of_decide_eq_true
  stable position := by
    have hequal : (run.filter (·.position == position)).Pairwise
        fun m n => decide (m.position ≤ n.position) = true := by
      refine List.pairwise_of_forall_mem_list fun m hm n hn => ?_
      have hm := (List.mem_filter.1 hm).2
      have hn := (List.mem_filter.1 hn).2
      rw [beq_iff_eq] at hm hn
      exact decide_eq_true (Nat.le_of_eq (hm.trans hn.symm))
    have hsublist := (List.sublist_mergeSort position_trans position_total hequal
      List.filter_sublist).filter (·.position == position)
    rw [List.filter_filter] at hsublist
    simp only [Bool.and_self] at hsublist
    refine (hsublist.eq_of_length ?_).symm
    exact ((List.mergeSort_perm run _).filter _).length_eq.symm

/-- A run that is sorted stays as it is. -/
theorem byPosition_byPosition (run : List MemberInfo) :
    byPosition (byPosition run) = byPosition run :=
  List.mergeSort_of_pairwise (List.pairwise_mergeSort position_trans position_total run)

/-! ## Files -/

/-- The files of members and of those behind them. -/
theorem origins_append (ms ns : List MemberInfo) : origins (ms ++ ns) = origins ms ++ origins ns :=
  List.map_append

/-- Where a new file starts can be told from the files. -/
theorem startsFile_iff : StartsFile ms ns ↔
    ∀ f ∈ (origins ms).getLast?, ∀ g ∈ (origins ns).head?, f ≠ g := by
  have hother : ∀ m n : MemberInfo,
      (m.origin == n.origin) = false ↔ m.origin.components ≠ n.origin.components := fun m n => by
    rw [← Bool.not_eq_true, Path.beq_iff]
  simp only [StartsFile, origins, List.getLast?_map, List.head?_map, hother]
  cases ms.getLast? <;> cases ns.head? <;> simp

/-- A sorted run is of one file. -/
theorem OneFile.byPosition (h : OneFile run) : OneFile (byPosition run) := fun m hm n hn =>
  h m (List.mem_mergeSort.1 hm) n (List.mem_mergeSort.1 hn)

/-- Sorting a run keeps its files, which are all the same. -/
theorem origins_byPosition (h : OneFile run) : origins (byPosition run) = origins run := by
  cases run with
  | nil => rw [MemberInfo.byPosition, List.mergeSort_nil]
  | cons m run =>
    have hall : ∀ {ns : List MemberInfo}, ns ⊆ m :: run →
        origins ns = List.replicate ns.length m.origin.components := fun hsub =>
      List.map_eq_replicate_iff.2 fun n hn =>
        Path.beq_iff.1 (h n (hsub hn) m List.mem_cons_self)
    rw [MemberInfo.byPosition, hall fun n hn => List.mem_mergeSort.1 hn, hall (List.Subset.refl _),
      List.length_mergeSort]

/-! ## Runs one by one -/

/-- Where a new file starts, the runs on both sides are sorted apart. -/
theorem sortRuns_append (h : StartsFile ms ns) :
    sortRuns (ms ++ ns) = sortRuns ms ++ sortRuns ns := by
  rw [sortRuns, List.splitBy_append h, List.flatMap_append]
  rfl

/-- Members of one file are one run. -/
theorem sortRuns_of_oneFile (h : OneFile run) : sortRuns run = byPosition run := by
  cases run with
  | nil =>
    rw [byPosition, List.mergeSort_nil]
    rfl
  | cons m run =>
    have hchain : (m :: run).IsChain fun m n => (m.origin == n.origin) = true :=
      (List.pairwise_of_forall_mem_list h).isChain
    rw [sortRuns, List.splitBy_of_isChain (List.cons_ne_nil m run) hchain, List.flatMap_singleton]
    rfl

/-- A run is sorted in its place. -/
theorem sortRuns_of_run (h : IsRun before run after) : sortRuns (before ++ run ++ after) =
    sortRuns before ++ byPosition run ++ sortRuns after := by
  have hends : StartsFile (before ++ run) after := by
    intro m hm
    rw [List.getLast?_append_of_ne_nil _ h.ne_nil] at hm
    exact h.ends m hm
  rw [sortRuns_append hends, sortRuns_append h.starts, sortRuns_of_oneFile h.oneFile]

/-- The run at the front goes as far as its file. -/
theorem isRun_span (m : MemberInfo) (ms : List MemberInfo) :
    IsRun [] (m :: ms.takeWhile (·.origin == m.origin)) (ms.dropWhile (·.origin == m.origin)) := by
  have hfile : ∀ n ∈ m :: ms.takeWhile (·.origin == m.origin), (n.origin == m.origin) = true :=
    List.forall_mem_cons.2
      ⟨Path.beq_iff.2 rfl, fun n hn => List.all_eq_true.1 List.all_takeWhile n hn⟩
  refine ⟨List.cons_ne_nil _ _, fun n hn k hk => ?_, nofun, fun n hn k hk => ?_⟩
  · have hn := Path.beq_iff.1 (hfile n hn)
    have hk := Path.beq_iff.1 (hfile k hk)
    exact Path.beq_iff.2 (hn.trans hk.symm)
  · have hn := Path.beq_iff.1 (hfile n (List.mem_of_mem_getLast? hn))
    have hk : (k.origin == m.origin) = false := by
      have hnot := List.head?_dropWhile_not (·.origin == m.origin) ms
      rwa [Option.mem_def.1 hk] at hnot
    rw [← Bool.not_eq_true, Path.beq_iff] at hk ⊢
    exact fun heq => hk (heq.symm.trans hn)

/-- Sorting runs is sorting the first one and then the others. -/
theorem sortRuns_cons (m : MemberInfo) (ms : List MemberInfo) : sortRuns (m :: ms) =
    byPosition (m :: ms.takeWhile (·.origin == m.origin)) ++
      sortRuns (ms.dropWhile (·.origin == m.origin)) := by
  have hrun := sortRuns_of_run (isRun_span m ms)
  rw [List.nil_append, List.cons_append, List.takeWhile_append_dropWhile] at hrun
  exact hrun

/-- What holds of no members, and of all members from the first one on if it holds behind its run,
holds of all lists. -/
theorem runs_induction {P : List MemberInfo → Prop} (nil : P [])
    (cons : ∀ m ms, P (ms.dropWhile (·.origin == m.origin)) → P (m :: ms)) (ms : List MemberInfo) :
    P ms := by
  induction hlength : ms.length using Nat.strong_induction_on generalizing ms with
  | _ k ih =>
    subst hlength
    cases ms with
    | nil => exact nil
    | cons m ms =>
      have hshorter := (List.dropWhile_suffix (·.origin == m.origin) (l := ms)).length_le
      exact cons m ms (ih _ (Nat.lt_succ_of_le hshorter) _ rfl)

/-! ## In place -/

/-- Where the members from the file of `first` end that stand from `stop` on. -/
def runEnd (ms : List MemberInfo) (first : MemberInfo) (stop : Nat) : Nat :=
  if h : stop < ms.length then
    if ms[stop].origin == first.origin then runEnd ms first (stop + 1) else stop
  else stop
termination_by ms.length - stop

/-- The end of a run is found behind the members from its file. -/
theorem runEnd_eq (ms : List MemberInfo) (first : MemberInfo) (stop : Nat) :
    runEnd ms first stop =
      stop + ((ms.drop stop).takeWhile (·.origin == first.origin)).length := by
  fun_induction runEnd ms first stop with
  | case1 stop h hfile ih =>
    rw [ih, List.drop_eq_getElem_cons h, List.takeWhile_cons, if_pos hfile, List.length_cons]
    omega
  | case2 stop h hfile =>
    rw [List.drop_eq_getElem_cons h, List.takeWhile_cons, if_neg hfile]
    rfl
  | case3 stop h =>
    rw [List.drop_eq_nil_of_le (Nat.le_of_not_lt h)]
    rfl

/-- A run ends behind its first member, and not behind the last member of all. -/
theorem runEnd_bounds (ms : List MemberInfo) (first : MemberInfo) {start : Nat}
    (h : start < ms.length) :
    start < runEnd ms first (start + 1) ∧ runEnd ms first (start + 1) ≤ ms.length := by
  have hlength := (List.takeWhile_sublist (l := ms.drop (start + 1))
    (·.origin == first.origin)).length_le
  rw [List.length_drop] at hlength
  rw [runEnd_eq]
  omega

/-- The members with those from `start` up to `stop` sorted by position. -/
def sortBetween (ms : List MemberInfo) (start stop : Nat) : List MemberInfo :=
  ms.take start ++ byPosition ((ms.drop start).take (stop - start)) ++ ms.drop stop

/-- Sorting members in their places keeps their number. -/
theorem length_sortBetween {start stop : Nat} (hstart : start ≤ stop) (hstop : stop ≤ ms.length) :
    (sortBetween ms start stop).length = ms.length := by
  simp only [sortBetween, byPosition, List.length_append, List.length_mergeSort, List.length_take,
    List.length_drop]
  omega

/-- Sorts one run after another in place, from `start` on. -/
def sortFrom (ms : List MemberInfo) (start : Nat) : List MemberInfo :=
  if h : start < ms.length then
    let stop := runEnd ms ms[start] (start + 1)
    sortFrom (sortBetween ms start stop) stop
  else ms
termination_by ms.length - start
decreasing_by
  obtain ⟨hstart, hstop⟩ := runEnd_bounds ms ms[start] h
  rw [length_sortBetween (Nat.le_of_lt hstart) hstop]
  omega

/-- A run ends where the members of its file end. -/
theorem runEnd_append (done : List MemberInfo) (m : MemberInfo) (rest : List MemberInfo) :
    runEnd (done ++ m :: rest) m (done.length + 1) =
      (done ++ byPosition (m :: rest.takeWhile (·.origin == m.origin))).length := by
  have hrest : (done ++ m :: rest).drop (done.length + 1) = rest := by
    rw [← List.drop_drop, List.drop_left]
    rfl
  rw [runEnd_eq, hrest, byPosition, List.length_append, List.length_mergeSort, List.length_cons]
  omega

/-- Behind members that are done, the first run is sorted and the others are left as they are. -/
theorem sortBetween_append (done : List MemberInfo) (m : MemberInfo) (rest : List MemberInfo) :
    sortBetween (done ++ m :: rest) done.length (runEnd (done ++ m :: rest) m (done.length + 1)) =
      done ++ byPosition (m :: rest.takeWhile (·.origin == m.origin)) ++
        rest.dropWhile (·.origin == m.origin) := by
  have hsplit : m :: rest = (m :: rest.takeWhile (·.origin == m.origin)) ++
      rest.dropWhile (·.origin == m.origin) := by
    rw [List.cons_append, List.takeWhile_append_dropWhile]
  have hstop := runEnd_append done m rest
  rw [byPosition, List.length_append, List.length_mergeSort] at hstop
  rw [sortBetween, hstop, Nat.add_sub_cancel_left, List.take_left, List.drop_left,
    ← List.drop_drop, List.drop_left]
  conv_lhs => rw [hsplit]
  rw [List.take_left, List.drop_left]

/-- Behind members that are done, the others are sorted run by run. -/
theorem sortFrom_append (done rest : List MemberInfo) :
    sortFrom (done ++ rest) done.length = done ++ sortRuns rest := by
  induction rest using runs_induction generalizing done with
  | nil =>
    rw [sortFrom, dif_neg (by simp)]
    rfl
  | cons m rest ih =>
    have hstart : done.length < (done ++ m :: rest).length := by simp
    have hfirst : (done ++ m :: rest)[done.length] = m := by simp
    rw [sortFrom, dif_pos hstart]
    simp only [hfirst]
    rw [sortBetween_append, runEnd_append, ih, sortRuns_cons, List.append_assoc]

/-! ## What is kept -/

/-- Sorting runs keeps the sequence of files. -/
theorem origins_sortRuns (ms : List MemberInfo) : origins (sortRuns ms) = origins ms := by
  induction ms using runs_induction with
  | nil => rfl
  | cons m ms ih =>
    rw [sortRuns_cons, origins_append, ih, origins_byPosition (isRun_span m ms).oneFile,
      ← origins_append, List.cons_append, List.takeWhile_append_dropWhile]

/-- Sorting runs again changes nothing. -/
theorem sortRuns_sortRuns (ms : List MemberInfo) : sortRuns (sortRuns ms) = sortRuns ms := by
  induction ms using runs_induction with
  | nil => rfl
  | cons m ms ih =>
    have hrun := isRun_span m ms
    have hfile := origins_byPosition hrun.oneFile
    have hends : StartsFile (byPosition (m :: ms.takeWhile (·.origin == m.origin)))
        (sortRuns (ms.dropWhile (·.origin == m.origin))) := by
      rw [startsFile_iff, hfile, origins_sortRuns, ← startsFile_iff]
      exact hrun.ends
    rw [sortRuns_cons, sortRuns_append hends, ih, sortRuns_of_oneFile hrun.oneFile.byPosition,
      byPosition_byPosition]

/-- **Runs are sorted and nothing else.** Sorting one run after another in place gives all members
in some order in which the sequence of files is unchanged position by position. In the places of
each whole run its members stand in the order of their positions, those of one position in the order
in which they stood. Sorting again changes nothing. -/
theorem sortRuns_sorts_runs (ms : List MemberInfo) :
    sortFrom ms 0 = sortRuns ms ∧ (sortRuns ms).Perm ms ∧ origins (sortRuns ms) = origins ms ∧
      (∀ before run after, ms = before ++ run ++ after → IsRun before run after →
        StablySorted run (((sortRuns ms).drop before.length).take run.length)) ∧
      sortRuns (sortRuns ms) = sortRuns ms := by
  refine ⟨sortFrom_append [] ms, Program.sortRuns_perm ms, origins_sortRuns ms, ?_,
    sortRuns_sortRuns ms⟩
  rintro before run after rfl hrun
  have hbefore : (sortRuns before).length = before.length :=
    (Program.sortRuns_perm before).length_eq
  have hlength : (byPosition run).length = run.length := List.length_mergeSort _
  have hplace : ((sortRuns (before ++ run ++ after)).drop before.length).take run.length =
      byPosition run := by
    rw [sortRuns_of_run hrun, ← hbefore, ← hlength, List.append_assoc, List.drop_left,
      List.take_left]
  rw [hplace]
  exact stablySorted_byPosition run

/-- A member of that name, without a type, declared at a position of a file. -/
def declaredAt (file name : String) (position : Nat) : MemberInfo :=
  ⟨name, false, .plain "", ⟨file⟩, position⟩

/-- Between members from another file a run is sorted in its place. The members of one position stay
in their order, and so do the other two, although the first one of them has the last position. -/
theorem sortRuns_sorts_runs_between :
    let run := [declaredAt "/a.ts" "id" 9, declaredAt "/a.ts" "key" 4, declaredAt "/a.ts" "tag" 4]
    let ms := declaredAt "/b.ts" "first" 8 :: run ++ [declaredAt "/b.ts" "last" 0]
    IsRun [declaredAt "/b.ts" "first" 8] run [declaredAt "/b.ts" "last" 0] ∧
      StablySorted run (((sortRuns ms).drop 1).take 3) ∧
      (sortRuns ms).map (·.name) = ["first", "key", "tag", "id", "last"] := by
  intro run ms
  have hrun : IsRun [declaredAt "/b.ts" "first" 8] run [declaredAt "/b.ts" "last" 0] :=
    ⟨List.cons_ne_nil _ _, by decide +kernel, by decide +kernel, by decide +kernel⟩
  obtain ⟨-, -, -, hruns, -⟩ := sortRuns_sorts_runs ms
  refine ⟨hrun, hruns _ _ _ rfl hrun, ?_⟩
  refine (congrArg (List.map (·.name)) (sortRuns_of_run hrun)).trans ?_
  simp [run, sortRuns, byPosition, declaredAt, List.mergeSort, List.splitBy, List.splitBy.loop]

end IpcWiring.MemberInfo
