import IpcWiring.Proofs.Build.Calls
import IpcWiring.Proofs.Build.Written

/-!
# Calls one after another

However the steps of several calls mix, at most one of them holds the lock, one that finds it taken
does nothing, and one that took it gives it back. So the world is, as soon as nobody holds the lock,
what the calls that took it make of it in the order in which they took it, each in one piece
(`Calls.run_serialized`).
-/

namespace IpcWiring.Calls

variable {ι : Type} {call : ι → Call} {p : Project} {x y : World} {s : Calls ι} {i j : ι}
  {next : Phase}

/-- The world after calls that were made one after another. -/
def serial (call : ι → Call) (p : Project) (x : World) (order : List ι) : World :=
  order.foldl (fun x i => ((call i).run p x).2) x

/-- What a call can return in the end, where others took the lock in this order. -/
inductive Answered (call : ι → Call) (p : Project) (x : World) (order : List ι) (i : ι) :
    Answer → Prop where
  /-- It never took the lock. -/
  | refused (h : i ∉ order) : Answered call p x order i (call i).refusal
  /-- It returns what it returns in one piece, after those before it. -/
  | made {before after : List ι} (h : order = before ++ i :: after) :
      Answered call p x order i ((call i).run p (serial call p x before)).1

/-- What a call returned stays right when another takes the lock. -/
theorem Answered.snoc {order : List ι} {answer : Answer} (h : Answered call p x order j answer)
    (hne : j ≠ i) : Answered call p x (order ++ [i]) j answer := by
  cases h with
  | refused h =>
    refine .refused fun hmem => ?_
    rcases List.mem_append.1 hmem with hj | hj
    · exact h hj
    · exact hne (List.mem_singleton.1 hj)
  | @made before after h =>
    have hsnoc : order ++ [i] = before ++ j :: (after ++ [i]) := by
      rw [h, List.append_assoc, List.cons_append]
    exact .made hsnoc

variable [DecidableEq ι]

/-- What holds of calls that started in a world, however their steps mixed. -/
structure Serialized (s : Calls ι) (call : ι → Call) (p : Project) (x : World) : Prop where
  /-- At most one call holds the lock. -/
  one : ∀ i j, (s.phase i).holds = true → (s.phase j).holds = true → i = j
  /-- The lock is taken if and only if a call holds it. -/
  locked : s.world.session.locked = true ↔ ∃ i, (s.phase i).holds = true
  /-- The call that holds the lock is the last one that took it. -/
  last : ∀ i, (s.phase i).holds = true → s.order.getLast? = some i
  /-- A call that finds the lock taken ends in its next step, which leaves everything else. -/
  refused : ∀ i, s.phase i = .waiting → s.world.session.locked = true →
    s.step call p i = { s with phase := Function.update s.phase i (.ended (call i).refusal) }
  /-- A call that took the lock ends after a number of its own steps, whatever it comes to, and has
  given the lock back then. -/
  released : ∀ i, (s.phase i).holds = true → ∃ n answer,
    (s.run call p (List.replicate n i)).phase i = .ended answer ∧
    (s.run call p (List.replicate n i)).world = serial call p x s.order ∧
    (s.run call p (List.replicate n i)).world.session.locked = false
  /-- No call takes the lock twice. -/
  nodup : s.order.Nodup
  /-- A call that ended was refused, or returned what it returns in one piece. -/
  answered : ∀ i answer, s.phase i = .ended answer → Answered call p x s.order i answer
  /-- What a call goes on from is what is retained: nothing was retained since it looked. -/
  fresh : ∀ i, (s.phase i).IsFresh s.world
  /-- While no call holds the lock, the world is what the calls that took it make of it. -/
  world : (∀ i, (s.phase i).holds = false) → s.world = serial call p x s.order

/-! ## The lock -/

/-- No call holds the lock. -/
structure Idle (s : Calls ι) (call : ι → Call) (p : Project) (x : World) : Prop where
  unlocked : s.world.session.locked = false
  holds : ∀ i, (s.phase i).holds = false
  world : s.world = serial call p x s.order

/-- A call holds the lock, which took it after others. -/
structure Busy (s : Calls ι) (call : ι → Call) (p : Project) (x : World) (before : List ι) (i : ι) :
    Prop where
  order : s.order = before ++ [i]
  locked : s.world.session.locked = true
  holds : ∀ j, (s.phase j).holds = true ↔ j = i
  fresh : (s.phase i).IsFresh s.world
  /-- If it were left alone, it would come to what it comes to in one piece. -/
  comes : (call i).finish p s.world (s.phase i) = (call i).run p (serial call p x before)

/-- What every step keeps. -/
structure Invariant (s : Calls ι) (call : ι → Call) (p : Project) (x : World) : Prop where
  nodup : s.order.Nodup
  waiting : ∀ i, s.phase i = .waiting → i ∉ s.order
  answered : ∀ i answer, s.phase i = .ended answer → Answered call p x s.order i answer
  lock : s.Idle call p x ∨ ∃ before i, s.Busy call p x before i

/-! ## Steps -/

omit [DecidableEq ι] in
/-- Before any call asked for the lock the invariant holds. -/
theorem invariant_start (h : x.session.locked = false) :
    (start x : Calls ι).Invariant call p x :=
  ⟨.nil, fun _ _ => List.not_mem_nil, fun _ _ => nofun, .inl ⟨h, fun _ => rfl, rfl⟩⟩

/-- What a step of a call that has not ended leads to. -/
theorem step_of_advance (h : (call i).advance p s.world (s.phase i) = some (next, y)) :
    s.step call p i = ⟨Function.update s.phase i next, y,
      if !(s.phase i).holds && next.holds then s.order ++ [i] else s.order⟩ := by
  rw [step, h]

/-- What a step of a call that holds the lock leads to. -/
theorem step_of_holds (h : (call i).advance p s.world (s.phase i) = some (next, y))
    (hholds : (s.phase i).holds = true) :
    s.step call p i = ⟨Function.update s.phase i next, y, s.order⟩ := by
  rw [step_of_advance h, hholds]
  rfl

/-- A call that ended makes no more steps. -/
theorem step_of_ended {answer : Answer} (h : s.phase i = .ended answer) : s.step call p i = s := by
  rw [step, h]
  rfl

/-- A phase that a call did not get to just now was that of another call before. -/
theorem phase_of_update {phase : ι → Phase} {target : Phase}
    (h : Function.update phase i next j = target) (hne : next ≠ target) :
    j ≠ i ∧ phase j = target := by
  by_cases hji : j = i
  · rw [hji, Function.update_self] at h
    exact absurd h hne
  · rw [Function.update_of_ne hji] at h
    exact ⟨hji, h⟩

/-- Where a call neither takes the lock nor gives it back, the same calls hold it. -/
theorem holds_update {phase : ι → Phase} (h : next.holds = (phase i).holds) (j : ι) :
    (Function.update phase i next j).holds = (phase j).holds := by
  by_cases hji : j = i
  · rw [hji, Function.update_self, h]
  · rw [Function.update_of_ne hji]

/-- A step of the call that holds the lock: it goes on, or it ends and gives the lock back. -/
theorem Busy.advance {before : List ι} (h : s.Busy call p x before i)
    (hadvance : (call i).advance p s.world (s.phase i) = some (next, y)) :
    (next.holds = true ∧
      Busy ⟨Function.update s.phase i next, y, s.order⟩ call p x before i) ∨
    ∃ answer, next = .ended answer ∧ answer = ((call i).run p (serial call p x before)).1 ∧
      Idle ⟨Function.update s.phase i next, y, s.order⟩ call p x := by
  have hcomes := (Call.finish_advance hadvance).symm.trans h.comes
  have hmoves := Call.moves hadvance
  have hholds := (h.holds i).2 rfl
  have hfresh := h.fresh
  generalize hphase : s.phase i = phase at hmoves hholds hfresh
  cases hmoves with
  | refused | took => cases hholds
  | worked _ hnext hlock hstep =>
    refine .inl ⟨hnext, h.order, hlock.trans h.locked, fun j => ?_, ?_, ?_⟩
    · rw [holds_update (by rw [hnext, hphase, hholds])]
      exact h.holds j
    · dsimp only
      rw [Function.update_self]
      exact hstep hfresh
    · dsimp only
      rw [Function.update_self]
      exact hcomes
  | left answer =>
    refine .inr ⟨answer, rfl, congrArg Prod.fst hcomes, rfl, fun j => ?_, ?_⟩
    · dsimp only
      by_cases hji : j = i
      · rw [hji, Function.update_self]
        rfl
      · rw [Function.update_of_ne hji]
        exact Bool.eq_false_iff.2 fun hj => hji ((h.holds j).1 hj)
    · dsimp only
      rw [h.order, serial, List.foldl_append]
      exact congrArg Prod.snd hcomes

/-- What the other calls returned is right after a step, if it still is in the new order. -/
theorem Invariant.answered_update {order : List ι} (h : s.Invariant call p x)
    (hold : ∀ j answer, j ≠ i → Answered call p x s.order j answer →
      Answered call p x order j answer)
    (hnext : ∀ answer, next = .ended answer → Answered call p x order i answer) (j : ι)
    (answer : Answer) (hj : Function.update s.phase i next j = .ended answer) :
    Answered call p x order j answer := by
  by_cases hji : j = i
  · rw [hji, Function.update_self] at hj
    rw [hji]
    exact hnext answer hj
  · rw [Function.update_of_ne hji] at hj
    exact hold j answer hji (h.answered j answer hj)

/-- A call that is refused keeps the invariant. -/
theorem Invariant.refuse (h : s.Invariant call p x) (hphase : s.phase i = .waiting)
    (hlocked : s.world.session.locked = true) :
    Invariant { s with phase := Function.update s.phase i (.ended (call i).refusal) } call p x := by
  refine ⟨h.nodup, fun j hj => h.waiting j (phase_of_update hj nofun).2,
    h.answered_update (fun _ _ _ => id) fun answer hanswer => ?_, ?_⟩
  · cases hanswer
    exact .refused (h.waiting i hphase)
  · rcases h.lock with hidle | ⟨before, k, hbusy⟩
    · rw [hidle.unlocked] at hlocked
      cases hlocked
    · have hki : k ≠ i := by
        rintro rfl
        have hholds := (hbusy.holds k).2 rfl
        rw [hphase] at hholds
        cases hholds
      refine .inr ⟨before, k, hbusy.order, hlocked, fun j => ?_, ?_, ?_⟩
      · rw [holds_update (by rw [hphase]; rfl)]
        exact hbusy.holds j
      · dsimp only
        rw [Function.update_of_ne hki]
        exact hbusy.fresh
      · dsimp only
        rw [Function.update_of_ne hki]
        exact hbusy.comes

/-- A call that takes the lock keeps the invariant. -/
theorem Invariant.take (h : s.Invariant call p x) (hphase : s.phase i = .waiting)
    (hidle : s.Idle call p x) :
    Invariant ⟨Function.update s.phase i .entered, ⟨⟨s.world.session.retained, true⟩, s.world.tree⟩,
      s.order ++ [i]⟩ call p x := by
  refine ⟨?_, fun j hj => ?_, h.answered_update (fun j answer hne hj => hj.snoc hne) nofun,
    .inr ⟨s.order, i, rfl, rfl, fun j => ?_, ?_, ?_⟩⟩
  · refine h.nodup.append (List.nodup_singleton i) fun j hj hji => ?_
    rw [List.mem_singleton.1 hji] at hj
    exact h.waiting i hphase hj
  · obtain ⟨hji, hwaiting⟩ := phase_of_update hj nofun
    intro hmem
    rcases List.mem_append.1 hmem with hmem | hmem
    · exact h.waiting j hwaiting hmem
    · exact hji (List.mem_singleton.1 hmem)
  · dsimp only
    by_cases hji : j = i
    · rw [hji, Function.update_self]
      exact iff_of_true rfl rfl
    · rw [Function.update_of_ne hji, hidle.holds j]
      exact iff_of_false nofun hji
  · dsimp only
    rw [Function.update_self]
    exact fun _ => nofun
  · dsimp only
    have hadvance : (call i).advance p s.world .waiting =
        some (.entered, ⟨⟨s.world.session.retained, true⟩, s.world.tree⟩) := by
      rw [Call.advance, Session.acquire?, hidle.unlocked]
      rfl
    rw [Function.update_self, ← Call.finish_advance hadvance, ← hidle.world]
    rfl

/-- The call that holds the lock keeps the invariant with each of its steps. -/
theorem Invariant.work (h : s.Invariant call p x) (hholds : (s.phase i).holds = true)
    (hadvance : (call i).advance p s.world (s.phase i) = some (next, y)) :
    Invariant ⟨Function.update s.phase i next, y, s.order⟩ call p x := by
  obtain ⟨before, hbusy⟩ : ∃ before, s.Busy call p x before i := by
    rcases h.lock with hidle | ⟨before, k, hbusy⟩
    · rw [hidle.holds i] at hholds
      cases hholds
    · obtain rfl := (hbusy.holds i).1 hholds
      exact ⟨before, hbusy⟩
  rcases hbusy.advance hadvance with ⟨hnext, hbusy'⟩ | ⟨answer, rfl, hanswer, hidle⟩
  · refine ⟨h.nodup, fun j hj => h.waiting j (phase_of_update hj ?_).2,
      h.answered_update (fun _ _ _ => id) fun answer hended => ?_, .inr ⟨before, i, hbusy'⟩⟩
    · rintro rfl
      cases hnext
    · rw [hended] at hnext
      cases hnext
  · refine ⟨h.nodup, fun j hj => h.waiting j (phase_of_update hj nofun).2,
      h.answered_update (fun _ _ _ => id) fun answer' hended => ?_, .inl hidle⟩
    cases hended
    rw [hanswer]
    exact .made hbusy.order

/-- Every step keeps the invariant. -/
theorem Invariant.step (h : s.Invariant call p x) (i : ι) :
    (s.step call p i).Invariant call p x := by
  cases hadvance : (call i).advance p s.world (s.phase i) with
  | none => rwa [Calls.step, hadvance]
  | some result =>
    obtain ⟨next, y⟩ := result
    have hmoves := Call.moves hadvance
    have hstep := step_of_advance hadvance
    generalize hphase : s.phase i = phase at hmoves hstep
    cases hmoves with
    | refused hlocked =>
      rw [hstep]
      exact h.refuse hphase hlocked
    | took hfree =>
      rw [hstep]
      rcases h.lock with hidle | ⟨before, k, hbusy⟩
      · exact h.take hphase hidle
      · rw [hbusy.locked] at hfree
        cases hfree
    | worked hheld =>
      have hholds : (s.phase i).holds = true := hphase ▸ hheld
      rw [step_of_holds hadvance hholds]
      exact h.work hholds hadvance
    | left answer =>
      have hholds : (s.phase i).holds = true := hphase ▸ rfl
      rw [step_of_holds hadvance hholds]
      exact h.work hholds hadvance

/-! ## Runs -/

/-- Any number of steps keep the invariant. -/
theorem Invariant.run (h : s.Invariant call p x) (schedule : List ι) :
    (s.run call p schedule).Invariant call p x := by
  induction schedule generalizing s with
  | nil => exact h
  | cons i schedule ih => exact ih (h.step i)

/-- The phase that the next step of a call leads to. -/
theorem phase_step (h : (call i).advance p s.world (s.phase i) = some (next, y)) :
    (s.step call p i).phase i = next := by
  rw [step_of_advance h]
  exact Function.update_self ..

/-- A number of its own steps take a call to its end. -/
def Ends (s : Calls ι) (call : ι → Call) (p : Project) (i : ι) : Prop :=
  ∃ n answer, (s.run call p (List.replicate n i)).phase i = .ended answer

/-- A call ends if it does so after its next step. -/
theorem Ends.of_step (h : (s.step call p i).Ends call p i) : s.Ends call p i := by
  obtain ⟨n, answer, h⟩ := h
  exact ⟨n + 1, answer, h⟩

/-- A call that is to give the lock back ends. -/
theorem ends_of_leaving {answer : Answer} (h : s.phase i = .leaving answer) : s.Ends call p i :=
  .of_step ⟨0, answer, phase_step (by rw [h]; rfl)⟩

/-- A call that writes files ends, since there are fewer of them left after each step. -/
theorem ends_of_writing {job : Job} {pending : List (Path × String)} {results : List WriteResult}
    (h : s.phase i = .writing job pending results) : s.Ends call p i := by
  induction pending generalizing s results with
  | nil => exact .of_step (ends_of_leaving (phase_step (by rw [h]; rfl)))
  | cons file pending ih =>
    rcases hwrite : (call i).writer.write s.world.tree file.1 file.2 with ⟨e | result, tree⟩
    · exact .of_step (ends_of_leaving (phase_step (by rw [h, Call.advance, hwrite])))
    · exact .of_step (ih (phase_step (by rw [h, Call.advance, hwrite])))

/-- A call that applies a reaction ends. -/
theorem ends_of_extracting {root : WatchRoot} {r : Reaction} {snapshot : WorkingSet}
    (h : s.phase i = .extracting root r snapshot) : s.Ends call p i := by
  have hphase : (s.step call p i).phase i = Call.extract p s.world root r snapshot :=
    phase_step (by rw [h]; rfl)
  rw [Call.extract] at hphase
  cases hnext : p.next? s.world.tree snapshot root r with
  | none => rw [hnext] at hphase; exact .of_step (ends_of_leaving hphase)
  | some set => rw [hnext] at hphase; exact .of_step (ends_of_writing hphase)

/-- A call that knows the reaction to its change ends. -/
theorem ends_of_reacting {root : WatchRoot} {r : Reaction} (h : s.phase i = .reacting root r) :
    s.Ends call p i :=
  .of_step (ends_of_extracting (phase_step (by rw [h]; rfl)))

/-- A call that took the lock ends. -/
theorem ends_of_entered (h : s.phase i = .entered) : s.Ends call p i := by
  have hphase : (s.step call p i).phase i = (call i).enter p s.world :=
    phase_step (by rw [h]; rfl)
  rw [Call.enter] at hphase
  cases hrequest : (call i).request with
  | build =>
    rw [hrequest] at hphase
    dsimp only at hphase
    cases hplan : p.plan s.world.tree with
    | error e => rw [hplan] at hphase; exact .of_step (ends_of_leaving hphase)
    | ok plan => rw [hplan] at hphase; exact .of_step (ends_of_writing hphase)
  | change c =>
    rw [hrequest] at hphase
    dsimp only at hphase
    cases hreact : p.react? s.world.tree c with
    | none => rw [hreact] at hphase; exact .of_step (ends_of_leaving hphase)
    | some r => rw [hreact] at hphase; exact .of_step (ends_of_reacting hphase)

/-- A call that holds the lock ends. -/
theorem ends_of_holds (h : (s.phase i).holds = true) : s.Ends call p i := by
  cases hphase : s.phase i with
  | waiting | ended answer => rw [hphase] at h; cases h
  | entered => exact ends_of_entered hphase
  | reacting root r => exact ends_of_reacting hphase
  | extracting root r snapshot => exact ends_of_extracting hphase
  | writing job pending results => exact ends_of_writing hphase
  | leaving answer => exact ends_of_leaving hphase

/-- Steps of a call that ended change nothing. -/
theorem run_of_ended {answer : Answer} (h : s.phase i = .ended answer) (n : ℕ) :
    s.run call p (List.replicate n i) = s := by
  induction n with
  | zero => rfl
  | succ n ih =>
    rw [List.replicate_succ, run, List.foldl_cons, step_of_ended h]
    exact ih

/-- Steps of the call that holds the lock leave it with that call, or take the call to its end and
leave the lock free. No other call takes it meanwhile. -/
theorem Busy.run {before : List ι} (h : s.Busy call p x before i) (n : ℕ) :
    (s.run call p (List.replicate n i)).order = s.order ∧
      ((s.run call p (List.replicate n i)).Busy call p x before i ∨
        (s.run call p (List.replicate n i)).Idle call p x) := by
  induction n generalizing s with
  | zero => exact ⟨rfl, .inl h⟩
  | succ n ih =>
    rw [List.replicate_succ, Calls.run, List.foldl_cons, ← Calls.run]
    cases hadvance : (call i).advance p s.world (s.phase i) with
    | none =>
      rw [Calls.step, hadvance]
      exact ih h
    | some result =>
      obtain ⟨next, y⟩ := result
      rw [step_of_holds hadvance ((h.holds i).2 rfl)]
      rcases h.advance hadvance with ⟨-, hbusy⟩ | ⟨answer, rfl, -, hidle⟩
      · exact ih hbusy
      · rw [run_of_ended (Function.update_self ..)]
        exact ⟨rfl, .inr hidle⟩

/-- A call that holds the lock gives it back at its end. -/
theorem Busy.released {before : List ι} (h : s.Busy call p x before i) : ∃ n answer,
    (s.run call p (List.replicate n i)).phase i = .ended answer ∧
    (s.run call p (List.replicate n i)).world = serial call p x s.order ∧
    (s.run call p (List.replicate n i)).world.session.locked = false := by
  have hends : s.Ends call p i := ends_of_holds ((h.holds i).2 rfl)
  obtain ⟨n, answer, hended⟩ := hends
  obtain ⟨horder, hbusy | hidle⟩ := h.run n
  · have hholds := (hbusy.holds i).2 rfl
    rw [hended] at hholds
    cases hholds
  · exact ⟨n, answer, hended, horder ▸ hidle.world, hidle.unlocked⟩

/-- A call that finds the lock taken changes nothing but its own phase. -/
theorem step_of_locked (hphase : s.phase i = .waiting) (hlocked : s.world.session.locked = true) :
    s.step call p i = { s with phase := Function.update s.phase i (.ended (call i).refusal) } := by
  have hadvance : (call i).advance p s.world (s.phase i) =
      some (.ended (call i).refusal, s.world) := by
    rw [hphase, Call.advance, Session.acquire?, hlocked]
    rfl
  rw [step_of_advance hadvance, hphase]
  rfl

/-- The invariant says what holds of the calls while nobody holds the lock. -/
theorem Idle.serialized (hidle : s.Idle call p x) (h : s.Invariant call p x) :
    s.Serialized call p x := by
  have hnone : ∀ i, (s.phase i).holds ≠ true := fun i => Bool.eq_false_iff.1 (hidle.holds i)
  exact
    { one := fun i _ hi => absurd hi (hnone i)
      locked := iff_of_false (Bool.eq_false_iff.1 hidle.unlocked) fun ⟨i, hi⟩ => hnone i hi
      last := fun i hi => absurd hi (hnone i)
      refused := fun _ => step_of_locked
      released := fun i hi => absurd hi (hnone i)
      nodup := h.nodup
      answered := h.answered
      fresh := fun i => Phase.isFresh_of_holds_eq_false (hidle.holds i)
      world := fun _ => hidle.world }

/-- The invariant says what holds of the calls while one of them holds the lock. -/
theorem Busy.serialized {before : List ι} (hbusy : s.Busy call p x before i)
    (h : s.Invariant call p x) : s.Serialized call p x where
  one j k hj hk := ((hbusy.holds j).1 hj).trans ((hbusy.holds k).1 hk).symm
  locked := iff_of_true hbusy.locked ⟨i, (hbusy.holds i).2 rfl⟩
  last j hj := by
    rw [hbusy.order, (hbusy.holds j).1 hj]
    exact List.getLast?_concat
  refused _ := step_of_locked
  released j hj := by
    obtain rfl := (hbusy.holds j).1 hj
    exact hbusy.released
  nodup := h.nodup
  answered := h.answered
  fresh j := by
    by_cases hji : j = i
    · rw [hji]
      exact hbusy.fresh
    · refine Phase.isFresh_of_holds_eq_false (Bool.eq_false_iff.2 fun hj => ?_)
      exact hji ((hbusy.holds j).1 hj)
  world hnone := absurd ((hbusy.holds i).2 rfl) (Bool.eq_false_iff.1 (hnone i))

/-- **Calls that go on at once are as good as calls one after another.** However the steps of any
builds and changes mix, at most one of them holds the lock. One that finds it taken ends in its next
step and changes neither what is retained nor a file; one that took it gives it back, whatever it
comes to, and returns what it would return if just the calls that took the lock were made, each in
one piece, in the order in which they took it. The world is what these calls make of it whenever
nobody holds the lock, so at the end, and what is retained never changes under a call that goes on
from a copy of it. -/
theorem run_serialized (call : ι → Call) (p : Project) (x : World) (h : x.session.locked = false)
    (schedule : List ι) : ((start x).run call p schedule).Serialized call p x := by
  have hinvariant := ((invariant_start h).run schedule : Invariant _ call p x)
  rcases hinvariant.lock with hidle | ⟨before, i, hbusy⟩
  · exact hidle.serialized hinvariant
  · exact hbusy.serialized hinvariant

/-- So a change that comes while a build goes on is dropped, and when the build is over, the world
is what the build alone makes of it. -/
theorem run_serialized_small : ∃ p, Project.ofConfig ⟨"/proj"⟩ Project.smallConfig = .ok p ∧
    let x : World := ⟨.initial, Project.smallTree [Project.smallApiDir] [Project.smallApiFile]⟩
    let call : Bool → Call :=
      fun i => ⟨if i then .change Project.smallUpdate else .build, .standard⟩
    let s := (start x).run call p [false, true]
    x.session.locked = false ∧ s.Serialized call p x ∧ s.phase true = .ended (.handled .dropped) ∧
    ∃ n answer, (s.run call p (List.replicate n false)).phase false = .ended answer ∧
      (s.run call p (List.replicate n false)).world = (p.build .standard x).2 := by
  obtain ⟨p, hp, -, -⟩ := Project.exists_small
  refine ⟨p, hp, ?_⟩
  intro x call s
  have hserialized := run_serialized call p x rfl [false, true]
  obtain ⟨n, answer, hended, hworld, -⟩ := hserialized.released false rfl
  exact ⟨rfl, hserialized, rfl, n, answer, hended, hworld⟩

end IpcWiring.Calls
