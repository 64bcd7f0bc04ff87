import IpcWiring.Proofs.Script.Tokens

/-!
# Runs of readers

A reader is run step by step: `simp` goes through its monad, and a lemma for each reader of a single
token tells what it does where the next token is known. A repeated step collects what it gives
(`Collects.collect`), and there are enough characters for it to come to its end.
-/

namespace IpcWiring.Script

/-- Behind the next token. -/
def Progress.advanced (p : Progress) : Progress :=
  { p with lastStop := p.current.after.pos, current := nextLexeme p.current.after }

namespace Reader

variable {α β : Type} {s : Setting} {p q : Progress} {a : α}

/-! ## Steps of a reader -/

@[simp]
theorem pure_run (a : α) : (pure a : Reader α) s p = some (a, p) := rfl

@[simp]
theorem bind_run (r : Reader α) (f : α → Reader β) :
    (r >>= f) s p = (r s p).bind fun x => f x.1 s x.2 := rfl

@[simp]
theorem map_run (f : α → β) (r : Reader α) :
    (f <$> r) s p = (r s p).map fun x => (f x.1, x.2) := by
  change (r s p).bind _ = _
  cases r s p <;> rfl

@[simp]
theorem discard_run (r : Reader α) :
    (discard r : Reader PUnit) s p = (r s p).map fun x => (⟨⟩, x.2) := by
  change (r s p).bind _ = _
  cases r s p <;> rfl

@[simp]
theorem reject_run : (reject : Reader α) s p = none := rfl

@[simp]
theorem get_run : (get : Reader Progress) s p = some (p, p) := rfl

@[simp]
theorem read_run : (read : Reader Setting) s p = some (s, p) := rfl

@[simp]
theorem modify_run (f : Progress → Progress) :
    (modify f : Reader PUnit) s p = some (⟨⟩, f p) := rfl

@[simp]
theorem withReader_run (f : Setting → Setting) (r : Reader α) :
    (withReader f r : Reader α) s p = r (f s) p := rfl

@[simp]
theorem peek_run : peek s p = some (p.current.token, p) := rfl

@[simp]
theorem peekLexeme_run : peekLexeme s p = some (p.current, p) := rfl

@[simp]
theorem onNewLine_run : onNewLine s p = some (p.current.onNewLine, p) := rfl

@[simp]
theorem lookAhead_run (r : Reader α) : lookAhead r s p = some ((r s p).map (·.1), p) := rfl

@[simp]
theorem sees_run (r : Reader Bool) : sees r s p = some (((r s p).map (·.1)).getD false, p) := rfl

@[simp]
theorem check_true : check true s p = some ((), p) := rfl

@[simp]
theorem check_false : check false s p = none := rfl

@[simp]
theorem ite_run (c : Prop) [Decidable c] (r r' : Reader α) :
    (if c then r else r') s p = if c then r s p else r' s p := by
  split <;> rfl

/-! ## Single tokens -/

variable {text word : String}

@[simp]
theorem advance_run : advance s p = some ((), p.advanced) := rfl

@[simp]
theorem atMark_run : atMark text s p = some (p.current.token == .mark text, p) := rfl

@[simp]
theorem atWord_run : atWord word s p = some (p.current.token == .word word, p) := rfl

@[simp]
theorem atBindingName_run : atBindingName s p = some (isBindingName p.current.token, p) := rfl

@[simp]
theorem atAnyWord_run : atAnyWord s p = some ((wordOf? p.current.token).isSome, p) := rfl

/-- A mark that is next is read. -/
theorem eatMark_of (h : p.current.token = .mark text) :
    eatMark text s p = some (true, p.advanced) := by
  simp [eatMark, h]

/-- Another mark stays unread. -/
theorem eatMark_of_ne (h : p.current.token ≠ .mark text) : eatMark text s p = some (false, p) := by
  simp [eatMark, h]

/-- A mark that is next is read. -/
theorem expectMark_of (h : p.current.token = .mark text) :
    expectMark text s p = some ((), p.advanced) := by
  simp [expectMark, eatMark_of h]

/-- Another token is rejected. -/
theorem expectMark_of_ne (h : p.current.token ≠ .mark text) : expectMark text s p = none := by
  simp [expectMark, eatMark_of_ne h]

/-- A word that is next is read. -/
theorem eatWord_of (h : p.current.token = .word word) :
    eatWord word s p = some (true, p.advanced) := by
  simp [eatWord, h]

/-- Another word stays unread. -/
theorem eatWord_of_ne (h : p.current.token ≠ .word word) : eatWord word s p = some (false, p) := by
  simp [eatWord, h]

/-- Another token is rejected. -/
theorem expectWord_of_ne (h : p.current.token ≠ .word word) : expectWord word s p = none := by
  simp [expectWord, eatWord_of_ne h]

/-- A word is read by its name. -/
theorem anyWord_of (h : p.current.token = .word word) :
    anyWord s p = some (word, p.advanced) := by
  simp [anyWord, wordOf?, h]

/-- There is no angle to split. -/
theorem splitAngle_of_ne (h : p.current.token ≠ .mark "<<") : splitAngle s p = some ((), p) := by
  simp [splitAngle, h]

/-! ## Repetition -/

/-- What a step gives one after the other until it gives none. -/
inductive Collects (step : Reader (Option α)) (s : Setting) : Progress → List α → Progress → Prop
  | nil {p q : Progress} (h : step s p = some (none, q)) : Collects step s p [] q
  | cons {p q q' : Progress} {a : α} {as : List α} (h : step s p = some (some a, q))
    (hrest : Collects step s q as q') : Collects step s p (a :: as) q'

/-- Enough steps collect everything. -/
theorem Collects.upTo {step : Reader (Option α)} {as : List α} (h : Collects step s p as q)
    {n : Nat} (hn : as.length < n) : collectUpTo step n s p = some (as, q) := by
  induction h generalizing n with
  | nil h =>
    obtain ⟨n, rfl⟩ := Nat.exists_eq_succ_of_ne_zero (Nat.ne_zero_of_lt hn)
    simp [collectUpTo, h]
  | cons h hrest ih =>
    obtain ⟨n, rfl⟩ := Nat.exists_eq_succ_of_ne_zero (Nat.ne_zero_of_lt hn)
    simp [collectUpTo, h, ih (Nat.lt_of_succ_lt_succ hn)]

/-- As many steps as characters are enough. -/
theorem Collects.collect {step : Reader (Option α)} {as : List α} (h : Collects step s p as q)
    (hlength : as.length ≤ p.current.here.rest.length) : collect step s p = some (as, q) := by
  simp [Reader.collect, h.upTo (Nat.lt_succ_of_le hlength)]

/-- A step that gives none collects nothing. -/
theorem collect_none {step : Reader (Option α)} (h : step s p = some (none, p)) :
    collect step s p = some ([], p) :=
  (Collects.nil h).collect (Nat.zero_le _)

/-- How a value grows until a step gives none. -/
inductive Grows (step : α → Reader (Option α)) (s : Setting) :
    Nat → α → Progress → α → Progress → Prop
  | stop {a : α} {p q : Progress} (h : step a s p = some (none, q)) : Grows step s 0 a p a q
  | go {n : Nat} {a b c : α} {p q q' : Progress} (h : step a s p = some (some b, q))
    (hrest : Grows step s n b q c q') : Grows step s (n + 1) a p c q'

/-- Enough steps let a value grow to its end. -/
theorem Grows.upTo {step : α → Reader (Option α)} {k : Nat} {b : α}
    (h : Grows step s k a p b q) {n : Nat} (hn : k < n) :
    growUpTo step n a s p = some (b, q) := by
  induction h generalizing n with
  | stop h =>
    obtain ⟨n, rfl⟩ := Nat.exists_eq_succ_of_ne_zero (Nat.ne_zero_of_lt hn)
    simp [growUpTo, h]
  | go h hrest ih =>
    obtain ⟨n, rfl⟩ := Nat.exists_eq_succ_of_ne_zero (Nat.ne_zero_of_lt hn)
    simp [growUpTo, h, ih (Nat.lt_of_succ_lt_succ hn)]

/-- As many steps as characters are enough. -/
theorem Grows.grow {step : α → Reader (Option α)} {k : Nat} {b : α}
    (h : Grows step s k a p b q) (hk : k ≤ p.current.here.rest.length) :
    grow step a s p = some (b, q) := by
  simp [Reader.grow, h.upTo (Nat.lt_succ_of_le hk)]

/-- One step through items with commas between them. -/
def listed (close : String) (item : Reader α) : Reader (Option α) := do
  if ← atMark close then return none
  let a ← item
  if !(← atMark close) then expectMark ","
  return some a

section

variable {close : String} {item : Reader α} {a : α}

/-- Items are collected up to the closing mark. -/
theorem commaSeparated_eq (close : String) (item : Reader α) :
    commaSeparated close item = collect (listed close item) := rfl

/-- There is no item at the closing mark. -/
theorem listed_close (h : p.current.token = .mark close) :
    listed close item s p = some (none, p) := by
  simp [listed, h]

/-- The last item is read. -/
theorem listed_last (hp : p.current.token ≠ .mark close) (h : item s p = some (a, q))
    (hq : q.current.token = .mark close) : listed close item s p = some (some a, q) := by
  simp [listed, hp, h, hq]

/-- An item is read with the comma behind it. -/
theorem listed_comma (hclose : close ≠ ",") (hp : p.current.token ≠ .mark close)
    (h : item s p = some (a, q)) (hq : q.current.token = .mark ",") :
    listed close item s p = some (some a, q.advanced) := by
  simp [listed, hp, h, hq, hclose.symm, expectMark_of hq]

end

/-- One step through items up to a mark. -/
def upTo (close : String) (item : Reader α) : Reader (Option α) := do
  if ← atMark close then return none
  return some (← item)

/-- Items are collected up to the closing mark. -/
theorem untilMark_eq (close : String) (item : Reader α) :
    untilMark close item = collect (upTo close item) := rfl

/-- There is no item at the closing mark. -/
theorem upTo_close {close : String} {item : Reader α} (h : p.current.token = .mark close) :
    upTo close item s p = some (none, p) := by
  simp [upTo, h]

/-- An item is read where the closing mark is not next. -/
theorem upTo_item {close : String} {item : Reader α} (hp : p.current.token ≠ .mark close)
    (h : item s p = some (a, q)) : upTo close item s p = some (some a, q) := by
  simp [upTo, hp, h]

/-- One step through items behind a mark. -/
def further (mark : String) (item : Reader α) : Reader (Option α) := do
  if ← eatMark mark then return some (← item) else return none

/-- There is no item where the mark is not next. -/
theorem further_of_ne {mark : String} {item : Reader α} (h : p.current.token ≠ .mark mark) :
    further mark item s p = some (none, p) := by
  simp [further, eatMark_of_ne h]

/-- An item is read behind the mark. -/
theorem further_of {mark : String} {item : Reader α} (h : p.current.token = .mark mark)
    (hitem : item s p.advanced = some (a, q)) : further mark item s p = some (some a, q) := by
  simp [further, eatMark_of h, hitem]

/-- Where an item is read, the mark is next. -/
theorem token_of_further {mark : String} {item : Reader α}
    (h : further mark item s p = some (some a, q)) : p.current.token = .mark mark := by
  by_cases hmark : p.current.token = .mark mark
  · exact hmark
  · rw [further_of_ne hmark] at h
    cases h

end Reader

/-! ## Places -/

/-- Behind what was read up to a position. -/
def passed (rest : List Char) (pos : Nat) (names : List TypeName) (pieces : List Piece) :
    Progress :=
  ⟨nextLexeme ⟨rest, pos⟩, pos, names, pieces⟩

/-- The next token starts the text. -/
def Progress.StandsAt (p : Progress) (cs : List Char) (pos : Nat) : Prop :=
  ∃ onNewLine, p.current = lexemeAt ⟨cs, pos⟩ onNewLine

/-- The token with these characters is next. -/
structure Progress.At (p : Progress) (token : Token) (cs rest : List Char) (pos : Nat) : Prop where
  token : p.current.token = token
  here : p.current.here = ⟨cs ++ rest, pos⟩
  after : p.current.after = ⟨rest, pos + byteSize cs⟩

namespace Progress

variable {p : Progress} {t : Token} {cs rest : List Char} {pos : Nat}

/-- The next token is what is scanned at the start of the text. -/
theorem StandsAt.token (h : p.StandsAt cs pos) : p.current.token = (scanToken cs).1 := by
  obtain ⟨onNewLine, hp⟩ := h
  rw [hp]
  rfl

/-- The next token stands where the text does. -/
theorem StandsAt.here (h : p.StandsAt cs pos) : p.current.here = ⟨cs, pos⟩ := by
  obtain ⟨onNewLine, hp⟩ := h
  rw [hp]
  rfl

/-- A token that is scanned is next. -/
theorem StandsAt.at (h : p.StandsAt (cs ++ rest) pos) (hscans : Scans cs rest t) :
    p.At t cs rest pos := by
  obtain ⟨onNewLine, hp⟩ := h
  rw [lexemeAt_of_scans hscans] at hp
  exact ⟨by rw [hp], by rw [hp], by rw [hp]⟩

/-- Going past a token. -/
theorem At.advanced (h : p.At t cs rest pos) :
    p.advanced = passed rest (pos + byteSize cs) p.names p.pieces := by
  rw [Progress.advanced, h.after]
  rfl

end Progress

end IpcWiring.Script
