import IpcWiring.Proofs.Script.Running
import IpcWiring.Script.Grammar.Types

/-!
# How far a reader comes

On its way a reader notes the literals it passes, as pieces that stand for their spans. `Reaches` tells
where it comes to and what the pieces splice the characters on the way to; ways are joined by
`Reaches.trans`, and a literal that is noted replaces what was noted inside it (`Reaches.noted`).
-/

namespace IpcWiring.Script

/-! ## Splicing -/

/-- A piece starts no earlier than the position. -/
def StartsFrom (pos : Nat) (pieces : List Piece) : Prop := ∀ p ∈ pieces, pos ≤ p.start

/-- The characters at the position are spliced with the pieces to the other text. -/
structure Splices (pos : Nat) (cs : List Char) (pieces : List Piece) (out : List Char) : Prop where
  starts : StartsFrom pos pieces
  spliced : ∀ {stop : Nat} {later : List Piece} {rest : List Char}, pos + byteSize cs ≤ stop →
    StartsFrom (pos + byteSize cs) later →
    splice stop pos (pieces ++ later) (cs ++ rest) =
      out ++ splice stop (pos + byteSize cs) later rest

namespace Splices

variable {pos : Nat} {cs cs' out out' : List Char} {pieces pieces' : List Piece}

/-- Characters that no piece stands for are kept. -/
theorem raw (pos : Nat) (cs : List Char) : Splices pos cs [] cs where
  starts := fun p hp => (List.not_mem_nil hp).elim
  spliced := by
    intro stop later rest hstop hlater
    induction cs generalizing pos with
    | nil => rfl
    | cons c cs ih =>
      have hsize := c.utf8Size_pos
      rw [byteSize_cons, ← Nat.add_assoc] at hstop hlater ⊢
      have htail := ih (pos + c.utf8Size) hstop hlater
      have hpos : ¬pos ≥ stop := by omega
      rw [List.nil_append] at htail ⊢
      rw [List.cons_append, splice, if_neg hpos]
      cases later with
      | nil => simp only [htail, List.cons_append]
      | cons p later =>
        have hstart : pos < p.start := by
          have hp := hlater p List.mem_cons_self
          omega
        simp only [if_pos hstart, htail, List.cons_append]

/-- Texts one after the other. -/
theorem append (h : Splices pos cs pieces out)
    (h' : Splices (pos + byteSize cs) cs' pieces' out') :
    Splices pos (cs ++ cs') (pieces ++ pieces') (out ++ out') where
  starts := by
    intro p hp
    rcases List.mem_append.1 hp with hp | hp
    · exact h.starts p hp
    · have hstart := h'.starts p hp
      omega
  spliced := by
    intro stop later rest hstop hlater
    rw [byteSize_append, ← Nat.add_assoc] at hstop hlater ⊢
    rw [List.append_assoc, List.append_assoc, h.spliced (by omega), h'.spliced hstop hlater,
      List.append_assoc]
    intro p hp
    rcases List.mem_append.1 hp with hp | hp
    · exact h'.starts p hp
    · have hstart := hlater p hp
      omega

/-- Behind the start of a piece nothing is kept up to its end. -/
theorem inside {stop : Nat} {piece : Piece} {later : List Piece} {rest : List Char}
    (hpos : piece.start < pos) (hend : piece.stop = pos + byteSize cs) (hcs : cs ≠ [])
    (hstop : piece.stop ≤ stop) :
    splice stop pos (piece :: later) (cs ++ rest) = splice stop piece.stop later rest := by
  induction cs generalizing pos with
  | nil => exact (hcs rfl).elim
  | cons c cs ih =>
    have hsize := c.utf8Size_pos
    rw [byteSize_cons, ← Nat.add_assoc] at hend
    have hbefore : ¬pos ≥ stop := by omega
    rw [List.cons_append, splice, if_neg hbefore]
    simp only [if_neg (Nat.lt_asymm hpos), if_neg (Nat.ne_of_gt hpos)]
    cases cs with
    | nil =>
      have hnext : pos + c.utf8Size = piece.stop := hend.symm
      rw [if_pos (Nat.le_of_eq hnext.symm), hnext]
      rfl
    | cons d cs =>
      have hd := d.utf8Size_pos
      have hnext : ¬pos + c.utf8Size ≥ piece.stop := by
        rw [byteSize_cons] at hend
        omega
      rw [if_neg hnext]
      exact ih (by omega) hend (List.cons_ne_nil d cs)

/-- A piece stands for its characters. -/
theorem piece (pos : Nat) {cs : List Char} (hcs : cs ≠ []) (text : String) :
    Splices pos cs [⟨pos, pos + byteSize cs, text⟩] text.toList where
  starts := fun p hp => Nat.le_of_eq (List.mem_singleton.1 hp ▸ rfl)
  spliced := by
    intro stop later rest hstop hlater
    obtain ⟨c, cs, rfl⟩ := List.exists_cons_of_ne_nil hcs
    have hsize := c.utf8Size_pos
    have hend : pos + byteSize (c :: cs) = pos + c.utf8Size + byteSize cs := by
      rw [byteSize_cons, Nat.add_assoc]
    have hpos : ¬pos ≥ stop := by omega
    rw [List.singleton_append, List.cons_append, splice, if_neg hpos]
    simp only [if_neg (Nat.lt_irrefl pos), if_pos]
    cases cs with
    | nil =>
      have hnext : pos + c.utf8Size = pos + byteSize [c] := hend.symm
      rw [if_pos (Nat.le_of_eq hnext.symm), hnext]
      rfl
    | cons d cs =>
      have hd := d.utf8Size_pos
      have hnext : ¬pos + c.utf8Size ≥ pos + byteSize (c :: d :: cs) := by
        rw [hend, byteSize_cons]
        omega
      rw [if_neg hnext, inside (by simp only; omega) hend (List.cons_ne_nil d cs) hstop]

/-- A span is cut out with its pieces. -/
theorem whole (h : Splices pos cs pieces out) (rest : List Char) :
    splice (pos + byteSize cs) pos pieces (cs ++ rest) = out := by
  have hspliced : splice (pos + byteSize cs) pos (pieces ++ []) (cs ++ rest) =
      out ++ splice (pos + byteSize cs) (pos + byteSize cs) [] rest :=
    h.spliced (Nat.le_refl _) fun p hp => (List.not_mem_nil hp).elim
  have hend : splice (pos + byteSize cs) (pos + byteSize cs) [] rest = [] := by
    cases rest with
    | nil => rfl
    | cons c rest => rw [splice, if_pos (Nat.le_refl _)]
  rwa [List.append_nil, hend, List.append_nil] at hspliced

end Splices

/-! ## Reading up to a place -/

/-- From the first state a text at the position is read, and the second state stands before the
rest; what was noted on the way splices the text to the other one. -/
def Reaches (p q : Progress) (pos : Nat) (cs out rest : List Char) : Prop :=
  ∃ names pieces, Splices pos cs pieces out ∧
    q = passed rest (pos + byteSize cs) (names ++ p.names) (pieces.reverse ++ p.pieces)

namespace Reaches

variable {p q q' : Progress} {pos : Nat} {cs cs' out out' rest : List Char} {t : Token}

/-- The next token is read. -/
theorem token (h : p.At t cs rest pos) : Reaches p p.advanced pos cs cs rest :=
  ⟨[], [], .raw pos cs, h.advanced⟩

/-- Texts one after the other. -/
theorem trans (h : Reaches p q pos cs out (cs' ++ rest))
    (h' : Reaches q q' (pos + byteSize cs) cs' out' rest) :
    Reaches p q' pos (cs ++ cs') (out ++ out') rest := by
  obtain ⟨names, pieces, hsplices, rfl⟩ := h
  obtain ⟨names', pieces', hsplices', rfl⟩ := h'
  refine ⟨names' ++ names, pieces ++ pieces', hsplices.append hsplices', ?_⟩
  simp [passed, byteSize_append, Nat.add_assoc]

/-- Gaps in front are part of the text. -/
theorem gaps (gaps : Gaps) (h : Reaches p q (pos + byteSize gaps.chars) cs out rest) :
    Reaches p q pos (gaps.chars ++ cs) (gaps.chars ++ out) rest := by
  obtain ⟨names, pieces, hsplices, rfl⟩ := h
  refine ⟨names, pieces, (Splices.raw pos gaps.chars).append hsplices, ?_⟩
  rw [byteSize_append, Nat.add_assoc]

/-- What is next stands in the rest. -/
theorem current (h : Reaches p q pos cs out rest) :
    q.current = nextLexeme ⟨rest, pos + byteSize cs⟩ := by
  obtain ⟨names, pieces, -, rfl⟩ := h
  rfl

/-- What stands behind gaps is next. -/
theorem standsAt {gaps : Gaps} (h : Reaches p q pos cs out (gaps.chars ++ rest))
    (hrest : Solid rest) : q.StandsAt rest (pos + byteSize cs + byteSize gaps.chars) :=
  ⟨gaps.breaks, by rw [h.current, nextLexeme_gaps gaps hrest]⟩

/-- The gaps tell whether a line ends. -/
theorem onNewLine {gaps : Gaps} (h : Reaches p q pos cs out (gaps.chars ++ rest))
    (hrest : Solid rest) : q.current.onNewLine = gaps.breaks := by
  rw [h.current, nextLexeme_gaps gaps hrest]
  rfl

/-- Noting a name changes nothing else. -/
theorem noteName (h : Reaches p q pos cs out rest) (name : TypeName) :
    Reaches p { q with names := name :: q.names } pos cs out rest := by
  obtain ⟨names, pieces, hsplices, rfl⟩ := h
  exact ⟨name :: names, pieces, hsplices, rfl⟩

end Reaches

/-! ## Notes -/

/-- The place of the next token. -/
def Progress.mark (p : Progress) : Reader.Mark := ⟨p.current.here, p.names.length, p.pieces.length⟩

/-- A type from a place up to the token read last. -/
def finished (m : Reader.Mark) (form : TypeForm) (q : Progress) : TypeExpr :=
  ⟨form, String.ofList (normalizeChars (splice q.lastStop m.here.pos
      (q.pieces.take (q.pieces.length - m.pieces)).reverse m.here.rest)), m.here.pos,
    appendNew [] (q.names.take (q.names.length - m.names)).reverse⟩

section

variable {p q : Progress} {pos : Nat} {cs out rest : List Char} {s : Setting}

@[simp]
theorem Reader.mark_run : Reader.mark s p = some (p.mark, p) := rfl

@[simp]
theorem Reader.noteName_run (name : TypeName) :
    Reader.noteName name s p = some ((), { p with names := name :: p.names }) := rfl

@[simp]
theorem Grammar.finish_run (m : Reader.Mark) (form : TypeForm) :
    Grammar.finish m form s q = some (finished m form q, q) := rfl

/-- The text of a type is what its characters are spliced to, on one line. -/
theorem Reaches.text_finished (h : Reaches p q pos cs out rest)
    (hhere : p.current.here = ⟨cs ++ rest, pos⟩) (form : TypeForm) :
    (finished p.mark form q).text = String.ofList (normalizeChars out) := by
  obtain ⟨names, pieces, hsplices, rfl⟩ := h
  have hpieces : ((pieces.reverse ++ p.pieces).take
      ((pieces.reverse ++ p.pieces).length - p.pieces.length)).reverse = pieces := by
    rw [List.length_append, Nat.add_sub_cancel, List.take_left', List.reverse_reverse]
    rfl
  simp only [finished, Progress.mark, passed, hpieces, hhere, hsplices.whole]

/-- The state once the span since a place is noted as a literal. -/
def noted (m : Reader.Mark) (text : String) (q : Progress) : Progress :=
  { q with
    pieces := ⟨m.here.pos, q.lastStop, text⟩ :: q.pieces.drop (q.pieces.length - m.pieces) }

@[simp]
theorem Reader.noteLiteral_run (m : Reader.Mark) (text : String) :
    Reader.noteLiteral m text s q = some ((), noted m text q) := rfl

/-- A literal that is noted stands for its characters. -/
theorem Reaches.noted (h : Reaches p q pos cs out rest)
    (hhere : p.current.here = ⟨cs ++ rest, pos⟩) (hcs : cs ≠ []) (text : String) :
    Reaches p (noted p.mark text q) pos cs text.toList rest := by
  obtain ⟨names, pieces, hsplices, rfl⟩ := h
  refine ⟨names, [⟨pos, pos + byteSize cs, text⟩], .piece pos hcs text, ?_⟩
  simp [Script.noted, passed, Progress.mark, hhere]

end

end IpcWiring.Script
