import Schematic.Proofs.Pieces
import Schematic.Proofs.ReaderStep
import Schematic.Token

/-!
# Sources line by line

A source is read one line after another, and between two lines only the depth of the open block
comments is kept. Where a source can be read to its end no comment is open, so whatever is put
behind it on further lines is read as if it stood alone, further down.
-/

namespace Schematic

namespace Token

/-- A line without a carriage return at its end. -/
def withoutReturn (line : Text) : Text :=
  if line.getLast? = some 0x0D then line.dropLast else line

theorem lines_eq (source : Text) :
    lines source =
      let pieces := Text.splitOn 0x0A source
      (if pieces.getLast? = some [] then pieces.dropLast else pieces).map withoutReturn :=
  rfl

theorem exists_append_withoutReturn (line : Text) :
    ∃ tail, withoutReturn line ++ tail = line ∧ (tail = [] ∨ tail = [0x0D]) := by
  unfold withoutReturn
  split
  · rename_i hlast
    exact ⟨[0x0D], List.dropLast_append_getLast? _ hlast, .inr rfl⟩
  · exact ⟨[], List.append_nil line, .inl rfl⟩

/-- A line is remembered exactly while a comment is open. -/
theorem openedAfter_eq_none_iff (opened : Option Nat) (line depth : Nat) :
    openedAfter opened line depth = none ↔ depth = 0 := by
  unfold openedAfter
  split <;> simp_all

theorem lexLines_cons (line depth : Nat) (opened : Option Nat) (source : Text) (rest : List Text) :
    lexLines line depth opened (source :: rest) =
      match stripComments depth source with
      | some (code, depth) =>
        (lexLines (line + 1) depth (openedAfter opened line depth) rest).map
          ((splitLine code).map (Token.mk line) ++ ·)
      | none => .error (.unmatchedEnd line) := by
  rw [lexLines]
  cases stripComments depth source with
  | none => rfl
  | some stripped =>
      change lexLines _ _ _ rest >>= _ = (lexLines _ _ _ rest).map _
      cases lexLines (line + 1) stripped.2 (openedAfter opened line stripped.2) rest <;> rfl

theorem exists_of_lexLines_cons {line depth : Nat} {opened : Option Nat} {source : Text}
    {rest : List Text} {tokens : List Token}
    (h : lexLines line depth opened (source :: rest) = .ok tokens) :
    ∃ code last later, stripComments depth source = some (code, last) ∧
      lexLines (line + 1) last (openedAfter opened line last) rest = .ok later ∧
        tokens = (splitLine code).map (Token.mk line) ++ later := by
  rw [lexLines_cons] at h
  cases hstrip : stripComments depth source with
  | none => exact absurd h (by simp [hstrip])
  | some stripped =>
      obtain ⟨code, last⟩ := stripped
      simp only [hstrip] at h
      cases hlater : lexLines (line + 1) last (openedAfter opened line last) rest with
      | error e => exact absurd h (by simp [hlater, Except.map])
      | ok later =>
          rw [hlater] at h
          exact ⟨code, last, later, rfl, hlater, (Except.ok.inj h).symm⟩

/-- Behind lines that end outside all comments, lexing goes on as at the start of a source. -/
theorem lexLines_append {line depth : Nat} {opened : Option Nat} {before : List Text}
    {tokens : List Token} (hopened : opened = none ↔ depth = 0)
    (h : lexLines line depth opened before = .ok tokens) (behind : List Text) :
    lexLines line depth opened (before ++ behind) =
      (lexLines (line + before.length) 0 none behind).map (tokens ++ ·) := by
  induction before generalizing line depth opened tokens with
  | nil =>
      cases opened with
      | some first => exact absurd h (by simp [lexLines])
      | none =>
          obtain rfl := hopened.mp rfl
          obtain rfl := Except.ok.inj h
          rw [List.nil_append, List.length_nil, Nat.add_zero]
          cases lexLines line 0 none behind <;> rfl
  | cons source before ih =>
      obtain ⟨code, last, later, hstrip, hlater, rfl⟩ := exists_of_lexLines_cons h
      have hlength : line + 1 + before.length = line + (source :: before).length := by
        rw [List.length_cons]
        omega
      rw [List.cons_append, lexLines_cons, hstrip]
      dsimp only
      rw [ih (openedAfter_eq_none_iff opened line last) hlater, hlength]
      cases lexLines (line + (source :: before).length) 0 none behind with
      | error e => rfl
      | ok others => simp [Except.map]

/-- An empty line at the end makes no difference. -/
theorem lexLines_concat_nil {line depth : Nat} {opened : Option Nat} (ls : List Text)
    (hopened : opened = none ↔ depth = 0) :
    lexLines line depth opened (ls ++ [[]]) = lexLines line depth opened ls := by
  induction ls generalizing line depth opened with
  | nil =>
      rw [List.nil_append, lexLines_cons]
      cases opened with
      | none =>
          obtain rfl := hopened.mp rfl
          rfl
      | some first =>
          have hdepth : depth ≠ 0 := fun hdepth => absurd (hopened.mpr hdepth) (by simp)
          simp [stripComments, openedAfter, hdepth, lexLines, Except.map]
  | cons source ls ih =>
      rw [List.cons_append, lexLines_cons, lexLines_cons]
      cases stripComments depth source with
      | none => rfl
      | some stripped =>
          dsimp only
          rw [ih (openedAfter_eq_none_iff opened line stripped.2)]

/-- Lexing goes over the pieces of a source between line feeds. -/
theorem lex_eq (source : Text) :
    lex source = lexLines 1 0 none ((Text.splitOn 0x0A source).map withoutReturn) := by
  rw [lex, lines_eq]
  generalize Text.splitOn 0x0A source = pieces
  dsimp only
  split
  · rename_i hlast
    obtain ⟨front, rfl⟩ : ∃ front, pieces = front ++ [[]] :=
      ⟨_, (List.dropLast_append_getLast? _ hlast).symm⟩
    rw [List.dropLast_concat, List.map_append]
    exact (lexLines_concat_nil _ (by simp)).symm
  · rfl

/-! ## Further down -/

end Token

namespace CommentError

/-- An error a number of lines further down. -/
def moveDown (count : Nat) : CommentError → CommentError
  | unterminated line => unterminated (line + count)
  | unmatchedEnd line => unmatchedEnd (line + count)

end CommentError

namespace Token

/-- A token a number of lines further down. -/
def moveDown (count : Nat) (t : Token) : Token :=
  { t with line := t.line + count }

/-- What lexing comes to, a number of lines further down. -/
def resultBelow (count : Nat) : Except CommentError (List Token) → Except CommentError (List Token)
  | .ok tokens => .ok (tokens.map (moveDown count))
  | .error e => .error (e.moveDown count)

theorem openedAfter_moveDown (opened : Option Nat) (line depth count : Nat) :
    openedAfter (opened.map (· + count)) (line + count) depth =
      (openedAfter opened line depth).map (· + count) := by
  unfold openedAfter
  split
  · rfl
  · cases opened <;> rfl

/-- The number of the first line is added to what is found on every line. -/
theorem lexLines_moveDown (line depth count : Nat) (opened : Option Nat) (ls : List Text) :
    lexLines (line + count) depth (opened.map (· + count)) ls =
      resultBelow count (lexLines line depth opened ls) := by
  induction ls generalizing line depth opened with
  | nil => cases opened <;> rfl
  | cons source ls ih =>
      rw [lexLines_cons, lexLines_cons]
      cases stripComments depth source with
      | none => rfl
      | some stripped =>
          obtain ⟨code, last⟩ := stripped
          dsimp only
          rw [openedAfter_moveDown, Nat.add_right_comm line count 1, ih]
          cases lexLines (line + 1) last (openedAfter opened line last) ls with
          | error e => rfl
          | ok later => simp [resultBelow, moveDown, Except.map]

/-- A source that is put behind another one on lines of its own is lexed as if it stood alone. -/
theorem lex_append {p : Text} {tokens : List Token} (h : lex p = .ok tokens) (q : Text) :
    lex (p ++ 0x0A :: q) = (resultBelow (1 + p.count 0x0A) (lex q)).map (tokens ++ ·) := by
  have hbelow := lexLines_moveDown 1 0 (1 + p.count 0x0A) none
    ((Text.splitOn 0x0A q).map withoutReturn)
  rw [Option.map_none, ← lex_eq] at hbelow
  rw [lex_eq] at h
  rw [lex_eq, Text.splitOn_append, List.map_append, lexLines_append (by simp) h, List.length_map,
    Text.length_splitOn, Nat.add_comm (p.count 0x0A), hbelow]

theorem exists_of_lex_append {p q : Text} {before tokens : List Token} (hp : lex p = .ok before)
    (hpq : lex (p ++ 0x0A :: q) = .ok tokens) : ∃ behind, tokens = before ++ behind := by
  rw [lex_append hp] at hpq
  cases hbehind : resultBelow (1 + p.count 0x0A) (lex q) with
  | error e => exact absurd hpq (by simp [hbehind, Except.map])
  | ok behind =>
      rw [hbehind] at hpq
      exact ⟨behind, (Except.ok.inj hpq).symm⟩

/-- Lexing is done line by line: what stands behind a source that can be read to its end is lexed
as if it stood alone, and its tokens and errors are found as many lines further down as the source
and the line feed behind it take. -/
theorem lex_line_feed {p : Text} {tokens : List Token} (h : lex p = .ok tokens) (q : Text) :
    lex (p ++ 0x0A :: q) =
      match lex q with
      | .ok behind => .ok (tokens ++ behind.map (moveDown (1 + p.count 0x0A)))
      | .error e => .error (e.moveDown (1 + p.count 0x0A)) := by
  rw [lex_append h]
  cases lex q <;> rfl

theorem lex_line_feed_return :
    lex "a /* b\r\n*/ c\n" = .ok [⟨1, "a"⟩, ⟨2, "c"⟩] ∧
      lex (Text.ofString "a /* b\r\n*/ c\n" ++ 0x0A :: Text.ofString "d;\n/*") =
        .error (.unterminated 5) ∧
      lex (Text.ofString "a /* b\r\n*/ c\n" ++ 0x0A :: Text.ofString "d;") =
        .ok [⟨1, "a"⟩, ⟨2, "c"⟩, ⟨4, "d"⟩, ⟨4, ";"⟩] := by
  have h : lex "a /* b\r\n*/ c\n" = .ok [⟨1, "a"⟩, ⟨2, "c"⟩] := by decide +kernel
  have hopen : lex "d;\n/*" = .error (.unterminated 2) := by decide +kernel
  have hcode : lex "d;" = .ok [⟨1, "d"⟩, ⟨1, ";"⟩] := by decide +kernel
  refine ⟨h, ?_, ?_⟩
  · rw [lex_line_feed h, hopen]
    decide +kernel
  · rw [lex_line_feed h, hcode]
    decide +kernel

end Token

end Schematic
