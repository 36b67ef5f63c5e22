import Mathlib.Data.List.Infix
import Schematic.Proofs.LineByLine

/-!
# Comments that stay open

Which comments are open behind a text is seen by reading it byte by byte. A comment that is open at
the end of a source was opened by the last mark that stands outside all comments. Lexing keeps only
the depth at the ends of lines, and so it names the last line that starts outside all comments: this
is the line of the mark unless that line starts inside a comment which is closed there.
-/

namespace Schematic.Token

/-! ## Reading byte by byte -/

/-- What the bytes in front of a byte say about comments. -/
structure Nesting where
  /-- How many block comments are open. -/
  depth : Nat := 0
  inLineComment : Bool := false
  /-- The byte in front, if it may be the first one of a mark. -/
  previous : Option UInt8 := none
  deriving Repr, DecidableEq

namespace Nesting

def step (s : Nesting) (b : UInt8) : Nesting :=
  if b = 0x0A then { depth := s.depth }
  else if s.inLineComment then { s with previous := none }
  else if s.previous = some 0x2F ∧ b = 0x2A then { depth := s.depth + 1 }
  else if s.previous = some 0x2A ∧ b = 0x2F then { depth := s.depth - 1 }
  else if s.depth = 0 ∧ s.previous = some 0x2F ∧ b = 0x2F then { inLineComment := true }
  else { s with previous := some b }

/-- The second byte of a mark opens or closes a comment; any other byte leaves the depth as it is,
and is kept if it may be the first one of a mark. -/
theorem step_cases (s : Nesting) (b : UInt8) :
    ((s.step b).depth = s.depth ∧ ∀ c, (s.step b).previous = some c → b = c) ∨
      (s.previous = some 0x2F ∧ b = 0x2A ∧ s.step b = { depth := s.depth + 1 }) ∨
      (s.previous = some 0x2A ∧ b = 0x2F ∧ s.step b = { depth := s.depth - 1 }) := by
  unfold step
  split
  · exact .inl ⟨rfl, by simp⟩
  split
  · exact .inl ⟨rfl, by simp⟩
  split
  · rename_i hopen
    exact .inr (.inl ⟨hopen.1, hopen.2, rfl⟩)
  split
  · rename_i hclose
    exact .inr (.inr ⟨hclose.1, hclose.2, rfl⟩)
  split
  · rename_i hline
    exact .inl ⟨hline.1.symm, by simp⟩
  · exact .inl ⟨rfl, by simp⟩

/-- A byte that is the second one of no mark leaves the depth as it is. -/
theorem depth_step (s : Nesting) {b : UInt8} (hopen : b ≠ 0x2A) (hclose : b ≠ 0x2F) :
    (s.step b).depth = s.depth := by
  rcases s.step_cases b with ⟨hdepth, -⟩ | ⟨-, hb, -⟩ | ⟨-, hb, -⟩
  · exact hdepth
  · exact absurd hb hopen
  · exact absurd hb hclose

theorem previous_of_opens {s : Nesting} {b : UInt8} (hs : s.depth = 0)
    (h : (s.step b).depth ≠ 0) : s.previous = some 0x2F ∧ b = 0x2A := by
  rcases s.step_cases b with ⟨hdepth, -⟩ | ⟨hprevious, hb, -⟩ | ⟨-, -, hstep⟩
  · exact absurd (hdepth.trans hs) h
  · exact ⟨hprevious, hb⟩
  · exact absurd (by simp [hstep, hs]) h

theorem eq_of_previous {s : Nesting} {b c : UInt8} (h : (s.step b).previous = some c) :
    b = c ∧ (s.step b).depth = s.depth := by
  rcases s.step_cases b with ⟨hdepth, hkept⟩ | ⟨-, -, hstep⟩ | ⟨-, -, hstep⟩
  · exact ⟨hkept c h, hdepth⟩
  · exact absurd h (by simp [hstep])
  · exact absurd h (by simp [hstep])

theorem step_first {depth : Nat} {b : UInt8} (h : b ≠ 0x0A) :
    step { depth } b = { depth, previous := some b } := by
  simp [step, h]

/-- A byte that makes no mark with the next one can be forgotten. -/
theorem step_of_not_mark {depth : Nat} {b c : UInt8} (hopen : ¬(b = 0x2F ∧ c = 0x2A))
    (hclose : ¬(b = 0x2A ∧ c = 0x2F)) (hline : ¬(depth = 0 ∧ b = 0x2F ∧ c = 0x2F)) :
    step { depth, previous := some b } c = step { depth } c := by
  simp only [step, Option.some.injEq, hopen, hclose, hline]
  simp

end Nesting

open Nesting

/-- How many block comments are open behind a text. -/
def openComments (t : Text) : Nat :=
  (t.foldl step {}).depth

theorem openComments_concat (t : Text) (b : UInt8) :
    openComments (t ++ [b]) = ((t.foldl step {}).step b).depth := by
  rw [openComments, List.foldl_concat]

/-! ## Lines -/

theorem foldl_of_not_mark {depth : Nat} {b : UInt8} {t : Text}
    (hopen : ∀ rest, b = 0x2F → t = 0x2A :: rest → False)
    (hclose : ∀ rest, b = 0x2A → t = 0x2F :: rest → False)
    (hline : ∀ rest, depth = 0 → b = 0x2F → t = 0x2F :: rest → False) :
    (t.foldl step { depth, previous := some b }).depth = (t.foldl step { depth }).depth := by
  cases t with
  | nil => rfl
  | cons c rest =>
      have hstep : step { depth, previous := some b } c = step { depth } c := by
        apply step_of_not_mark
        · rintro ⟨rfl, rfl⟩
          exact hopen rest rfl rfl
        · rintro ⟨rfl, rfl⟩
          exact hclose rest rfl rfl
        · rintro ⟨rfl, rfl, rfl⟩
          exact hline rest rfl rfl rfl
      rw [List.foldl_cons, List.foldl_cons, hstep]

theorem foldl_lineComment {t : Text} (h : 0x0A ∉ t) :
    t.foldl step { inLineComment := true } = { inLineComment := true } := by
  induction t with
  | nil => rfl
  | cons b t ih =>
      rw [List.mem_cons, not_or] at h
      have hstep : step { inLineComment := true } b = { inLineComment := true } := by
        simp [step, Ne.symm h.1]
      rw [List.foldl_cons, hstep, ih h.2]

/-- Taking the comments out of a line finds the depth that reading it byte by byte finds. -/
theorem foldl_of_stripComments {depth last : Nat} {t code : Text} (ht : 0x0A ∉ t)
    (h : stripComments depth t = some (code, last)) : (t.foldl step { depth }).depth = last := by
  induction depth, t using stripComments.induct generalizing code with
  | case1 depth => exact (Prod.mk.inj (Option.some.inj h)).2
  | case2 depth t ih =>
      simp only [List.mem_cons, not_or] at ht
      rw [stripComments] at h
      rw [List.foldl_cons, step_first (by decide)]
      exact ih ht.2.2 h
  | case3 depth t ih =>
      simp only [List.mem_cons, not_or] at ht
      rw [stripComments] at h
      obtain ⟨⟨code, last⟩, hrest, heq⟩ := Option.map_eq_some_iff.mp h
      obtain ⟨-, rfl⟩ := Prod.mk.inj heq
      exact ih ht.2.2 hrest
  | case4 depth b t hopen hclose ih =>
      simp only [List.mem_cons, not_or] at ht
      rw [stripComments.eq_4 depth b t hopen hclose] at h
      rw [List.foldl_cons, step_first (Ne.symm ht.1), foldl_of_not_mark hopen hclose (by simp)]
      exact ih ht.2 h
  | case5 t =>
      simp only [List.mem_cons, not_or] at ht
      obtain ⟨-, rfl⟩ := Prod.mk.inj (Option.some.inj h)
      change (t.foldl step { inLineComment := true }).depth = 0
      rw [foldl_lineComment ht.2.2]
  | case6 t => exact absurd h (by simp [stripComments])
  | case7 b t hopen hline hclose ih =>
      simp only [List.mem_cons, not_or] at ht
      rw [stripComments.eq_7 b t hopen hline hclose] at h
      obtain ⟨⟨code, last⟩, hrest, heq⟩ := Option.map_eq_some_iff.mp h
      obtain ⟨-, rfl⟩ := Prod.mk.inj heq
      rw [List.foldl_cons, step_first (Ne.symm ht.1),
        foldl_of_not_mark hopen hclose fun rest _ => hline rest]
      exact ih ht.2 hrest

/-- Behind the line feed that ends a line only the depth is left. -/
theorem foldl_line {depth last : Nat} {piece code : Text} (hpiece : 0x0A ∉ piece)
    (h : stripComments depth (withoutReturn piece) = some (code, last)) :
    (piece ++ [0x0A]).foldl step { depth } = { depth := last } := by
  obtain ⟨tail, htail, hreturn⟩ := exists_append_withoutReturn piece
  have hclean : 0x0A ∉ withoutReturn piece := by
    intro hmem
    apply hpiece
    rw [← htail]
    exact List.mem_append_left tail hmem
  have hdepth : (piece.foldl step { depth }).depth = last := by
    rw [← foldl_of_stripComments hclean h]
    rcases hreturn with rfl | rfl
    · rw [← List.append_nil (withoutReturn piece), htail]
    · conv_lhs => rw [← htail, List.foldl_concat]
      exact depth_step _ (by decide) (by decide)
  rw [List.foldl_concat, ← hdepth]
  rfl

/-- The depth behind lines that end with line feeds. -/
def depthBehind (depth : Nat) (pieces : List Text) : Nat :=
  ((pieces.flatMap (· ++ [0x0A])).foldl step { depth }).depth

theorem depthBehind_cons {depth last : Nat} {piece code : Text} (hpiece : 0x0A ∉ piece)
    (h : stripComments depth (withoutReturn piece) = some (code, last)) (pieces : List Text) :
    depthBehind depth (piece :: pieces) = depthBehind last pieces := by
  rw [depthBehind, List.flatMap_cons, List.foldl_append, foldl_line hpiece h]
  rfl

theorem eq_of_openedAfter {opened : Option Nat} {line depth n : Nat}
    (h : openedAfter opened line depth = some n) : n = opened.getD line := by
  unfold openedAfter at h
  split at h
  · exact absurd h (by simp)
  · exact (Option.some.inj h).symm

/-- If a comment is still open behind lines, then the line named is the last one that starts outside
all comments, or the one remembered in front of them if there is none. -/
theorem unterminated_of_lexLines {pieces : List Text} (hpieces : ∀ piece ∈ pieces, 0x0A ∉ piece)
    {line depth n : Nat} {opened : Option Nat} (hopened : opened = none ↔ depth = 0)
    (h : lexLines line depth opened (pieces.map withoutReturn) = .error (.unterminated n)) :
    (opened = some n ∧ ∀ count, depthBehind depth (pieces.take count) ≠ 0) ∨
      ∃ index, n = line + index ∧ depthBehind depth (pieces.take index) = 0 ∧
        ∀ count, index < count → depthBehind depth (pieces.take count) ≠ 0 := by
  induction pieces generalizing line depth opened with
  | nil =>
      cases opened with
      | none => exact absurd h (by simp [lexLines])
      | some first =>
          obtain rfl : first = n := by simpa [lexLines] using h
          refine .inl ⟨rfl, fun count => ?_⟩
          rw [List.take_nil]
          exact fun hdepth => absurd (hopened.mpr hdepth) (by simp)
  | cons piece pieces ih =>
      rw [List.forall_mem_cons] at hpieces
      rw [List.map_cons, lexLines_cons] at h
      cases hstrip : stripComments depth (withoutReturn piece) with
      | none => exact absurd h (by simp [hstrip])
      | some stripped =>
          obtain ⟨code, last⟩ := stripped
          have hcons := depthBehind_cons hpieces.1 hstrip
          have hlater : lexLines (line + 1) last (openedAfter opened line last)
              (pieces.map withoutReturn) = .error (.unterminated n) := by
            simp only [hstrip] at h
            cases hrest : lexLines (line + 1) last (openedAfter opened line last)
                (pieces.map withoutReturn) with
            | ok later => exact absurd h (by simp [hrest, Except.map])
            | error e => simpa [hrest, Except.map] using h
          rcases ih hpieces.2 (openedAfter_eq_none_iff opened line last) hlater with
            ⟨hremembered, hinside⟩ | ⟨index, rfl, houtside, hinside⟩
          · -- The first line decides: it starts outside all comments, or a line was remembered.
            have hfirst := eq_of_openedAfter hremembered
            cases opened with
            | none =>
                refine .inr ⟨0, hfirst, hopened.mp rfl, fun count hcount => ?_⟩
                obtain ⟨count, rfl⟩ := Nat.exists_eq_add_of_lt hcount
                rw [Nat.zero_add, List.take_succ_cons, hcons]
                exact hinside count
            | some first =>
                refine .inl ⟨congrArg some hfirst.symm, fun count => ?_⟩
                cases count with
                | zero => exact fun hdepth => absurd (hopened.mpr hdepth) (by simp)
                | succ count =>
                    rw [List.take_succ_cons, hcons]
                    exact hinside count
          · refine .inr ⟨index + 1, by omega, ?_, fun count hcount => ?_⟩
            · rw [List.take_succ_cons, hcons, houtside]
            · obtain ⟨count, rfl⟩ := Nat.exists_eq_add_of_lt hcount
              rw [List.take_succ_cons, hcons]
              exact hinside _ (by omega)

/-! ## The mark of an open comment -/

/-- The first lines of a source, each with its line feed. -/
def firstLines (count : Nat) (source : Text) : Text :=
  ((Text.splitOn 0x0A source).take count).flatMap (· ++ [0x0A])

/-- How many comments are open where a line starts. -/
def depthAt (source : Text) (line : Nat) : Nat :=
  openComments (firstLines (line - 1) source)

/-- The line on which a text ends. -/
def endLine (t : Text) : Nat :=
  1 + t.count 0x0A

/-- Between two parts of a source there is the mark that opened, outside all comments, the one that
is open ever since. -/
structure StillOpen (source before behind : Text) : Prop where
  marked : source = before ++ 0x2F :: 0x2A :: behind
  outside : openComments before = 0
  stays : ∀ t, t <+: behind → openComments (before ++ 0x2F :: 0x2A :: t) ≠ 0

/-- A byte that may be the first one of a mark is the last one of the text. -/
theorem eq_concat_of_previous {t : Text} {b : UInt8} (h : (t.foldl step {}).previous = some b) :
    ∃ before, t = before ++ [b] ∧ openComments before = openComments t := by
  rcases List.eq_nil_or_concat t with rfl | ⟨before, c, rfl⟩
  · exact absurd h (by simp)
  · rw [List.concat_eq_append, List.foldl_concat] at h
    obtain ⟨rfl, hdepth⟩ := eq_of_previous h
    rw [List.concat_eq_append]
    exact ⟨before, rfl, by rw [openComments_concat, hdepth, openComments]⟩

theorem exists_stillOpen {source : Text} (h : openComments source ≠ 0) :
    ∃ before behind, StillOpen source before behind := by
  induction source using List.reverseRecOn with
  | nil => exact absurd rfl h
  | append_singleton source b ih =>
      by_cases hsource : openComments source = 0
      · rw [openComments_concat] at h
        obtain ⟨hprevious, rfl⟩ := previous_of_opens hsource h
        obtain ⟨before, rfl, hbefore⟩ := eq_concat_of_previous hprevious
        refine ⟨before, [], by simp, hbefore.trans hsource, ?_⟩
        intro t ht
        obtain rfl := List.prefix_nil.mp ht
        rw [← openComments_concat] at h
        simpa using h
      · obtain ⟨before, behind, hopen⟩ := ih hsource
        refine ⟨before, behind ++ [b], by simp [hopen.marked], hopen.outside, ?_⟩
        intro t ht
        rcases List.prefix_concat_iff.mp ht with rfl | ht
        · simpa [hopen.marked] using h
        · exact hopen.stays t ht

theorem openComments_feed (t : Text) : openComments (t ++ [0x0A]) = openComments t := by
  rw [openComments_concat]
  exact depth_step _ (by decide) (by decide)

theorem flatMap_pieces {pieces : List Text} (hne : pieces ≠ []) :
    pieces.flatMap (· ++ [0x0A]) = Text.join [0x0A] pieces ++ [0x0A] := by
  induction pieces with
  | nil => exact absurd rfl hne
  | cons piece pieces ih =>
      by_cases hpieces : pieces = []
      · simp [hpieces, Text.join]
      · rw [List.flatMap_cons, ih hpieces, Text.join_cons _ _ hpieces, List.append_assoc _ _ [0x0A]]

theorem flatMap_splitOn (source : Text) :
    (Text.splitOn 0x0A source).flatMap (· ++ [0x0A]) = source ++ [0x0A] := by
  rw [flatMap_pieces (Text.splitOn_ne_nil 0x0A source), Text.join_splitOn]

theorem firstLines_append (count : Nat) (source : Text) :
    firstLines count source ++ ((Text.splitOn 0x0A source).drop count).flatMap (· ++ [0x0A]) =
      source ++ [0x0A] := by
  rw [firstLines, ← List.flatMap_append, List.take_append_drop, flatMap_splitOn]

theorem count_flatMap {pieces : List Text} (hpieces : ∀ piece ∈ pieces, 0x0A ∉ piece) :
    (pieces.flatMap (· ++ [0x0A])).count 0x0A = pieces.length := by
  induction pieces with
  | nil => rfl
  | cons piece pieces ih =>
      rw [List.forall_mem_cons] at hpieces
      rw [List.flatMap_cons, List.count_append, List.count_append, ih hpieces.2,
        List.count_eq_zero_of_not_mem hpieces.1, List.length_cons]
      simp [Nat.add_comm]

theorem count_firstLines (count : Nat) (source : Text) :
    (firstLines count source).count 0x0A = min count (source.count 0x0A + 1) := by
  rw [firstLines, count_flatMap, List.length_take, Text.length_splitOn]
  exact fun piece hpiece => Text.not_mem_of_mem_splitOn (List.mem_of_mem_take hpiece)

/-- Every line below the mark of a comment that stays open starts inside a comment. -/
theorem StillOpen.depthAt_ne_zero {source before behind : Text}
    (h : StillOpen source before behind) {line : Nat} (hline : endLine before < line) :
    depthAt source line ≠ 0 := by
  have hsource : firstLines (line - 1) source <+: source ++ [0x0A] :=
    ⟨_, firstLines_append (line - 1) source⟩
  have hmark : before ++ [0x2F, 0x2A] <+: source ++ [0x0A] := by
    rw [h.marked]
    exact ⟨behind ++ [0x0A], by simp⟩
  -- The mark stands above the line: there are too many line feeds in front of the line.
  have habove : before ++ [0x2F, 0x2A] <+: firstLines (line - 1) source := by
    rcases List.prefix_or_prefix_of_prefix hmark hsource with habove | hbelow
    · exact habove
    · have hcount := hbelow.sublist.count_le 0x0A
      rw [count_firstLines, List.count_append, h.marked, List.count_append] at hcount
      unfold endLine at hline
      have hnone : [0x2F, 0x2A].count (0x0A : UInt8) = 0 := rfl
      omega
  obtain ⟨t, ht⟩ := habove
  rw [depthAt, ← ht, List.append_assoc, List.cons_append, List.cons_append, List.nil_append]
  have hfront : t <+: behind ++ [0x0A] := by
    rw [← ht, h.marked] at hsource
    simpa using hsource
  rcases List.prefix_concat_iff.mp hfront with rfl | hbehind
  · have hfeed := openComments_feed (before ++ 0x2F :: 0x2A :: behind)
    simp only [List.append_assoc, List.cons_append] at hfeed
    rw [hfeed]
    exact h.stays behind (List.prefix_refl behind)
  · exact h.stays t hbehind

/-- The line named by lexing is the last one that starts outside all comments. -/
theorem last_outside_of_lex {source : Text} {n : Nat} (h : lex source = .error (.unterminated n)) :
    depthAt source n = 0 ∧ ∀ line, n < line → depthAt source line ≠ 0 := by
  rw [lex_eq] at h
  rcases unterminated_of_lexLines (fun piece => Text.not_mem_of_mem_splitOn) (by simp) h with
    ⟨hnone, -⟩ | ⟨index, rfl, houtside, hinside⟩
  · exact absurd hnone (by simp)
  · refine ⟨?_, fun line hline => hinside (line - 1) (by omega)⟩
    rw [depthAt, Nat.add_sub_cancel_left]
    exact houtside

/-- A comment that is open at the end of a source was opened by the last mark outside all comments.
The error names the last line that starts outside all comments. It is never below the line of the
mark, and it is that line if and only if that line starts outside all comments. -/
theorem line_of_unterminated {source : Text} {n : Nat}
    (h : lex source = .error (.unterminated n)) :
    (depthAt source n = 0 ∧ ∀ line, n < line → depthAt source line ≠ 0) ∧
      (∃ before behind, StillOpen source before behind) ∧
      ∀ before behind, StillOpen source before behind →
        n ≤ endLine before ∧ (n = endLine before ↔ depthAt source (endLine before) = 0) := by
  obtain ⟨houtside, hinside⟩ := last_outside_of_lex h
  refine ⟨⟨houtside, hinside⟩, ?_, ?_⟩
  · apply exists_stillOpen
    -- Below all lines the depth is that at the end of the source.
    have hend := hinside (n + (source.count 0x0A + 2)) (by omega)
    rw [depthAt, firstLines, List.take_of_length_le, flatMap_splitOn, openComments_feed] at hend
    · exact hend
    · rw [Text.length_splitOn]
      omega
  · intro before behind hopen
    have hle : n ≤ endLine before := by
      apply Nat.le_of_not_lt
      intro hlt
      exact hopen.depthAt_ne_zero hlt houtside
    refine ⟨hle, ?_, ?_⟩
    · rintro rfl
      exact houtside
    · intro hstart
      apply Nat.le_antisymm hle
      apply Nat.le_of_not_lt
      intro hlt
      exact hinside _ hlt hstart

theorem line_of_unterminated_second :
    lex "a\n/* b */ /* c\n" = .error (.unterminated 2) ∧
      StillOpen "a\n/* b */ /* c\n" "a\n/* b */ " " c\n" ∧ 2 = endLine "a\n/* b */ " := by
  have h : lex "a\n/* b */ /* c\n" = .error (.unterminated 2) := by decide +kernel
  have hopen : StillOpen "a\n/* b */ /* c\n" "a\n/* b */ " " c\n" := by
    refine ⟨by decide +kernel, by decide +kernel, fun t ht => ?_⟩
    rw [← List.mem_inits] at ht
    revert t
    decide +kernel
  exact ⟨h, hopen, ((line_of_unterminated h).2.2 _ _ hopen).2.mpr (by decide +kernel)⟩

/-- Where a comment is closed and another one opened on one line, the error names the line on which
the first of them was opened. -/
theorem line_of_unterminated_reopened :
    lex "/*\n*//*" = .error (.unterminated 1) ∧ StillOpen "/*\n*//*" "/*\n*/" [] ∧
      endLine "/*\n*/" = 2 := by
  refine ⟨by decide +kernel, ⟨by decide +kernel, by decide +kernel, fun t ht => ?_⟩,
    by decide +kernel⟩
  obtain rfl := List.prefix_nil.mp ht
  decide +kernel

end Schematic.Token
