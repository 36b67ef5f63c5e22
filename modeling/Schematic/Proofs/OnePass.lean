import Schematic.Proofs.LineByLine
import Schematic.Proofs.Runes
import Schematic.Token.Scanner

/-!
# Lexing in one pass

Lexing divides a source into lines, takes the comments out of each line and then looks for words in
what is left. The scanner goes over the text once. On the text of one line the two agree whatever
word was begun in front of it, and so they agree on every source.
-/

namespace Schematic

namespace Token

/-! ## Words -/

/-- The words of code behind a word already begun; its first `taken` bytes belong to a rune already
read. -/
def wordsAfter (taken : Nat) (begun code : Text) : List Text :=
  let (word, words) := (Text.runesFrom taken code).foldr consRune ([], [])
  consWord (begun ++ word) words

theorem wordsAfter_nil (taken : Nat) (begun : Text) :
    wordsAfter taken begun [] = consWord begun [] := by
  rw [wordsAfter, Text.runesFrom]
  simp

theorem wordsAfter_cons (begun : Text) (b : UInt8) (code : Text) :
    wordsAfter 0 begun (b :: code) =
      let r := Text.firstRune b code
      let taken := r.bytes.length - 1
      if r.isBlank then consWord begun (wordsAfter taken [] code)
      else if isPunctuation r then consWord begun (r.bytes :: wordsAfter taken [] code)
      else wordsAfter taken (begun ++ r.bytes) code := by
  simp only [wordsAfter, Text.runesFrom, List.foldr_cons, consRune]
  split
  · simp
  · split
    · simp
    · simp [List.append_assoc]

/-- In front of a blank the word begun is complete. -/
theorem wordsAfter_of_blank (begun : Text) {code : Text}
    (h : code = [] ∨ code.head? = some 0x20) :
    wordsAfter 0 begun code = consWord begun (wordsAfter 0 [] code) := by
  cases code with
  | nil => rw [wordsAfter_nil, wordsAfter_nil]; rfl
  | cons b code =>
      obtain rfl : b = 0x20 := by simpa using h
      rw [wordsAfter_cons, wordsAfter_cons]
      rfl

/-! ## Code without comments -/

/-- Behind an open comment the code of a line goes on with a blank, if at all. -/
theorem blank_of_stripComments {depth last : Nat} {t code : Text}
    (h : stripComments (depth + 1) t = some (code, last)) :
    code = [] ∨ code.head? = some 0x20 := by
  generalize hd : depth + 1 = d at h
  induction d, t using stripComments.induct generalizing depth with
  | case1 d =>
      obtain ⟨rfl, _⟩ := Prod.mk.inj (Option.some.inj h)
      exact .inl rfl
  | case2 d t ih =>
      rw [stripComments] at h
      exact ih rfl h
  | case3 d t ih =>
      rw [stripComments] at h
      obtain ⟨_, _, heq⟩ := Option.map_eq_some_iff.mp h
      obtain ⟨rfl, _⟩ := Prod.mk.inj heq
      exact .inr rfl
  | case4 d b t hopen hclose ih =>
      rw [stripComments.eq_4 d b t hopen hclose] at h
      exact ih rfl h
  | case5 t => exact absurd hd (Nat.succ_ne_zero depth)
  | case6 t => exact absurd hd (Nat.succ_ne_zero depth)
  | case7 b t hopen hline hclose ih => exact absurd hd (Nat.succ_ne_zero depth)

/-- Outside of comments the code of a line starts with the same bytes as the line, as far as the
first one that is a code point by itself. -/
theorem takeWhile_of_stripComments {last : Nat} {t code : Text}
    (h : stripComments 0 t = some (code, last)) :
    code.takeWhile Text.isHigh = t.takeWhile Text.isHigh := by
  generalize hd : 0 = d at h
  induction d, t using stripComments.induct generalizing code with
  | case1 d =>
      obtain ⟨rfl, _⟩ := Prod.mk.inj (Option.some.inj h)
      rfl
  | case2 d t ih =>
      rw [stripComments] at h
      cases code with
      | nil => rfl
      | cons b code =>
          obtain rfl : b = 0x20 := by simpa using blank_of_stripComments h
          rfl
  | case3 d t ih => exact absurd hd.symm (Nat.succ_ne_zero d)
  | case4 d b t hopen hclose ih => exact absurd hd.symm (Nat.succ_ne_zero d)
  | case5 t =>
      obtain ⟨rfl, _⟩ := Prod.mk.inj (Option.some.inj h)
      rfl
  | case6 t => exact absurd h (by simp [stripComments])
  | case7 b t hopen hline hclose ih =>
      rw [stripComments.eq_7 b t hopen hline hclose] at h
      obtain ⟨⟨code, last⟩, hrest, heq⟩ := Option.map_eq_some_iff.mp h
      obtain ⟨rfl, rfl⟩ := Prod.mk.inj heq
      rw [List.takeWhile_cons, List.takeWhile_cons, ih rfl hrest]

/-! ## The end of a line -/

namespace Scanner

theorem before_append (first second : List Token) (later : Except ScanFault (List Token)) :
    before (first ++ second) later = before first (before second later) := by
  cases later with
  | error fault => rfl
  | ok tokens => simp [before, Except.map]

theorem before_nil (later : Except ScanFault (List Token)) : before [] later = later := by
  cases later <;> rfl

theorem map_consWord (s : Scanner) (words : List Text) :
    (consWord s.word words).map (Token.mk s.line) = s.begun ++ words.map (Token.mk s.line) := by
  unfold consWord begun
  split <;> rfl

/-- What is scanned behind the text of a line that ends at a depth: nothing, or further lines. -/
def further (line depth : Nat) : Text → Except ScanFault (List Token)
  | [] => if depth = 0 then .ok [] else .error .unterminated
  | _ :: t => scan { line := line + 1, depth } 0 t

/-- A text in which a line ends at once: a line feed or nothing, with a carriage return in front of
it or not. -/
structure IsLineEnd (t rest : Text) : Prop where
  shape : t = rest ∨ t = 0x0D :: rest
  feed : rest = [] ∨ rest.head? = some 0x0A

theorem scan_feed (s : Scanner) {rest : Text} (h : rest = [] ∨ rest.head? = some 0x0A) :
    scan s 0 rest = before s.begun (further s.line s.depth rest) := by
  cases rest with
  | nil =>
      rw [scan, further]
      split
      · simp [before, Except.map]
      · rfl
  | cons b t =>
      obtain rfl : b = 0x0A := by simpa using h
      rw [scan, further]

/-- At the end of a line the token begun is complete. -/
theorem scan_end {s : Scanner} {t rest : Text} (h : IsLineEnd t rest)
    (hcode : s.inLineComment = false) :
    scan s 0 t = before s.begun (further s.line s.depth rest) := by
  rcases h.shape with rfl | rfl
  · exact scan_feed s h.feed
  · rw [scan.eq_4 s 0x0D rest (by decide)]
    by_cases hdepth : 0 < s.depth
    · simp [hcode, hdepth, scan_feed s h.feed]
    · have hrune : Text.firstRune 0x0D rest = ⟨[0x0D], some 0x0D⟩ := rfl
      have hblank : Text.Rune.isBlank ⟨[0x0D], some 0x0D⟩ = true := rfl
      simp only [hcode, hdepth, hrune, hblank]
      simp [scan_feed _ h.feed, begun, before_nil]

/-- A line comment goes on to the end of its line. -/
theorem scan_lineComment {s : Scanner} {piece t rest : Text} (h : IsLineEnd t rest)
    (hpiece : 0x0A ∉ piece) (hcomment : s.inLineComment = true) (hword : s.word = []) :
    scan s 0 (piece ++ t) = further s.line s.depth rest := by
  induction piece with
  | nil =>
      have hfeed : scan s 0 rest = further s.line s.depth rest := by
        rw [scan_feed s h.feed, begun, hword]
        exact before_nil _
      rcases h.shape with rfl | rfl
      · exact hfeed
      · rw [List.nil_append, scan.eq_4 s 0x0D rest (by decide), if_pos hcomment]
        exact hfeed
  | cons b piece ih =>
      rw [List.mem_cons, not_or] at hpiece
      rw [List.cons_append, scan.eq_4 s b _ (Ne.symm hpiece.1), if_pos hcomment]
      exact ih hpiece.2

/-! ## The text of a line -/

/-- What lexing finds in the text of a line, behind a word begun, and what is scanned behind it. -/
def lexed (rest : Text) (s : Scanner) (taken : Nat) (piece : Text) :
    Except ScanFault (List Token) :=
  match stripComments s.depth piece with
  | none => .error (.unmatchedEnd s.line)
  | some (code, last) =>
    before ((wordsAfter taken s.word code).map (Token.mk s.line)) (further s.line last rest)

section Lexed

variable (rest : Text) (s : Scanner) (piece : Text)

theorem lexed_nil (taken : Nat) :
    lexed rest s taken [] = before s.begun (further s.line s.depth rest) := by
  simp only [lexed, stripComments, wordsAfter_nil, map_consWord, List.map_nil, List.append_nil]

theorem lexed_open :
    lexed rest s 0 (0x2F :: 0x2A :: piece) =
      before s.begun (lexed rest { s with depth := s.depth + 1, word := [] } 0 piece) := by
  simp only [lexed, stripComments]
  cases hstrip : stripComments (s.depth + 1) piece with
  | none => rfl
  | some stripped =>
      obtain ⟨code, last⟩ := stripped
      dsimp only
      rw [← before_append, ← map_consWord, ← wordsAfter_of_blank _ (blank_of_stripComments hstrip)]

theorem lexed_close (hdepth : 0 < s.depth) (hword : s.word = []) :
    lexed rest s 0 (0x2A :: 0x2F :: piece) =
      lexed rest { s with depth := s.depth - 1 } 0 piece := by
  obtain ⟨line, _ | depth, comment, word⟩ := s
  · exact absurd hdepth (Nat.lt_irrefl 0)
  · obtain rfl : word = [] := hword
    simp only [lexed, stripComments, Nat.add_sub_cancel]
    cases stripComments depth piece <;> rfl

theorem lexed_within (hdepth : 0 < s.depth) (b : UInt8)
    (hopen : ∀ t, b = 0x2F → piece = 0x2A :: t → False)
    (hclose : ∀ t, b = 0x2A → piece = 0x2F :: t → False) :
    lexed rest s 0 (b :: piece) = lexed rest s 0 piece := by
  obtain ⟨line, _ | depth, comment, word⟩ := s
  · exact absurd hdepth (Nat.lt_irrefl 0)
  · simp only [lexed]
    rw [stripComments.eq_4 depth b piece hopen hclose]

theorem lexed_lineComment (hdepth : s.depth = 0) :
    lexed rest s 0 (0x2F :: 0x2F :: piece) = before s.begun (further s.line 0 rest) := by
  simp only [lexed, hdepth, stripComments, wordsAfter_nil, map_consWord, List.map_nil,
    List.append_nil]

theorem lexed_unmatched (hdepth : s.depth = 0) :
    lexed rest s 0 (0x2A :: 0x2F :: piece) = .error (.unmatchedEnd s.line) := by
  simp only [lexed, hdepth, stripComments]

section Code

variable (hdepth : s.depth = 0) {b : UInt8}
  (hopen : ∀ t, b = 0x2F → piece = 0x2A :: t → False)
  (hline : ∀ t, b = 0x2F → piece = 0x2F :: t → False)
  (hclose : ∀ t, b = 0x2A → piece = 0x2F :: t → False)
include hdepth hopen hline hclose

theorem lexed_taken (taken : Nat) :
    lexed rest s (taken + 1) (b :: piece) = lexed rest s taken piece := by
  simp only [lexed, hdepth, stripComments.eq_7 b piece hopen hline hclose]
  cases stripComments 0 piece <;> rfl

theorem lexed_rune :
    lexed rest s 0 (b :: piece) =
      let r := Text.firstRune b piece
      let taken := r.bytes.length - 1
      if r.isBlank then before s.begun (lexed rest { s with word := [] } taken piece)
      else if isPunctuation r then
        before (s.begun ++ [⟨s.line, r.bytes⟩]) (lexed rest { s with word := [] } taken piece)
      else lexed rest { s with word := s.word ++ r.bytes } taken piece := by
  simp only [lexed, hdepth, stripComments.eq_7 b piece hopen hline hclose]
  cases hstrip : stripComments 0 piece with
  | none =>
      simp only [Option.map_none]
      split
      · rfl
      · split <;> rfl
  | some stripped =>
      obtain ⟨code, last⟩ := stripped
      -- Taking out comments does not change the rune that starts here.
      have hrune : Text.firstRune b code = Text.firstRune b piece := by
        rw [← Text.firstRune_takeWhile, takeWhile_of_stripComments hstrip,
          Text.firstRune_takeWhile]
      simp only [Option.map_some, wordsAfter_cons, hrune]
      split
      · rw [map_consWord, before_append]
      · split
        · rw [map_consWord, List.map_cons, List.append_cons, before_append]
        · rfl

end Code

end Lexed

section Line

variable {t rest : Text} (h : IsLineEnd t rest)
include h

theorem IsLineEnd.low : t = [] ∨ ∃ low later, t = low :: later ∧ Text.isHigh low = false := by
  rcases h.shape with rfl | rfl
  · cases t with
    | nil => exact .inl rfl
    | cons b later =>
        obtain rfl : b = 0x0A := by simpa using h.feed
        exact .inr ⟨0x0A, later, rfl, rfl⟩
  · exact .inr ⟨0x0D, rest, rfl, rfl⟩

/-- A mark of a comment that does not stand in the text of a line is not completed behind it. -/
theorem IsLineEnd.not_mark {b first second : UInt8} {piece : Text}
    (hfeed : second ≠ 0x0A) (hreturn : second ≠ 0x0D)
    (hmark : ∀ later, b = first → piece = second :: later → False) :
    (b = first && (piece ++ t).head? = some second) = false := by
  rw [Bool.and_eq_false_imp]
  intro hfirst
  rw [decide_eq_true_eq] at hfirst
  rw [decide_eq_false_iff_not]
  intro hhead
  cases piece with
  | cons next later =>
      obtain rfl : next = second := by simpa using hhead
      exact hmark later hfirst rfl
  | nil =>
      rcases h.shape with rfl | rfl
      · cases t with
        | nil => exact absurd hhead (by simp)
        | cons next later =>
            obtain rfl : next = 0x0A := by simpa using h.feed
            exact absurd (by simpa using hhead) hfeed.symm
      · exact absurd (by simpa using hhead) hreturn.symm

theorem IsLineEnd.firstRune_append (b : UInt8) (piece : Text) :
    Text.firstRune b (piece ++ t) = Text.firstRune b piece := by
  rcases h.low with rfl | ⟨low, later, rfl, hlow⟩
  · rw [List.append_nil]
  · exact Text.firstRune_append_low b piece hlow later

/-- Scanning the text of a line finds what lexing finds in it. The scanner goes on rune by rune and
comments are taken out byte by byte, so some bytes may belong to a rune already read. -/
theorem scan_line (s : Scanner) (hcode : s.inLineComment = false) (taken : Nat) (piece : Text)
    (hpiece : 0x0A ∉ piece) (htaken : taken ≤ (piece.takeWhile Text.isHigh).length)
    (hinside : 0 < s.depth → s.word = [] ∧ taken = 0) :
    scan s taken (piece ++ t) = lexed rest s taken piece := by
  obtain ⟨line, depth, comment, word⟩ := s
  obtain rfl : comment = false := hcode
  induction depth, piece using stripComments.induct generalizing taken word with
  | case1 depth =>
      obtain rfl : taken = 0 := Nat.le_zero.mp htaken
      rw [lexed_nil]
      exact scan_end h rfl
  | case2 depth piece ih =>
      obtain rfl : taken = 0 := Nat.le_zero.mp htaken
      simp only [List.mem_cons, not_or] at hpiece
      rw [lexed_open, ← ih 0 hpiece.2.2 (Nat.zero_le _) [] fun _ => ⟨rfl, rfl⟩]
      rfl
  | case3 depth piece ih =>
      obtain rfl : taken = 0 := Nat.le_zero.mp htaken
      obtain ⟨hword, -⟩ := hinside (Nat.succ_pos depth)
      obtain rfl : word = [] := hword
      simp only [List.mem_cons, not_or] at hpiece
      rw [lexed_close _ _ _ (Nat.succ_pos depth) rfl]
      exact ih 0 hpiece.2.2 (Nat.zero_le _) [] fun _ => ⟨rfl, rfl⟩
  | case4 depth b piece hopen hclose ih =>
      obtain ⟨hword, rfl⟩ := hinside (Nat.succ_pos depth)
      obtain rfl : word = [] := hword
      rw [List.mem_cons, not_or] at hpiece
      rw [lexed_within _ _ _ (Nat.succ_pos depth) b hopen hclose,
        ← ih 0 hpiece.2 (Nat.zero_le _) [] fun _ => ⟨rfl, rfl⟩, List.cons_append,
        scan.eq_4 _ b _ (Ne.symm hpiece.1),
        h.not_mark (by decide) (by decide) hopen, h.not_mark (by decide) (by decide) hclose]
      rfl
  | case5 piece =>
      obtain rfl : taken = 0 := Nat.le_zero.mp htaken
      simp only [List.mem_cons, not_or] at hpiece
      rw [lexed_lineComment _ _ _ rfl]
      exact congrArg (before _)
        (scan_lineComment (s := ⟨line, 0, true, []⟩) h hpiece.2.2 rfl rfl)
  | case6 piece =>
      obtain rfl : taken = 0 := Nat.le_zero.mp htaken
      rw [lexed_unmatched _ _ _ rfl]
      rfl
  | case7 b piece hopen hline hclose ih =>
      rw [List.mem_cons, not_or] at hpiece
      cases taken with
      | succ taken =>
          rw [lexed_taken _ _ _ rfl hopen hline hclose]
          refine ih taken hpiece.2 ?_ word fun hdepth => absurd hdepth (Nat.lt_irrefl 0)
          rw [List.takeWhile_cons] at htaken
          split at htaken
          · exact Nat.le_of_succ_le_succ htaken
          · exact absurd htaken (Nat.not_succ_le_zero taken)
      | zero =>
          have hnext (word : Text) := ih ((Text.firstRune b piece).bytes.length - 1) hpiece.2
            (Text.length_firstRune_le b piece) word
            fun hdepth => absurd hdepth (Nat.lt_irrefl 0)
          rw [lexed_rune _ _ _ rfl hopen hline hclose, List.cons_append,
            scan.eq_4 _ b _ (Ne.symm hpiece.1), h.not_mark (by decide) (by decide) hopen,
            h.not_mark (by decide) (by decide) hline, h.not_mark (by decide) (by decide) hclose]
          simp only [h.firstRune_append, hnext]
          rfl

end Line

end Scanner

/-! ## The lines of a source -/

open Scanner

/-- What lexing lines comes to when it is not said where an open comment starts. -/
def lexFaults (line depth : Nat) (opened : Option Nat) (ls : List Text) :
    Except ScanFault (List Token) :=
  (lexLines line depth opened ls).mapError ScanFault.ofError

section Lines

variable {line depth : Nat} {opened : Option Nat}

theorem lexFaults_nil (last : Nat) (hopened : opened = none ↔ depth = 0) :
    lexFaults line depth opened [] = further last depth [] := by
  cases opened with
  | none =>
      rw [further, if_pos (hopened.mp rfl)]
      rfl
  | some first =>
      rw [further, if_neg fun hdepth => absurd (hopened.mpr hdepth) (by simp)]
      rfl

theorem lexFaults_cons (source : Text) (ls : List Text) :
    lexFaults line depth opened (source :: ls) =
      match stripComments depth source with
      | none => .error (.unmatchedEnd line)
      | some (code, depth) =>
        before ((splitLine code).map (Token.mk line))
          (lexFaults (line + 1) depth (openedAfter opened line depth) ls) := by
  simp only [lexFaults]
  rw [lexLines_cons]
  cases stripComments depth source with
  | none => rfl
  | some stripped =>
      dsimp only
      cases lexLines (line + 1) stripped.2 (openedAfter opened line stripped.2) ls <;> rfl

/-- A line in front of others that are lexed as they are scanned. -/
theorem lexFaults_eq_lexed {ls : List Text} {rest : Text} (source : Text)
    (hlater : ∀ depth opened, (opened = none ↔ depth = 0) →
      lexFaults (line + 1) depth opened ls = further line depth rest) :
    lexFaults line depth opened (source :: ls) = lexed rest { line, depth } 0 source := by
  rw [lexFaults_cons, lexed]
  cases stripComments depth source with
  | none => rfl
  | some stripped =>
      dsimp only
      rw [hlater stripped.2 _ (openedAfter_eq_none_iff opened line stripped.2)]
      rfl

theorem lexFaults_concat_nil (ls : List Text) (hopened : opened = none ↔ depth = 0) :
    lexFaults line depth opened (ls ++ [[]]) = lexFaults line depth opened ls := by
  rw [lexFaults, lexFaults, lexLines_concat_nil ls hopened]

/-- Lexing the lines of a text and scanning the text come to the same. -/
theorem lexFaults_eq_scan {pieces : List Text} (hne : pieces ≠ [])
    (hpieces : ∀ piece ∈ pieces, 0x0A ∉ piece) :
    lexFaults line depth opened (pieces.map withoutReturn) =
      Scanner.scan { line, depth } 0 (Text.join [0x0A] pieces) := by
  induction pieces generalizing line depth opened with
  | nil => exact absurd rfl hne
  | cons piece pieces ih =>
      obtain ⟨tail, htail, hreturn⟩ := exists_append_withoutReturn piece
      have hclean : 0x0A ∉ withoutReturn piece := by
        intro hmem
        apply hpieces piece List.mem_cons_self
        rw [← htail]
        exact List.mem_append_left tail hmem
      -- What follows the line is nothing, or a line feed and the other lines.
      obtain ⟨rest, hjoin, hfeed, hlater⟩ : ∃ rest,
          Text.join [0x0A] (piece :: pieces) = piece ++ rest ∧
          (rest = [] ∨ rest.head? = some 0x0A) ∧
          ∀ depth opened, (opened = none ↔ depth = 0) →
            lexFaults (line + 1) depth opened (pieces.map withoutReturn) =
              further line depth rest := by
        cases pieces with
        | nil => exact ⟨[], (List.append_nil piece).symm, .inl rfl, fun _ _ => lexFaults_nil line⟩
        | cons next pieces =>
            refine ⟨0x0A :: Text.join [0x0A] (next :: pieces), ?_, .inr rfl,
              fun depth opened _ => ?_⟩
            · rw [Text.join_cons _ _ (List.cons_ne_nil next pieces), List.append_assoc]
              rfl
            · rw [further]
              exact ih (List.cons_ne_nil _ _) fun p hp => hpieces p (List.mem_cons_of_mem _ hp)
      have hend : IsLineEnd (tail ++ rest) rest := by
        refine ⟨?_, hfeed⟩
        rcases hreturn with rfl | rfl
        · exact .inl rfl
        · exact .inr rfl
      calc lexFaults line depth opened ((piece :: pieces).map withoutReturn)
          = lexed rest { line, depth } 0 (withoutReturn piece) := lexFaults_eq_lexed _ hlater
        _ = Scanner.scan { line, depth } 0 (withoutReturn piece ++ (tail ++ rest)) :=
            (scan_line hend _ rfl 0 _ hclean (Nat.zero_le _) fun _ => ⟨rfl, rfl⟩).symm
        _ = Scanner.scan { line, depth } 0 (Text.join [0x0A] (piece :: pieces)) := by
            rw [hjoin, ← List.append_assoc, htail]

end Lines

/-- Lexing a source and scanning it in one pass give the same tokens on the same lines, or fail on
the same comment. -/
theorem mapError_lex (source : Text) :
    (lex source).mapError ScanFault.ofError = scan source := by
  have hscan : lexFaults 1 0 none ((Text.splitOn 0x0A source).map withoutReturn) = scan source := by
    rw [lexFaults_eq_scan (Text.splitOn_ne_nil 0x0A source)
      fun piece => Text.not_mem_of_mem_splitOn, Text.join_splitOn]
    rfl
  change lexFaults 1 0 none (lines source) = scan source
  rw [← hscan, lines_eq]
  dsimp only
  split
  · rename_i hlast
    have hpieces : Text.splitOn 0x0A source = (Text.splitOn 0x0A source).dropLast ++ [[]] :=
      (List.dropLast_append_getLast? _ hlast).symm
    rw [hpieces, List.map_append, List.dropLast_concat]
    exact (lexFaults_concat_nil _ (by simp)).symm
  · rfl

end Token

end Schematic
