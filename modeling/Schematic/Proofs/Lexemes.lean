import Schematic.Proofs.OnePass

/-!
# Lexemes

What stands in a token: no blank, no mark of a comment, and a punctuation mark only by itself.
Taking out comments brings no two bytes together that were apart, since a blank stays where a
comment was, and what is a rune in a line is one in its word. Conversely, words of this kind that
are printed with blanks between them are found again, so that tokens printed line by line are lexed
as themselves.
-/

namespace Schematic.Token

open Text (Rune runes ofRunes)

/-! ## Marks of comments -/

def commentMarks : List Text :=
  [[0x2F, 0x2A], [0x2A, 0x2F], [0x2F, 0x2F]]

/-- No mark of a comment stands in the text. -/
def Unmarked (t : Text) : Prop :=
  ∀ mark ∈ commentMarks, ¬mark <:+: t

theorem unmarked_nil : Unmarked [] := by
  intro mark hmark hinside
  obtain rfl := List.infix_nil.mp hinside
  exact absurd hmark (by decide)

theorem pair_infix_cons {x y b : UInt8} {t : Text} :
    [x, y] <:+: b :: t ↔ (x = b ∧ t.head? = some y) ∨ [x, y] <:+: t := by
  rw [List.infix_cons_iff, List.cons_prefix_cons]
  cases t with
  | nil => simp
  | cons c t => simp [List.cons_prefix_cons, eq_comm]

theorem unmarked_cons_iff {b : UInt8} {t : Text} :
    Unmarked (b :: t) ↔ (∀ c, t.head? = some c → [b, c] ∉ commentMarks) ∧ Unmarked t := by
  constructor
  · intro h
    refine ⟨fun c hc hmark => ?_, fun mark hmark hinside => ?_⟩
    · exact h _ hmark (pair_infix_cons.mpr (.inl ⟨rfl, hc⟩))
    · exact h mark hmark (List.infix_cons hinside)
  · rintro ⟨hhead, ht⟩ mark hmark hinside
    obtain ⟨x, y, rfl⟩ : ∃ x y, mark = [x, y] := by
      simp only [commentMarks, List.mem_cons, List.not_mem_nil, or_false] at hmark
      rcases hmark with rfl | rfl | rfl <;> exact ⟨_, _, rfl⟩
    rcases pair_infix_cons.mp hinside with ⟨rfl, hy⟩ | hinside
    · exact hhead y hy hmark
    · exact ht _ hmark hinside

/-- Outside of comments the code of a line starts like the line, or with the blank behind a
comment. -/
theorem head?_of_stripComments {t code : Text} {last : Nat}
    (h : stripComments 0 t = some (code, last)) {c : UInt8} (hc : code.head? = some c) :
    c = 0x20 ∨ t.head? = some c := by
  unfold stripComments at h
  split at h
  · obtain ⟨rfl, -⟩ := Prod.mk.inj (Option.some.inj h)
    exact absurd hc (by simp)
  · rcases blank_of_stripComments h with rfl | hblank
    · exact absurd hc (by simp)
    · exact .inl (Option.some.inj (hc.symm.trans hblank))
  · rename_i hdepth
    exact absurd hdepth (by simp)
  · rename_i hdepth
    exact absurd hdepth (by simp)
  · obtain ⟨rfl, -⟩ := Prod.mk.inj (Option.some.inj h)
    exact absurd hc (by simp)
  · exact absurd h (by simp)
  · obtain ⟨stripped, -, heq⟩ := Option.map_eq_some_iff.mp h
    obtain ⟨rfl, -⟩ := Prod.mk.inj heq
    exact .inr hc

/-- Taking out comments leaves no mark of a comment. -/
theorem unmarked_of_stripComments {depth last : Nat} {t code : Text}
    (h : stripComments depth t = some (code, last)) : Unmarked code := by
  induction depth, t using stripComments.induct generalizing code with
  | case1 depth =>
      obtain ⟨rfl, -⟩ := Prod.mk.inj (Option.some.inj h)
      exact unmarked_nil
  | case2 depth t ih =>
      rw [stripComments] at h
      exact ih h
  | case3 depth t ih =>
      rw [stripComments] at h
      obtain ⟨⟨code, last⟩, hrest, heq⟩ := Option.map_eq_some_iff.mp h
      obtain ⟨rfl, rfl⟩ := Prod.mk.inj heq
      refine unmarked_cons_iff.mpr ⟨fun c _ => ?_, ih hrest⟩
      simp [commentMarks]
  | case4 depth b t hopen hclose ih =>
      rw [stripComments.eq_4 depth b t hopen hclose] at h
      exact ih h
  | case5 t =>
      obtain ⟨rfl, -⟩ := Prod.mk.inj (Option.some.inj h)
      exact unmarked_nil
  | case6 t => exact absurd h (by simp [stripComments])
  | case7 b t hopen hline hclose ih =>
      rw [stripComments.eq_7 b t hopen hline hclose] at h
      obtain ⟨⟨code, last⟩, hrest, heq⟩ := Option.map_eq_some_iff.mp h
      obtain ⟨rfl, rfl⟩ := Prod.mk.inj heq
      refine unmarked_cons_iff.mpr ⟨fun c hc hmark => ?_, ih hrest⟩
      rcases head?_of_stripComments hrest hc with rfl | hhead
      · exact absurd hmark (by simp [commentMarks])
      · obtain ⟨rest, rfl⟩ := List.head?_eq_some_iff.mp hhead
        simp only [commentMarks, List.mem_cons, List.cons.injEq, List.not_mem_nil, or_false,
          and_true] at hmark
        rcases hmark with ⟨rfl, rfl⟩ | ⟨rfl, rfl⟩ | ⟨rfl, rfl⟩
        · exact hopen rest rfl rfl
        · exact hclose rest rfl rfl
        · exact hline rest rfl rfl

/-- Nothing is taken out of code without marks. -/
theorem stripComments_of_unmarked {t : Text} (h : Unmarked t) :
    stripComments 0 t = some (t, 0) := by
  induction t with
  | nil => rfl
  | cons b t ih =>
      obtain ⟨hhead, ht⟩ := unmarked_cons_iff.mp h
      rw [stripComments.eq_7, ih ht]
      · rfl
      · rintro rest rfl rfl
        exact hhead 0x2A rfl (by decide)
      · rintro rest rfl rfl
        exact hhead 0x2F rfl (by decide)
      · rintro rest rfl rfl
        exact hhead 0x2F rfl (by decide)

theorem unmarked_append_blank {t rest : Text} (ht : Unmarked t) (hrest : Unmarked rest) :
    Unmarked (t ++ 0x20 :: rest) := by
  induction t with
  | nil =>
      refine unmarked_cons_iff.mpr ⟨fun c _ => ?_, hrest⟩
      simp [commentMarks]
  | cons b t ih =>
      obtain ⟨hhead, ht⟩ := unmarked_cons_iff.mp ht
      refine unmarked_cons_iff.mpr ⟨fun c hc => ?_, ih ht⟩
      cases t with
      | nil =>
          obtain rfl : 0x20 = c := by simpa using hc
          simp [commentMarks]
      | cons d t => exact hhead c hc

/-! ## Words -/

/-- What the text of a token is. -/
structure IsLexeme (t : Text) : Prop where
  ne_nil : t ≠ []
  no_blank : ∀ r ∈ runes t, r.isBlank = false
  unmarked : Unmarked t
  single : (∃ b ∈ punctuation, t = [b]) ∨ ∀ b ∈ t, b ∉ punctuation

/-- A rune inside a word. -/
def isPlain (r : Rune) : Bool :=
  !r.isBlank && !isPunctuation r

theorem isPlain_eq_true_iff {r : Rune} :
    isPlain r = true ↔ r.isBlank = false ∧ isPunctuation r = false := by
  simp [isPlain]

section Cons

variable {r : Rune} (word : Text) (words : List Text)

theorem consRune_blank (h : r.isBlank = true) :
    consRune r (word, words) = ([], consWord word words) := by
  simp [consRune, h]

theorem consRune_punctuation (hblank : r.isBlank = false) (h : isPunctuation r = true) :
    consRune r (word, words) = ([], r.bytes :: consWord word words) := by
  simp [consRune, hblank, h]

theorem consRune_plain (h : isPlain r = true) :
    consRune r (word, words) = (r.bytes ++ word, words) := by
  obtain ⟨hblank, hpunctuation⟩ := isPlain_eq_true_iff.mp h
  simp [consRune, hblank, hpunctuation]

end Cons

theorem mem_consWord {w word : Text} {words : List Text} (h : w ∈ consWord word words) :
    (w = word ∧ word ≠ []) ∨ w ∈ words := by
  unfold consWord at h
  split at h
  · exact .inr h
  · rename_i hword
    rcases List.mem_cons.mp h with rfl | h
    · exact .inl ⟨rfl, by simpa using hword⟩
    · exact .inr h

/-- A word is spelled by plain runes that stand together, or by one punctuation mark. -/
structure IsWord (rs : List Rune) (w : Text) (ws : List Rune) : Prop where
  together : ws <:+: rs
  spelled : ofRunes ws = w
  ne_nil : ws ≠ []
  plain : (∀ r ∈ ws, isPlain r = true) ∨
    ∃ r, ws = [r] ∧ r.isBlank = false ∧ isPunctuation r = true

theorem IsWord.cons {rs : List Rune} {w : Text} {ws : List Rune} (h : IsWord rs w ws) (r : Rune) :
    IsWord (r :: rs) w ws :=
  { h with together := List.infix_cons h.together }

theorem isWord_of_plain {rs ws : List Rune} {w : Text} (hfront : ws <+: rs)
    (hspelled : ofRunes ws = w) (hne : w ≠ []) (hplain : ∀ r ∈ ws, isPlain r = true) :
    IsWord rs w ws := by
  refine ⟨hfront.isInfix, hspelled, ?_, .inl hplain⟩
  rintro rfl
  exact hne hspelled.symm

theorem isWord_of_punctuation {r : Rune} (hblank : r.isBlank = false)
    (hpunctuation : isPunctuation r = true) (rs : List Rune) : IsWord (r :: rs) r.bytes [r] where
  together := (List.prefix_append [r] rs).isInfix
  spelled := by simp [ofRunes]
  ne_nil := by simp
  plain := .inr ⟨r, rfl, hblank, hpunctuation⟩

/-- The word begun is spelled by plain runes, and the words behind it are words. -/
theorem isWord_of_foldr (rs : List Rune) :
    (∃ ws, ws <+: rs ∧ ofRunes ws = (rs.foldr consRune ([], [])).1 ∧ ∀ r ∈ ws, isPlain r = true) ∧
      ∀ w ∈ (rs.foldr consRune ([], [])).2, ∃ ws, IsWord rs w ws := by
  induction rs with
  | nil => exact ⟨⟨[], List.nil_prefix, rfl, by simp⟩, by simp⟩
  | cons r rs ih =>
      rw [List.foldr_cons]
      generalize rs.foldr consRune ([], []) = begun at ih ⊢
      obtain ⟨word, words⟩ := begun
      obtain ⟨⟨front, hfront, hspelled, hplain⟩, hwords⟩ := ih
      have hlater (w : Text) (hw : w ∈ words) : ∃ ws, IsWord (r :: rs) w ws := by
        obtain ⟨ws, hws⟩ := hwords w hw
        exact ⟨ws, hws.cons r⟩
      have hcomplete (w : Text) (hw : w ∈ consWord word words) :
          ∃ ws, IsWord (r :: rs) w ws := by
        rcases mem_consWord hw with ⟨rfl, hne⟩ | hw
        · exact ⟨front, (isWord_of_plain hfront hspelled hne hplain).cons r⟩
        · exact hlater w hw
      have hnone : ∃ ws, ws <+: r :: rs ∧ ofRunes ws = [] ∧ ∀ r ∈ ws, isPlain r = true :=
        ⟨[], List.nil_prefix, rfl, by simp⟩
      cases hblank : r.isBlank with
      | true =>
          rw [consRune_blank word words hblank]
          exact ⟨hnone, hcomplete⟩
      | false =>
          cases hpunctuation : isPunctuation r with
          | true =>
              rw [consRune_punctuation word words hblank hpunctuation]
              refine ⟨hnone, List.forall_mem_cons.mpr ⟨⟨[r], ?_⟩, hcomplete⟩⟩
              exact isWord_of_punctuation hblank hpunctuation rs
          | false =>
              have hr := isPlain_eq_true_iff.mpr ⟨hblank, hpunctuation⟩
              rw [consRune_plain word words hr]
              refine ⟨⟨r :: front, List.cons_prefix_cons.mpr ⟨rfl, hfront⟩, ?_, ?_⟩, hlater⟩
              · rw [Text.ofRunes_cons, hspelled]
              · exact List.forall_mem_cons.mpr ⟨hr, hplain⟩

theorem splitLine_eq (code : Text) :
    splitLine code =
      consWord ((runes code).foldr consRune ([], [])).1 ((runes code).foldr consRune ([], [])).2 :=
  rfl

theorem exists_isWord_of_mem {code w : Text} (h : w ∈ splitLine code) :
    ∃ ws, IsWord (runes code) w ws := by
  obtain ⟨⟨front, hfront, hspelled, hplain⟩, hwords⟩ := isWord_of_foldr (runes code)
  rw [splitLine_eq] at h
  rcases mem_consWord h with ⟨rfl, hne⟩ | h
  · exact ⟨front, isWord_of_plain hfront hspelled hne hplain⟩
  · exact hwords w h

theorem lt_of_mem_punctuation {b : UInt8} (h : b ∈ punctuation) : b < 0x80 := by
  revert b
  decide +kernel

theorem isPunctuation_eq_true_iff {r : Rune} :
    isPunctuation r = true ↔ ∃ b ∈ punctuation, r.bytes = [b] := by
  unfold isPunctuation
  split
  · simp_all
  · rename_i hbytes
    simp only [Bool.false_eq_true, false_iff, not_exists, not_and]
    exact fun b _ => hbytes b

/-- The words of code without marks are lexemes. -/
theorem isLexeme_of_mem {code w : Text} (hcode : Unmarked code) (h : w ∈ splitLine code) :
    IsLexeme w := by
  obtain ⟨ws, hws⟩ := exists_isWord_of_mem h
  obtain rfl := hws.spelled
  have hrunes := Text.runes_of_infix hws.together
  constructor
  · intro hnil
    rw [hnil] at hrunes
    exact hws.ne_nil hrunes.symm
  · rw [hrunes]
    intro r hr
    rcases hws.plain with hplain | ⟨r', rfl, hblank, -⟩
    · exact (isPlain_eq_true_iff.mp (hplain r hr)).1
    · obtain rfl := List.mem_singleton.mp hr
      exact hblank
  · intro mark hmark hinside
    exact hcode mark hmark (hinside.trans (Text.infix_of_runes hws.together))
  · rcases hws.plain with hplain | ⟨r, rfl, -, hpunctuation⟩
    · refine .inr fun b hb hmem => ?_
      have hr := Text.mem_runes_of_low (lt_of_mem_punctuation hmem) hb
      rw [hrunes] at hr
      have hfalse := (isPlain_eq_true_iff.mp (hplain _ hr)).2
      rw [isPunctuation_eq_true_iff.mpr ⟨b, hmem, rfl⟩] at hfalse
      exact absurd hfalse (by simp)
    · obtain ⟨b, hb, hbytes⟩ := isPunctuation_eq_true_iff.mp hpunctuation
      exact .inl ⟨b, hb, by simp [ofRunes, hbytes]⟩

/-! ## Printed words -/

theorem IsLexeme.not_mem {t : Text} (h : IsLexeme t) {b : UInt8} (hlow : b < 0x80)
    (hblank : (Rune.ofByte b).isBlank = true) : b ∉ t := by
  intro hb
  have hfalse := h.no_blank _ (Text.mem_runes_of_low hlow hb)
  rw [hblank] at hfalse
  exact absurd hfalse (by simp)

theorem foldr_plain {rs : List Rune} (h : ∀ r ∈ rs, isPlain r = true) (word : Text)
    (words : List Text) : rs.foldr consRune (word, words) = (ofRunes rs ++ word, words) := by
  induction rs with
  | nil => rfl
  | cons r rs ih =>
      rw [List.forall_mem_cons] at h
      rw [List.foldr_cons, ih h.2, consRune_plain _ _ h.1, Text.ofRunes_cons, List.append_assoc]

/-- The runes of a lexeme in front of other words make one word. -/
theorem IsLexeme.foldr_eq {t : Text} (h : IsLexeme t) (words : List Text) :
    ∃ word later, (runes t).foldr consRune ([], words) = (word, later) ∧
      consWord word later = t :: words := by
  rcases h.single with ⟨b, hb, rfl⟩ | hplain
  · have hrunes : runes [b] = [Rune.ofByte b] := by
      have hlow := lt_of_mem_punctuation hb
      simp [runes, Text.runesFrom, Text.firstRune, hlow, Rune.ofByte]
    have hblank := h.no_blank (Rune.ofByte b) (by simp [hrunes])
    refine ⟨[], [b] :: words, ?_, rfl⟩
    rw [hrunes, List.foldr_cons, List.foldr_nil,
      consRune_punctuation _ _ hblank (isPunctuation_eq_true_iff.mpr ⟨b, hb, rfl⟩)]
    rfl
  · have hall : ∀ r ∈ runes t, isPlain r = true := by
      intro r hr
      refine isPlain_eq_true_iff.mpr ⟨h.no_blank r hr, Bool.eq_false_iff.mpr fun hmark => ?_⟩
      obtain ⟨b, hb, hbytes⟩ := isPunctuation_eq_true_iff.mp hmark
      apply hplain b _ hb
      rw [← Text.ofRunes_runes t]
      exact List.mem_flatten.mpr ⟨[b], List.mem_map.mpr ⟨r, hr, hbytes⟩, List.mem_singleton_self b⟩
    refine ⟨t, words, ?_, ?_⟩
    · rw [foldr_plain hall, Text.ofRunes_runes, List.append_nil]
    · simp [consWord, h.ne_nil]

/-- The words of a line, with single blanks between them, are found again. -/
theorem splitLine_join {words : List Text} (h : ∀ w ∈ words, IsLexeme w) :
    splitLine (Text.join [0x20] words) = words := by
  induction words with
  | nil => rfl
  | cons w words ih =>
      rw [List.forall_mem_cons] at h
      by_cases hwords : words = []
      · obtain ⟨word, later, hfold, hcons⟩ := h.1.foldr_eq []
        rw [hwords, splitLine_eq, Text.join, hfold, hcons]
      · obtain ⟨word, later, hfold, hcons⟩ := h.1.foldr_eq words
        have hblank : (Rune.ofByte 0x20).isBlank = true := rfl
        have hrest := ih h.2
        rw [splitLine_eq] at hrest
        rw [Text.join_cons _ _ hwords, List.append_assoc, List.singleton_append, splitLine_eq,
          Text.runes_append_low (by decide), List.foldr_append, List.foldr_cons]
        generalize (runes (Text.join [0x20] words)).foldr consRune ([], []) = begun at hrest ⊢
        obtain ⟨first, others⟩ := begun
        rw [consRune_blank _ _ hblank, hrest, hfold, hcons]

theorem unmarked_join {words : List Text} (h : ∀ w ∈ words, IsLexeme w) :
    Unmarked (Text.join [0x20] words) := by
  induction words with
  | nil => exact unmarked_nil
  | cons w words ih =>
      rw [List.forall_mem_cons] at h
      by_cases hwords : words = []
      · rw [hwords]
        exact h.1.unmarked
      · rw [Text.join_cons _ _ hwords, List.append_assoc, List.singleton_append]
        exact unmarked_append_blank h.1.unmarked (ih h.2)

theorem not_mem_join {words : List Text} (h : ∀ w ∈ words, IsLexeme w) {b : UInt8}
    (hne : b ≠ 0x20) (hlow : b < 0x80) (hblank : (Rune.ofByte b).isBlank = true) :
    b ∉ Text.join [0x20] words := by
  induction words with
  | nil => exact List.not_mem_nil
  | cons w words ih =>
      rw [List.forall_mem_cons] at h
      have hw := h.1.not_mem hlow hblank
      by_cases hwords : words = []
      · rw [hwords]
        exact hw
      · rw [Text.join_cons _ _ hwords]
        simp [hw, hne, ih h.2]

/-! ## Printed tokens -/

/-- The tokens of words that stand on the lines from number `line` on. -/
def rowTokens : (line : Nat) → List (List Text) → List Token
  | _, [] => []
  | line, row :: rows => row.map (Token.mk line) ++ rowTokens (line + 1) rows

theorem lexLines_rows {rows : List (List Text)} (h : ∀ row ∈ rows, ∀ w ∈ row, IsLexeme w)
    (line : Nat) :
    lexLines line 0 none (rows.map (Text.join [0x20])) = .ok (rowTokens line rows) := by
  induction rows generalizing line with
  | nil => rfl
  | cons row rows ih =>
      rw [List.forall_mem_cons] at h
      rw [List.map_cons, lexLines_cons, stripComments_of_unmarked (unmarked_join h.1)]
      dsimp only
      rw [splitLine_join h.1, (openedAfter_eq_none_iff none line 0).mpr rfl, ih h.2 (line + 1)]
      rfl

theorem lex_rows {rows : List (List Text)} (h : ∀ row ∈ rows, ∀ w ∈ row, IsLexeme w) :
    lex (Text.join [0x0A] (rows.map (Text.join [0x20]))) = .ok (rowTokens 1 rows) := by
  by_cases hrows : rows = []
  · rw [hrows]
    rfl
  · have hclean : ∀ line ∈ rows.map (Text.join [0x20]),
        0x0A ∉ line ∧ withoutReturn line = line := by
      intro line hline
      obtain ⟨row, hrow, rfl⟩ := List.mem_map.mp hline
      refine ⟨not_mem_join (h row hrow) (by decide) (by decide) rfl, if_neg fun hlast => ?_⟩
      exact not_mem_join (h row hrow) (by decide) (by decide) rfl (List.mem_of_getLast? hlast)
    rw [lex_eq, Text.splitOn_join (by simpa using hrows) fun line hline => (hclean line hline).1,
      List.map_congr_left fun line hline => (hclean line hline).2, List.map_id']
    exact lexLines_rows h 1

/-- The texts of the tokens on a line. -/
def textsOn (line : Nat) (tokens : List Token) : List Text :=
  (tokens.filter fun t => t.line = line).map Token.text

/-- The tokens as a source of `count` lines, with single blanks between those on one line. -/
def printed (count : Nat) (tokens : List Token) : Text :=
  Text.join [0x0A] ((List.range' 1 count).map fun line => Text.join [0x20] (textsOn line tokens))

/-- Tokens of lexemes in the order of their lines, from number `line` on. -/
structure Arranged (line : Nat) (tokens : List Token) : Prop where
  lexemes : ∀ t ∈ tokens, IsLexeme t.text
  ordered : tokens.Pairwise fun t t' => t.line ≤ t'.line
  below : ∀ t ∈ tokens, line ≤ t.line

/-- The words of one line are put in front of the tokens on the lines below it. -/
theorem Arranged.append_line {line : Nat} {later : List Token} (h : Arranged (line + 1) later)
    {words : List Text} (hwords : ∀ w ∈ words, IsLexeme w) :
    Arranged line (words.map (Token.mk line) ++ later) := by
  have hrow : ∀ t ∈ words.map (Token.mk line), t.line = line ∧ IsLexeme t.text := by
    intro t ht
    obtain ⟨w, hw, rfl⟩ := List.mem_map.mp ht
    exact ⟨rfl, hwords w hw⟩
  constructor
  · intro t ht
    rcases List.mem_append.mp ht with ht | ht
    · exact (hrow t ht).2
    · exact h.lexemes t ht
  · refine List.pairwise_append.mpr ⟨?_, h.ordered, ?_⟩
    · exact List.pairwise_map.mpr (List.pairwise_of_forall fun _ _ => Nat.le_refl line)
    · intro t ht t' ht'
      have hfirst := (hrow t ht).1
      have hsecond := h.below t' ht'
      omega
  · intro t ht
    rcases List.mem_append.mp ht with ht | ht
    · exact (hrow t ht).1.ge
    · have hsecond := h.below t ht
      omega

theorem arranged_of_lexLines {line depth : Nat} {opened : Option Nat} {ls : List Text}
    {tokens : List Token} (h : lexLines line depth opened ls = .ok tokens) :
    Arranged line tokens := by
  induction ls generalizing line depth opened tokens with
  | nil =>
      cases opened with
      | some first => exact absurd h (by simp [lexLines])
      | none =>
          obtain rfl := Except.ok.inj h
          exact ⟨by simp, List.Pairwise.nil, by simp⟩
  | cons source ls ih =>
      obtain ⟨code, last, later, hstrip, hlater, rfl⟩ := exists_of_lexLines_cons h
      apply (ih hlater).append_line
      intro w hw
      exact isLexeme_of_mem (unmarked_of_stripComments hstrip) hw

/-- The tokens on the first line stand in front of those on later lines. -/
theorem filter_append_filter {line : Nat} {tokens : List Token}
    (ordered : tokens.Pairwise fun t t' => t.line ≤ t'.line) (below : ∀ t ∈ tokens, line ≤ t.line) :
    (tokens.filter fun t => t.line = line) ++ (tokens.filter fun t => line < t.line) = tokens := by
  induction tokens with
  | nil => rfl
  | cons t tokens ih =>
      rw [List.pairwise_cons] at ordered
      rw [List.forall_mem_cons] at below
      by_cases hfirst : t.line = line
      · rw [List.filter_cons_of_pos (by simpa using hfirst),
          List.filter_cons_of_neg (by simp [hfirst]), List.cons_append,
          ih ordered.2 below.2]
      · have hlater : ∀ t' ∈ t :: tokens, line < t'.line := by
          intro t' ht'
          rcases List.mem_cons.mp ht' with rfl | ht'
          · omega
          · have hle := ordered.1 t' ht'
            omega
        rw [List.filter_eq_nil_iff.mpr fun t' ht' => ?_, List.filter_eq_self.mpr fun t' ht' => ?_,
          List.nil_append]
        · simpa using hlater t' ht'
        · simpa using (hlater t' ht').ne'

/-- Tokens in order are those of the words on their lines. -/
theorem rowTokens_textsOn {count : Nat} {line : Nat} {tokens : List Token}
    (ordered : tokens.Pairwise fun t t' => t.line ≤ t'.line)
    (below : ∀ t ∈ tokens, line ≤ t.line) (above : ∀ t ∈ tokens, t.line < line + count) :
    rowTokens line ((List.range' line count).map fun n => textsOn n tokens) = tokens := by
  induction count generalizing line tokens with
  | zero =>
      cases tokens with
      | nil => rfl
      | cons t tokens =>
          have hbelow := below t List.mem_cons_self
          have habove := above t List.mem_cons_self
          omega
  | succ count ih =>
      have hfirst : (textsOn line tokens).map (Token.mk line) =
          tokens.filter fun t => t.line = line := by
        rw [textsOn, List.map_map]
        refine (List.map_congr_left fun t ht => ?_).trans (List.map_id _)
        obtain rfl : t.line = line := by simpa using (List.mem_filter.mp ht).2
        rfl
      have hlater : (List.range' (line + 1) count).map (fun n => textsOn n tokens) =
          (List.range' (line + 1) count).map fun n =>
            textsOn n (tokens.filter fun t => line < t.line) := by
        apply List.map_congr_left
        intro n hn
        have hlt := (List.mem_range'_1.mp hn).1
        rw [textsOn, textsOn, List.filter_filter]
        congr 1
        apply List.filter_congr
        intro t _
        have himplies : t.line = n → line < t.line := by omega
        simpa using himplies
      rw [List.range'_succ, List.map_cons, rowTokens, hfirst, hlater, ih (ordered.filter _)]
      · exact filter_append_filter ordered below
      · intro t ht
        apply Nat.succ_le_of_lt
        simpa using (List.mem_filter.mp ht).2
      · intro t ht
        have habove := above t (List.mem_of_mem_filter ht)
        omega

/-- Tokens of lexemes that are printed on their lines are lexed as themselves. -/
theorem lex_of_arranged {tokens : List Token} (h : Arranged 1 tokens) {count : Nat}
    (hcount : ∀ t ∈ tokens, t.line ≤ count) : lex (printed count tokens) = .ok tokens := by
  have hrows : ∀ row ∈ (List.range' 1 count).map fun line => textsOn line tokens,
      ∀ w ∈ row, IsLexeme w := by
    intro row hrow w hw
    obtain ⟨line, -, rfl⟩ := List.mem_map.mp hrow
    obtain ⟨t, ht, rfl⟩ := List.mem_map.mp hw
    exact h.lexemes t (List.mem_of_mem_filter ht)
  have hlex := lex_rows hrows
  rw [List.map_map] at hlex
  rw [printed]
  refine hlex.trans (congrArg Except.ok (rowTokens_textsOn h.ordered h.below fun t ht => ?_))
  have hle := hcount t ht
  omega

/-- Lexing what is printed gives the tokens back. What is printed is a source of at least as many
lines as the tokens need, which has on each line the texts of the tokens on it, with single blanks
between them. No token holds a blank or a mark of a comment, and each is one punctuation mark or
free of punctuation. -/
theorem lex_printed {source : Text} {tokens : List Token} (h : lex source = .ok tokens)
    {count : Nat} (hcount : ∀ t ∈ tokens, t.line ≤ count) :
    lex (printed count tokens) = .ok tokens ∧ ∀ t ∈ tokens, IsLexeme t.text := by
  have harranged : Arranged 1 tokens := arranged_of_lexLines h
  exact ⟨lex_of_arranged harranged hcount, harranged.lexemes⟩

theorem lex_printed_comment :
    lex "a/* b\n*/c;//\n\n d" = .ok [⟨1, "a"⟩, ⟨2, "c"⟩, ⟨2, ";"⟩, ⟨4, "d"⟩] ∧
      printed 4 [⟨1, "a"⟩, ⟨2, "c"⟩, ⟨2, ";"⟩, ⟨4, "d"⟩] = "a\nc ;\n\nd" ∧
      lex (printed 4 [⟨1, "a"⟩, ⟨2, "c"⟩, ⟨2, ";"⟩, ⟨4, "d"⟩]) =
        .ok [⟨1, "a"⟩, ⟨2, "c"⟩, ⟨2, ";"⟩, ⟨4, "d"⟩] := by
  have h : lex "a/* b\n*/c;//\n\n d" = .ok [⟨1, "a"⟩, ⟨2, "c"⟩, ⟨2, ";"⟩, ⟨4, "d"⟩] := by
    decide +kernel
  exact ⟨h, by decide +kernel, (lex_printed h (by decide +kernel)).1⟩

end Schematic.Token
