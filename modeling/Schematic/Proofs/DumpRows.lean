import Mathlib.Data.Nat.Digits.Defs
import Schematic.Proofs.FullNames
import Schematic.Proofs.Pieces
import Schematic.Schema.Dump

/-!
# Rows of a dump

The dump of a schema is a table: every line is indented and consists of words with one blank between
each two. If no word holds a blank or a line feed, the rows can be read back from the text.
Main statement: a dump is the text of its rows, and reading the text gives the rows.
-/

namespace Schematic

namespace Text

/-! ## Words without blanks -/

/-- Neither a blank nor a line feed stands in the text. -/
def IsBare (t : Text) : Prop :=
  0x20 ∉ t ∧ 0x0A ∉ t

instance (t : Text) : Decidable t.IsBare :=
  inferInstanceAs (Decidable (_ ∧ _))

theorem IsBare.append {s t : Text} (hs : s.IsBare) (ht : t.IsBare) : (s ++ t).IsBare :=
  ⟨by simp [hs.1, ht.1], by simp [hs.2, ht.2]⟩

theorem not_mem_join {separator : Text} {parts : List Text} {b : UInt8}
    (hseparator : b ∉ separator) (h : ∀ part ∈ parts, b ∉ part) : b ∉ join separator parts := by
  induction parts with
  | nil => exact List.not_mem_nil
  | cons part parts ih =>
      rw [List.forall_mem_cons] at h
      cases parts with
      | nil => exact h.1
      | cons next parts =>
          rw [join_cons _ _ (by simp), List.mem_append, List.mem_append, not_or, not_or]
          exact ⟨⟨h.1, hseparator⟩, ih h.2⟩

/-- Bare texts joined by a bare separator are bare. -/
theorem isBare_join {separator : Text} {parts : List Text} (hseparator : separator.IsBare)
    (h : ∀ part ∈ parts, part.IsBare) : (join separator parts).IsBare :=
  ⟨not_mem_join hseparator.1 fun part hpart => (h part hpart).1,
    not_mem_join hseparator.2 fun part hpart => (h part hpart).2⟩

theorem isBare_of_isIdentifier {t : Text} (h : isIdentifier t = true) : t.IsBare :=
  ⟨not_mem_of_isIdentifier (by decide) rfl h, not_mem_of_isIdentifier (by decide) rfl h⟩

theorem toNat_of_isDigit {c : Char} (h : c.isDigit = true) :
    c.toNat.toUInt8.toNat = c.toNat ∧ 0x30 ≤ c.toNat ∧ c.toNat ≤ 0x39 := by
  have hrange := Char.isDigit_iff_toNat.mp h
  rw [show '0'.toNat = 0x30 from rfl, show '9'.toNat = 0x39 from rfl] at hrange
  refine ⟨?_, hrange⟩
  rw [UInt8.toNat_ofNat']
  omega

/-- A natural number is written with digits only. -/
theorem digit_of_mem_ofNat {n : Nat} {b : UInt8} (h : b ∈ ofNat n) :
    0x30 ≤ b.toNat ∧ b.toNat ≤ 0x39 := by
  obtain ⟨c, hc, rfl⟩ := List.mem_map.mp h
  obtain ⟨heq, hrange⟩ :=
    toNat_of_isDigit (Nat.isDigit_of_mem_toDigits (by decide) (by decide) hc)
  rwa [heq]

theorem ofNat_injective {m n : Nat} (h : ofNat m = ofNat n) : m = n := by
  have hdigits (n : Nat) : (ofNat n).map (fun b => Char.ofNat b.toNat) = Nat.toDigits 10 n := by
    rw [ofNat, List.map_map]
    refine (List.map_congr_left fun c hc => ?_).trans (List.map_id _)
    have hdigit := Nat.isDigit_of_mem_toDigits (by decide) (by decide) hc
    rw [Function.comp_apply, (toNat_of_isDigit hdigit).1]
    simp
  calc
    m = Nat.ofDigitChars 10 (Nat.toDigits 10 m) 0 := Nat.ofDigitChars_ten_toDigits.symm
    _ = Nat.ofDigitChars 10 (Nat.toDigits 10 n) 0 := by rw [← hdigits m, h, hdigits n]
    _ = n := Nat.ofDigitChars_ten_toDigits

/-- The numeral of an integer is made of digits and a minus sign. -/
theorem mem_ofInt {i : Int} {b : UInt8} (h : b ∈ ofInt i) :
    b = 0x2D ∨ (0x30 ≤ b.toNat ∧ b.toNat ≤ 0x39) := by
  unfold ofInt at h
  split at h
  · exact (List.mem_cons.mp h).imp_right digit_of_mem_ofNat
  · exact .inr (digit_of_mem_ofNat h)

theorem not_mem_ofInt {b : UInt8} (h : ¬(b = 0x2D ∨ (0x30 ≤ b.toNat ∧ b.toNat ≤ 0x39)))
    (i : Int) : b ∉ ofInt i :=
  fun hb => h (mem_ofInt hb)

theorem isBare_ofInt (i : Int) : (ofInt i).IsBare :=
  ⟨not_mem_ofInt (by decide) i, not_mem_ofInt (by decide) i⟩

theorem ofInt_ne_nil (i : Int) : ofInt i ≠ [] := by
  have hdigits : ofNat i.natAbs ≠ [] := by simp [ofNat, Nat.toDigits_ne_nil]
  unfold ofInt
  split
  · exact List.cons_ne_nil _ _
  · exact hdigits

/-- Different integers have different numerals. -/
theorem ofInt_injective {i j : Int} (h : ofInt i = ofInt j) : i = j := by
  have hsign {n : Nat} {t : Text} : ofNat n ≠ 0x2D :: t := by
    intro heq
    have hdigit := digit_of_mem_ofNat (n := n) (heq ▸ List.mem_cons_self)
    exact absurd hdigit (by decide)
  unfold ofInt at h
  split at h <;> split at h
  · have := ofNat_injective (List.cons.inj h).2
    omega
  · exact absurd h.symm hsign
  · exact absurd h hsign
  · have := ofNat_injective h
    omega

end Text

/-! ## Rows and their text -/

/-- A line of a table: its depth of indentation and its words. -/
structure Row where
  depth : Nat
  words : List Text
  deriving Repr, DecidableEq

namespace Row

/-- The line without its line feed. -/
def line (row : Row) : Text :=
  List.replicate (2 * row.depth) 0x20 ++ Text.join [0x20] row.words

/-- The lines of a table. -/
def textOf (rows : List Row) : Text :=
  rows.flatMap fun row => row.line ++ [0x0A]

/-- The row of a line: two blanks in front of the words are one step of indentation. -/
def ofLine (line : Text) : Row :=
  let words := Text.splitOn 0x20 line
  ⟨(words.takeWhile (· = [])).length / 2, words.dropWhile (· = [])⟩

/-- The rows of a text whose lines all end with a line feed. -/
def rowsOf (t : Text) : List Row :=
  (Text.splitOn 0x0A t).dropLast.map ofLine

/-- A row that can be read back: its words are bare, and the first of them is not empty. -/
structure IsLegible (row : Row) : Prop where
  bare : ∀ w ∈ row.words, w.IsBare
  starts : ∃ w ws, row.words = w :: ws ∧ w ≠ []

theorem textOf_append (rows more : List Row) :
    textOf (rows ++ more) = textOf rows ++ textOf more :=
  List.flatMap_append

theorem textOf_cons (row : Row) (rows : List Row) :
    textOf (row :: rows) = textOf [row] ++ textOf rows :=
  textOf_append [row] rows

/-- A line is its words between blanks, with two empty words for each level of its depth. -/
theorem line_eq_join {row : Row} (h : row.words ≠ []) :
    row.line = Text.join [0x20] (List.replicate (2 * row.depth) [] ++ row.words) := by
  unfold line
  induction 2 * row.depth with
  | zero => rfl
  | succ n ih =>
      rw [List.replicate_succ, List.replicate_succ, List.cons_append, List.cons_append,
        Text.join_cons _ _ (by simp [h]), ih]
      rfl

namespace IsLegible

variable {row : Row}

theorem words_ne_nil (h : row.IsLegible) : row.words ≠ [] := by
  obtain ⟨w, ws, hwords, _⟩ := h.starts
  simp [hwords]

/-- A legible row is one line. -/
theorem feed_not_mem (h : row.IsLegible) : 0x0A ∉ row.line := by
  rw [line, List.mem_append, not_or]
  refine ⟨fun hmem => absurd (List.eq_of_mem_replicate hmem) (by decide), ?_⟩
  exact Text.not_mem_join (by decide) fun w hw => (h.bare w hw).2

/-- A row is read back from its line. -/
theorem ofLine_line (h : row.IsLegible) : ofLine row.line = row := by
  have hsplit : Text.splitOn 0x20 row.line = List.replicate (2 * row.depth) [] ++ row.words := by
    rw [line_eq_join h.words_ne_nil]
    refine Text.splitOn_join (by simp [h.words_ne_nil]) ?_
    rw [List.forall_mem_append]
    refine ⟨fun part hpart => ?_, fun part hpart => (h.bare part hpart).1⟩
    rw [List.eq_of_mem_replicate hpart]
    exact List.not_mem_nil
  obtain ⟨depth, words⟩ := row
  obtain ⟨w, ws, rfl, hne⟩ := h.starts
  have hempty : ∀ part ∈ List.replicate (2 * depth) ([] : Text), decide (part = []) = true :=
    fun part hpart => decide_eq_true (List.eq_of_mem_replicate hpart)
  simp only [ofLine, hsplit, List.takeWhile_append_of_pos hempty,
    List.dropWhile_append_of_pos hempty]
  simp [hne]

end IsLegible

/-- A table is read back from its text. -/
theorem rowsOf_textOf {rows : List Row} (h : ∀ row ∈ rows, row.IsLegible) :
    rowsOf (textOf rows) = rows := by
  have hlines : Text.splitOn 0x0A (textOf rows) = rows.map line ++ [[]] := by
    induction rows with
    | nil => rfl
    | cons row rows ih =>
        rw [List.forall_mem_cons] at h
        rw [textOf, List.flatMap_cons, List.append_assoc, List.singleton_append,
          Text.splitOn_append, Text.splitOn_of_not_mem h.1.feed_not_mem]
        exact congrArg (row.line :: ·) (ih h.2)
  rw [rowsOf, hlines, List.dropLast_concat, List.map_map]
  exact (List.map_congr_left fun row hrow => (h row hrow).ofLine_line).trans (List.map_id _)

end Row

/-! ## The rows of a schema -/

open Text (ofString)

namespace Enumeration

/-- The words of labels, the comma with the value in front of it. Where no label is, there is
nothing between two blanks. -/
def labelWords : List Label → List Text
  | [] => [[]]
  | [l] => [l.name, "=", Text.ofInt l.value]
  | l :: next :: ls =>
    l.name :: ofString "=" :: (Text.ofInt l.value ++ ofString ",") :: labelWords (next :: ls)

def words (e : Enumeration) : List Text :=
  ofString "enum" :: e.name :: ofString "\x7b" :: (labelWords e.labels ++ [ofString "\x7d"])

end Enumeration

namespace Field

/-- The words of a field's category, mark and brackets; the brackets follow the last of them. -/
def shapeWords (f : Field) : List Text :=
  let category := Text.concat ["<", f.type.category, ">"]
  if f.optional then [category, ofString "optional" ++ f.shape.dump]
  else [category ++ f.shape.dump]

def defaultWords (f : Field) : List Text :=
  f.default?.elim [] fun token => ["=", token]

def words (f : Field) : List Text :=
  (f.name ++ ofString ":") :: f.typeName :: (f.shapeWords ++ f.defaultWords)

end Field

namespace Struct

def parentWords (st : Struct) : List Text :=
  st.parent.elim [] fun parent => [":", parent]

def sizeWords (st : Struct) : List Text :=
  if st.isFixedSize then ["(fixed)"] else []

def headWords (st : Struct) : List Text :=
  ofString "struct" :: st.fullName :: (st.parentWords ++ (st.sizeWords ++ [ofString "\x7b"]))

mutual

/-- The rows of a struct and what is declared in it. -/
def rows (depth : Nat) : Struct → List Row
  | ⟨name, scope, parent, base, line, enums, fields, children⟩ =>
    let st : Struct := ⟨name, scope, parent, base, line, enums, fields, children⟩
    ⟨depth, st.headWords⟩ ::
      (enums.map (fun e => ⟨depth + 1, e.words⟩) ++ (fields.map (fun f => ⟨depth + 1, f.words⟩) ++
        (rowsAll (depth + 1) children ++ [⟨depth, [ofString "\x7d"]⟩])))

def rowsAll (depth : Nat) : List Struct → List Row
  | [] => []
  | st :: rest => rows depth st ++ rowsAll depth rest

end

end Struct

namespace Schema

/-- The rows of a schema: one for each namespace, and those of its structs. -/
def rows (s : Schema) : List Row :=
  ⟨0, ["binary_namespace", "=", s.binaryNamespace.getD "<none>"]⟩ ::
    ⟨0, ["friendly_namespace", "=", s.friendlyNamespace.getD "<none>"]⟩ ::
      Struct.rowsAll 0 s.structs

end Schema

/-! ### The dump is the text of the rows -/

namespace Text

/-- Words in a row: one blank between each two. -/
theorem join_cons_cons (w next : Text) (ws : List Text) :
    join [0x20] (w :: next :: ws) = w ++ 0x20 :: join [0x20] (next :: ws) := by
  rw [join_cons _ _ (by simp), List.append_assoc, List.singleton_append]

theorem join_singleton (separator part : Text) : join separator [part] = part := rfl

end Text

theorem Enumeration.labelWords_ne_nil (ls : List Label) : labelWords ls ≠ [] := by
  rcases ls with _ | ⟨l, _ | ⟨next, ls⟩⟩ <;> simp [labelWords]

theorem Enumeration.join_labelWords (ls : List Label) :
    Text.join [0x20] (labelWords ls) =
      Text.join ", " (ls.map fun l => Text.concat [l.name, " = ", Text.ofInt l.value]) := by
  have hsign : ofString " = " = 0x20 :: (ofString "=" ++ [0x20]) := rfl
  have hcomma : ofString ", " = ofString "," ++ [0x20] := rfl
  induction ls with
  | nil => rfl
  | cons l ls ih =>
      cases ls with
      | nil =>
          simp only [labelWords, Text.join_cons_cons, Text.join_singleton, List.map_cons,
            List.map_nil, Text.concat, hsign]
          simp
      | cons next ls =>
          obtain ⟨w, ws, hwords⟩ := List.exists_cons_of_ne_nil (labelWords_ne_nil (next :: ls))
          rw [List.map_cons, Text.join_cons _ _ (by simp), ← ih, labelWords, hwords,
            Text.join_cons_cons, Text.join_cons_cons, Text.join_cons_cons, hcomma]
          simp [Text.concat, hsign]

/-- What is written of an enumeration is its words between blanks. -/
theorem Enumeration.dump_eq_join (e : Enumeration) : e.dump = Text.join [0x20] e.words := by
  have henum : ofString "enum " = ofString "enum" ++ [0x20] := rfl
  have hopen : ofString " \x7b " = 0x20 :: (ofString "\x7b" ++ [0x20]) := rfl
  have hclose : ofString " \x7d" = 0x20 :: ofString "\x7d" := rfl
  have hlabels : labelWords e.labels ++ [ofString "\x7d"] ≠ [] := by simp
  rw [words, Text.join_cons_cons, Text.join_cons_cons, Text.join_cons _ _ hlabels,
    Text.join_append _ (labelWords_ne_nil _) (by simp), join_labelWords, Text.join_singleton]
  simp only [dump, Text.concat, henum, hopen, hclose]
  simp

/-- What is written of a field is its words between blanks. -/
theorem Field.dump_eq_join (f : Field) : f.dump = Text.join [0x20] f.words := by
  have hcolon : ofString ": " = ofString ":" ++ [0x20] := rfl
  have hcategory : ofString " <" = 0x20 :: ofString "<" := rfl
  have hoptional : ofString " optional" = 0x20 :: ofString "optional" := rfl
  have hsign : ofString " = " = 0x20 :: (ofString "=" ++ [0x20]) := rfl
  cases hdefault : f.default? <;> cases hmark : f.optional <;>
    simp [dump, words, shapeWords, defaultWords, Text.concat, Text.join, hdefault, hmark, hcolon,
      hcategory, hoptional, hsign]

theorem Struct.dumpHeader_eq_join (st : Struct) :
    st.dumpHeader = Text.join [0x20] st.headWords := by
  have hstruct : ofString "struct " = ofString "struct" ++ [0x20] := rfl
  have hcolon : ofString " : " = 0x20 :: (ofString ":" ++ [0x20]) := rfl
  have hfixed : ofString " (fixed)" = 0x20 :: ofString "(fixed)" := rfl
  have hopen : ofString " \x7b" = 0x20 :: ofString "\x7b" := rfl
  cases hparent : st.parent <;> cases hsize : st.isFixedSize <;>
    simp [dumpHeader, headWords, parentWords, sizeWords, Text.concat, Text.join, hparent, hsize,
      hstruct, hcolon, hfixed, hopen]

theorem Struct.indented_join (depth : Nat) (words : List Text) :
    indented depth (Text.join [0x20] words) = Row.textOf [⟨depth, words⟩] := by
  have hfeed : ofString "\n" = [0x0A] := rfl
  simp [indented, Row.textOf, Row.line, Text.concat, hfeed]

/-- A list of lines of one depth. -/
theorem Struct.concat_indented {α : Type} {dump : α → Text} {words : α → List Text}
    (same : ∀ a, dump a = Text.join [0x20] (words a)) (depth : Nat) (as : List α) :
    Text.concat (as.map fun a => indented depth (dump a)) =
      Row.textOf (as.map fun a => ⟨depth, words a⟩) := by
  induction as with
  | nil => rfl
  | cons a as ih =>
      rw [List.map_cons, List.map_cons, Row.textOf_cons, ← ih, same, indented_join]
      rfl

namespace Struct

mutual

/-- A struct is written as its rows, with those of its children below it. -/
theorem dumpAt_eq_textOf (depth : Nat) : ∀ st : Struct, st.dumpAt depth = Row.textOf (st.rows depth)
  | ⟨name, scope, parent, base, line, enums, fields, children⟩ => by
      have hclose : indented depth (ofString "\x7d") = Row.textOf [⟨depth, [ofString "\x7d"]⟩] :=
        indented_join depth [ofString "\x7d"]
      rw [dumpAt, rows, Row.textOf_cons, Row.textOf_append, Row.textOf_append, Row.textOf_append,
        ← concat_indented Enumeration.dump_eq_join, ← concat_indented Field.dump_eq_join,
        dumpAll_eq_textOf, dumpHeader_eq_join, indented_join, hclose]
      simp [Text.concat]

theorem dumpAll_eq_textOf (depth : Nat) :
    ∀ ss : List Struct, dumpAll depth ss = Row.textOf (rowsAll depth ss)
  | [] => rfl
  | st :: rest => by
      rw [dumpAll, rowsAll, Row.textOf_append, dumpAt_eq_textOf, dumpAll_eq_textOf]

end

end Struct

/-- The dump of a schema is the text of its rows. -/
theorem Schema.dump_eq_textOf (s : Schema) : s.dump = Row.textOf s.rows := by
  have hbinary : ofString "binary_namespace = " =
    ofString "binary_namespace" ++ 0x20 :: (ofString "=" ++ [0x20]) := rfl
  have hfriendly : ofString "friendly_namespace = " =
    ofString "friendly_namespace" ++ 0x20 :: (ofString "=" ++ [0x20]) := rfl
  have hfeed : ofString "\n" = [0x0A] := rfl
  rw [dump, Struct.dumpAll_eq_textOf]
  simp [rows, Row.textOf, Row.line, Text.concat, Text.join, hbinary, hfriendly, hfeed]

end Schematic
