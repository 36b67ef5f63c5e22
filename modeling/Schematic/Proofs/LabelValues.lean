import Mathlib.Data.List.Infix
import Schematic.Code.Declaration
import Schematic.Proofs.Coherence
import Schematic.Proofs.Reading

/-!
# The values of labels

A label has a value of its own, which is an integer of 32 bits, or it is one above the label in
front of it. Nothing looks at what is counted up to, so the label behind the greatest integer of 32
bits has a value that does not fit.
-/

namespace Schematic

open Text (fitsWord fitsWord_iff)

theorem Text.fitsWord_of_int32? {t : Text} {i : Int} (h : int32? t = some i) :
    fitsWord 32 i = true :=
  (Option.filter_eq_some_iff.mp h).2

namespace Grammar

/-- A label has the next value or one that fits. -/
theorem LabelEntry.valueFrom_cases {entry : LabelEntry} (hentry : entry.IsSpelled) (next : Int) :
    entry.valueFrom next = next ∨ fitsWord 32 (entry.valueFrom next) = true := by
  obtain ⟨-, hvalue⟩ := hentry
  unfold valueFrom
  cases hown : entry.value? with
  | none => exact .inl rfl
  | some value =>
      obtain ⟨i, hi⟩ := Option.isSome_iff_exists.mp (hvalue value hown)
      rw [Option.elim_some, hi]
      exact .inr (Text.fitsWord_of_int32? hi)

section Labels

variable {entries : List LabelEntry}

/-- Counting goes up, so that no label falls below the smallest 32-bit integer. -/
theorem le_of_mem_labelsFrom {next : Int} (hentries : ∀ entry ∈ entries, entry.IsSpelled)
    (hnext : -2 ^ 31 ≤ next) : ∀ l ∈ labelsFrom next entries, -2 ^ 31 ≤ l.value := by
  induction entries generalizing next with
  | nil => simp [labelsFrom]
  | cons entry entries ih =>
      obtain ⟨hentry, hentries⟩ := List.forall_mem_cons.mp hentries
      have hvalue : -2 ^ 31 ≤ entry.valueFrom next := by
        rcases entry.valueFrom_cases hentry next with heq | hfits
        · rw [heq]
          exact hnext
        · exact (fitsWord_iff.mp hfits).1
      rw [labelsFrom, List.forall_mem_cons]
      exact ⟨hvalue, ih hentries (by omega)⟩

/-- Values fit as long as counting does not go on behind the greatest one. -/
theorem fitsWord_of_mem_labelsFrom {previous : Int}
    (hentries : ∀ entry ∈ entries, entry.IsSpelled) (hprevious : fitsWord 32 previous = true)
    (hcounted : ¬[2 ^ 31 - 1, 2 ^ 31] <:+:
      previous :: (labelsFrom (previous + 1) entries).map Label.value) :
    ∀ l ∈ labelsFrom (previous + 1) entries, fitsWord 32 l.value = true := by
  induction entries generalizing previous with
  | nil => simp [labelsFrom]
  | cons entry entries ih =>
      obtain ⟨hentry, hentries⟩ := List.forall_mem_cons.mp hentries
      rw [labelsFrom, List.map_cons, List.infix_cons_iff, not_or] at hcounted
      obtain ⟨hfront, hbehind⟩ := hcounted
      have hvalue : fitsWord 32 (entry.valueFrom (previous + 1)) = true := by
        rcases entry.valueFrom_cases hentry (previous + 1) with heq | hfits
        · have hlast : previous ≠ 2 ^ 31 - 1 := by
            intro hlast
            apply hfront
            rw [heq, hlast]
            simp
          rw [fitsWord_iff] at hprevious ⊢
          omega
        · exact hfits
      rw [labelsFrom, List.forall_mem_cons]
      exact ⟨hvalue, ih hentries hvalue hbehind⟩

end Labels

/-! ## Enumerations that are declared -/

/-- The labels are counted from zero on, over entries that are spelled as they may be. -/
def HasCounted (e : Enumeration) : Prop :=
  ∃ entries : List LabelEntry,
    (∀ entry ∈ entries, entry.IsSpelled) ∧ e.labels = labelsFrom 0 entries

namespace Member

mutual

theorem hasCounted_of_declares {scope : Qualified} {e : Enumeration} :
    ∀ {m : Member}, m.IsSpelled → e ∈ (m.declares scope).enums → HasCounted e
  | .struct name parent? members, ⟨_, _, hmembers⟩, h => by
      rw [declares, Known.enums_append, Known.enums_singleton, List.nil_append] at h
      exact hasCounted_of_declaresAll hmembers h
  | .enumeration name entries, ⟨_, hentries⟩, h => by
      obtain rfl := List.mem_singleton.mp h
      exact ⟨entries, hentries, rfl⟩
  | .fields type optional first rest, _, h => absurd h List.not_mem_nil

theorem hasCounted_of_declaresAll {scope : Qualified} {e : Enumeration} :
    ∀ {ms : List Member}, IsSpelledAll ms → e ∈ (declaresAll scope ms).enums → HasCounted e
  | [], _, h => absurd h List.not_mem_nil
  | m :: ms, ⟨hm, hms⟩, h => by
      rw [declaresAll, Known.enums_append] at h
      rcases List.mem_append.mp h with h | h
      · exact hasCounted_of_declares hm h
      · exact hasCounted_of_declaresAll hms h

end

end Member

theorem Item.hasCounted_of_declaresAll {items : List Item} {e : Enumeration}
    (hitems : ∀ item ∈ items, item.IsSpelled) (h : e ∈ (declaresAll items).enums) :
    HasCounted e := by
  induction items with
  | nil => exact absurd h List.not_mem_nil
  | cons item items ih =>
      obtain ⟨hitem, hitems⟩ := List.forall_mem_cons.mp hitems
      rw [declaresAll, Known.enums_append] at h
      rcases List.mem_append.mp h with h | h
      · cases item with
        | struct d => exact Member.hasCounted_of_declares hitem h
        | directive side name => exact absurd h List.not_mem_nil
      · exact ih hitems h

end Grammar

/-- The labels of every enumeration of a schema have the values its entries count. -/
theorem Schema.hasCounted_of_parse {source : Text} {s : Schema} (h : parse source = .ok s)
    {e : Enumeration} (he : e ∈ s.enums) : Grammar.HasCounted e := by
  obtain ⟨tokens, s₀, -, hread, hlink, -⟩ := parse_eq_ok_iff.mp h
  obtain ⟨file, derives⟩ := Reader.exists_derives_of_read hread
  have hperm := Grammar.Item.perm_enums_of_buildsAll (Reader.builds_of_read hread derives).2
  rw [enums_eraseLines, ← enums_of_link hlink] at hperm
  change Grammar.HasCounted e.eraseLine
  exact Grammar.Item.hasCounted_of_declaresAll derives.1
    (hperm.subset (List.mem_map_of_mem he))

/-! ## Values that fit -/

namespace Enumeration

/-- The values of an enumeration are integers of 32 bits wherever they are used. -/
structure Representable (e : Enumeration) : Prop where
  /-- The constants that are declared fit the type that is declared for them. -/
  constants : ∀ type values, .constants type values ∈ Code.enumeration e →
    ∀ constant ∈ values, fitsWord 32 constant.2 = true
  /-- The 32 bits that are written for a value stand for it. -/
  written : ∀ l ∈ e.labels, Method.signed32 (Buffer.word32 l.value) = l.value

/-- An enumeration can be represented when every label fits a 32-bit word. -/
theorem representable_iff_fitsWord {e : Enumeration} :
    e.Representable ↔ ∀ l ∈ e.labels, fitsWord 32 l.value = true := by
  constructor
  · intro h l hl
    exact h.constants _ _ (List.mem_cons_of_mem _ (List.mem_singleton_self _)) _
      (List.mem_map_of_mem hl)
  · intro h
    refine ⟨?_, fun l hl => Method.signed32_word32 (h l hl)⟩
    intro type values hvalues constant hconstant
    simp only [Code.enumeration, List.mem_cons, reduceCtorEq, Code.Declaration.constants.injEq,
      List.not_mem_nil, or_false, false_or] at hvalues
    obtain ⟨rfl, rfl⟩ := hvalues
    obtain ⟨l, hl, rfl⟩ := List.mem_map.mp hconstant
    exact h l hl

/-- In a schema that is accepted no value is too small, and the values of an enumeration fit 32 bits
exactly if it never counts on from the greatest integer of 32 bits. -/
theorem representable_iff_not_counted_on {source : Text} {s : Schema}
    (h : Schema.parse source = .ok s) {e : Enumeration} (he : e ∈ s.enums) :
    (∀ l ∈ e.labels, -2 ^ 31 ≤ l.value) ∧
      (e.Representable ↔ ¬[2 ^ 31 - 1, 2 ^ 31] <:+: e.labels.map Label.value) := by
  obtain ⟨entries, hentries, hlabels⟩ := Schema.hasCounted_of_parse h he
  refine ⟨hlabels ▸ Grammar.le_of_mem_labelsFrom hentries (by decide), ?_⟩
  rw [representable_iff_fitsWord]
  constructor
  · intro hfits hcounted
    obtain ⟨l, hl, hvalue⟩ := List.mem_map.mp (hcounted.subset (show 2 ^ 31 ∈ _ by simp))
    have := (fitsWord_iff.mp (hfits l hl)).2
    omega
  · intro hcounted
    rw [hlabels] at hcounted ⊢
    -- The first label is counted as if one of value -1 stood in front of it.
    apply Grammar.fitsWord_of_mem_labelsFrom hentries (show fitsWord 32 (-1) = true by decide)
    rw [List.infix_cons_iff, not_or]
    exact ⟨by simp, hcounted⟩

theorem exists_enum_of_values (source : Text) (values : List Int)
    (h : (Schema.parse source).toOption.map
      (fun s => s.enums.map fun e => e.labels.map Label.value) = some [values]) :
    ∃ s, Schema.parse source = .ok s ∧ ∃ e ∈ s.enums, e.labels.map Label.value = values := by
  obtain ⟨s, hs, henums⟩ := exists_ok_of_map h
  exact ⟨s, hs, List.mem_map.mp (henums ▸ List.mem_singleton_self values)⟩

/-- Labels with and without values of their own, from one end of the 32 bits to the other. -/
def endsSource : Text :=
  "struct S \x7b enum E \x7b A = 2147483647, B = -2147483648, C, D = 2147483646, F \x7d; \x7d;"

theorem representable_iff_not_counted_on_ends :
    ∃ s, Schema.parse endsSource = .ok s ∧ ∃ e ∈ s.enums,
      e.labels.map Label.value = [2147483647, -2147483648, -2147483647, 2147483646, 2147483647] ∧
        e.Representable := by
  obtain ⟨s, hs, e, he, hvalues⟩ := exists_enum_of_values endsSource
    [2147483647, -2147483648, -2147483647, 2147483646, 2147483647] (by decide +kernel)
  refine ⟨s, hs, e, he, hvalues, (representable_iff_not_counted_on hs he).2.mpr ?_⟩
  rw [hvalues]
  decide

/-- A label without a value behind the greatest one. -/
def countedOnSource : Text :=
  "struct S \x7b enum E \x7b A = 2147483647, B \x7d; \x7d;"

theorem representable_iff_not_counted_on_overrun :
    ∃ s, Schema.parse countedOnSource = .ok s ∧ ∃ e ∈ s.enums,
      e.labels.map Label.value = [2147483647, 2147483648] ∧ ¬e.Representable := by
  obtain ⟨s, hs, e, he, hvalues⟩ := exists_enum_of_values countedOnSource
    [2147483647, 2147483648] (by decide +kernel)
  refine ⟨s, hs, e, he, hvalues, fun hrepresentable => ?_⟩
  have hfits : ∀ value ∈ e.labels.map Label.value, fitsWord 32 value = true :=
    List.forall_mem_map.mpr (representable_iff_fitsWord.mp hrepresentable)
  rw [hvalues] at hfits
  exact absurd hfits (by decide)

end Enumeration

end Schematic
