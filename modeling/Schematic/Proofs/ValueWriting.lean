import Schematic.Proofs.Promise
import Schematic.Proofs.Reading

/-!
# Writing values

What the statements for one value promise, and the loops over the elements of an array. How structs
are written is taken as given here: the methods called promise the same of the values they write,
as long as these are nested no deeper than a bound.
-/

namespace Schematic

open Method Buffer

/-- A serializer that goes on with the same members and the same handles of fields. -/
structure Method.Writing.Keeps (w w' : Writing) : Prop where
  members : w'.members = w.members
  handles : w'.handles = w.handles

theorem Method.Writing.Keeps.trans {a b c : Writing} (hab : a.Keeps b) (hbc : b.Keeps c) :
    a.Keeps c :=
  ⟨hbc.members.trans hab.members, hbc.handles.trans hab.handles⟩

namespace Schema

/-- A source that reads structs deep enough for a value of a type at a position. -/
structure Able (s : Schema) (source : Source) (payload : Text) (type : FieldType)
    (position : Nat) : Prop where
  same : source.payload = payload
  struct : type.isStruct = true → ∃ depth, source.struct = s.readWithin payload depth ∧
    (payload.length - position + 1) * s.walk.length ≤ depth

theorem Able.later {s : Schema} {source : Source} {payload : Text} {type : FieldType}
    {position position' : Nat} (h : s.Able source payload type position)
    (hle : position ≤ position') : s.Able source payload type position' := by
  refine ⟨h.same, fun hstruct => ?_⟩
  obtain ⟨depth, hread, hdepth⟩ := h.struct hstruct
  refine ⟨depth, hread, Nat.le_trans (Nat.mul_le_mul_right _ ?_) hdepth⟩
  omega

/-- What is promised of a value that was written from `start` to `stop`. -/
structure ReadsBack (s : Schema) (read : Source → Nat → Option (Located Value)) (type : FieldType)
    (v : Value) (start stop : Nat) (payload : Text) : Prop where
  width : type.isIndirect = false → stop = start + type.width
  read : v.isNulFree = true → ∀ source, s.Able source payload type start →
    read source start = some (s.filled v type, stop)

/-- A way to write structs that promises to read back a value. -/
def Serializes (s : Schema) (rank : Qualified → Nat)
    (serialize : Qualified → Value → Buffer → Option Buffer) (q : Qualified) (v : Value) : Prop :=
  ∀ b, ∃ b', serialize q v b = some b' ∧
    Settles b b' fun payload => v.isNulFree = true → ∀ depth,
      (payload.length - b.length) * s.walk.length + rank q < depth →
        s.readWithin payload depth q b.length = some (s.filled v (.struct q), b'.length)

/-- Methods that write every value of a struct with a bounded number of levels. -/
structure Capable (s : Schema) (rank : Qualified → Nat) (c : Callees) (bound : Nat) : Prop where
  ranked : s.Ranked rank
  zero : c.zero = s.zero
  serialize : ∀ q v, s.admits v (.struct q) .scalar = true → v.levels s.walk.length ≤ bound →
    s.Serializes rank c.serialize q v

section Values

variable {s : Schema} {rank : Qualified → Nat} {c : Callees} {bound : Nat} {type : FieldType}
  {v : Value}

/-- The statement that writes a value promises that the value can be read back. -/
theorem Capable.settles_value (hc : s.Capable rank c bound)
    (admitted : s.admits v type .scalar = true) (hlevels : v.levels s.walk.length ≤ bound)
    {w : Writing} {p : Place} (hread : w.read p = some v) :
    ∃ b', (type.write p).run c w = some { w with buffer := b' } ∧
      Settles w.buffer b'
        (s.ReadsBack (fun source => source.value type) type v w.buffer.length b'.length) := by
  cases hstruct : type.isStruct with
  | false =>
      obtain ⟨op, hop⟩ := exists_writtenBy admitted hstruct
      refine ⟨op.apply w.buffer, hop.run c w p hread, ?_⟩
      refine (settles_plain w.buffer op hop.plain hop.fits).mono fun payload h => ?_
      obtain ⟨hstands, hlength⟩ := h
      refine ⟨fun hplain => by rw [hlength, hop.width hplain], fun nulFree source hable => ?_⟩
      rw [hlength, filled_of_plain admitted hstruct]
      exact hop.value nulFree source _ (hable.same ▸ hstands)
  | true =>
      cases type with
      | struct q =>
          obtain ⟨b', hrun, hsettles⟩ := hc.serialize q v admitted hlevels w.buffer
          refine ⟨b', by simp [FieldType.write, WriteStep.run, hread, hrun], ?_⟩
          refine hsettles.mono fun payload h => ⟨by simp [FieldType.isIndirect], ?_⟩
          intro nulFree source hable
          obtain ⟨depth, hsource, hdepth⟩ := hable.struct hstruct
          obtain ⟨st, _, hst, _⟩ := eq_record_of_admits admitted
          obtain ⟨hmem, rfl⟩ := mem_walk_of_struct? hst
          have hrank := hc.ranked.bound st.qualified (List.mem_map_of_mem hmem)
          rw [Source.value, hsource]
          apply h nulFree
          rw [Nat.add_mul] at hdepth
          omega
      | _ => exact absurd hstruct (by simp [FieldType.isStruct])

/-- What an element of a dynamic array stands for when it is written. -/
def present (s : Schema) (v : Value) : FieldType → Value
  | .struct q => if v.isAbsent then s.zero q else v
  | _ => v

/-- An element of a dynamic array: a value of its type, or no struct at all. -/
def AdmitsElement (s : Schema) (v : Value) (type : FieldType) : Prop :=
  s.admits v type .scalar = true ∨ v.isAbsent = true ∧ type.isStruct = true

theorem isAbsent_of_admits {shape : Shape} (h : s.admits v type shape = true) :
    v.isAbsent = false := by
  cases v with
  | absent => simp [admits] at h
  | _ => rfl

theorem present_of_admits (h : s.admits v type .scalar = true) : s.present v type = v := by
  cases type <;> simp [present, isAbsent_of_admits h]

/-- What an element stands for is a value of its type, filled in like the element itself. -/
theorem present_spec (hs : s.Ranked rank) (hdeclared : ∀ q, type = .struct q → q ∈ s.names)
    (h : s.AdmitsElement v type) (hlevels : v.levels s.walk.length ≤ bound) :
    s.admits (s.present v type) type .scalar = true ∧
      (s.present v type).levels s.walk.length ≤ bound ∧
      s.filled (s.present v type) type = s.filled v type ∧
      (v.isNulFree = true → (s.present v type).isNulFree = true) := by
  rcases h with h | ⟨habsent, hstruct⟩
  · rw [present_of_admits h]
    exact ⟨h, hlevels, rfl, id⟩
  · cases v with
    | absent =>
        cases type with
        | struct q =>
            have hzero := whole_zero hs (hdeclared q rfl)
            simp only [Value.levels] at hlevels
            exact ⟨hzero.admitted, Nat.le_trans hzero.levels hlevels,
              hzero.filled.trans (by simp [filled]), fun _ => hzero.nulFree⟩
        | _ => exact absurd hstruct (by simp [FieldType.isStruct])
    | _ => exact absurd habsent (by simp [Value.isAbsent])

/-- A slot for the element at hand is reserved and resolved at once. -/
theorem runAll_element_slot (c : Callees) (w : Writing) :
    WriteStep.runAll c w [.reserve .element, .resolve .element] =
      some { w with
        elementHandle := some w.buffer.create.1
        buffer := w.buffer.create.2.insert w.buffer.create.1 } := rfl

theorem runAll_present (hzero : c.zero = s.zero) (w : Writing) (type : FieldType) :
    WriteStep.runAll c w
        (match type with
        | .struct q => [.orNew q]
        | _ => []) =
      some { w with element := s.present w.element type } := by
  cases type with
  | struct q =>
      simp only [WriteStep.runAll, List.foldlM_cons, List.foldlM_nil, WriteStep.run, present,
        hzero]
      cases w.element.isAbsent <;> rfl
  | _ => rfl

theorem runAll_append (c : Callees) (w : Writing) (first second : List WriteStep) :
    WriteStep.runAll c w (first ++ second) =
      (WriteStep.runAll c w first).bind fun w => WriteStep.runAll c w second :=
  List.foldlM_append

/-- The statements for an element promise that the element can be read back. -/
theorem Capable.settles_element (hc : s.Capable rank c bound) {f : Field}
    (hdeclared : ∀ q, f.type = .struct q → q ∈ s.names) (h : s.AdmitsElement v f.type)
    (hlevels : v.levels s.walk.length ≤ bound) {w : Writing} (helement : w.element = v) :
    ∃ w', WriteStep.runAll c w f.element = some w' ∧ w.Keeps w' ∧
      Settles w.buffer w'.buffer
        (s.ReadsBack (fun source => source.element f.type) f.type v w.buffer.length
          w'.buffer.length) := by
  obtain ⟨admitted, hlevels', hfilled, hnulFree⟩ := present_spec hc.ranked hdeclared h hlevels
  cases hindirect : f.type.isIndirect with
  | false =>
      have hread : ∀ source : Source, source.element f.type = source.value f.type := by
        intro source
        funext position
        simp [Source.element, hindirect]
      have hplain : f.type.isStruct = false := by
        cases htype : f.type <;> simp_all [FieldType.isIndirect, FieldType.isStruct]
      have admitted : s.admits v f.type .scalar = true := by
        simpa [AdmitsElement, hplain] using h
      obtain ⟨b', hrun, hsettles⟩ :=
        hc.settles_value admitted hlevels (w := w) (p := .element) (congrArg some helement)
      refine ⟨{ w with buffer := b' }, ?_, ⟨rfl, rfl⟩, ?_⟩
      · simp [Field.element, hindirect, WriteStep.runAll, hrun]
      · simpa only [hread] using hsettles
  | true =>
      let w₁ : Writing :=
        { w with
          elementHandle := some w.buffer.create.1
          buffer := w.buffer.create.2.insert w.buffer.create.1 }
      let w₂ : Writing := { w₁ with element := s.present v f.type }
      obtain ⟨b', hrun, hsettles⟩ :=
        hc.settles_value admitted hlevels' (w := w₂) (p := .element) rfl
      refine ⟨{ w₂ with buffer := b' }, ?_, ⟨rfl, rfl⟩, ?_⟩
      · have hpresent := runAll_present hc.zero w₁ f.type
        rw [show w₁.element = v from helement] at hpresent
        rw [Field.element, if_pos hindirect, runAll_append, runAll_append, runAll_element_slot,
          Option.bind_some]
        refine (congrArg (Option.bind · _) hpresent).trans ?_
        simp [WriteStep.runAll, hrun, w₂]
      · refine (settles_slot w.buffer).trans hsettles fun payload hle hslot hvalue => ?_
        obtain ⟨hstands, hlength, hsmall⟩ := hslot
        refine ⟨fun hdirect => absurd hdirect (by simp [hindirect]), fun nulFree source hable => ?_⟩
        have hslotAt := slotAt_of_standsAt (hable.same ▸ hstands) hsmall
        have hlater : s.Able source payload f.type w₂.buffer.length :=
          hable.later hle
        simp only [Source.element, hindirect, if_true, hslotAt]
        exact (hvalue.read (hnulFree nulFree) source hlater).trans (by rw [hfilled])

/-- What is promised of items that were written from `start` to `stop`. -/
structure ItemsReadBack (s : Schema) (read : Source → Nat → Option (Located Value))
    (type : FieldType) (items : List Value) (start stop : Nat) (payload : Text) : Prop where
  width : type.isIndirect = false → stop = start + items.length * type.width
  read : (∀ v ∈ items, v.isNulFree = true) → ∀ source, s.Able source payload type start →
    readEach (read source) items.length start =
      some (items.map fun v => s.filled v type, stop)

/-- A loop over items promises all that its body promises of one. -/
theorem settles_each {read : Source → Nat → Option (Located Value)} {body : List WriteStep}
    {items : List Value}
    (hbody : ∀ v ∈ items, ∀ w : Writing, w.element = v →
      ∃ w', WriteStep.runAll c w body = some w' ∧ w.Keeps w' ∧
        Settles w.buffer w'.buffer
          (s.ReadsBack read type v w.buffer.length w'.buffer.length)) (w : Writing) :
    ∃ w', items.foldlM (fun w v => WriteStep.runAll c { w with element := v } body) w = some w' ∧
      w.Keeps w' ∧
      Settles w.buffer w'.buffer
        (s.ItemsReadBack read type items w.buffer.length w'.buffer.length) := by
  induction items generalizing w with
  | nil =>
      refine ⟨w, rfl, ⟨rfl, rfl⟩, Settles.refl _ fun payload => ⟨?_, ?_⟩⟩
      · simp
      · intro _ source _
        rfl
  | cons v items ih =>
      obtain ⟨w₁, hrun₁, hkeeps₁, hsettles₁⟩ := hbody v (by simp) { w with element := v } rfl
      obtain ⟨w₂, hrun₂, hkeeps₂, hsettles₂⟩ := ih (fun u hu => hbody u (by simp [hu])) w₁
      have hkeeps : w.Keeps w₁ := ⟨hkeeps₁.members, hkeeps₁.handles⟩
      refine ⟨w₂, ?_, hkeeps.trans hkeeps₂, ?_⟩
      · rw [List.foldlM_cons, hrun₁]
        exact hrun₂
      · refine hsettles₁.trans hsettles₂ fun payload hle hfirst hrest => ⟨fun hplain => ?_, ?_⟩
        · have hwidth : w₁.buffer.length = w.buffer.length + type.width := hfirst.width hplain
          rw [hrest.width hplain, hwidth, List.length_cons, Nat.succ_mul]
          omega
        · intro nulFree source hable
          have hhead : read source w.buffer.length = some (s.filled v type, w₁.buffer.length) :=
            hfirst.read (nulFree v (by simp)) source hable
          have htail := hrest.read (fun u hu => nulFree u (by simp [hu])) source (hable.later hle)
          simp [readEach, hhead, htail]

/-- The length of an array and its elements promise that the array can be read back. -/
theorem Capable.settles_array (hc : s.Capable rank c bound) {f : Field} {items : List Value}
    (hdeclared : ∀ q, f.type = .struct q → q ∈ s.names) (hlength : items.length < 2 ^ 31)
    (hitems : ∀ v ∈ items, s.AdmitsElement v f.type)
    (hlevels : ∀ v ∈ items, v.levels s.walk.length ≤ bound) {w : Writing}
    (hmember : w.members.lookup f.identifier = some (.array items)) :
    ∃ w', [.step (.count f.identifier), .eachElement f.identifier f.element].foldlM
        (WriteStatement.run c) w = some w' ∧ w.Keeps w' ∧
      Settles w.buffer w'.buffer fun payload => (∀ v ∈ items, v.isNulFree = true) →
        ∀ source, s.Able source payload f.type w.buffer.length →
          source.array f.type w.buffer.length =
            some (s.filled (.array items) f.type, w'.buffer.length) := by
  have hfits : Text.fitsWord 32 (items.length : Int) = true :=
    Text.fitsWord_iff.mpr (by omega)
  have hword : word32 items.length = items.length := by
    unfold word32
    omega
  have hcount : Settles w.buffer (w.buffer.writeCount items.length) _ :=
    settles_plain w.buffer (.count items.length) rfl (by simpa using hfits)
  obtain ⟨w', hrun, hkeeps, hsettles⟩ :=
    settles_each (fun v hv w hw => hc.settles_element hdeclared (hitems v hv) (hlevels v hv) hw)
      { w with buffer := w.buffer.writeCount items.length }
  refine ⟨w', ?_, ⟨hkeeps.members, hkeeps.handles⟩, ?_⟩
  · have hread : w.items f.identifier = some items := by
      simp [Writing.items, hmember, Value.items?]
    have hcountRun : (WriteStatement.step (.count f.identifier)).run c w =
        some { w with buffer := w.buffer.writeCount items.length } := by
      simp [WriteStatement.run, WriteStep.run, hread]
    have hloopRun : (WriteStatement.eachElement f.identifier f.element).run c
        { w with buffer := w.buffer.writeCount items.length } = some w' := by
      rw [WriteStatement.run]
      exact (congrArg (Option.bind · _) hread).trans hrun
    simp only [List.foldlM_cons, List.foldlM_nil, hcountRun, hloopRun, Option.bind_eq_bind,
      Option.bind_some]
    rfl
  · refine hcount.trans hsettles fun payload hle hstands hread nulFree source hable => ?_
    have hend : (w.buffer.writeCount items.length).length = w.buffer.length + 4 :=
      hstands.2.trans (by simp [Operation.bytes])
    have hwordAt : wordAt source.payload 4 w.buffer.length =
        some (items.length, (w.buffer.writeCount items.length).length) := by
      rw [hable.same, wordAt_of_standsAt hstands.1 (word32_lt _), hword, hend]
    have hitemsAt := hread.read nulFree source (hable.later hle)
    simp only [Source.array, hwordAt, Option.bind_eq_bind, Option.bind_some]
    exact (congrArg (Option.bind · _) hitemsAt).trans (by rw [filled, filledItems_eq_map]; rfl)

end Values

end Schema

end Schematic
