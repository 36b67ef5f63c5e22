import Schematic.Proofs.FieldWriting

/-!
# Writing the data of fields

The second pass over the fields of a struct resolves the slots that the first one left, in the same
order, and puts the data behind them. With it the fields can be read back.
-/

namespace Schematic

open Method Buffer

/-- What is written for a field in the second pass. -/
def Field.trailing (f : Field) : List WriteStatement :=
  if f.isDeferred then .remark f.name :: f.deferred else []

namespace Schema

/-- A source that reads structs deep enough for all that stands behind a position. -/
structure Suits (s : Schema) (source : Source) (payload : Text) (position : Nat) : Prop where
  same : source.payload = payload
  struct : ∃ depth, source.struct = s.readWithin payload depth ∧
    (payload.length - position) * s.walk.length ≤ depth

section Suits

variable {s : Schema} {source : Source} {payload : Text} {position : Nat}

theorem Suits.later (h : s.Suits source payload position) {position' : Nat}
    (hle : position ≤ position') : s.Suits source payload position' := by
  obtain ⟨depth, hread, hdepth⟩ := h.struct
  refine ⟨h.same, depth, hread, Nat.le_trans (Nat.mul_le_mul_right _ ?_) hdepth⟩
  omega

theorem Suits.able (h : s.Suits source payload position) {target : Nat} (hlt : position < target)
    (hle : target ≤ payload.length) (type : FieldType) : s.Able source payload type target := by
  obtain ⟨depth, hread, hdepth⟩ := h.struct
  refine ⟨h.same, fun _ => ⟨depth, hread, Nat.le_trans (Nat.mul_le_mul_right _ ?_) hdepth⟩⟩
  omega

end Suits

/-- Data that is written behind the slot of a handle: the slot will hold where the data starts. -/
theorem leads_behind {b b' : Buffer} {h : Handle} {property : Text → Prop}
    (hsettles : Settles (b.insert h) b' property) (position : Nat)
    (before after : List (Handle × Nat)) :
    Leads b b' (b.Live ∧ b.pending = before ++ (h, position) :: after)
      (b'.Live ∧ b'.pending = before ++ after ∧
        b'.Promises fun payload =>
          slotAt payload position = some (b.length, position + slotSize) ∧
            (b.insert h).length = b.length ∧ position < b.length ∧
            b.length ≤ payload.length ∧ property payload) := by
  have hinsert := leads_insert b h position before after
  refine ⟨hinsert.reaches.trans hsettles.reaches, fun hsmall hpre => ?_⟩
  have hle := hsettles.reaches.length_le
  obtain ⟨hb₁, hpending₁, hlength₁, hinside, hslot⟩ :=
    hinsert.holds (Nat.lt_of_le_of_lt hle hsmall) hpre
  obtain ⟨hb₂, hpending₂, hproperty⟩ := hsettles.holds hsmall hb₁
  rw [hlength₁] at hle
  refine ⟨hb₂, hpending₂.trans hpending₁, fun payload hfinish => ⟨?_, hlength₁, ?_, ?_, ?_⟩⟩
  · exact slotAt_of_standsAt (hslot.later hsettles.reaches payload hfinish)
      (Nat.lt_of_le_of_lt hle hsmall)
  · simp only [slotSize] at hinside
    omega
  · exact Nat.le_trans hle (hb₂.length_le_payload hfinish)
  · exact hproperty payload hfinish

/-- What is promised of a field at a position, when the data before its own ends at `last`. -/
def FieldReads (s : Schema) (f : Field) (v : Value) (position last last' : Nat)
    (payload : Text) : Prop :=
  v.isNulFree = true → ∀ source, s.Suits source payload position →
    ∃ stored, source.inPlace f position = some (stored, position + f.room) ∧
      source.field f stored last = some (s.filled v f.type, last')

/-- What the second pass does for a field. -/
structure Follows (s : Schema) (f : Field) (v : Value) (w w' : Writing) : Prop where
  keeps : w.Keeps w'
  leads : ∀ (position : Nat) (before after : List (Handle × Nat)),
    Leads w.buffer w'.buffer
      (w.buffer.Live ∧ w.buffer.pending = before ++ (f.slots w.handles position ++ after) ∧
        w.buffer.Promises (s.PlainAt f v position))
      (w'.buffer.Live ∧ w'.buffer.pending = before ++ after ∧
        w'.buffer.Promises (s.FieldReads f v position w.buffer.length w'.buffer.length))

section Behind

variable {s : Schema} {rank : Qualified → Nat} {c : Callees} {bound : Nat} {f : Field} {v : Value}

theorem inPlace_slots {source : Source} {position stop : Nat} {targets : List Nat}
    (hdeferred : f.isDeferred = true)
    (h : readEach (slotAt source.payload) f.places position = some (targets, stop)) :
    source.inPlace f position = some (.slots targets, stop) := by
  simp only [Field.isDeferred] at hdeferred
  unfold Field.places at h
  simp only [Source.inPlace, hdeferred, if_true]
  exact (congrArg (Option.bind · _) h).trans rfl

/-- Nothing follows a field without slots. -/
theorem follows_plain (hplain : f.isDeferred = false) (w : Writing) : s.Follows f v w w := by
  refine ⟨⟨rfl, rfl⟩, fun position before after => ⟨.refl _, ?_⟩⟩
  rintro _ ⟨hb, hpending, hpromise⟩
  refine ⟨hb, by simpa [Field.slots, hplain] using hpending, fun payload hfinish => ?_⟩
  intro nulFree source hsuits
  obtain ⟨items, hinPlace, hitems⟩ := hpromise payload hfinish hplain nulFree source hsuits.same
  exact ⟨.values items, hinPlace, by simp [Source.field, hitems]⟩

/-- What follows a field with one slot is found through it. -/
theorem follows_slot (hdeferred : f.isDeferred = true) (hplaces : f.places = 1) {w w' : Writing}
    {h : Handle} (hhandle : w.handles.lookup (f.identifier, 0) = some h) (hkeeps : w.Keeps w')
    (hsettles : Settles (w.buffer.insert h) w'.buffer fun payload => v.isNulFree = true →
      ∀ source, s.Able source payload f.type (w.buffer.insert h).length → ∀ last,
        source.field f (.slots [(w.buffer.insert h).length]) last =
          some (s.filled v f.type, w'.buffer.length)) :
    s.Follows f v w w' := by
  refine ⟨hkeeps, fun position before after => ?_⟩
  have hbehind := leads_behind hsettles position before after
  refine ⟨hbehind.reaches, fun hsmall => ?_⟩
  rintro ⟨hb, hpending, _⟩
  have hslots : f.slots w.handles position = [(h, position)] := by
    simp [Field.slots, hdeferred, hplaces, hhandle]
  rw [hslots] at hpending
  obtain ⟨hb', hpending', hpromise⟩ := hbehind.holds hsmall ⟨hb, hpending⟩
  refine ⟨hb', hpending', fun payload hfinish nulFree source hsuits => ?_⟩
  obtain ⟨hslot, hsame, hlt, hle, hread⟩ := hpromise payload hfinish
  rw [hsame] at hread
  refine ⟨.slots [w.buffer.length], ?_, ?_⟩
  · apply inPlace_slots hdeferred
    simp [hplaces, readEach, hsuits.same, hslot, Field.room, hdeferred]
  · exact hread nulFree source (hsuits.able hlt hle f.type) w.buffer.length

theorem run_resolve {w : Writing} {name : Text} {h : Handle}
    (hhandle : w.handles.lookup (name, 0) = some h) :
    (WriteStatement.step (.resolve (.field name))).run c w =
      some { w with buffer := w.buffer.insert h } := by
  simp [WriteStatement.run, WriteStep.run, Writing.handle, hhandle]

/-- The data of a single value behind a slot. -/
theorem Capable.follows_scalar (hc : s.Capable rank c bound) {p : Text × Value}
    (hshape : f.shape = .scalar) (hindirect : f.type.isIndirect = true) {w : Writing}
    (hsupply : s.Supplies w.members bound f p)
    (hkept : (w.handles.lookup (f.identifier, 0)).isSome = true) :
    ∃ w', f.deferred.foldlM (WriteStatement.run c) w = some w' ∧ s.Follows f p.2 w w' := by
  obtain ⟨h, hhandle⟩ := Option.isSome_iff_exists.mp hkept
  let w₁ : Writing := { w with buffer := w.buffer.insert h }
  obtain ⟨b', hrun, hsettles⟩ :=
    hc.settles_value (hshape ▸ hsupply.admitted) hsupply.levels (w := w₁)
      (p := .member f.identifier) hsupply.found
  refine ⟨{ w₁ with buffer := b' }, ?_, ?_⟩
  · have hresolve : (WriteStatement.step (.resolve (.field f.identifier))).run c w = some w₁ :=
      run_resolve hhandle
    have hwrite : (WriteStatement.step (f.type.write (.member f.identifier))).run c w₁ =
        some { w₁ with buffer := b' } := hrun
    simp only [Field.deferred, hshape, List.foldlM_cons, List.foldlM_nil, hresolve, hwrite,
      Option.bind_eq_bind, Option.bind_some]
    rfl
  · refine follows_slot ?_ ?_ hhandle ⟨rfl, rfl⟩ (hsettles.mono fun payload hread => ?_)
    · simp [Field.isDeferred, hindirect]
    · simp [Field.places, hshape]
    · intro nulFree source hable last
      have hvalue : source.value f.type (w.buffer.insert h).length =
          some (s.filled p.2 f.type, b'.length) := hread.read nulFree source hable
      simp [Source.field, Field.isDynamic, hshape, readAll, hvalue, ofItems, Field.isScalar]

/-- The data of a dynamic array behind its slot. -/
theorem Capable.follows_dynamic (hc : s.Capable rank c bound) {p : Text × Value}
    (hshape : f.shape = .dynamic) {w : Writing} (hsupply : s.Supplies w.members bound f p)
    (hkept : (w.handles.lookup (f.identifier, 0)).isSome = true) :
    ∃ w', f.deferred.foldlM (WriteStatement.run c) w = some w' ∧ s.Follows f p.2 w w' := by
  obtain ⟨h, hhandle⟩ := Option.isSome_iff_exists.mp hkept
  obtain ⟨items, hitems, hlength, hadmitted⟩ :=
    eq_array_of_admits_dynamic (hshape ▸ hsupply.admitted)
  have hlevels := hsupply.levels_items hitems
  let w₁ : Writing := { w with buffer := w.buffer.insert h }
  obtain ⟨w', hrun, hkeeps, hsettles⟩ :=
    hc.settles_array hsupply.declared hlength hadmitted hlevels (w := w₁)
      (hsupply.found.trans (congrArg some hitems))
  refine ⟨w', ?_, ?_⟩
  · have hresolve : (WriteStatement.step (.resolve (.field f.identifier))).run c w = some w₁ :=
      run_resolve hhandle
    rw [Field.deferred, hshape, List.foldlM_cons, hresolve]
    exact hrun
  · refine follows_slot ?_ ?_ hhandle ⟨hkeeps.members, hkeeps.handles⟩
      (hsettles.mono fun payload hread => ?_)
    · simp [Field.isDeferred, Field.isDynamic, hshape]
    · simp [Field.places, hshape]
    · intro nulFree source hable last
      rw [hitems, Value.isNulFree, Value.itemsNulFree_iff] at nulFree
      rw [hitems]
      simp only [Source.field, Field.isDynamic, hshape]
      exact hread nulFree source hable

/-- What is promised of items that stand behind slots in a row, from the item `i` on. -/
def ItemsBehind (s : Schema) (type : FieldType) (items : List Value) (position i last last' : Nat)
    (payload : Text) : Prop :=
  (∀ v ∈ items, v.isNulFree = true) → ∀ source, s.Suits source payload position →
    ∃ targets,
      readEach (slotAt source.payload) items.length (position + slotSize * i) =
        some (targets, position + slotSize * (i + items.length)) ∧
      readAll (source.value type) targets last =
        some (items.map fun v => s.filled v type, last')

/-- One turn of the loop that writes the items of a field behind their slots. -/
theorem Capable.settles_item (hc : s.Capable rank c bound) {name : Text} {type : FieldType}
    (hadmitted : s.admits v type .scalar = true) (hlevels : v.levels s.walk.length ≤ bound)
    {all : List Value} {i : Nat} (hitem : all[i]? = some v) {w : Writing} {h : Handle}
    (hmember : w.members.lookup name = some (.array all))
    (hhandle : w.handles.lookup (name, i) = some h) :
    ∃ b', WriteStep.runAll c { w with index := i }
        [.resolve (.fieldAt name), type.write (.memberAt name)] =
          some { w with index := i, buffer := b' } ∧
      Settles (w.buffer.insert h) b'
        (s.ReadsBack (fun source => source.value type) type v (w.buffer.insert h).length
          b'.length) := by
  let w₁ : Writing := { w with index := i, buffer := w.buffer.insert h }
  have hread : w₁.read (.memberAt name) = some v := by
    simp [Writing.read, Place.read, w₁, hmember, Value.items?, hitem]
  have hresolve : (WriteStep.resolve (.fieldAt name)).run c { w with index := i } = some w₁ := by
    simp [WriteStep.run, Writing.handle, hhandle, w₁]
  obtain ⟨b', hrun, hsettles⟩ := hc.settles_value hadmitted hlevels hread
  refine ⟨b', ?_, hsettles⟩
  simp only [WriteStep.runAll, List.foldlM_cons, List.foldlM_nil, hresolve, hrun,
    Option.bind_eq_bind, Option.bind_some]
  rfl

theorem itemsBehind_cons {type : FieldType} {items : List Value} {position i last mid last' : Nat}
    {payload : Text} (hslot : slotAt payload (position + slotSize * i) =
      some (last, position + slotSize * i + slotSize))
    (hvalue : v.isNulFree = true → ∀ source, s.Suits source payload position →
      source.value type last = some (s.filled v type, mid))
    (hrest : s.ItemsBehind type items position (i + 1) mid last' payload) :
    s.ItemsBehind type (v :: items) position i last last' payload := by
  intro nulFree source hsuits
  obtain ⟨targets, htargets, hall⟩ := hrest (fun u hu => nulFree u (by simp [hu])) source hsuits
  refine ⟨last :: targets, ?_, ?_⟩
  · have hstop : i + (v :: items).length = i + 1 + items.length := by
      rw [List.length_cons]
      omega
    rw [hsuits.same, Nat.mul_succ, ← Nat.add_assoc] at htargets
    rw [hstop, List.length_cons, readEach, hsuits.same, hslot]
    simp only [Option.bind_eq_bind, Option.bind_some, htargets]
    rfl
  · simp [readAll, hvalue (nulFree v (by simp)) source hsuits, hall]

/-- The loop that writes the items of a field behind their slots, from the item `i` on. -/
theorem Capable.leads_eachIndex (hc : s.Capable rank c bound) {name : Text} {type : FieldType}
    {all : List Value} (hadmitted : ∀ v ∈ all, s.admits v type .scalar = true)
    (hlevels : ∀ v ∈ all, v.levels s.walk.length ≤ bound) {items : List Value} {i : Nat}
    (hitems : all.drop i = items) {w : Writing}
    (hmember : w.members.lookup name = some (.array all))
    (hkept : ∀ j < all.length, (w.handles.lookup (name, j)).isSome = true) :
    ∃ w', (List.range' i items.length).foldlM
        (fun w i => WriteStep.runAll c { w with index := i }
          [.resolve (.fieldAt name), type.write (.memberAt name)]) w = some w' ∧
      w.Keeps w' ∧ ∀ (position : Nat) (before after : List (Handle × Nat)),
        Leads w.buffer w'.buffer
          (w.buffer.Live ∧ w.buffer.pending = before ++
            ((List.range' i items.length).map (fun j =>
              ((w.handles.lookup (name, j)).getD 0, position + slotSize * j)) ++ after))
          (w'.buffer.Live ∧ w'.buffer.pending = before ++ after ∧
            w'.buffer.Promises
              (s.ItemsBehind type items position i w.buffer.length w'.buffer.length)) := by
  induction items generalizing i w with
  | nil =>
      refine ⟨w, rfl, ⟨rfl, rfl⟩, fun position before after => ⟨.refl _, ?_⟩⟩
      rintro _ ⟨hb, hpending⟩
      refine ⟨hb, by simpa using hpending, fun payload _ _ source _ => ⟨[], ?_, ?_⟩⟩
      · simp [readEach]
      · simp [readAll]
  | cons v items ih =>
      have hi : i < all.length := by
        by_contra hge
        rw [List.drop_eq_nil_of_le (by omega)] at hitems
        exact absurd hitems (by simp)
      obtain ⟨hitem, hrest⟩ : all[i]? = some v ∧ all.drop (i + 1) = items := by
        rw [List.drop_eq_getElem_cons hi] at hitems
        obtain ⟨rfl, hrest⟩ := List.cons.inj hitems
        exact ⟨List.getElem?_eq_getElem hi, hrest⟩
      have hmem : v ∈ all := List.mem_of_getElem? hitem
      obtain ⟨h, hhandle⟩ := Option.isSome_iff_exists.mp (hkept i hi)
      obtain ⟨b₁, hrun₁, hsettles₁⟩ :=
        hc.settles_item (hadmitted v hmem) (hlevels v hmem) hitem hmember hhandle
      obtain ⟨w₂, hrun₂, hkeeps₂, hleads₂⟩ :=
        ih hrest (w := { w with index := i, buffer := b₁ }) hmember hkept
      refine ⟨w₂, ?_, ⟨hkeeps₂.members, hkeeps₂.handles⟩, fun position before after => ?_⟩
      · rw [List.length_cons, List.range'_succ, List.foldlM_cons, hrun₁]
        exact hrun₂
      · have hbehind := leads_behind hsettles₁ (position + slotSize * i) before
          ((List.range' (i + 1) items.length).map (fun j =>
            ((w.handles.lookup (name, j)).getD 0, position + slotSize * j)) ++ after)
        have hleads := hleads₂ position before after
        refine ⟨hbehind.reaches.trans hleads.reaches, fun hsmall => ?_⟩
        rintro ⟨hb, hpending⟩
        rw [List.length_cons, List.range'_succ, List.map_cons, hhandle] at hpending
        obtain ⟨hb₁, hpending₁, hpromise₁⟩ :=
          hbehind.holds (Nat.lt_of_le_of_lt hleads.reaches.length_le hsmall) ⟨hb, hpending⟩
        obtain ⟨hb₂, hpending₂, hpromise₂⟩ := hleads.holds hsmall ⟨hb₁, hpending₁⟩
        refine ⟨hb₂, hpending₂, fun payload hfinish => ?_⟩
        obtain ⟨hslot, hsame, hlt, hle, hread⟩ :=
          hpromise₁.later hleads.reaches payload hfinish
        rw [hsame] at hread
        refine itemsBehind_cons hslot (fun nulFree source hsuits => ?_)
          (hpromise₂ payload hfinish)
        exact hread.read nulFree source (hsuits.able (by omega) hle type)

/-- The data of a fixed number of values behind their slots. -/
theorem Capable.follows_fixed (hc : s.Capable rank c bound) {p : Text × Value} {count : Int}
    (hshape : f.shape = .fixed count) (hindirect : f.type.isIndirect = true) {w : Writing}
    (hsupply : s.Supplies w.members bound f p)
    (hkept : ∀ i < f.places, (w.handles.lookup (f.identifier, i)).isSome = true) :
    ∃ w', f.deferred.foldlM (WriteStatement.run c) w = some w' ∧ s.Follows f p.2 w w' := by
  have hdeferred : f.isDeferred = true := by simp [Field.isDeferred, hindirect]
  obtain ⟨items, hitems, hlength, hadmitted⟩ :=
    eq_array_of_admits_fixed (hshape ▸ hsupply.admitted)
  have hplaces : f.places = items.length := by simp [Field.places, hshape, hlength]
  have hmember := hsupply.found.trans (congrArg some hitems)
  obtain ⟨w', hrun, hkeeps, hleads⟩ :=
    hc.leads_eachIndex hadmitted (hsupply.levels_items hitems) (i := 0) rfl hmember
      (hplaces ▸ hkept)
  rw [List.drop_zero] at hrun hleads
  refine ⟨w', ?_, hkeeps, fun position before after => ⟨(hleads 0 [] []).reaches, ?_⟩⟩
  · have hread : w.items f.identifier = some items := by
      simp [Writing.items, hmember, Value.items?]
    rw [← List.range_eq_range'] at hrun
    simp [Field.deferred, hshape, WriteStatement.run, hread, hrun]
  · rintro hsmall ⟨hb, hpending, _⟩
    have hslots : f.slots w.handles position = (List.range' 0 items.length).map fun i =>
        ((w.handles.lookup (f.identifier, i)).getD 0, position + slotSize * i) := by
      simp [Field.slots, hdeferred, hplaces, List.range_eq_range']
    rw [hslots] at hpending
    obtain ⟨hb', hpending', hpromise⟩ := (hleads position before after).holds hsmall ⟨hb, hpending⟩
    refine ⟨hb', hpending', fun payload hfinish nulFree source hsuits => ?_⟩
    rw [hitems, Value.isNulFree, Value.itemsNulFree_iff] at nulFree
    obtain ⟨targets, htargets, hall⟩ := hpromise payload hfinish nulFree source hsuits
    refine ⟨.slots targets, inPlace_slots hdeferred ?_, ?_⟩
    · rw [hplaces]
      simpa [Field.room, hdeferred, hplaces, Nat.mul_comm] using htargets
    · simp [Source.field, Field.isDynamic, hshape, hall, ofItems, Field.isScalar, hitems, filled,
        filledItems_eq_map]

/-- The statements for a field in the second pass make it readable. -/
theorem Capable.follows_field (hc : s.Capable rank c bound) {p : Text × Value} {w : Writing}
    (hsupply : s.Supplies w.members bound f p)
    (hkept : f.isDeferred = true → ∀ i < f.places,
      (w.handles.lookup (f.identifier, i)).isSome = true) :
    ∃ w', f.trailing.foldlM (WriteStatement.run c) w = some w' ∧ s.Follows f p.2 w w' := by
  cases hdeferred : f.isDeferred with
  | false => exact ⟨w, by simp [Field.trailing, hdeferred], follows_plain hdeferred w⟩
  | true =>
      have hkept := hkept hdeferred
      have htrailing : f.trailing.foldlM (WriteStatement.run c) w =
          f.deferred.foldlM (WriteStatement.run c) w := by
        rw [Field.trailing, if_pos hdeferred]
        rfl
      rw [htrailing]
      cases hshape : f.shape with
      | dynamic =>
          exact hc.follows_dynamic hshape hsupply (hkept 0 (by simp [Field.places, hshape]))
      | scalar =>
          have hindirect : f.type.isIndirect = true := by
            simpa [Field.isDeferred, Field.isDynamic, hshape] using hdeferred
          exact hc.follows_scalar hshape hindirect hsupply
            (hkept 0 (by simp [Field.places, hshape]))
      | fixed count =>
          have hindirect : f.type.isIndirect = true := by
            simpa [Field.isDeferred, Field.isDynamic, hshape] using hdeferred
          exact hc.follows_fixed hshape hindirect hsupply hkept

/-- What is promised of fields that start at a position, with data that starts at `last`. -/
def FieldsRead (s : Schema) (fs : List Field) (ps : List (Text × Value))
    (position last last' : Nat) (payload : Text) : Prop :=
  (∀ p ∈ ps, p.2.isNulFree = true) → ∀ source, s.Suits source payload position →
    ∃ stored, source.allInPlace fs position = some (stored, position + roomOf fs) ∧
      source.fields stored last = some (s.filledMembers ps (fs.map Field.member), last')

theorem fieldsRead_cons {p : Text × Value} {fs : List Field} {ps : List (Text × Value)}
    {position last mid last' : Nat} {payload : Text} (hname : p.1 = f.identifier)
    (hfirst : s.FieldReads f p.2 position last mid payload)
    (hrest : s.FieldsRead fs ps (position + f.room) mid last' payload) :
    s.FieldsRead (f :: fs) (p :: ps) position last last' payload := by
  intro nulFree source hsuits
  obtain ⟨stored, hinPlace, hfield⟩ := hfirst (nulFree p (by simp)) source hsuits
  obtain ⟨others, hothers, hfields⟩ :=
    hrest (fun q hq => nulFree q (by simp [hq])) source (hsuits.later (Nat.le_add_right _ _))
  refine ⟨(f, stored) :: others, ?_, ?_⟩
  · simp [Source.allInPlace, hinPlace, hothers, roomOf, Nat.add_assoc]
  · simp [Source.fields, hfield, hfields, filledMembers, Field.member, hname]

/-- The second pass over all fields. -/
theorem Capable.follows_fields (hc : s.Capable rank c bound) {members : List (Text × Value)}
    {fs : List Field} {ps : List (Text × Value)}
    (hsupply : List.Forall₂ (s.Supplies members bound) fs ps) {w : Writing}
    (hmembers : w.members = members)
    (hkept : ∀ f ∈ fs, f.isDeferred = true → ∀ i < f.places,
      (w.handles.lookup (f.identifier, i)).isSome = true) :
    ∃ w', (fs.flatMap Field.trailing).foldlM (WriteStatement.run c) w = some w' ∧
      ∀ (position : Nat) (before : List (Handle × Nat)),
        Leads w.buffer w'.buffer
          (w.buffer.Live ∧ w.buffer.pending = before ++ slotsOf w.handles fs position ∧
            w.buffer.Promises (s.PlainReads fs ps position))
          (w'.buffer.Live ∧ w'.buffer.pending = before ∧
            w'.buffer.Promises
              (s.FieldsRead fs ps position w.buffer.length w'.buffer.length)) := by
  induction hsupply generalizing w with
  | nil =>
      refine ⟨w, rfl, fun position before => ⟨.refl _, ?_⟩⟩
      rintro _ ⟨hb, hpending, _⟩
      refine ⟨hb, by simpa [slotsOf] using hpending, fun payload _ _ source _ => ⟨[], ?_, ?_⟩⟩
      · simp [Source.allInPlace, roomOf]
      · simp [Source.fields, filledMembers]
  | @cons f p fs ps hf _ ih =>
      obtain ⟨w₁, hrun₁, hfollows₁⟩ :=
        hc.follows_field (hmembers ▸ hf) (hkept f (by simp))
      have hhandles := hfollows₁.keeps.handles
      obtain ⟨w₂, hrun₂, hleads₂⟩ :=
        ih (hfollows₁.keeps.members.trans hmembers)
          (fun g hg => hhandles ▸ hkept g (by simp [hg]))
      refine ⟨w₂, ?_, fun position before => ?_⟩
      · rw [List.flatMap_cons, List.foldlM_append, hrun₁]
        exact hrun₂
      · have hleads₁ :=
          hfollows₁.leads position before (slotsOf w.handles fs (position + f.room))
        have hleads := hleads₂ (position + f.room) before
        refine ⟨hleads₁.reaches.trans hleads.reaches, fun hsmall => ?_⟩
        rintro ⟨hb, hpending, hplain⟩
        obtain ⟨hb₁, hpending₁, hpromise₁⟩ :=
          hleads₁.holds (Nat.lt_of_le_of_lt hleads.reaches.length_le hsmall)
            ⟨hb, hpending, fun payload hfinish => (hplain payload hfinish).1⟩
        rw [← hhandles] at hpending₁
        obtain ⟨hb₂, hpending₂, hpromise₂⟩ := hleads.holds hsmall ⟨hb₁, hpending₁,
          fun payload hfinish => (hplain.later hleads₁.reaches payload hfinish).2⟩
        refine ⟨hb₂, hpending₂, fun payload hfinish => ?_⟩
        exact fieldsRead_cons hf.name (hpromise₁.later hleads.reaches payload hfinish)
          (hpromise₂ payload hfinish)

end Behind

end Schema

end Schematic
