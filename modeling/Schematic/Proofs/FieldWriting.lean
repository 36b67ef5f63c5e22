import Schematic.Proofs.ValueWriting

/-!
# Writing fields in place

The fields of a struct are written in two passes. The first leaves plain values in place and slots
for all else, whose handles are kept by the name of the field. How much room a field takes does not
depend on its value.
-/

namespace Schematic

open Method Buffer

namespace Field

/-- How many values or slots a field has in place. -/
def places (f : Field) : Nat :=
  match f.shape with
  | .fixed count => count.toNat
  | _ => 1

/-- The bytes that a field takes in place. -/
def room (f : Field) : Nat :=
  f.places * (if f.isDeferred then slotSize else f.type.width)

/-- The slots of a field that starts at a position, each with the handle kept for it. -/
def slots (f : Field) (handles : List ((Text × Nat) × Handle)) (position : Nat) :
    List (Handle × Nat) :=
  if f.isDeferred then
    (List.range f.places).map fun i =>
      ((handles.lookup (f.identifier, i)).getD 0, position + slotSize * i)
  else []

end Field

/-- The bytes that fields take in place. -/
def roomOf (fs : List Field) : Nat :=
  (fs.map Field.room).sum

/-- The slots of fields that stand one after the other. -/
def slotsOf (handles : List ((Text × Nat) × Handle)) : List Field → Nat → List (Handle × Nat)
  | [], _ => []
  | f :: fs, position => f.slots handles position ++ slotsOf handles fs (position + f.room)

namespace Schema

/-- A member of the struct at hand that a field is written from. -/
structure Supplies (s : Schema) (members : List (Text × Value)) (bound : Nat) (f : Field)
    (p : Text × Value) : Prop where
  name : p.1 = f.identifier
  found : members.lookup f.identifier = some p.2
  admitted : s.admits p.2 f.type f.shape = true
  levels : p.2.levels s.walk.length ≤ bound
  declared : ∀ q, f.type = .struct q → q ∈ s.names

theorem Supplies.levels_items {s : Schema} {members : List (Text × Value)} {bound : Nat}
    {f : Field} {p : Text × Value} {items : List Value} (h : s.Supplies members bound f p)
    (hitems : p.2 = .array items) : ∀ v ∈ items, v.levels s.walk.length ≤ bound := by
  have hlevels := h.levels
  rw [hitems, Value.levels] at hlevels
  exact Value.levelsItems_le_iff.mp hlevels

/-- What is promised of a field without slots: it can be read where it stands. -/
def PlainAt (s : Schema) (f : Field) (v : Value) (position : Nat) (payload : Text) : Prop :=
  f.isDeferred = false → v.isNulFree = true → ∀ source : Source, source.payload = payload →
    ∃ items, source.inPlace f position = some (.values items, position + f.room) ∧
      ofItems f items = some (s.filled v f.type)

/-- What is promised of the fields without slots among others. -/
def PlainReads (s : Schema) : List Field → List (Text × Value) → Nat → Text → Prop
  | f :: fs, p :: ps, position, payload =>
    s.PlainAt f p.2 position payload ∧ s.PlainReads fs ps (position + f.room) payload
  | _, _, _, _ => True

/-- What the first pass over fields does. -/
structure Placed (s : Schema) (fs : List Field) (ps : List (Text × Value)) (w w' : Writing) :
    Prop where
  members : w'.members = w.members
  others : ∀ name, name ∉ fs.map Field.identifier → ∀ i,
    w'.handles.lookup (name, i) = w.handles.lookup (name, i)
  kept : ∀ f ∈ fs, f.isDeferred = true → ∀ i < f.places,
    (w'.handles.lookup (f.identifier, i)).isSome = true
  leads : Leads w.buffer w'.buffer w.buffer.Live
    (w'.buffer.Live ∧
      w'.buffer.pending = w.buffer.pending ++ slotsOf w'.handles fs w.buffer.length ∧
      w'.buffer.length = w.buffer.length + roomOf fs ∧
      w'.buffer.Promises (s.PlainReads fs ps w.buffer.length))

end Schema

namespace Method.Writing

/-- Reserves slots for the first items of a field. -/
def reserveFirst (w : Writing) (name : Text) (count : Nat) : Writing :=
  (List.range count).foldl (fun w i => { w with index := i }.reserve (.fieldAt name)) w

end Method.Writing

namespace Schema

section ReserveFirst

variable (w : Writing) (name : Text) (count : Nat)

theorem reserveFirst_succ :
    w.reserveFirst name (count + 1) =
      { w.reserveFirst name count with index := count }.reserve (.fieldAt name) := by
  simp [Writing.reserveFirst, List.range_succ]

theorem reserveFirst_handles :
    (w.reserveFirst name (count + 1)).handles =
      ((name, count), (w.reserveFirst name count).buffer.create.1) ::
        (w.reserveFirst name count).handles := by
  rw [reserveFirst_succ]
  rfl

theorem reserveFirst_buffer :
    (w.reserveFirst name (count + 1)).buffer = (w.reserveFirst name count).buffer.create.2 := by
  rw [reserveFirst_succ]
  rfl

theorem reserveFirst_members : (w.reserveFirst name count).members = w.members := by
  induction count with
  | zero => rfl
  | succ count ih =>
      rw [reserveFirst_succ]
      exact ih

variable {name}

/-- A further slot leaves the handles of the slots before it. -/
theorem reserveFirst_lookup {name' : Text} {i : Nat} (h : name' ≠ name ∨ i ≠ count) :
    (w.reserveFirst name (count + 1)).handles.lookup (name', i) =
      (w.reserveFirst name count).handles.lookup (name', i) := by
  have hne : ((name', i) == (name, count)) = false := by
    rw [beq_eq_false_iff_ne]
    intro heq
    obtain ⟨rfl, rfl⟩ := Prod.mk.inj heq
    rcases h with h | h <;> exact h rfl
  rw [reserveFirst_handles, List.lookup_cons, hne]

theorem reserveFirst_other {name' : Text} (h : name' ≠ name) (i : Nat) :
    (w.reserveFirst name count).handles.lookup (name', i) = w.handles.lookup (name', i) := by
  induction count with
  | zero => rfl
  | succ count ih => rw [reserveFirst_lookup w count (Or.inl h), ih]

variable (name) {count}

theorem reserveFirst_isSome {i : Nat} (h : i < count) :
    ((w.reserveFirst name count).handles.lookup (name, i)).isSome = true := by
  induction count with
  | zero => omega
  | succ count ih =>
      by_cases heq : i = count
      · rw [heq, reserveFirst_handles, List.lookup_cons_self]
        rfl
      · rw [reserveFirst_lookup w count (Or.inr heq)]
        exact ih (by omega)

variable (count)

theorem leads_reserveFirst :
    Leads w.buffer (w.reserveFirst name count).buffer w.buffer.Live
      ((w.reserveFirst name count).buffer.Live ∧
        (w.reserveFirst name count).buffer.pending = w.buffer.pending ++
          (List.range count).map (fun i =>
            (((w.reserveFirst name count).handles.lookup (name, i)).getD 0,
              w.buffer.length + slotSize * i)) ∧
        (w.reserveFirst name count).buffer.length = w.buffer.length + slotSize * count) := by
  induction count with
  | zero => exact ⟨.refl _, fun _ hb => ⟨hb, by simp [Writing.reserveFirst], rfl⟩⟩
  | succ count ih =>
      have hcreate := leads_create (w.reserveFirst name count).buffer
      rw [reserveFirst_buffer]
      refine ⟨ih.reaches.trans hcreate.reaches, fun hsmall hb => ?_⟩
      have hle := hcreate.reaches.length_le
      obtain ⟨hb₁, hpending₁, hlength₁⟩ := ih.holds (Nat.lt_of_le_of_lt hle hsmall) hb
      obtain ⟨hb₂, hpending₂, hlength₂⟩ := hcreate.holds hsmall hb₁
      refine ⟨hb₂, ?_, by rw [hlength₂, hlength₁, Nat.mul_succ, Nat.add_assoc]⟩
      have hbefore : (List.range count).map (fun i =>
          (((w.reserveFirst name (count + 1)).handles.lookup (name, i)).getD 0,
            w.buffer.length + slotSize * i)) =
          (List.range count).map (fun i =>
            (((w.reserveFirst name count).handles.lookup (name, i)).getD 0,
              w.buffer.length + slotSize * i)) := by
        apply List.map_congr_left
        intro i hi
        rw [reserveFirst_lookup w count (Or.inr (Nat.ne_of_lt (List.mem_range.mp hi)))]
      rw [hpending₂, hpending₁, hlength₁, List.range_succ, List.map_append, hbefore,
        List.append_assoc, List.map_singleton, reserveFirst_handles, List.lookup_cons_self]
      rfl

end ReserveFirst

section InPlace

variable {s : Schema} {f : Field} {p : Text × Value} {c : Callees}

/-- A field without slots leaves its value in place. -/
theorem placed_plain (hplain : f.isDeferred = false) {w w' : Writing} (hkeeps : w.Keeps w')
    (hsettles : Settles w.buffer w'.buffer fun payload =>
      w'.buffer.length = w.buffer.length + f.room ∧
        s.PlainAt f p.2 w.buffer.length payload) :
    s.Placed [f] [p] w w' where
  members := hkeeps.members
  others := fun _ _ _ => by rw [hkeeps.handles]
  kept := by simp [hplain]
  leads := by
    refine ⟨hsettles.reaches, fun hsmall hb => ?_⟩
    obtain ⟨hb', hpending, hpromise⟩ := hsettles.holds hsmall hb
    refine ⟨hb', ?_, ?_, fun payload hfinish => ⟨(hpromise payload hfinish).2, trivial⟩⟩
    · simp [hpending, slotsOf, Field.slots, hplain]
    · simpa [roomOf] using (hpromise _ ⟨w'.buffer, .refl _, hb'.sound, rfl⟩).1

/-- A field with one slot. -/
theorem placed_slot (hdeferred : f.isDeferred = true) (hplaces : f.places = 1) (w : Writing) :
    s.Placed [f] [p] w (w.reserve (.field f.identifier)) := by
  have hcreate := leads_create w.buffer
  have hhandles : (w.reserve (.field f.identifier)).handles =
      ((f.identifier, 0), w.buffer.create.1) :: w.handles := rfl
  refine ⟨rfl, ?_, ?_, hcreate.reaches, fun hsmall hb => ?_⟩
  · intro name hname i
    have hne : ((name, i) == (f.identifier, 0)) = false := by
      simp only [List.map_cons, List.map_nil, List.mem_singleton] at hname
      simp [hname]
    rw [hhandles, List.lookup_cons, hne]
  · intro g hg _ i hi
    obtain rfl := List.mem_singleton.mp hg
    obtain rfl : i = 0 := by omega
    simp [hhandles]
  · obtain ⟨hb', hpending, hlength⟩ := hcreate.holds hsmall hb
    refine ⟨hb', ?_, ?_, fun payload _ => ⟨fun hplain => ?_, trivial⟩⟩
    · rw [hhandles]
      simp only [slotsOf, Field.slots, hdeferred, hplaces]
      exact hpending.trans (by simp)
    · exact hlength.trans (by simp [roomOf, Field.room, hdeferred, hplaces])
    · exact absurd hplain (by simp [hdeferred])

/-- A field with a slot for each of its items. -/
theorem placed_slots (hdeferred : f.isDeferred = true) (w : Writing) :
    s.Placed [f] [p] w (w.reserveFirst f.identifier f.places) := by
  have hreserve := leads_reserveFirst w f.identifier f.places
  refine ⟨reserveFirst_members w f.identifier f.places, ?_, ?_, hreserve.reaches,
    fun hsmall hb => ?_⟩
  · intro name hname i
    exact reserveFirst_other w f.places (by simpa using hname) i
  · intro g hg _ i hi
    obtain rfl := List.mem_singleton.mp hg
    exact reserveFirst_isSome w g.identifier hi
  · obtain ⟨hb', hpending, hlength⟩ := hreserve.holds hsmall hb
    refine ⟨hb', ?_, ?_, fun payload _ => ⟨fun hplain => ?_, trivial⟩⟩
    · simpa [slotsOf, Field.slots, hdeferred] using hpending
    · exact hlength.trans (by simp [roomOf, Field.room, hdeferred, Nat.mul_comm])
    · exact absurd hplain (by simp [hdeferred])

variable {rank : Qualified → Nat} {bound : Nat}

theorem inPlace_values {source : Source} {position stop : Nat} {items : List Value}
    (hplain : f.isDeferred = false)
    (h : readEach (source.value f.type) f.places position = some (items, stop)) :
    source.inPlace f position = some (.values items, stop) := by
  simp only [Field.isDeferred] at hplain
  unfold Field.places at h
  simp only [Source.inPlace, hplain, Bool.false_eq_true, if_false]
  exact (congrArg (Option.bind · _) h).trans rfl

/-- A value of a type that is not stored behind slots needs no reader of structs. -/
theorem able_of_plain (hplain : f.isDeferred = false) {source : Source} {payload : Text}
    (hsame : source.payload = payload) (position : Nat) :
    s.Able source payload f.type position := by
  refine ⟨hsame, fun hstruct => ?_⟩
  simp only [Field.isDeferred, Bool.or_eq_false_iff] at hplain
  cases htype : f.type <;> simp_all [FieldType.isStruct, FieldType.isIndirect]

/-- A single plain value stays in place. -/
theorem Capable.placed_scalar (hc : s.Capable rank c bound) (hshape : f.shape = .scalar)
    (hdirect : f.type.isIndirect = false) {w : Writing}
    (hsupply : s.Supplies w.members bound f p) :
    ∃ w', f.inPlace.foldlM (WriteStatement.run c) w = some w' ∧ s.Placed [f] [p] w w' := by
  have hplain : f.isDeferred = false := by
    simp [Field.isDeferred, Field.isDynamic, hshape, hdirect]
  have hplaces : f.places = 1 := by simp [Field.places, hshape]
  obtain ⟨b', hrun, hsettles⟩ :=
    hc.settles_value (hshape ▸ hsupply.admitted) hsupply.levels (p := .member f.identifier)
      hsupply.found
  refine ⟨{ w with buffer := b' }, ?_, placed_plain hplain ⟨rfl, rfl⟩ ?_⟩
  · simp [Field.inPlace, hshape, hdirect, WriteStatement.run, hrun]
  · refine hsettles.mono fun payload h => ?_
    have hroom : b'.length = w.buffer.length + f.room := by
      rw [h.width hdirect, Field.room, hplaces, hplain]
      simp
    refine ⟨hroom, fun _ nulFree source hsame => ⟨[s.filled p.2 f.type], ?_, ?_⟩⟩
    · have hvalue := h.read nulFree source (able_of_plain hplain hsame _)
      rw [← hroom]
      apply inPlace_values hplain
      simp [hplaces, readEach, hvalue]
    · simp [ofItems, Field.isScalar, hshape]

/-- A fixed number of plain values stay in place. -/
theorem Capable.placed_fixed (hc : s.Capable rank c bound) {count : Int}
    (hshape : f.shape = .fixed count) (hdirect : f.type.isIndirect = false) {w : Writing}
    (hsupply : s.Supplies w.members bound f p) :
    ∃ w', f.inPlace.foldlM (WriteStatement.run c) w = some w' ∧ s.Placed [f] [p] w w' := by
  have hplain : f.isDeferred = false := by
    simp [Field.isDeferred, Field.isDynamic, hshape, hdirect]
  obtain ⟨items, hitems, hlength, hadmitted⟩ :=
    eq_array_of_admits_fixed (hshape ▸ hsupply.admitted)
  have hplaces : f.places = items.length := by simp [Field.places, hshape, hlength]
  have hlevels := hsupply.levels_items hitems
  have hbody : ∀ v ∈ items, ∀ w : Writing, w.element = v →
      ∃ w', WriteStep.runAll c w [f.type.write .element] = some w' ∧ w.Keeps w' ∧
        Settles w.buffer w'.buffer
          (s.ReadsBack (fun source => source.value f.type) f.type v w.buffer.length
            w'.buffer.length) := by
    intro v hv w hw
    obtain ⟨b', hrun, hsettles⟩ :=
      hc.settles_value (hadmitted v hv) (hlevels v hv) (p := .element) (congrArg some hw)
    exact ⟨{ w with buffer := b' }, by simp [WriteStep.runAll, hrun], ⟨rfl, rfl⟩, hsettles⟩
  obtain ⟨w', hrun, hkeeps, hsettles⟩ := settles_each hbody w
  refine ⟨w', ?_, placed_plain hplain hkeeps ?_⟩
  · have hread : w.items f.identifier = some items := by
      simp [Writing.items, hsupply.found, hitems, Value.items?]
    simp [Field.inPlace, hshape, hdirect, WriteStatement.run, hread, hrun]
  · refine hsettles.mono fun payload h => ?_
    have hroom : w'.buffer.length = w.buffer.length + f.room := by
      rw [h.width hdirect, Field.room, hplaces, hplain]
      simp
    refine ⟨hroom, fun _ nulFree source hsame => ⟨items.map fun v => s.filled v f.type, ?_, ?_⟩⟩
    · rw [hitems, Value.isNulFree, Value.itemsNulFree_iff] at nulFree
      have hvalues := h.read nulFree source (able_of_plain hplain hsame _)
      rw [← hroom]
      apply inPlace_values hplain
      rw [hplaces, hvalues]
    · simp [ofItems, Field.isScalar, hshape, hitems, filled, filledItems_eq_map]

/-- The statements for a field in place leave its value there, or slots with kept handles. -/
theorem Capable.placed_field (hc : s.Capable rank c bound) {w : Writing}
    (hsupply : s.Supplies w.members bound f p) :
    ∃ w', f.inPlace.foldlM (WriteStatement.run c) w = some w' ∧ s.Placed [f] [p] w w' := by
  cases hshape : f.shape with
  | dynamic =>
      refine ⟨w.reserve (.field f.identifier), ?_, placed_slot ?_ ?_ w⟩
      · simp [Field.inPlace, hshape, WriteStatement.run, WriteStep.run]
      · simp [Field.isDeferred, Field.isDynamic, hshape]
      · simp [Field.places, hshape]
  | scalar =>
      cases hindirect : f.type.isIndirect with
      | true =>
          refine ⟨w.reserve (.field f.identifier), ?_, placed_slot ?_ ?_ w⟩
          · simp [Field.inPlace, hshape, hindirect, WriteStatement.run, WriteStep.run]
          · simp [Field.isDeferred, hindirect]
          · simp [Field.places, hshape]
      | false => exact hc.placed_scalar hshape hindirect hsupply
  | fixed count =>
      cases hindirect : f.type.isIndirect with
      | true =>
          refine ⟨w.reserveFirst f.identifier f.places, ?_, placed_slots ?_ w⟩
          · simp [Field.inPlace, hshape, hindirect, WriteStatement.run, Field.places,
              Writing.reserveFirst]
          · simp [Field.isDeferred, hindirect]
      | false => exact hc.placed_fixed hshape hindirect hsupply

theorem slots_congr {handles handles' : List ((Text × Nat) × Handle)}
    (h : ∀ i, handles'.lookup (f.identifier, i) = handles.lookup (f.identifier, i))
    (position : Nat) : f.slots handles' position = f.slots handles position := by
  simp only [Field.slots, h]

/-- A field and those behind it, whose names are others. -/
theorem Placed.cons {fs : List Field} {ps : List (Text × Value)} {w w₁ w₂ : Writing}
    (hfirst : s.Placed [f] [p] w w₁) (hrest : s.Placed fs ps w₁ w₂)
    (hname : f.identifier ∉ fs.map Field.identifier) : s.Placed (f :: fs) (p :: ps) w w₂ where
  members := hrest.members.trans hfirst.members
  others := by
    intro name hother i
    rw [List.map_cons, List.mem_cons, not_or] at hother
    rw [hrest.others name hother.2, hfirst.others name (by simpa using hother.1)]
  kept := by
    intro g hg hdeferred i hi
    rcases List.mem_cons.mp hg with rfl | hg
    · rw [hrest.others _ hname]
      exact hfirst.kept g (by simp) hdeferred i hi
    · exact hrest.kept g hg hdeferred i hi
  leads := by
    refine ⟨hfirst.leads.reaches.trans hrest.leads.reaches, fun hsmall hb => ?_⟩
    have hle := hrest.leads.reaches.length_le
    obtain ⟨hb₁, hpending₁, hlength₁, hpromise₁⟩ :=
      hfirst.leads.holds (Nat.lt_of_le_of_lt hle hsmall) hb
    obtain ⟨hb₂, hpending₂, hlength₂, hpromise₂⟩ := hrest.leads.holds hsmall hb₁
    have hroom : w₁.buffer.length = w.buffer.length + f.room := by
      simpa [roomOf] using hlength₁
    refine ⟨hb₂, ?_, ?_, fun payload hfinish => ⟨?_, ?_⟩⟩
    · have hslots := slots_congr (hrest.others f.identifier hname) w.buffer.length
      simp only [hpending₂, hpending₁, slotsOf, hroom, hslots, List.append_nil, List.append_assoc]
    · simp only [hlength₂, hroom, roomOf, List.map_cons, List.sum_cons]
      omega
    · exact (hpromise₁.later hrest.leads.reaches payload hfinish).1
    · rw [← hroom]
      exact hpromise₂ payload hfinish

/-- The first pass over all fields. -/
theorem Capable.placed_fields (hc : s.Capable rank c bound) {members : List (Text × Value)}
    {fs : List Field} {ps : List (Text × Value)}
    (hsupply : List.Forall₂ (s.Supplies members bound) fs ps)
    (hnames : (fs.map Field.identifier).Nodup) {w : Writing} (hmembers : w.members = members) :
    ∃ w', (fs.flatMap Field.inPlace).foldlM (WriteStatement.run c) w = some w' ∧
      s.Placed fs ps w w' := by
  induction hsupply generalizing w with
  | nil =>
      refine ⟨w, rfl, rfl, fun _ _ _ => rfl, by simp, .refl _, fun _ hb => ?_⟩
      exact ⟨hb, by simp [slotsOf], by simp [roomOf], fun _ _ => trivial⟩
  | @cons f p fs ps hf _ ih =>
      rw [List.map_cons, List.nodup_cons] at hnames
      obtain ⟨w₁, hrun₁, hplaced₁⟩ := hc.placed_field (hmembers ▸ hf)
      obtain ⟨w₂, hrun₂, hplaced₂⟩ := ih hnames.2 (hplaced₁.members.trans hmembers)
      refine ⟨w₂, ?_, hplaced₁.cons hplaced₂ hnames.1⟩
      rw [List.flatMap_cons, List.foldlM_append, hrun₁]
      exact hrun₂

end InPlace

end Schema

end Schematic
