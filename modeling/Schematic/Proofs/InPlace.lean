import Schematic.Layout
import Schematic.Proofs.FieldData

/-!
# What stands in place

The layout of a struct says which cells its fields take in memory, and the serializer writes a value
field by field. For every field the serializer leaves in place what writes the value into the cells
of the layout, but for the count of a dynamic array, and keeps the handles of the slots.
-/

namespace Schematic

open Method Buffer

namespace Layout

/-- What writes a value into a cell: the value itself, or a slot for what is stored elsewhere. -/
def Cell.operation? : Cell → Value → Option Operation
  | .bool, .bool v => some (.bool v)
  | .int32, .int i => some (.int32 i)
  | .float32, .float bits => some (.float32 bits)
  | .enumeration _, .int i => some (.int32 i)
  | .pointer _, _ => some .create
  | _, _ => none

/-- What writes a value into a field in memory, one operation for each cell. -/
def Field.operations? (m : Field) (v : Value) : Option (List Operation) :=
  match m.count with
  | none => (m.cell.operation? v).map fun op => [op]
  | some count => do
    let items ← v.items?
    if items.length = count.toNat then items.mapM m.cell.operation? else none

end Layout

namespace Field

variable (f : Field)

/-- What a field in memory holds of a field's value: the value, or the number of its items. -/
def share (v : Value) (m : Layout.Field) : Value :=
  if m.name = f.countIdentifier then .int (v.items?.getD []).length else v

/-- What writes a value into some of the fields in memory of a field. -/
def operations? (v : Value) (ms : List Layout.Field) : Option (List Operation) :=
  (ms.mapM fun m : Layout.Field => m.operations? (f.share v m)).map List.flatten

/-- The fields in memory of a field without the count of a dynamic array. -/
def uncounted : List Layout.Field :=
  (Layout.ofField f).filter fun m => m.name ≠ f.countIdentifier

/-- What writes the members of a struct into the fields in memory that are chosen, field by
field. -/
def allOperations? (choose : Field → List Layout.Field) (members : List (Text × Value))
    (fs : List Field) : Option (List (List Operation)) :=
  fs.mapM fun f => do f.operations? (← members.lookup f.identifier) (choose f)

theorem identifier_ne_countIdentifier : f.identifier ≠ f.countIdentifier := by
  intro h
  have hlength := congrArg List.length h
  have hlead : (Text.ofString "Num").length = 3 := by decide
  simp only [countIdentifier, Text.concat, List.flatten_cons, List.flatten_nil,
    List.length_append, List.length_nil, hlead] at hlength
  omega

theorem operations?_singleton {m : Layout.Field} (h : m.name = f.identifier) (v : Value) :
    f.operations? v [m] = m.operations? v := by
  have hshare : f.share v m = v := if_neg (h ▸ f.identifier_ne_countIdentifier)
  simp only [operations?, List.mapM_cons, List.mapM_nil, hshare]
  cases m.operations? v <;> simp

variable {f}

theorem operations?_dynamic (hshape : f.shape = .dynamic) (v : Value) :
    f.operations? v f.uncounted = some [.create] := by
  have huncounted : f.uncounted =
      [⟨f.identifier, none, .pointer (Layout.element f.type)⟩] := by
    simp [uncounted, Layout.ofField, hshape, f.identifier_ne_countIdentifier]
  rw [huncounted, f.operations?_singleton rfl]
  rfl

theorem operations?_scalar (hshape : f.shape = .scalar) (v : Value) :
    f.operations? v f.uncounted =
      ((Layout.inPlace f.type).operation? v).map fun op => [op] := by
  have huncounted : f.uncounted = [⟨f.identifier, none, Layout.inPlace f.type⟩] := by
    simp [uncounted, Layout.ofField, hshape, f.identifier_ne_countIdentifier]
  rw [huncounted, f.operations?_singleton rfl]
  rfl

theorem operations?_fixed {count : Int} (hshape : f.shape = .fixed count) {items : List Value}
    (hlength : items.length = count.toNat) :
    f.operations? (.array items) f.uncounted =
      items.mapM (Layout.inPlace f.type).operation? := by
  have huncounted : f.uncounted = [⟨f.identifier, some count, Layout.inPlace f.type⟩] := by
    simp [uncounted, Layout.ofField, hshape, f.identifier_ne_countIdentifier]
  rw [huncounted, f.operations?_singleton rfl]
  exact if_pos hlength

end Field

namespace Schema

section InPlace

variable {s : Schema} {type : FieldType} {v : Value} {c : Callees}

/-- A plain value is written by what the layout has in its cell. -/
theorem exists_operation (admitted : s.admits v type .scalar = true)
    (hdirect : type.isIndirect = false) :
    ∃ op, (Layout.inPlace type).operation? v = some op ∧
      ∀ (c : Callees) (w : Writing) (p : Place), w.read p = some v →
        (type.write p).run c w = some { w with buffer := op.apply w.buffer } := by
  cases type with
  | basic b =>
      cases b with
      | bool =>
          obtain ⟨b, rfl⟩ := eq_bool_of_admits admitted
          exact ⟨.bool b, rfl, (writtenBy_bool b).run⟩
      | int =>
          obtain ⟨i, rfl, fits⟩ := eq_int_of_admits rfl admitted
          exact ⟨.int32 i, rfl, (writtenBy_int rfl fits).run⟩
      | float =>
          obtain ⟨bits, rfl, hbits⟩ := eq_float_of_admits admitted
          exact ⟨.float32 bits, rfl, (writtenBy_float hbits).run⟩
      | string => exact absurd hdirect (by simp [FieldType.isIndirect])
  | enumeration e =>
      obtain ⟨i, rfl, fits⟩ := eq_int_of_admits rfl admitted
      exact ⟨.int32 i, rfl, (writtenBy_int rfl fits).run⟩
  | struct q => exact absurd hdirect (by simp [FieldType.isIndirect])
  | described kind builtin =>
      rw [not_admits_described] at admitted
      exact absurd admitted (by simp)

theorem operation?_of_isIndirect (hindirect : type.isIndirect = true) (v : Value) :
    (Layout.inPlace type).operation? v = some .create := by
  cases type with
  | basic b =>
      obtain rfl : b = .string := by simpa [FieldType.isIndirect] using hindirect
      rfl
  | enumeration e => exact absurd hindirect (by simp [FieldType.isIndirect])
  | struct q => rfl
  | described kind builtin => rfl

theorem mapM_operation?_of_isIndirect (hindirect : type.isIndirect = true) (items : List Value) :
    items.mapM (Layout.inPlace type).operation? =
      some (List.replicate items.length .create) := by
  induction items with
  | nil => rfl
  | cons v items ih =>
      rw [List.mapM_cons, operation?_of_isIndirect hindirect, ih]
      rfl

/-- A loop over plain values writes each of them. -/
theorem run_each_plain {items : List Value}
    (admitted : ∀ v ∈ items, s.admits v type .scalar = true) (hdirect : type.isIndirect = false)
    (c : Callees) (w : Writing) :
    ∃ ops w', items.mapM (Layout.inPlace type).operation? = some ops ∧
      items.foldlM (fun w v => WriteStep.runAll c { w with element := v } [type.write .element]) w =
        some w' ∧
      w.Keeps w' ∧ w'.buffer = w.buffer.run ops := by
  induction items generalizing w with
  | nil => exact ⟨[], w, rfl, rfl, ⟨rfl, rfl⟩, rfl⟩
  | cons v items ih =>
      obtain ⟨op, hop, hrun⟩ := exists_operation (admitted v List.mem_cons_self) hdirect
      have hstep : WriteStep.runAll c { w with element := v } [type.write .element] =
          some { w with element := v, buffer := op.apply w.buffer } := by
        simp [WriteStep.runAll, hrun c { w with element := v } .element rfl]
      obtain ⟨ops, w', hops, hfold, hkeeps, hbuffer⟩ :=
        ih (fun u hu => admitted u (List.mem_cons_of_mem v hu))
          { w with element := v, buffer := op.apply w.buffer }
      refine ⟨op :: ops, w', ?_, ?_, ⟨hkeeps.members, hkeeps.handles⟩, hbuffer⟩
      · simp [List.mapM_cons, hop, hops]
      · rw [List.foldlM_cons, hstep]
        exact hfold

theorem buffer_reserveFirst (w : Writing) (name : Text) (count : Nat) :
    (w.reserveFirst name count).buffer = w.buffer.run (List.replicate count .create) := by
  induction count with
  | zero => rfl
  | succ count ih =>
      rw [reserveFirst_buffer, ih, List.replicate_succ', run_concat]
      rfl

/-- The slots of a field have the handles that are given one after the other. -/
theorem lookup_reserveFirst (w : Writing) (name : Text) {count i : Nat} (h : i < count) :
    (w.reserveFirst name count).handles.lookup (name, i) =
      some (w.buffer.run (List.replicate i .create)).create.1 := by
  induction count with
  | zero => exact absurd h (Nat.not_lt_zero i)
  | succ count ih =>
      by_cases heq : i = count
      · rw [heq, reserveFirst_handles, List.lookup_cons_self, buffer_reserveFirst]
      · rw [reserveFirst_lookup w count (Or.inr heq)]
        exact ih (by omega)

/-- What the statements for a field leave in place: what the layout has there, and the handles of
its slots. -/
structure Leaves (f : Field) (v : Value) (ops : List Operation) (w w' : Writing) : Prop where
  operations : f.operations? v f.uncounted = some ops
  buffer : w'.buffer = w.buffer.run ops
  members : w'.members = w.members
  others : ∀ name, name ≠ f.identifier → ∀ i,
    w'.handles.lookup (name, i) = w.handles.lookup (name, i)
  kept : f.isDeferred = true → ∀ i < f.places,
    w'.handles.lookup (f.identifier, i) =
      some (w.buffer.run (List.replicate i .create)).create.1

variable {f : Field} {bound : Nat} {p : Text × Value}

theorem leaves_slot (operations : f.operations? v f.uncounted = some [.create])
    (hplaces : f.places = 1) (w : Writing) :
    Leaves f v [.create] w (w.reserve (.field f.identifier)) where
  operations := operations
  buffer := rfl
  members := rfl
  others := by
    intro name hname i
    have hne : ((name, i) == (f.identifier, 0)) = false := by simp [hname]
    exact List.lookup_cons.trans (by rw [hne])
  kept := by
    intro _ i hi
    obtain rfl : i = 0 := by omega
    exact List.lookup_cons_self

theorem leaves_plain {ops : List Operation} {w w' : Writing} (hplain : f.isDeferred = false)
    (operations : f.operations? v f.uncounted = some ops) (hkeeps : w.Keeps w')
    (buffer : w'.buffer = w.buffer.run ops) : Leaves f v ops w w' where
  operations := operations
  buffer := buffer
  members := hkeeps.members
  others := fun _ _ _ => by rw [hkeeps.handles]
  kept := fun h => absurd h (by simp [hplain])

/-- Each field is written in place as the layout has it. -/
theorem exists_leaves (c : Callees) {w : Writing} (hsupply : s.Supplies w.members bound f p) :
    ∃ w' ops, f.inPlace.foldlM (WriteStatement.run c) w = some w' ∧ Leaves f p.2 ops w w' := by
  cases hshape : f.shape with
  | dynamic =>
      have hplaces : f.places = 1 := by simp [Field.places, hshape]
      refine ⟨_, _, ?_, leaves_slot (Field.operations?_dynamic hshape p.2) hplaces w⟩
      simp [Field.inPlace, hshape, WriteStatement.run, WriteStep.run]
  | scalar =>
      have admitted : s.admits p.2 f.type .scalar = true := hshape ▸ hsupply.admitted
      have hoperations := Field.operations?_scalar hshape p.2
      cases hindirect : f.type.isIndirect with
      | true =>
          rw [operation?_of_isIndirect hindirect] at hoperations
          refine ⟨_, _, ?_, leaves_slot hoperations (by simp [Field.places, hshape]) w⟩
          simp [Field.inPlace, hshape, hindirect, WriteStatement.run, WriteStep.run]
      | false =>
          obtain ⟨op, hop, hrun⟩ := exists_operation admitted hindirect
          rw [hop] at hoperations
          have hplain : f.isDeferred = false := by
            simp [Field.isDeferred, Field.isDynamic, hshape, hindirect]
          have hleaves : Leaves f p.2 [op] w { w with buffer := op.apply w.buffer } :=
            leaves_plain hplain hoperations ⟨rfl, rfl⟩ rfl
          refine ⟨_, _, ?_, hleaves⟩
          have hwrite := hrun c w (.member f.identifier) hsupply.found
          simp [Field.inPlace, hshape, hindirect, WriteStatement.run, hwrite]
  | fixed count =>
      obtain ⟨items, hitems, hlength, admitted⟩ :=
        eq_array_of_admits_fixed (hshape ▸ hsupply.admitted)
      have hoperations := Field.operations?_fixed hshape hlength
      have hread : w.items f.identifier = some items := by
        simp [Writing.items, hsupply.found, hitems, Value.items?]
      rw [hitems]
      cases hindirect : f.type.isIndirect with
      | true =>
          have hslots := mapM_operation?_of_isIndirect hindirect items
          rw [hlength] at hslots
          refine ⟨w.reserveFirst f.identifier count.toNat, _, ?_, hoperations.trans hslots,
            buffer_reserveFirst w _ _, reserveFirst_members w _ _, ?_, ?_⟩
          · simp [Field.inPlace, hshape, hindirect, WriteStatement.run, Writing.reserveFirst]
          · exact fun name hname i => reserveFirst_other w _ hname i
          · intro _ i hi
            rw [Field.places, hshape] at hi
            exact lookup_reserveFirst w f.identifier hi
      | false =>
          obtain ⟨ops, w', hops, hfold, hkeeps, hbuffer⟩ :=
            run_each_plain admitted hindirect c w
          have hplain : f.isDeferred = false := by
            simp [Field.isDeferred, Field.isDynamic, hshape, hindirect]
          refine ⟨w', ops, ?_, leaves_plain hplain (hoperations.trans hops) hkeeps hbuffer⟩
          simp [Field.inPlace, hshape, hindirect, WriteStatement.run, hread, hfold]

theorem allOperations?_cons {choose : Field → List Layout.Field} {members : List (Text × Value)}
    {fs : List Field} {ops : List Operation} {rest : List (List Operation)}
    (hfound : members.lookup f.identifier = some v) (hops : f.operations? v (choose f) = some ops)
    (hrest : Field.allOperations? choose members fs = some rest) :
    Field.allOperations? choose members (f :: fs) = some (ops :: rest) := by
  rw [Field.allOperations?] at hrest ⊢
  rw [List.mapM_cons, hrest, hfound]
  simp [hops]

/-- The fields of a struct, one after the other, are written in place as the layout has them. The
handles of a field are those given for its slots. -/
theorem exists_leaves_fields (c : Callees) {members : List (Text × Value)} {fs : List Field}
    {ps : List (Text × Value)} (hsupply : List.Forall₂ (s.Supplies members bound) fs ps)
    (hnames : (fs.map Field.identifier).Nodup) {w : Writing} (hmembers : w.members = members) :
    ∃ w' runs, (fs.flatMap Field.inPlace).foldlM (WriteStatement.run c) w = some w' ∧
      Field.allOperations? Field.uncounted members fs = some runs ∧
      w'.buffer = w.buffer.run runs.flatten ∧ w'.members = members ∧
      (∀ name, name ∉ fs.map Field.identifier → ∀ i,
        w'.handles.lookup (name, i) = w.handles.lookup (name, i)) ∧
      ∀ i f, fs[i]? = some f → f.isDeferred = true → ∀ j < f.places,
        w'.handles.lookup (f.identifier, j) =
          some (w.buffer.run ((runs.take i).flatten ++ List.replicate j .create)).create.1 := by
  induction hsupply generalizing w with
  | nil => exact ⟨w, [], rfl, rfl, rfl, hmembers, fun _ _ _ => rfl, by simp⟩
  | @cons f p fs ps hf _ ih =>
      rw [List.map_cons, List.nodup_cons] at hnames
      obtain ⟨w₁, ops, hrun₁, hleaves⟩ := exists_leaves c (hmembers ▸ hf)
      obtain ⟨w₂, runs, hrun₂, hruns, hbuffer, hmembers₂, hothers, hkept⟩ :=
        ih hnames.2 (hleaves.members.trans hmembers)
      rw [hleaves.buffer] at hbuffer hkept
      refine ⟨w₂, ops :: runs, ?_, allOperations?_cons hf.found hleaves.operations hruns, ?_,
        hmembers₂, ?_, ?_⟩
      · rw [List.flatMap_cons, List.foldlM_append, hrun₁]
        exact hrun₂
      · rw [hbuffer, List.flatten_cons, run_append]
      · intro name hname i
        rw [List.map_cons, List.mem_cons, not_or] at hname
        rw [hothers name hname.2, hleaves.others name hname.1]
      · intro i g hg hdeferred j hj
        cases i with
        | zero =>
            obtain rfl : f = g := by simpa using hg
            rw [hothers _ hnames.1, hleaves.kept hdeferred j hj]
            rfl
        | succ i =>
            rw [hkept i g (by simpa using hg) hdeferred j hj, List.take_succ_cons,
              List.flatten_cons, List.append_assoc, run_append w.buffer ops]

end InPlace

end Schema

end Schematic
