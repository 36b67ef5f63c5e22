import Schematic.Proofs.InPlace
import Schematic.Proofs.StructWriting

/-!
# What stands behind slots

The data behind the slots of a struct is written field by field, in the order in which the fields
are declared. A text or a struct stands behind its own slot, and so does each of a fixed number of
them; behind the slot of a dynamic array stands the number of its elements and then the elements,
those that are no plain values each behind a slot of its own.

## Implementation notes

How deep calls may go is a matter of the model only: a serializer that comes to an end does the same
whatever it is allowed beyond that. So what is written for a struct inside another one can be told
by `Schema.serialize`, with the depth of that struct alone.
-/

namespace Schematic

open Method Buffer

/-! ## Calls of any depth -/

namespace Method

/-- Methods that do all that others do. -/
structure Callees.Extends (c c' : Callees) : Prop where
  zero : c'.zero = c.zero
  serialize : ∀ q v b b', c.serialize q v b = some b' → c'.serialize q v b = some b'

section Extends

variable {c c' : Callees} {w w' : Writing}

theorem WriteStep.run_of_extends (h : c.Extends c') {s : WriteStep} (hrun : s.run c w = some w') :
    s.run c' w = some w' := by
  cases s with
  | object p type =>
      obtain ⟨v, hv, hrun⟩ := Option.bind_eq_some_iff.mp hrun
      obtain ⟨b, hb, hrun⟩ := Option.bind_eq_some_iff.mp hrun
      exact Option.bind_eq_some_iff.mpr
        ⟨v, hv, Option.bind_eq_some_iff.mpr ⟨b, h.serialize type v w.buffer b hb, hrun⟩⟩
  | orNew type => simpa only [WriteStep.run, h.zero] using hrun
  | _ => exact hrun

theorem WriteStatement.run_of_extends (h : c.Extends c') {s : WriteStatement}
    (hrun : s.run c w = some w') : s.run c' w = some w' := by
  have hbody {w w' : Writing} {body : List WriteStep}
      (hrun : WriteStep.runAll c w body = some w') : WriteStep.runAll c' w body = some w' :=
    foldlM_mono (fun _ _ _ _ => WriteStep.run_of_extends h) hrun
  cases s with
  | step s => exact WriteStep.run_of_extends h hrun
  | eachIndex member body =>
      obtain ⟨items, hitems, hrun⟩ := Option.bind_eq_some_iff.mp hrun
      exact Option.bind_eq_some_iff.mpr ⟨items, hitems, foldlM_mono (fun _ _ _ _ => hbody) hrun⟩
  | eachElement member body =>
      obtain ⟨items, hitems, hrun⟩ := Option.bind_eq_some_iff.mp hrun
      exact Option.bind_eq_some_iff.mpr ⟨items, hitems, foldlM_mono (fun _ _ _ _ => hbody) hrun⟩
  | _ => exact hrun

theorem runSerializer_of_extends (h : c.Extends c') {statements : List WriteStatement}
    {members : List (Text × Value)} {b b' : Buffer}
    (hrun : runSerializer c statements members b = some b') :
    runSerializer c' statements members b = some b' := by
  obtain ⟨w, hw, hrun⟩ := Option.bind_eq_some_iff.mp hrun
  have hw' := foldlM_mono (fun _ _ _ _ => WriteStatement.run_of_extends h) hw
  exact Option.bind_eq_some_iff.mpr ⟨w, hw', hrun⟩

end Extends

end Method

namespace Schema

variable {s : Schema} {q : Qualified} {v : Value} {b b' : Buffer}

/-- A serializer that comes to an end does the same if calls may go deeper. -/
theorem serializeWithin_mono {depth depth' : Nat} (hle : depth ≤ depth')
    (h : s.serializeWithin depth q v b = some b') : s.serializeWithin depth' q v b = some b' := by
  induction depth generalizing depth' q v b b' with
  | zero => exact absurd h (by simp [serializeWithin])
  | succ depth ih =>
      obtain ⟨depth', rfl⟩ : ∃ n, depth' = n + 1 := ⟨depth' - 1, by omega⟩
      obtain ⟨st, hst, h⟩ := Option.bind_eq_some_iff.mp h
      obtain ⟨members, hmembers, h⟩ := Option.bind_eq_some_iff.mp h
      have hextends : Callees.Extends ⟨s.zero, s.serializeWithin depth⟩
          ⟨s.zero, s.serializeWithin depth'⟩ :=
        ⟨rfl, fun _ _ _ _ => ih (Nat.le_of_succ_le_succ hle)⟩
      exact Option.bind_eq_some_iff.mpr ⟨st, hst, Option.bind_eq_some_iff.mpr
        ⟨members, hmembers, runSerializer_of_extends hextends h⟩⟩

theorem eq_of_serializeWithin {depth depth' : Nat} {b'' : Buffer}
    (h : s.serializeWithin depth q v b = some b')
    (h' : s.serializeWithin depth' q v b = some b'') : b' = b'' := by
  rcases Nat.le_total depth depth' with hle | hle
  · exact Option.some.inj ((serializeWithin_mono hle h).symm.trans h')
  · exact Option.some.inj (h.symm.trans (serializeWithin_mono hle h'))

/-- Methods that write every value of a struct, with a bounded number of levels, as the schema
does. -/
structure Conforms (s : Schema) (rank : Qualified → Nat) (c : Callees) (bound : Nat) : Prop where
  ranked : s.Ranked rank
  zero : c.zero = s.zero
  serialize : ∀ q v, s.admits v (.struct q) .scalar = true → v.levels s.walk.length ≤ bound →
    ∀ b, ∃ ops, s.serialize q v b = some (b.run ops) ∧ c.serialize q v b = some (b.run ops)

theorem Accepted.conforms (hs : s.Accepted) {rank : Qualified → Nat} (hranked : s.Ranked rank)
    (depth : Nat) : s.Conforms rank ⟨s.zero, s.serializeWithin depth⟩ depth where
  ranked := hranked
  zero := rfl
  serialize q v admitted hlevels b := by
    obtain ⟨b', hrun, hsettles⟩ := hs.serializes hranked depth q v admitted hlevels b
    obtain ⟨b'', hserialize, -⟩ := hs.serializes hranked (v.depth + s.walk.length + 1) q v admitted
      (Nat.le_succ_of_le (Value.levels_le_depth s.walk.length v)) b
    obtain rfl := eq_of_serializeWithin hrun hserialize
    obtain ⟨ops, rfl⟩ := hsettles.reaches
    exact ⟨ops, hserialize, hrun⟩

/-! ## Values behind slots -/

/-- What writes a value of a type on a buffer: what the layout has in its cell, a text, or what the
serializer of its struct does there. -/
inductive ValueOn (s : Schema) (b : Buffer) : FieldType → Value → List Operation → Prop where
  | plain {type : FieldType} {v : Value} {op : Operation} (direct : type.isIndirect = false)
      (cell : (Layout.inPlace type).operation? v = some op) : ValueOn s b type v [op]
  | string (t : Text) : ValueOn s b (.basic .string) (.string t) [.string t]
  | struct {q : Qualified} {v : Value} {ops : List Operation}
      (written : s.serialize q v b = some (b.run ops)) : ValueOn s b (.struct q) v ops

/-- What writes a value behind a slot: first the slot is resolved. -/
def BehindOn (s : Schema) (h : Handle) (b : Buffer) (type : FieldType) (v : Value)
    (ops : List Operation) : Prop :=
  ∃ rest, ops = .insert h :: rest ∧ s.ValueOn (b.insert h) type v rest

/-- What writes an element of a dynamic array: a plain value stands where it is, all else behind a
slot that is reserved for it there. -/
def ElementOn (s : Schema) (b : Buffer) (type : FieldType) (v : Value) (ops : List Operation) :
    Prop :=
  if type.isIndirect then
    ∃ rest, ops = .create :: rest ∧
      s.BehindOn b.create.1 b.create.2 type (s.present v type) rest
  else s.ValueOn b type v ops

/-- What is written for several things, for each on the buffer that those in front of it leave. -/
inductive EachOn {α : Type} (one : α → Buffer → List Operation → Prop) :
    List α → Buffer → List Operation → Prop where
  | nil (b : Buffer) : EachOn one [] b []
  | cons {a : α} {as : List α} {b : Buffer} {ops rest : List Operation} (first : one a b ops)
      (others : EachOn one as (b.run ops) rest) : EachOn one (a :: as) b (ops ++ rest)

/-- What is written behind the slots of a field, whose handles are given. -/
inductive DataOn (s : Schema) (handle : Nat → Handle) (f : Field) (b : Buffer) :
    Value → List Operation → Prop where
  | plain {v : Value} (plain : f.isDeferred = false) : DataOn s handle f b v []
  | scalar {v : Value} {ops : List Operation} (shape : f.shape = .scalar)
      (indirect : f.type.isIndirect = true) (behind : s.BehindOn (handle 0) b f.type v ops) :
      DataOn s handle f b v ops
  | fixed {count : Int} {items : List Value} {ops : List Operation} (shape : f.shape = .fixed count)
      (indirect : f.type.isIndirect = true)
      (each : EachOn (fun item b => s.BehindOn (handle item.2) b f.type item.1) items.zipIdx b
        ops) : DataOn s handle f b (.array items) ops
  | dynamic {items : List Value} {ops : List Operation} (shape : f.shape = .dynamic)
      (each : EachOn (fun item b => s.ElementOn b f.type item) items
        (b.run [.insert (handle 0), .count items.length]) ops) :
      DataOn s handle f b (.array items) (.insert (handle 0) :: .count items.length :: ops)

section Writing

variable {rank : Qualified → Nat} {c : Callees} {bound : Nat} {type : FieldType} {f : Field}

theorem Conforms.exists_valueOn (hc : s.Conforms rank c bound)
    (admitted : s.admits v type .scalar = true) (hlevels : v.levels s.walk.length ≤ bound)
    {w : Writing} {p : Place} (hread : w.read p = some v) :
    ∃ ops, (type.write p).run c w = some { w with buffer := w.buffer.run ops } ∧
      s.ValueOn w.buffer type v ops := by
  cases hindirect : type.isIndirect with
  | false =>
      obtain ⟨op, hop, hrun⟩ := exists_operation admitted hindirect
      exact ⟨[op], hrun c w p hread, .plain hindirect hop⟩
  | true =>
      cases type with
      | basic basic =>
          obtain rfl : basic = .string := by simpa [FieldType.isIndirect] using hindirect
          obtain ⟨t, rfl⟩ := eq_string_of_admits admitted
          exact ⟨[.string t], (writtenBy_string t).run c w p hread, .string t⟩
      | enumeration e => exact absurd hindirect (by simp [FieldType.isIndirect])
      | struct q =>
          obtain ⟨ops, hserialize, hrun⟩ := hc.serialize q v admitted hlevels w.buffer
          exact ⟨ops, by simp [FieldType.write, WriteStep.run, hread, hrun], .struct hserialize⟩
      | described kind builtin =>
          rw [not_admits_described] at admitted
          exact absurd admitted (by simp)

/-- What the statements for something write: operations of which a property holds. -/
def Writes (w : Writing) (property : Buffer → List Operation → Prop) (w' : Writing) : Prop :=
  w.Keeps w' ∧ ∃ ops, w'.buffer = w.buffer.run ops ∧ property w.buffer ops

theorem Conforms.exists_elementOn (hc : s.Conforms rank c bound)
    (hdeclared : ∀ q, f.type = .struct q → q ∈ s.names) (h : s.AdmitsElement v f.type)
    (hlevels : v.levels s.walk.length ≤ bound) (w : Writing) :
    ∃ w', WriteStep.runAll c { w with element := v } f.element = some w' ∧
      Writes w (fun b => s.ElementOn b f.type v) w' := by
  obtain ⟨admitted, hlevels', -⟩ := present_spec hc.ranked hdeclared h hlevels
  cases hindirect : f.type.isIndirect with
  | false =>
      have hplain : s.present v f.type = v := by
        cases htype : f.type with
        | struct q => exact absurd hindirect (by simp [htype, FieldType.isIndirect])
        | _ => rfl
      rw [hplain] at admitted
      obtain ⟨ops, hrun, hvalue⟩ :=
        hc.exists_valueOn admitted hlevels (w := { w with element := v }) (p := .element) rfl
      refine ⟨{ w with element := v, buffer := w.buffer.run ops }, ?_, ⟨rfl, rfl⟩, ops, rfl, ?_⟩
      · simp [Field.element, hindirect, WriteStep.runAll, hrun]
      · simpa [ElementOn, hindirect] using hvalue
  | true =>
      let w₁ : Writing :=
        { w with
          element := v
          elementHandle := some w.buffer.create.1
          buffer := w.buffer.create.2.insert w.buffer.create.1 }
      let w₂ : Writing := { w₁ with element := s.present v f.type }
      obtain ⟨ops, hrun, hvalue⟩ :=
        hc.exists_valueOn admitted hlevels' (w := w₂) (p := .element) rfl
      refine ⟨{ w₂ with buffer := w₂.buffer.run ops }, ?_, ⟨rfl, rfl⟩,
        .create :: .insert w.buffer.create.1 :: ops, rfl, ?_⟩
      · have hpresent : _ = some w₂ := runAll_present hc.zero w₁ f.type
        rw [Field.element, if_pos hindirect, runAll_append, runAll_append, runAll_element_slot,
          Option.bind_some]
        refine (congrArg (Option.bind · _) hpresent).trans ?_
        simp [WriteStep.runAll, hrun]
      · simp only [ElementOn, hindirect, if_true]
        exact ⟨_, rfl, ops, rfl, hvalue⟩

/-- A loop writes for each thing what a turn writes for one. -/
theorem exists_eachOn {α : Type} (one : α → Buffer → List Operation → Prop)
    (turn : Writing → α → Option Writing) (as : List α) {w : Writing}
    (hturn : ∀ a ∈ as, ∀ w₁, w.Keeps w₁ → ∃ w₂, turn w₁ a = some w₂ ∧ Writes w₁ (one a) w₂) :
    ∃ w', as.foldlM turn w = some w' ∧ Writes w (EachOn one as) w' := by
  induction as generalizing w with
  | nil => exact ⟨w, rfl, ⟨rfl, rfl⟩, [], rfl, .nil w.buffer⟩
  | cons a as ih =>
      obtain ⟨w₁, hrun₁, hkeeps₁, ops, hbuffer₁, hfirst⟩ :=
        hturn a List.mem_cons_self w ⟨rfl, rfl⟩
      obtain ⟨w₂, hrun₂, hkeeps₂, rest, hbuffer₂, hothers⟩ :=
        ih fun a' ha' w' hw' => hturn a' (List.mem_cons_of_mem a ha') w' (hkeeps₁.trans hw')
      refine ⟨w₂, ?_, hkeeps₁.trans hkeeps₂, ops ++ rest, ?_, ?_⟩
      · rw [List.foldlM_cons, hrun₁]
        exact hrun₂
      · rw [hbuffer₂, hbuffer₁, run_append]
      · exact .cons hfirst (hbuffer₁ ▸ hothers)

/-- One turn of the loop that writes the items of a field behind their slots. -/
theorem Conforms.exists_behindOn_item (hc : s.Conforms rank c bound) {name : Text}
    (admitted : s.admits v type .scalar = true) (hlevels : v.levels s.walk.length ≤ bound)
    {all : List Value} {i : Nat} (hitem : all[i]? = some v) {w : Writing} {h : Handle}
    (hmember : w.members.lookup name = some (.array all))
    (hhandle : w.handles.lookup (name, i) = some h) :
    ∃ w', WriteStep.runAll c { w with index := i }
        [.resolve (.fieldAt name), type.write (.memberAt name)] = some w' ∧
      Writes w (fun b => s.BehindOn h b type v) w' := by
  let w₁ : Writing := { w with index := i, buffer := w.buffer.insert h }
  have hread : w₁.read (.memberAt name) = some v := by
    simp [Writing.read, Place.read, w₁, hmember, Value.items?, hitem]
  have hresolve : (WriteStep.resolve (.fieldAt name)).run c { w with index := i } = some w₁ := by
    simp [WriteStep.run, Writing.handle, hhandle, w₁]
  obtain ⟨ops, hrun, hvalue⟩ := hc.exists_valueOn admitted hlevels hread
  refine ⟨{ w₁ with buffer := w₁.buffer.run ops }, ?_, ⟨rfl, rfl⟩, .insert h :: ops, rfl, ops, rfl,
    hvalue⟩
  simp only [WriteStep.runAll, List.foldlM_cons, List.foldlM_nil, hresolve, hrun,
    Option.bind_eq_bind, Option.bind_some]
  rfl

section Fields

variable {p : Text × Value} {handle : Nat → Handle} {w : Writing}

theorem Conforms.exists_dataOn_scalar (hc : s.Conforms rank c bound) (hshape : f.shape = .scalar)
    (hindirect : f.type.isIndirect = true) (hsupply : s.Supplies w.members bound f p)
    (hhandle : w.handles.lookup (f.identifier, 0) = some (handle 0)) :
    ∃ w', f.deferred.foldlM (WriteStatement.run c) w = some w' ∧
      Writes w (fun b => s.DataOn handle f b p.2) w' := by
  let w₁ : Writing := { w with buffer := w.buffer.insert (handle 0) }
  obtain ⟨ops, hrun, hvalue⟩ :=
    hc.exists_valueOn (hshape ▸ hsupply.admitted) hsupply.levels (w := w₁)
      (p := .member f.identifier) hsupply.found
  refine ⟨{ w₁ with buffer := w₁.buffer.run ops }, ?_, ⟨rfl, rfl⟩, .insert (handle 0) :: ops, rfl,
    .scalar hshape hindirect ⟨ops, rfl, hvalue⟩⟩
  have hresolve : (WriteStatement.step (.resolve (.field f.identifier))).run c w = some w₁ :=
    run_resolve hhandle
  have hwrite : (WriteStatement.step (f.type.write (.member f.identifier))).run c w₁ =
      some { w₁ with buffer := w₁.buffer.run ops } := hrun
  simp only [Field.deferred, hshape, List.foldlM_cons, List.foldlM_nil, hresolve, hwrite,
    Option.bind_eq_bind, Option.bind_some]
  rfl

theorem Conforms.exists_dataOn_dynamic (hc : s.Conforms rank c bound) (hshape : f.shape = .dynamic)
    (hsupply : s.Supplies w.members bound f p)
    (hhandle : w.handles.lookup (f.identifier, 0) = some (handle 0)) :
    ∃ w', f.deferred.foldlM (WriteStatement.run c) w = some w' ∧
      Writes w (fun b => s.DataOn handle f b p.2) w' := by
  obtain ⟨items, hitems, -, hadmitted⟩ := eq_array_of_admits_dynamic (hshape ▸ hsupply.admitted)
  have hlevels := hsupply.levels_items hitems
  have hread : w.items f.identifier = some items := by
    simp [Writing.items, hsupply.found, hitems, Value.items?]
  let w₁ : Writing := { w with buffer := w.buffer.insert (handle 0) }
  let w₂ : Writing := { w₁ with buffer := w₁.buffer.writeCount items.length }
  obtain ⟨w', hrun, hkeeps, ops, hbuffer, heach⟩ :=
    exists_eachOn (fun item b => s.ElementOn b f.type item)
      (fun w v => WriteStep.runAll c { w with element := v } f.element) items (w := w₂)
      fun v hv w _ => hc.exists_elementOn hsupply.declared (hadmitted v hv) (hlevels v hv) w
  refine ⟨w', ?_, ⟨hkeeps.members, hkeeps.handles⟩,
    .insert (handle 0) :: .count items.length :: ops, hbuffer, ?_⟩
  · have hresolve : (WriteStatement.step (.resolve (.field f.identifier))).run c w = some w₁ :=
      run_resolve hhandle
    have hcount : (WriteStatement.step (.count f.identifier)).run c w₁ = some w₂ :=
      (congrArg (Option.bind · _) hread).trans rfl
    have hloop : (WriteStatement.eachElement f.identifier f.element).run c w₂ = some w' :=
      (congrArg (Option.bind · _) hread).trans hrun
    simp only [Field.deferred, hshape, List.foldlM_cons, List.foldlM_nil, hresolve, hcount, hloop,
      Option.bind_eq_bind, Option.bind_some]
    rfl
  · rw [hitems]
    exact .dynamic hshape heach

theorem Conforms.exists_dataOn_fixed (hc : s.Conforms rank c bound) {count : Int}
    (hshape : f.shape = .fixed count) (hindirect : f.type.isIndirect = true)
    (hsupply : s.Supplies w.members bound f p)
    (hhandle : ∀ i < f.places, w.handles.lookup (f.identifier, i) = some (handle i)) :
    ∃ w', f.deferred.foldlM (WriteStatement.run c) w = some w' ∧
      Writes w (fun b => s.DataOn handle f b p.2) w' := by
  obtain ⟨items, hitems, hlength, hadmitted⟩ :=
    eq_array_of_admits_fixed (hshape ▸ hsupply.admitted)
  have hplaces : f.places = items.length := by simp [Field.places, hshape, hlength]
  have hmember := hsupply.found.trans (congrArg some hitems)
  -- The loop counts up to the number of items: it goes over the items with their numbers.
  obtain ⟨w', hrun, hkeeps, ops, hbuffer, heach⟩ :=
    exists_eachOn (fun item b => s.BehindOn (handle item.2) b f.type item.1)
      (fun w item => WriteStep.runAll c { w with index := item.2 }
        [.resolve (.fieldAt f.identifier), f.type.write (.memberAt f.identifier)])
      items.zipIdx (w := w) (by
        rintro ⟨v, i⟩ hitem w₁ hkeeps
        have hitem : items[i]? = some v := List.mem_zipIdx_iff_getElem?.mp hitem
        have hlt : i < f.places := hplaces ▸ (List.getElem?_eq_some_iff.mp hitem).1
        have hmem := List.mem_of_getElem? hitem
        exact hc.exists_behindOn_item (hadmitted v hmem) (hsupply.levels_items hitems v hmem) hitem
          (hkeeps.members ▸ hmember) (hkeeps.handles ▸ hhandle i hlt))
  refine ⟨w', ?_, hkeeps, ops, hbuffer, ?_⟩
  · have hread : w.items f.identifier = some items := by
      simp [Writing.items, hmember, Value.items?]
    have hrange : items.zipIdx.map Prod.snd = List.range items.length := by
      rw [List.zipIdx_map_snd, List.range_eq_range']
    simp only [Field.deferred, hshape, List.foldlM_cons, List.foldlM_nil, WriteStatement.run, hread,
      Option.bind_eq_bind, Option.bind_some, ← hrange, List.foldlM_map, hrun]
    rfl
  · rw [hitems]
    exact .fixed hshape hindirect heach

/-- What the second pass writes for a field is its data. -/
theorem Conforms.exists_dataOn (hc : s.Conforms rank c bound)
    (hsupply : s.Supplies w.members bound f p)
    (hhandle : f.isDeferred = true → ∀ i < f.places,
      w.handles.lookup (f.identifier, i) = some (handle i)) :
    ∃ w', f.trailing.foldlM (WriteStatement.run c) w = some w' ∧
      Writes w (fun b => s.DataOn handle f b p.2) w' := by
  cases hdeferred : f.isDeferred with
  | false =>
      exact ⟨w, by simp [Field.trailing, hdeferred], ⟨rfl, rfl⟩, [], rfl, .plain hdeferred⟩
  | true =>
      have hhandle := hhandle hdeferred
      rw [Field.trailing, if_pos hdeferred]
      cases hshape : f.shape with
      | dynamic =>
          exact hc.exists_dataOn_dynamic hshape hsupply (hhandle 0 (by simp [Field.places, hshape]))
      | scalar =>
          have hindirect : f.type.isIndirect = true := by
            simpa [Field.isDeferred, Field.isDynamic, hshape] using hdeferred
          exact hc.exists_dataOn_scalar hshape hindirect hsupply
            (hhandle 0 (by simp [Field.places, hshape]))
      | fixed count =>
          have hindirect : f.type.isIndirect = true := by
            simpa [Field.isDeferred, Field.isDynamic, hshape] using hdeferred
          exact hc.exists_dataOn_fixed hshape hindirect hsupply hhandle

end Fields

/-- The second pass writes the data of the fields one after the other. -/
theorem Conforms.exists_dataOn_fields (hc : s.Conforms rank c bound)
    {members : List (Text × Value)} {fs : List Field} {ps : List (Text × Value)}
    (hsupply : List.Forall₂ (s.Supplies members bound) fs ps) {w : Writing}
    (hmembers : w.members = members) {handle : Nat → Nat → Handle}
    (hhandle : ∀ i f, fs[i]? = some f → f.isDeferred = true → ∀ j < f.places,
      w.handles.lookup (f.identifier, j) = some (handle i j)) :
    ∃ (w' : Writing) (runs : List (List Operation)),
      (fs.flatMap Field.trailing).foldlM (WriteStatement.run c) w = some w' ∧
      w'.buffer = w.buffer.run runs.flatten ∧ runs.length = fs.length ∧
      ∀ i f, fs[i]? = some f → ∃ v ops,
        members.lookup f.identifier = some v ∧ runs[i]? = some ops ∧
          s.DataOn (handle i) f (w.buffer.run (runs.take i).flatten) v ops := by
  induction hsupply generalizing w handle with
  | nil => exact ⟨w, [], rfl, rfl, rfl, by simp⟩
  | @cons f p fs ps hf _ ih =>
      obtain ⟨w₁, hrun₁, hkeeps, ops, hbuffer₁, hdata⟩ :=
        hc.exists_dataOn (hmembers ▸ hf) (hhandle 0 f rfl)
      have hlater : ∀ i g, fs[i]? = some g → g.isDeferred = true → ∀ j < g.places,
          w₁.handles.lookup (g.identifier, j) = some (handle (i + 1) j) :=
        fun i g hg => hkeeps.handles ▸ hhandle (i + 1) g hg
      obtain ⟨w₂, runs, hrun₂, hbuffer₂, hlength, hothers⟩ :=
        ih (hkeeps.members.trans hmembers) hlater
      refine ⟨w₂, ops :: runs, ?_, ?_, by rw [List.length_cons, List.length_cons, hlength], ?_⟩
      · rw [List.flatMap_cons, List.foldlM_append, hrun₁]
        exact hrun₂
      · rw [hbuffer₂, hbuffer₁, List.flatten_cons, run_append]
      · intro i g hg
        cases i with
        | zero =>
            obtain rfl : f = g := by simpa using hg
            exact ⟨p.2, ops, hf.found, rfl, hdata⟩
        | succ i =>
            obtain ⟨v, later, hfound, hlater, hdata⟩ := hothers i g hg
            rw [hbuffer₁, ← run_append] at hdata
            exact ⟨v, later, hfound, hlater, hdata⟩

end Writing

end Schema

end Schematic
