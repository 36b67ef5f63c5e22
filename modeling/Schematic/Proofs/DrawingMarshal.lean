import Schematic.Proofs.DrawingReading
import Schematic.Proofs.Marshal
import Schematic.Proofs.SlotCount

/-!
# Marshalling drawings

A drawing of any kind is marshalled, and following the slots of the payload gives it back with
nothing missing. The kinds differ in how many slots they take, so that what is marshalled tells the
kind as well. Main statement: drawings that are marshalled alike differ at most in parts that are
missing from one of them and zero in the other.
-/

namespace Schematic.Drawing

open Method Buffer

/-! ## Slots -/

/-- The slots of a drawing. A path has the two of its shape, eight of its own and the one of its
style, and then those for what its arrays of any length hold. -/
def slotCount : Drawing → Nat
  | point _ => 0
  | shape _ => 2
  | style _ => 1
  | path p => 11 + p.pts.length + p.tags.length + 2 * p.styles.length

section Slots

variable {depth : Nat} {v : Value} {b b' : Buffer}

theorem reserves_point (h : Scene.schema.serializeWithin depth ["Point"] v b = some b') :
    b.Reserves 0 b' :=
  Schema.reserves_leaf struct?_point rfl (fun _ => rfl) h

theorem reserves_style (h : Scene.schema.serializeWithin depth ["Path", "Style"] v b = some b') :
    b.Reserves 1 b' :=
  Schema.reserves_leaf struct?_style rfl (fun _ => rfl) h

theorem reserves_shape (h : Scene.schema.serializeWithin depth ["Shape"] v b = some b') :
    b.Reserves 2 b' :=
  Schema.reserves_leaf struct?_shape rfl (fun _ => rfl) h

/-- The slots of what a path holds. -/
def slotsWithin (q : Qualified) : Nat :=
  if q = ["Shape"] then 2 else if q = ["Path", "Style"] then 1 else 0

/-- The slots of a path: eleven of its own, one for each point and tag and two for each style. -/
theorem slots_path (members : List (Text × Value)) :
    (Scene.path.serializer.map (WriteStatement.slots slotsWithin members)).sum =
      11 + itemCount members "Pts" + itemCount members "Tags" + 2 * itemCount members "Styles" := by
  have hshape : slotsWithin ["Shape"] = 2 := rfl
  have hpoint : slotsWithin ["Point"] = 0 := rfl
  have hstyle : slotsWithin ["Path", "Style"] = 1 := rfl
  have hpts : Text.pascalCase "pts" = "Pts" := rfl
  have htags : Text.pascalCase "tags" = "Tags" := rfl
  have hstyles : Text.pascalCase "styles" = "Styles" := rfl
  simp +arith [Struct.serializer, Scene.path, Scene.field, Scene.fieldWith, Field.inPlace,
    Field.isDeferred, Field.isDynamic, Field.deferred, Field.element, Field.identifier,
    FieldType.isIndirect, FieldType.write, WriteStatement.slots, WriteStep.slots, hshape, hpoint,
    hstyle, hpts, htags, hstyles]

theorem itemCount_path {p : Path} {members : List (Text × Value)}
    (h : p.value.members? = some members) :
    itemCount members "Pts" = p.pts.length ∧ itemCount members "Tags" = p.tags.length ∧
      itemCount members "Styles" = p.styles.length := by
  obtain rfl := Option.some.inj h
  exact ⟨List.length_map _, List.length_map _, List.length_map _⟩

/-- Serializing a path reserves as many slots as the path counts. -/
theorem reserves_path {p : Path}
    (h : Scene.schema.serializeWithin depth ["Path"] p.value b = some b') :
    b.Reserves (slotCount (path p)) b' := by
  have hcalled : ∀ q ∈ callees Scene.path.serializer,
      q = ["Shape"] ∨ q = ["Point"] ∨ q = ["Path", "Style"] := by
    decide
  cases depth with
  | zero => exact absurd h (by simp [Schema.serializeWithin])
  | succ depth =>
      have hcallee : ∀ q ∈ callees Scene.path.serializer, ∀ v b b',
          Scene.schema.serializeWithin depth q v b = some b' → b.Reserves (slotsWithin q) b' := by
        intro q hq v b b' h
        rcases hcalled q hq with rfl | rfl | rfl
        · exact reserves_shape h
        · exact reserves_point h
        · exact reserves_style h
      obtain ⟨members, hmembers, hreserves⟩ :=
        Schema.reserves_serializeWithin struct?_path hcallee h
      obtain ⟨hpts, htags, hstyles⟩ := itemCount_path hmembers
      rw [slots_path, hpts, htags, hstyles] at hreserves
      exact hreserves

theorem reserves_serialize {d : Drawing}
    (h : Scene.schema.serialize d.kind.name d.value b = some b') : b.Reserves d.slotCount b' := by
  cases d with
  | point p => exact reserves_point h
  | shape s => exact reserves_shape h
  | style s => exact reserves_style h
  | path p => exact reserves_path h

/-- The number of slots tells the kind. -/
theorem kind_of_slotCount {d d' : Drawing} (h : d.slotCount = d'.slotCount) : d.kind = d'.kind := by
  cases d <;> cases d' <;> simp only [slotCount, kind] at h ⊢ <;> omega

end Slots

/-! ## Round trip -/

theorem kind_filled (d : Drawing) : d.filled.kind = d.kind := by
  cases d <;> rfl

section RoundTrip

variable {d : Drawing} (fits : d.Fits) (nulFree : d.NulFree)

include fits nulFree

/-- What a drawing is written to splits into a payload from which the drawing is read. -/
theorem read_payload {b : Buffer} (hrun : Scene.schema.serialize d.kind.name d.value {} = some b)
    (hsmall : b.length < 2 ^ 32) :
    b.finish = .ok (b.payload ++ table b.relocations) ∧
      split (b.payload ++ table b.relocations) = .ok (b.payload, b.relocations) ∧
      b.relocations.length = d.slotCount ∧ d.kind.read b.payload = some d.filled := by
  have hs := Scene.accepted_schema
  have admitted := admits_value fits
  obtain ⟨hfinish, hsplit, hread⟩ :=
    hs.read_payload admitted (isNulFree_value nulFree) hrun hsmall
  obtain ⟨sound, hpending, _⟩ := finish_eq_ok_iff.mp hfinish
  have hconsistent := (hs.reaches_of_serialize admitted hrun).consistent consistent_empty
  refine ⟨hfinish, hsplit, ?_, ?_⟩
  · exact (reserves_serialize hrun).length_relocations hconsistent sound hpending
  · rw [filled_value, ← kind_filled] at hread
    rw [← kind_filled]
    exact read_of_value hread

/-- What was marshalled splits into a payload that reads back as the drawing and its slots. -/
theorem read_marshalled {out : Text}
    (hmarshal : Scene.schema.marshal d.kind.name d.value = some (.ok out))
    (hsmall : out.length < 2 ^ 32) :
    ∃ payload slots, split out = .ok (payload, slots) ∧ slots.length = d.slotCount ∧
      d.kind.read payload = some d.filled := by
  obtain ⟨b, hrun, hle, rfl⟩ :=
    Scene.accepted_schema.buffer_of_marshal (admits_value fits) hmarshal
  obtain ⟨_, hsplit, hslots, hread⟩ :=
    read_payload fits nulFree hrun (Nat.lt_of_le_of_lt hle hsmall)
  exact ⟨_, _, hsplit, hslots, hread⟩

end RoundTrip

/-- Every drawing whose texts hold no zero is marshalled, and the slots of the payload lead a reader
back to the drawing, with zero points and styles for missing ones; so drawings that are marshalled
alike, of whatever kinds, are the same up to that. -/
theorem read_marshal_drawing (d : Drawing) (fits : d.Fits) (nulFree : d.NulFree) :
    (∃ b, Scene.schema.serialize d.kind.name d.value {} = some b ∧
      (b.length < 2 ^ 32 →
        ∃ out payload, Scene.schema.marshal d.kind.name d.value = some (.ok out) ∧
          split out = .ok (payload, b.relocations) ∧ b.relocations.length = d.slotCount ∧
          d.kind.read payload = some d.filled)) ∧
      ∀ d' : Drawing, d'.Fits → d'.NulFree → ∀ out : Text, out.length < 2 ^ 32 →
        Scene.schema.marshal d.kind.name d.value = some (.ok out) →
          Scene.schema.marshal d'.kind.name d'.value = some (.ok out) → d.filled = d'.filled := by
  constructor
  · obtain ⟨_, _, hserializes⟩ := Scene.accepted_schema.exists_serialize (admits_value fits)
    obtain ⟨b, hrun, _⟩ := hserializes {}
    refine ⟨b, hrun, fun hsmall => ?_⟩
    obtain ⟨hfinish, hsplit, hslots, hread⟩ := read_payload fits nulFree hrun hsmall
    exact ⟨_, _, by rw [Schema.marshal_eq hrun, hfinish], hsplit, hslots, hread⟩
  · intro d' fits' nulFree' out hsmall hd hd'
    obtain ⟨payload, slots, hsplit, hslots, hread⟩ := read_marshalled fits nulFree hd hsmall
    obtain ⟨payload', slots', hsplit', hslots', hread'⟩ :=
      read_marshalled fits' nulFree' hd' hsmall
    obtain ⟨rfl, rfl⟩ := Prod.mk.inj (Except.ok.inj (hsplit.symm.trans hsplit'))
    have hkind : d.kind = d'.kind := kind_of_slotCount (hslots.symm.trans hslots')
    rw [hkind] at hread
    exact Option.some.inj (hread.symm.trans hread')

/-- A path that lacks a point and a style, with a coordinate that is no number. -/
def sparsePath : Drawing :=
  path
    { shape := ⟨4, "ring", true, [5, -1]⟩
      pts := [some ⟨0x7fc00001, 0x80000000⟩, none]
      style := ⟨3, "red"⟩
      ids := (7, -2147483648)
      tags := ["a", ""]
      corners := (⟨0, 1⟩, ⟨2, 3⟩)
      names := ("n", "")
      styles := [none, some ⟨-1, "blue"⟩] }

theorem read_marshal_drawing_sparse :
    sparsePath.Fits ∧ sparsePath.NulFree ∧ sparsePath.filled.Fits ∧ sparsePath.filled.NulFree ∧
      (∃ out payload slots,
        Scene.schema.marshal sparsePath.kind.name sparsePath.value = some (.ok out) ∧
          split out = .ok (payload, slots) ∧ slots.length = 19 ∧
          sparsePath.kind.read payload = some sparsePath.filled) ∧
      sparsePath ≠ sparsePath.filled ∧ sparsePath.filled = sparsePath.filled.filled := by
  have hfits : sparsePath.Fits := ⟨by decide, by decide, by decide, by decide⟩
  have hfits' : sparsePath.filled.Fits := ⟨by decide, by decide, by decide, by decide⟩
  have hnulFree : ∀ t ∈ sparsePath.texts, 0 ∉ t := by decide +kernel
  have hnulFree' : ∀ t ∈ sparsePath.filled.texts, 0 ∉ t := by decide +kernel
  have hwritten : (Scene.schema.serialize sparsePath.kind.name sparsePath.value {}).map
      (fun b => decide (b.length < 1000)) = some true := by decide +kernel
  have halike : Scene.schema.marshal sparsePath.kind.name sparsePath.value =
      Scene.schema.marshal sparsePath.filled.kind.name sparsePath.filled.value := by
    decide +kernel
  have hlength : (Scene.schema.marshal sparsePath.kind.name sparsePath.value).map
      (fun r => r.toOption.map fun out => decide (out.length < 1000)) = some (some true) := by
    decide +kernel
  obtain ⟨⟨b, hrun, hread⟩, hequal⟩ := read_marshal_drawing sparsePath hfits hnulFree
  rw [hrun, Option.map_some, Option.some.injEq, decide_eq_true_iff] at hwritten
  obtain ⟨out, payload, hmarshal, hsplit, hslots, hdrawing⟩ := hread (by omega)
  rw [hmarshal] at hlength halike
  have hlength : out.length < 1000 :=
    of_decide_eq_true (Option.some.inj (Option.some.inj hlength))
  have hfilled : sparsePath.filled = sparsePath.filled.filled :=
    hequal sparsePath.filled hfits' hnulFree' out (by omega) hmarshal halike.symm
  exact ⟨hfits, hnulFree, hfits', hnulFree', ⟨out, payload, _, hmarshal, hsplit, hslots, hdrawing⟩,
    by decide +kernel, hfilled⟩

end Schematic.Drawing
