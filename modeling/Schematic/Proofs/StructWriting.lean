import Schematic.Proofs.Accepted
import Schematic.Proofs.FieldData

/-!
# Writing structs

A serializer writes the base of a struct, then its fields in two passes. Since it calls others only
for parts of its value, what it promises follows by induction on how deep the calls go.
-/

namespace Schematic.Schema

open Method Buffer

/-- The statement that writes the base of a struct, if there is one. -/
def writeBase (base : Option Qualified) : List WriteStatement :=
  (base.map fun b => .step (.object (.member b.identifier) b)).toList

theorem serializer_eq (st : Struct) :
    st.serializer =
      writeBase st.base ++ st.fields.flatMap Field.inPlace ++ st.fields.flatMap Field.trailing := by
  have htrailing : (st.fields.filter Field.isDeferred).flatMap
      (fun f => WriteStatement.remark f.name :: f.deferred) = st.fields.flatMap Field.trailing := by
    induction st.fields with
    | nil => rfl
    | cons f fs ih =>
        rw [List.filter_cons, List.flatMap_cons, ← ih, Field.trailing]
        split <;> simp
  rw [Struct.serializer, htrailing]
  rfl

/-- Reads the base of a struct, if there is one. -/
def readBase (source : Source) (base : Option Qualified) (position : Nat) :
    Option (Located (List (Text × Value))) :=
  match base with
  | none => some ([], position)
  | some b => (source.struct b position).map fun r => ([(b.identifier, r.1)], r.2)

/-- A struct is read part by part. -/
theorem readWithin_succ {s : Schema} {payload : Text} {depth : Nat} {q : Qualified} {st : Struct}
    {position start stop last : Nat} {base members : List (Text × Value)}
    {stored : List (Field × Stored)} (hst : s.struct? q = some st)
    (hbase : readBase ⟨payload, s.readWithin payload depth⟩ st.base position = some (base, start))
    (hinPlace : Source.allInPlace ⟨payload, s.readWithin payload depth⟩ st.fields start =
      some (stored, stop))
    (hfields : Source.fields ⟨payload, s.readWithin payload depth⟩ stored stop =
      some (members, last)) :
    s.readWithin payload (depth + 1) q position = some (.record (base ++ members), last) := by
  cases hparent : st.base with
  | none =>
      rw [hparent] at hbase
      obtain ⟨rfl, rfl⟩ := Prod.mk.inj (Option.some.inj hbase)
      simp [readWithin, hst, hparent, hinPlace, hfields]
  | some b =>
      rw [hparent] at hbase
      obtain ⟨⟨v, start'⟩, hread, heq⟩ := Option.map_eq_some_iff.mp hbase
      obtain ⟨rfl, rfl⟩ := Prod.mk.inj heq
      have hread : s.readWithin payload depth b position = some (v, start') := hread
      simp [readWithin, hst, hparent, hread, hinPlace, hfields]

section Serializers

variable {s : Schema} {rank : Qualified → Nat} {c : Callees} {bound : Nat} {st : Struct}
  {members : List (Text × Value)}

/-- The members of a record behind the base supply the fields. -/
theorem supplies_fields (hs : s.Resolved) (hst : st ∈ s.walk) {ps : List (Text × Value)}
    (hadmitted : List.Forall₂
      (fun m p => p.1 = m.name ∧ s.admits p.2 m.type m.shape = true)
      (st.fields.map Field.member) ps)
    (hlookup : ∀ p ∈ ps, members.lookup p.1 = some p.2)
    (hlevels : ∀ p ∈ ps, p.2.levels s.walk.length ≤ bound) :
    List.Forall₂ (s.Supplies members bound) st.fields ps := by
  rw [List.forall₂_map_left_iff, List.forall₂_iff_zip] at hadmitted
  refine List.forall₂_iff_zip.mpr ⟨hadmitted.1, fun {f p} hmem => ?_⟩
  obtain ⟨hname, hvalue⟩ := hadmitted.2 hmem
  obtain ⟨hf, hp⟩ := List.of_mem_zip hmem
  exact
    { name := hname
      found := by
        rw [← show p.1 = f.identifier from hname]
        exact hlookup p hp
      admitted := hvalue
      levels := hlevels p hp
      declared := hs.field st hst f hf }

/-- The members of a struct's value: that of its base, if there is one, and those that supply its
fields. -/
theorem exists_supplies (hs : s.Resolved) (hst : st ∈ s.walk)
    (hnames : (st.members.map Member.name).Nodup)
    (hadmitted : List.Forall₂
      (fun m p => p.1 = m.name ∧ s.admits p.2 m.type m.shape = true) st.members members)
    (hlevels : ∀ p ∈ members, p.2.levels s.walk.length ≤ bound) :
    (∀ p ∈ members, members.lookup p.1 = some p.2) ∧ (st.fields.map Field.identifier).Nodup ∧
      ∃ ps ps', ps ++ ps' = members ∧
        List.Forall₂ (fun m p => p.1 = m.name ∧ s.admits p.2 m.type m.shape = true)
          (baseMembers st.base) ps ∧
        List.Forall₂ (s.Supplies members bound) st.fields ps' := by
  have hkeys : members.map Prod.fst = st.members.map Member.name :=
    List.forall₂_eq_eq_eq ▸ List.forall₂_map_left_iff.mpr
      (List.forall₂_map_right_iff.mpr (hadmitted.flip.imp fun p m h => h.1))
  have hlookup : ∀ p ∈ members, members.lookup p.1 = some p.2 :=
    fun p hp => lookup_of_mem (hkeys ▸ hnames) hp
  have hbase := (List.forall₂_take_append _ _ _ hadmitted.flip).flip
  have hfields := (List.forall₂_drop_append _ _ _ hadmitted.flip).flip
  have hsplit := List.take_append_drop (baseMembers st.base).length members
  have hbehind : ∀ p ∈ members.drop (baseMembers st.base).length, p ∈ members :=
    fun p hp => List.mem_of_mem_drop hp
  refine ⟨hlookup, ?_, _, _, hsplit, hbase, ?_⟩
  · rw [Struct.members, List.map_append, List.map_map] at hnames
    exact (List.nodup_append.mp hnames).2.1
  · exact supplies_fields hs hst hfields (fun p hp => hlookup p (hbehind p hp))
      fun p hp => hlevels p (hbehind p hp)

/-- The statement for the base promises that the base can be read back. -/
theorem Capable.settles_base (hc : s.Capable rank c bound) {base : Option Qualified}
    {ps : List (Text × Value)}
    (hadmitted : List.Forall₂
      (fun m p => p.1 = m.name ∧ s.admits p.2 m.type m.shape = true) (baseMembers base) ps)
    {w : Writing} (hlookup : ∀ p ∈ ps, w.members.lookup p.1 = some p.2)
    (hlevels : ∀ p ∈ ps, p.2.levels s.walk.length ≤ bound) :
    ∃ w', (writeBase base).foldlM (WriteStatement.run c) w = some w' ∧ w.Keeps w' ∧
      Settles w.buffer w'.buffer fun payload => (∀ p ∈ ps, p.2.isNulFree = true) → ∀ depth,
        (∀ b, base = some b →
          (payload.length - w.buffer.length) * s.walk.length + rank b < depth) →
          readBase ⟨payload, s.readWithin payload depth⟩ base w.buffer.length =
            some (s.filledMembers ps (baseMembers base), w'.buffer.length) := by
  cases base with
  | none =>
      obtain rfl := List.forall₂_nil_left_iff.mp hadmitted
      refine ⟨w, rfl, ⟨rfl, rfl⟩, Settles.refl _ fun payload _ depth _ => ?_⟩
      simp [readBase, filledMembers]
  | some b =>
      obtain ⟨p, _, ⟨hname, hvalue⟩, hrest, rfl⟩ := List.forall₂_cons_left_iff.mp hadmitted
      obtain rfl := List.forall₂_nil_left_iff.mp hrest
      obtain ⟨b', hrun, hsettles⟩ :=
        hc.serialize b p.2 hvalue (hlevels p (by simp)) w.buffer
      refine ⟨{ w with buffer := b' }, ?_, ⟨rfl, rfl⟩, hsettles.mono fun payload hread => ?_⟩
      · have hfound : w.read (.member b.identifier) = some p.2 := by
          rw [← show p.1 = b.identifier from hname]
          exact hlookup p (by simp)
        simp [writeBase, WriteStatement.run, WriteStep.run, hfound, hrun]
      · intro nulFree depth hdepth
        have hstruct := hread (nulFree p (by simp)) depth (hdepth b rfl)
        simp [readBase, hstruct, baseMembers, filledMembers, show p.1 = b.identifier from hname]

/-- The fields behind the base, in two passes. -/
theorem Capable.settles_fields (hc : s.Capable rank c bound) {fs : List Field}
    {ps : List (Text × Value)} {w : Writing}
    (hsupply : List.Forall₂ (s.Supplies w.members bound) fs ps)
    (hnames : (fs.map Field.identifier).Nodup) :
    ∃ w', (fs.flatMap Field.inPlace ++ fs.flatMap Field.trailing).foldlM
        (WriteStatement.run c) w = some w' ∧
      Settles w.buffer w'.buffer fun payload => (∀ p ∈ ps, p.2.isNulFree = true) →
        ∀ source, s.Suits source payload w.buffer.length →
          ∃ stored stop, source.allInPlace fs w.buffer.length = some (stored, stop) ∧
            source.fields stored stop =
              some (s.filledMembers ps (fs.map Field.member), w'.buffer.length) := by
  obtain ⟨w₁, hrun₁, hplaced⟩ := hc.placed_fields hsupply hnames rfl
  obtain ⟨w₂, hrun₂, hfollows⟩ := hc.follows_fields hsupply hplaced.members hplaced.kept
  have hleads := hfollows w.buffer.length w.buffer.pending
  refine ⟨w₂, ?_, hplaced.leads.reaches.trans hleads.reaches, fun hsmall hb => ?_⟩
  · rw [List.foldlM_append, hrun₁]
    exact hrun₂
  · obtain ⟨hb₁, hpending₁, hlength₁, hplain⟩ :=
      hplaced.leads.holds (Nat.lt_of_le_of_lt hleads.reaches.length_le hsmall) hb
    obtain ⟨hb₂, hpending₂, hread⟩ := hleads.holds hsmall ⟨hb₁, hpending₁, hplain⟩
    refine ⟨hb₂, hpending₂, fun payload hfinish nulFree source hsuits => ?_⟩
    obtain ⟨stored, hinPlace, hfields⟩ := hread payload hfinish nulFree source hsuits
    rw [← hlength₁] at hinPlace
    exact ⟨stored, w₁.buffer.length, hinPlace, hfields⟩

theorem filledMembers_append {ms ms' : List Member} {ps ps' : List (Text × Value)}
    (h : ms.length = ps.length) :
    s.filledMembers (ps ++ ps') (ms ++ ms') = s.filledMembers ps ms ++ s.filledMembers ps' ms' := by
  induction ps generalizing ms with
  | nil =>
      obtain rfl := List.eq_nil_of_length_eq_zero h
      simp [filledMembers]
  | cons p ps ih =>
      cases ms with
      | nil => exact absurd h (by simp)
      | cons m ms => simp [filledMembers, ih (by simpa using h)]

/-- The serializer of a struct promises that its value can be read back. -/
theorem Capable.settles_serializer (hc : s.Capable rank c bound) (hst : st ∈ s.walk)
    (hnames : (st.members.map Member.name).Nodup)
    (hadmitted : List.Forall₂
      (fun m p => p.1 = m.name ∧ s.admits p.2 m.type m.shape = true) st.members members)
    (hlevels : ∀ p ∈ members, p.2.levels s.walk.length ≤ bound) (b : Buffer) :
    ∃ b', runSerializer c st.serializer members b = some b' ∧
      Settles b b' fun payload => (∀ p ∈ members, p.2.isNulFree = true) → ∀ depth,
        (payload.length - b.length) * s.walk.length + rank st.qualified ≤ depth →
          s.readWithin payload (depth + 1) st.qualified b.length =
            some (.record (s.filledMembers members st.members), b'.length) := by
  obtain ⟨hlookup, hfieldNames, ps, ps', hsplit, hbase, hsupply⟩ :=
    exists_supplies hc.ranked.resolved hst hnames hadmitted hlevels
  have hps : ∀ p ∈ ps, p ∈ members := fun p hp => hsplit ▸ List.mem_append_left _ hp
  have hps' : ∀ p ∈ ps', p ∈ members := fun p hp => hsplit ▸ List.mem_append_right _ hp
  obtain ⟨w₁, hrun₁, hkeeps, hsettles₁⟩ :=
    hc.settles_base hbase (w := { members, buffer := b }) (fun p hp => hlookup p (hps p hp))
      (fun p hp => hlevels p (hps p hp))
  rw [← show w₁.members = members from hkeeps.members] at hsupply
  obtain ⟨w₂, hrun₂, hsettles₂⟩ := hc.settles_fields hsupply hfieldNames
  refine ⟨w₂.buffer, ?_, hsettles₁.trans hsettles₂ ?_⟩
  · rw [runSerializer, serializer_eq, List.append_assoc, List.foldlM_append, hrun₁]
    exact (congrArg (Option.bind · _) hrun₂).trans rfl
  · intro payload hle hreadBase hreadFields nulFree depth hdepth
    have hle : b.length ≤ w₁.buffer.length := hle
    have hdepthBase : ∀ q, st.base = some q →
        (payload.length - b.length) * s.walk.length + rank q < depth := by
      intro q hq
      have := hc.ranked.held _ _ (hc.ranked.resolved.byValue_base hst hq)
      omega
    have hsuits : s.Suits ⟨payload, s.readWithin payload depth⟩ payload w₁.buffer.length := by
      refine ⟨rfl, depth, rfl, ?_⟩
      calc
        (payload.length - w₁.buffer.length) * s.walk.length
            ≤ (payload.length - b.length) * s.walk.length :=
              Nat.mul_le_mul_right _ (Nat.sub_le_sub_left hle _)
        _ ≤ depth := by omega
    have hbaseAt := hreadBase (fun p hp => nulFree p (hps p hp)) depth hdepthBase
    obtain ⟨stored, stop, hinPlace, hfieldsAt⟩ :=
      hreadFields (fun p hp => nulFree p (hps' p hp)) _ hsuits
    rw [← hsplit, Struct.members, filledMembers_append hbase.length_eq]
    exact readWithin_succ (hc.ranked.resolved.struct?_eq hst) hbaseAt hinPlace hfieldsAt

/-- Every struct of an accepted schema is written so that it can be read back, if the calls may go
as deep as the value has levels. -/
theorem Accepted.serializes (hs : s.Accepted) (hranked : s.Ranked rank) (depth : Nat) :
    ∀ q v, s.admits v (.struct q) .scalar = true → v.levels s.walk.length ≤ depth →
      s.Serializes rank (s.serializeWithin depth) q v := by
  induction depth with
  | zero =>
      intro q v hadmitted hlevels
      obtain ⟨st, members, _, rfl, _⟩ := eq_record_of_admits hadmitted
      exact absurd hlevels (by simp [Value.levels])
  | succ depth ih =>
      intro q v hadmitted hlevels b
      obtain ⟨st, members, hst, rfl, hmembers⟩ := eq_record_of_admits hadmitted
      obtain ⟨hwalk, rfl⟩ := mem_walk_of_struct? hst
      have hc : s.Capable rank ⟨s.zero, s.serializeWithin depth⟩ depth := ⟨hranked, rfl, ih⟩
      have hlevels : ∀ p ∈ members, p.2.levels s.walk.length ≤ depth := by
        rw [Value.levels, Nat.succ_le_succ_iff] at hlevels
        exact Value.levelsMembers_le_iff.mp hlevels
      obtain ⟨b', hrun, hsettles⟩ :=
        hc.settles_serializer hwalk (hs.members st hwalk) (admitsMembers_eq_true_iff.mp hmembers)
          hlevels b
      refine ⟨b', ?_, hsettles.mono fun payload hread nulFree reach hreach => ?_⟩
      · simp [serializeWithin, hst, Value.members?, hrun]
      · rw [Value.isNulFree, Value.membersNulFree_iff] at nulFree
        obtain ⟨reach, rfl⟩ : ∃ n, reach = n + 1 := ⟨reach - 1, by omega⟩
        rw [hread nulFree reach (by omega), filled, hst]

end Serializers

end Schematic.Schema
