import Schematic.Proofs.Accepted
import Schematic.Proofs.BufferStep

/-!
# Fields held by value

A value of a struct holds the fields of the struct, and by value also those of its base and of the
structs in it, but not those behind a dynamic array. Where each of these fields stands is a path of
members and items. Main statement: two values of a struct hold the same at the end of a path if they
agree on the fields that they hold by value along it, those aside that are made of further fields.
-/

namespace Schematic

namespace Value

variable {members : List (Text × Value)} {items : List Value} {v : Value} {path : List Step}

theorem find?_member {name : Text} (h : members.lookup name = some v) :
    (record members).find? (.member name :: path) = v.find? path := by
  simp [find?, members?, h]

theorem find?_item {index : Nat} (h : items[index]? = some v) :
    (array items).find? (.item index :: path) = v.find? path := by
  simp [find?, items?, h]

end Value

/-- Whether a field is made of the fields of structs that it holds. -/
def Field.holdsStructs (f : Field) : Bool :=
  f.type.isStruct && !f.isDynamic

theorem Field.holdsStructs_iff {f : Field} :
    f.holdsStructs = true ↔ (∃ q, f.type = .struct q) ∧ f.isDynamic = false := by
  have hstruct : f.type.isStruct = true ↔ ∃ q, f.type = .struct q := by
    cases f.type <;> simp [FieldType.isStruct]
  simp [holdsStructs, hstruct]

namespace Schema

/-- A value of a struct holds a field at the end of a path: a field of its own, one of its base, or
one of a struct that it holds by itself or in an array of fixed length. -/
inductive HeldAt (s : Schema) : Qualified → List Value.Step → Field → Prop where
  | own {q : Qualified} {st : Struct} {f : Field} (declared : s.struct? q = some st)
      (field : f ∈ st.fields) : HeldAt s q [.member f.identifier] f
  | base {q b : Qualified} {st : Struct} {path : List Value.Step} {f : Field}
      (declared : s.struct? q = some st) (base : st.base = some b) (held : HeldAt s b path f) :
      HeldAt s q (.member b.identifier :: path) f
  | scalar {q inner : Qualified} {st : Struct} {g f : Field} {path : List Value.Step}
      (declared : s.struct? q = some st) (field : g ∈ st.fields) (type : g.type = .struct inner)
      (shape : g.shape = .scalar) (held : HeldAt s inner path f) :
      HeldAt s q (.member g.identifier :: path) f
  | fixed {q inner : Qualified} {st : Struct} {g f : Field} {path : List Value.Step} {count : Int}
      {index : Nat} (declared : s.struct? q = some st) (field : g ∈ st.fields)
      (type : g.type = .struct inner) (shape : g.shape = .fixed count)
      (inside : index < count.toNat) (held : HeldAt s inner path f) :
      HeldAt s q (.member g.identifier :: .item index :: path) f

/-- A value has the form of a type and shape as far as it is held by value: records have the members
of their structs and arrays of fixed length have that length. Whatever is no struct, and what is
behind a dynamic array, may be anything. -/
inductive Shaped (s : Schema) : Value → FieldType → Shape → Prop where
  | plain {v : Value} {type : FieldType} (plain : type.isStruct = false) : Shaped s v type .scalar
  | dynamic {v : Value} {type : FieldType} : Shaped s v type .dynamic
  | record {q : Qualified} {st : Struct} {members : List (Text × Value)}
      (declared : s.struct? q = some st)
      (names : members.map Prod.fst = st.members.map Member.name)
      (each : ∀ m ∈ st.members, ∀ v, members.lookup m.name = some v → Shaped s v m.type m.shape) :
      Shaped s (.record members) (.struct q) .scalar
  | fixed {items : List Value} {type : FieldType} {count : Int}
      (length : items.length = count.toNat) (each : ∀ v ∈ items, Shaped s v type .scalar) :
      Shaped s (.array items) type (.fixed count)

section Shaped

variable {s : Schema} {v : Value} {type : FieldType}

theorem Shaped.exists_record {q : Qualified} (h : s.Shaped v (.struct q) .scalar) :
    ∃ st members, v = .record members ∧ s.struct? q = some st ∧
      members.map Prod.fst = st.members.map Member.name ∧
      ∀ m ∈ st.members, ∃ v, members.lookup m.name = some v ∧ s.Shaped v m.type m.shape := by
  cases h with
  | plain plain => exact absurd plain (by simp [FieldType.isStruct])
  | @record _ st members declared names each =>
      refine ⟨st, members, rfl, declared, names, fun m hm => ?_⟩
      obtain ⟨v, hv⟩ := exists_lookup_of_mem (names ▸ List.mem_map_of_mem hm)
      exact ⟨v, hv, each m hm v hv⟩

theorem Shaped.exists_array {count : Int} (h : s.Shaped v type (.fixed count)) :
    ∃ items, v = .array items ∧ items.length = count.toNat ∧
      ∀ item ∈ items, s.Shaped item type .scalar := by
  cases h with
  | @fixed items _ _ length each => exact ⟨items, rfl, length, each⟩

/-- A value that can be marshalled has the form of its type. -/
theorem Accepted.shaped (hs : s.Accepted) (v : Value) {type : FieldType} {shape : Shape}
    (h : s.admits v type shape = true) : s.Shaped v type shape := by
  cases shape with
  | dynamic => exact .dynamic
  | fixed count =>
      obtain ⟨items, rfl, hlength, hitems⟩ := eq_array_of_admits_fixed h
      refine .fixed hlength fun item hitem => ?_
      have hsmaller : sizeOf item < sizeOf (Value.array items) := by
        have := List.sizeOf_lt_of_mem hitem
        simp only [Value.array.sizeOf_spec]
        omega
      exact hs.shaped item (hitems item hitem)
  | scalar =>
      cases type with
      | struct q =>
          obtain ⟨st, members, hst, rfl, hmembers⟩ := eq_record_of_admits h
          have hpairs := admitsMembers_eq_true_iff.mp hmembers
          have hnames : members.map Prod.fst = st.members.map Member.name := by
            rw [← List.forall₂_eq_eq_eq, List.forall₂_map_left_iff, List.forall₂_map_right_iff]
            exact hpairs.flip.imp fun p m h => h.1
          have hnodup : (members.map Prod.fst).Nodup :=
            hnames ▸ hs.members st (mem_walk_of_struct? hst).1
          refine .record hst hnames fun m hm v hv => ?_
          obtain ⟨p, hp, hname, hadmits⟩ := exists_of_forall₂_right hpairs.flip hm
          obtain rfl : p.2 = v := by
            rw [← hname, lookup_of_mem hnodup hp] at hv
            exact Option.some.inj hv
          have hsmaller : sizeOf p.2 < sizeOf (Value.record members) := by
            have hlt := List.sizeOf_lt_of_mem hp
            obtain ⟨name, w⟩ := p
            simp only [Prod.mk.sizeOf_spec] at hlt
            simp only [Value.record.sizeOf_spec]
            omega
          exact hs.shaped p.2 hadmits
      | _ => exact .plain rfl
termination_by sizeOf v

end Shaped

/-! ## Values that agree -/

/-- The values agree on the fields that a struct holds by value along a path, around its end or
inside it, unless these are made of further fields. -/
def Agree (s : Schema) (q : Qualified) (along : List Value.Step) (v w : Value) : Prop :=
  ∀ path f, s.HeldAt q path f → f.holdsStructs = false → path <+: along ∨ along <+: path →
    v.find? path = w.find? path

section Agree

variable {s : Schema} {q : Qualified} {st : Struct} {members members' : List (Text × Value)}
  {v w : Value} {along : List Value.Step}

/-- Farther along the same path there is less to agree on. -/
theorem Agree.mono (h : s.Agree q along v w) {farther : List Value.Step}
    (hfarther : along <+: farther) : s.Agree q farther v w := by
  intro path f held plain hpath
  refine h path f held plain ?_
  rcases hpath with hpath | hpath
  · exact List.prefix_or_prefix_of_prefix hpath hfarther
  · exact .inr (hfarther.trans hpath)

theorem Agree.base {b : Qualified}
    (h : s.Agree q (.member b.identifier :: along) (.record members) (.record members'))
    (declared : s.struct? q = some st) (hbase : st.base = some b)
    (hv : members.lookup b.identifier = some v) (hw : members'.lookup b.identifier = some w) :
    s.Agree b along v w := by
  intro path f held plain hpath
  have hfind := h _ f (.base declared hbase held) plain (by simpa using hpath)
  rwa [Value.find?_member hv, Value.find?_member hw] at hfind

variable {f : Field}

theorem Agree.plain
    (h : s.Agree q (.member f.identifier :: along) (.record members) (.record members'))
    (declared : s.struct? q = some st) (hf : f ∈ st.fields) (plain : f.holdsStructs = false)
    (hv : members.lookup f.identifier = some v) (hw : members'.lookup f.identifier = some w) :
    v = w := by
  have hfind := h _ f (.own declared hf) plain (.inl (by simp))
  rw [Value.find?_member hv, Value.find?_member hw] at hfind
  exact Option.some.inj hfind

theorem Agree.scalar
    (h : s.Agree q (.member f.identifier :: along) (.record members) (.record members'))
    (declared : s.struct? q = some st) (hf : f ∈ st.fields) {inner : Qualified}
    (htype : f.type = .struct inner) (hshape : f.shape = .scalar)
    (hv : members.lookup f.identifier = some v) (hw : members'.lookup f.identifier = some w) :
    s.Agree inner along v w := by
  intro path g held plain hpath
  have hfind := h _ g (.scalar declared hf htype hshape held) plain (by simpa using hpath)
  rwa [Value.find?_member hv, Value.find?_member hw] at hfind

theorem Agree.fixed {index : Nat}
    (h : s.Agree q (.member f.identifier :: .item index :: along) (.record members)
      (.record members'))
    (declared : s.struct? q = some st) (hf : f ∈ st.fields) {inner : Qualified}
    (htype : f.type = .struct inner) {count : Int} (hshape : f.shape = .fixed count)
    {items items' : List Value} (hv : members.lookup f.identifier = some (.array items))
    (hw : members'.lookup f.identifier = some (.array items')) (hindex : index < count.toNat)
    (hitem : items[index]? = some v) (hitem' : items'[index]? = some w) :
    s.Agree inner along v w := by
  intro path g held plain hpath
  have hfind := h _ g (.fixed declared hf htype hshape hindex held) plain (by simpa using hpath)
  rwa [Value.find?_member hv, Value.find?_member hw, Value.find?_item hitem,
    Value.find?_item hitem'] at hfind

end Agree

theorem mem_members_iff {st : Struct} {m : Member} :
    m ∈ st.members ↔ (∃ b, st.base = some b ∧ m = ⟨b.identifier, .struct b, .scalar⟩) ∨
      ∃ f ∈ st.fields, m = f.member := by
  simp [Struct.members, baseMembers, eq_comm]

/-- Arrays hold the same at the end of a path if the items that the path may start with do. -/
theorem find?_array_eq {items items' : List Value} {along : List Value.Step}
    (hlength : items.length = items'.length)
    (h : ∀ i (hi : i < items.length) (hi' : i < items'.length), along <+: .item i :: along.tail →
      items[i].find? along.tail = items'[i].find? along.tail) :
    (Value.array items).find? along = (Value.array items').find? along := by
  cases along with
  | nil =>
      apply congrArg (some ∘ Value.array)
      apply List.ext_getElem hlength
      intro i hi hi'
      exact Option.some.inj (h i hi hi' List.nil_prefix)
  | cons step rest =>
      cases step with
      | member name => rfl
      | item i =>
          by_cases hi : i < items.length
          · have hi' : i < items'.length := hlength ▸ hi
            rw [Value.find?_item (List.getElem?_eq_getElem hi),
              Value.find?_item (List.getElem?_eq_getElem hi')]
            exact h i hi hi' List.prefix_rfl
          · have hi' : ¬i < items'.length := hlength ▸ hi
            simp [Value.find?, Value.items?, hi, hi']

/-- Records hold the same at the end of a path if the members that the path may start with do. -/
theorem find?_record_eq {members members' : List (Text × Value)} {along : List Value.Step}
    (hnames : members.map Prod.fst = members'.map Prod.fst)
    (hnodup : (members.map Prod.fst).Nodup)
    (h : ∀ name ∈ members.map Prod.fst, along <+: .member name :: along.tail →
      ∃ x y, members.lookup name = some x ∧ members'.lookup name = some y ∧
        x.find? along.tail = y.find? along.tail) :
    (Value.record members).find? along = (Value.record members').find? along := by
  cases along with
  | nil =>
      apply congrArg (some ∘ Value.record)
      apply eq_of_lookup_eq hnames hnodup
      intro name hname
      obtain ⟨x, y, hx, hy, heq⟩ := h name hname List.nil_prefix
      exact hx.trans (heq.trans hy.symm)
  | cons step rest =>
      cases step with
      | item i => rfl
      | member name =>
          by_cases hname : name ∈ members.map Prod.fst
          · obtain ⟨x, y, hx, hy, heq⟩ := h name hname List.prefix_rfl
            rw [Value.find?_member hx, Value.find?_member hy]
            exact heq
          · have hnone {l : List (Text × Value)} (hl : name ∉ l.map Prod.fst) :
                l.lookup name = none := by
              rw [List.lookup_eq_none_iff]
              intro p hp
              apply bne_iff_ne.mpr
              rintro rfl
              exact hl (List.mem_map_of_mem hp)
            simp [Value.find?, Value.members?, hnone hname, hnone (hnames ▸ hname)]

/-- What values of a struct hold at the end of a path is the same if they agree along it. The
structs that a struct holds have a lower rank, so what they hold there is the same already. -/
theorem Ranked.find?_eq_of_agree {s : Schema} {rank : Qualified → Nat} (hs : s.Ranked rank)
    (hmembers : ∀ st ∈ s.walk, (st.members.map Member.name).Nodup) {q : Qualified} {v w : Value}
    (hv : s.Shaped v (.struct q) .scalar) (hw : s.Shaped w (.struct q) .scalar)
    {along : List Value.Step} (h : s.Agree q along v w) : v.find? along = w.find? along := by
  induction hrank : rank q using Nat.strong_induction_on generalizing q v w along with
  | _ n ih =>
  obtain ⟨st, members, rfl, hst, hnames, heach⟩ := hv.exists_record
  obtain ⟨st', members', rfl, hst', hnames', heach'⟩ := hw.exists_record
  obtain rfl : st = st' := Option.some.inj (hst.symm.trans hst')
  obtain ⟨hmem, rfl⟩ := mem_walk_of_struct? hst
  have hlower {held : Qualified} (hheld : s.ByValue st.qualified held) {x y : Value}
      (hx : s.Shaped x (.struct held) .scalar) (hy : s.Shaped y (.struct held) .scalar)
      {rest : List Value.Step} (hxy : s.Agree held rest x y) : x.find? rest = y.find? rest :=
    ih (rank held) (hrank ▸ hs.held _ _ hheld) hx hy hxy rfl
  apply find?_record_eq (hnames.trans hnames'.symm) (hnames ▸ hmembers st hmem)
  intro name hname halong
  obtain ⟨m, hm, rfl⟩ := List.mem_map.mp (hnames ▸ hname)
  obtain ⟨x, hx, hxshaped⟩ := heach m hm
  obtain ⟨y, hy, hyshaped⟩ := heach' m hm
  refine ⟨x, y, hx, hy, ?_⟩
  have h := h.mono halong
  rcases mem_members_iff.mp hm with ⟨b, hbase, rfl⟩ | ⟨f, hf, rfl⟩
  · exact hlower (hs.resolved.byValue_base hmem hbase) hxshaped hyshaped (h.base hst hbase hx hy)
  cases hholds : f.holdsStructs with
  | false => rw [h.plain hst hf hholds hx hy]
  | true =>
      obtain ⟨⟨inner, htype⟩, hstill⟩ := Field.holdsStructs_iff.mp hholds
      have hheld : s.ByValue st.qualified inner := ⟨f.name, .field hmem hf htype hstill⟩
      simp only [Field.member, htype] at hxshaped hyshaped
      cases hshape : f.shape with
      | dynamic => exact absurd hshape (by simpa [Field.isDynamic] using hstill)
      | scalar =>
          rw [hshape] at hxshaped hyshaped
          exact hlower hheld hxshaped hyshaped (h.scalar hst hf htype hshape hx hy)
      | fixed count =>
          rw [hshape] at hxshaped hyshaped
          obtain ⟨items, rfl, hlength, hitems⟩ := hxshaped.exists_array
          obtain ⟨items', rfl, hlength', hitems'⟩ := hyshaped.exists_array
          apply find?_array_eq (hlength.trans hlength'.symm)
          intro i hi hi' hinside
          have h := h.mono (List.cons_prefix_cons.mpr ⟨rfl, hinside⟩)
          apply hlower hheld (hitems _ (List.getElem_mem hi)) (hitems' _ (List.getElem_mem hi'))
          exact h.fixed hst hf htype hshape hx hy (hlength ▸ hi) (List.getElem?_eq_getElem hi)
            (List.getElem?_eq_getElem hi')

end Schema

end Schematic
