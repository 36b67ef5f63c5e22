import Schematic.Proofs.BehindSlots
import Schematic.Proofs.Marshal

/-!
# Values as they are laid out

The layout of a struct holds its base in front of its own fields, and a serializer writes the base
first. What is in place of a struct is one run of what its layout has there. But the data behind the
slots of a base stands between the base and its heir, and the count of a dynamic array stands behind
the slot. Main statement: a value is written struct by struct, from the outermost base on, as the
fields of the layout without the counts and then, field by field, the data behind their slots; where
no base has slots and there is no dynamic array this is the whole layout in one run.
-/

namespace Schematic

open Method Buffer

/-- What is written of a struct itself, field by field: in place, and then behind the slots. -/
structure OwnPart where
  struct : Struct
  members : List (Text × Value)
  inPlace : List (List Operation)
  behind : List (List Operation)

namespace OwnPart

variable {p : OwnPart} {b : Buffer}

def owner (p : OwnPart) : Struct × List (Text × Value) :=
  (p.struct, p.members)

def operations (p : OwnPart) : List Operation :=
  p.inPlace.flatten ++ p.behind.flatten

/-- The handle of the slot `j` of the field `i`, in a part that is written on a buffer. -/
def handle (p : OwnPart) (b : Buffer) (i j : Nat) : Handle :=
  (b.run ((p.inPlace.take i).flatten ++ List.replicate j .create)).create.1

/-- A part that is written on a buffer: in place what the layout has but for counts, and behind the
slots of each field, from the first field on, its own data. -/
structure WrittenOn (s : Schema) (p : OwnPart) (b : Buffer) : Prop where
  inPlace : Field.allOperations? Field.uncounted p.members p.struct.fields = some p.inPlace
  length : p.behind.length = p.struct.fields.length
  behind : ∀ (i : Nat) f, p.struct.fields[i]? = some f → ∃ v ops,
    p.members.lookup f.identifier = some v ∧ p.behind[i]? = some ops ∧
      s.DataOn (p.handle b i) f (b.run (p.inPlace.flatten ++ (p.behind.take i).flatten)) v ops

/-- Parts that are written one after the other. -/
def AllWrittenOn (s : Schema) (b : Buffer) : List OwnPart → Prop
  | [] => True
  | p :: ps => p.WrittenOn s b ∧ AllWrittenOn s (b.run p.operations) ps

theorem allWrittenOn_concat {s : Schema} {ps : List OwnPart} :
    AllWrittenOn s b (ps ++ [p]) ↔
      AllWrittenOn s b ps ∧ p.WrittenOn s (b.run (ps.flatMap operations)) := by
  induction ps generalizing b with
  | nil => simp [AllWrittenOn, run]
  | cons first ps ih =>
      rw [List.cons_append, AllWrittenOn, AllWrittenOn, ih, List.flatMap_cons, run_append,
        and_assoc]

end OwnPart

namespace Schema

variable {s : Schema}

/-- The members of a value, struct by struct, the outermost base first. -/
inductive Flattened (s : Schema) : Qualified → Value → List (Struct × List (Text × Value)) → Prop
  | root {q : Qualified} {st : Struct} {members : List (Text × Value)}
      (hst : s.struct? q = some st) (hbase : st.base = none) :
      Flattened s q (.record members) [(st, members)]
  | heir {q base : Qualified} {st : Struct} {members : List (Text × Value)} {v : Value}
      {chain : List (Struct × List (Text × Value))} (hst : s.struct? q = some st)
      (hbase : st.base = some base) (hmember : members.lookup base.identifier = some v)
      (hchain : Flattened s base v chain) :
      Flattened s q (.record members) (chain ++ [(st, members)])

/-- A value is written as one run of all that the layout has in place, bases first, and then what is
behind the slots. -/
def WritesLayout (s : Schema) (q : Qualified) (v : Value) (b : Buffer) : Prop :=
  ∃ chain runs data, s.Flattened q v chain ∧
    chain.mapM (fun p => Field.allOperations? Layout.ofField p.2 p.1.fields) = some runs ∧
    s.serialize q v b = some (b.run (runs.flatten.flatten ++ data))

section Parts

variable {rank : Qualified → Nat} {c : Callees} {bound : Nat} {st : Struct}
  {members : List (Text × Value)}

/-- The statements for the fields of a struct write one part. -/
theorem Conforms.exists_part (hc : s.Conforms rank c bound) {ps : List (Text × Value)} {w : Writing}
    (hmembers : w.members = members)
    (hsupply : List.Forall₂ (s.Supplies members bound) st.fields ps)
    (hnames : (st.fields.map Field.identifier).Nodup) :
    ∃ (w' : Writing) (p : OwnPart),
      (st.fields.flatMap Field.inPlace ++ st.fields.flatMap Field.trailing).foldlM
        (WriteStatement.run c) w = some w' ∧
      p.owner = (st, members) ∧ p.WrittenOn s w.buffer ∧
      w'.buffer = w.buffer.run p.operations := by
  obtain ⟨w₁, inPlace, hrun₁, hoperations, hbuffer₁, hmembers₁, -, hhandles⟩ :=
    exists_leaves_fields c hsupply hnames hmembers
  obtain ⟨w₂, behind, hrun₂, hbuffer₂, hlength, hdata⟩ :=
    hc.exists_dataOn_fields hsupply hmembers₁ hhandles
  refine ⟨w₂, ⟨st, members, inPlace, behind⟩, ?_, rfl, ⟨hoperations, hlength, ?_⟩, ?_⟩
  · rw [List.foldlM_append, hrun₁]
    exact hrun₂
  · intro i f hf
    obtain ⟨v, ops, hfound, hops, hdata⟩ := hdata i f hf
    rw [hbuffer₁, ← run_append] at hdata
    exact ⟨v, ops, hfound, hops, hdata⟩
  · rw [hbuffer₂, hbuffer₁, OwnPart.operations, run_append]

end Parts

section Chains

variable {rank : Qualified → Nat} {q : Qualified} {v : Value}
  {chain : List (Struct × List (Text × Value))}

/-- What is known of a struct's value when the methods called may go so deep. -/
structure Supplied (s : Schema) (st : Struct) (members : List (Text × Value)) (depth : Nat) :
    Prop where
  names : (st.fields.map Field.identifier).Nodup
  fields : ∃ ps, List.Forall₂ (s.Supplies members depth) st.fields ps
  base : ∀ b, st.base = some b → ∃ v, members.lookup b.identifier = some v ∧
    s.admits v (.struct b) .scalar = true ∧ v.levels s.walk.length ≤ depth

theorem Accepted.supplied (hs : s.Accepted) {st : Struct} {members : List (Text × Value)}
    (hst : s.struct? q = some st) (admitted : s.admits (.record members) (.struct q) .scalar = true)
    {depth : Nat} (hlevels : (Value.record members).levels s.walk.length ≤ depth + 1) :
    s.Supplied st members depth := by
  obtain ⟨st', members', hst', hrecord, hmembers⟩ := eq_record_of_admits admitted
  obtain rfl : members = members' := by simpa using hrecord
  obtain rfl : st = st' := Option.some.inj (hst.symm.trans hst')
  obtain ⟨hwalk, rfl⟩ := mem_walk_of_struct? hst
  have hlevels : ∀ p ∈ members, p.2.levels s.walk.length ≤ depth := by
    rw [Value.levels, Nat.succ_le_succ_iff] at hlevels
    exact Value.levelsMembers_le_iff.mp hlevels
  obtain ⟨hlookup, hnames, ps, ps', hsplit, hbase, hfields⟩ :=
    exists_supplies hs.resolved hwalk (hs.members st hwalk)
      (admitsMembers_eq_true_iff.mp hmembers) hlevels
  refine ⟨hnames, ⟨ps', hfields⟩, fun b hb => ?_⟩
  rw [hb] at hbase
  obtain ⟨p, _, ⟨hname, hvalue⟩, -, rfl⟩ := List.forall₂_cons_left_iff.mp hbase
  have hp : p ∈ members := hsplit ▸ List.mem_append_left _ List.mem_cons_self
  have hfound : members.lookup b.identifier = some p.2 := by
    rw [← show p.1 = b.identifier from hname]
    exact hlookup p hp
  exact ⟨p.2, hfound, hvalue, hlevels p hp⟩

/-- Every value of a struct has members along all bases. -/
theorem Accepted.exists_flattened (hs : s.Accepted) (depth : Nat) (q : Qualified) (v : Value)
    (admitted : s.admits v (.struct q) .scalar = true)
    (hlevels : v.levels s.walk.length ≤ depth) : ∃ chain, s.Flattened q v chain := by
  induction depth generalizing q v with
  | zero =>
      obtain ⟨st, members, _, rfl, _⟩ := eq_record_of_admits admitted
      exact absurd hlevels (by simp [Value.levels])
  | succ depth ih =>
      obtain ⟨st, members, hst, rfl, _⟩ := eq_record_of_admits admitted
      have hsupplied := hs.supplied hst admitted hlevels
      cases hbase : st.base with
      | none => exact ⟨_, .root hst hbase⟩
      | some b =>
          obtain ⟨v, hmember, hvalue, hdepth⟩ := hsupplied.base b hbase
          obtain ⟨chain, hchain⟩ := ih b v hvalue hdepth
          exact ⟨_, .heir hst hbase hmember hchain⟩

/-- A serializer writes the base, if there is one, and then the part of its struct. -/
theorem Accepted.exists_last_part (hs : s.Accepted) (hranked : s.Ranked rank) {st : Struct}
    {members : List (Text × Value)} {depth : Nat} (hst : s.struct? q = some st)
    (hsupplied : s.Supplied st members depth) {b b₁ : Buffer}
    (hbase : (writeBase st.base).foldlM (WriteStatement.run ⟨s.zero, s.serializeWithin depth⟩)
      { members, buffer := b } = some { members, buffer := b₁ }) :
    ∃ p : OwnPart, p.owner = (st, members) ∧ p.WrittenOn s b₁ ∧
      s.serializeWithin (depth + 1) q (.record members) b = some (b₁.run p.operations) := by
  have hc := hs.conforms hranked depth
  obtain ⟨hnames, ⟨ps, hfields⟩, -⟩ := hsupplied
  obtain ⟨w', p, hrun, howner, hwritten, hbuffer⟩ :=
    hc.exists_part (w := { members, buffer := b₁ }) rfl hfields hnames
  refine ⟨p, howner, hwritten, ?_⟩
  have hserializer : runSerializer ⟨s.zero, s.serializeWithin depth⟩ st.serializer members b =
      some w'.buffer := by
    rw [runSerializer, serializer_eq, List.append_assoc, List.foldlM_append, hbase]
    exact (congrArg (Option.bind · _) hrun).trans rfl
  rw [← hbuffer]
  simp [serializeWithin, hst, Value.members?, hserializer]

theorem exists_succ_of_levels {members : List (Text × Value)} {depth : Nat}
    (h : (Value.record members).levels s.walk.length ≤ depth) : ∃ n, depth = n + 1 := by
  rw [Value.levels] at h
  exact ⟨depth - 1, by omega⟩

/-- A value is written part by part along its bases. -/
theorem Accepted.exists_parts (hs : s.Accepted) (hranked : s.Ranked rank)
    (hchain : s.Flattened q v chain) (depth : Nat)
    (admitted : s.admits v (.struct q) .scalar = true)
    (hlevels : v.levels s.walk.length ≤ depth) (b : Buffer) :
    ∃ parts : List OwnPart, parts.map OwnPart.owner = chain ∧ OwnPart.AllWrittenOn s b parts ∧
      s.serializeWithin depth q v b = some (b.run (parts.flatMap OwnPart.operations)) := by
  induction hchain generalizing depth with
  | root hst hbase =>
      obtain ⟨depth, rfl⟩ := exists_succ_of_levels hlevels
      have hsupplied := hs.supplied hst admitted hlevels
      obtain ⟨p, howner, hwritten, hserialize⟩ :=
        hs.exists_last_part hranked hst hsupplied (b := b) (by rw [hbase]; rfl)
      refine ⟨[p], by simp [howner], ⟨hwritten, trivial⟩, ?_⟩
      rw [hserialize, List.flatMap_singleton]
  | @heir q base st members v chain hst hbase hmember _ ih =>
      obtain ⟨depth, rfl⟩ := exists_succ_of_levels hlevels
      have hsupplied := hs.supplied hst admitted hlevels
      obtain ⟨v', hmember', hvalue, hdepth⟩ := hsupplied.base base hbase
      obtain rfl : v = v' := Option.some.inj (hmember.symm.trans hmember')
      obtain ⟨parts, hparts, hall, hserialize⟩ := ih depth hvalue hdepth
      have hcall : (writeBase st.base).foldlM
          (WriteStatement.run ⟨s.zero, s.serializeWithin depth⟩) { members, buffer := b } =
          some { members, buffer := b.run (parts.flatMap OwnPart.operations) } := by
        simp [hbase, writeBase, WriteStatement.run, WriteStep.run, Writing.read, Place.read,
          hmember, hserialize]
      obtain ⟨p, howner, hwritten, hserialize⟩ := hs.exists_last_part hranked hst hsupplied hcall
      refine ⟨parts ++ [p], by simp [hparts, howner],
        OwnPart.allWrittenOn_concat.mpr ⟨hall, hwritten⟩, ?_⟩
      rw [hserialize, List.flatMap_append, List.flatMap_singleton, run_append]

theorem Flattened.ne_nil (h : s.Flattened q v chain) : chain ≠ [] := by
  cases h <;> simp

theorem Flattened.unique {chain' : List (Struct × List (Text × Value))}
    (h : s.Flattened q v chain) (h' : s.Flattened q v chain') : chain = chain' := by
  induction h generalizing chain' with
  | root hst hbase =>
      cases h' with
      | root hst' _ => rw [Option.some.inj (hst.symm.trans hst')]
      | heir hst' hbase' _ _ =>
          obtain rfl := Option.some.inj (hst.symm.trans hst')
          exact absurd (hbase.symm.trans hbase') (by simp)
  | heir hst hbase hmember _ ih =>
      cases h' with
      | root hst' hbase' =>
          obtain rfl := Option.some.inj (hst.symm.trans hst')
          exact absurd (hbase'.symm.trans hbase) (by simp)
      | heir hst' hbase' hmember' hchain' =>
          obtain rfl := Option.some.inj (hst.symm.trans hst')
          obtain rfl := Option.some.inj (hbase.symm.trans hbase')
          obtain rfl := Option.some.inj (hmember.symm.trans hmember')
          rw [ih hchain']

end Chains

/-! ## Where the layout is one run -/

section Whole

variable {b : Buffer} {p : OwnPart} {parts : List OwnPart}

theorem DataOn.eq_nil {handle : Nat → Handle} {f : Field} {v : Value} {ops : List Operation}
    (h : s.DataOn handle f b v ops) (hplain : f.isDeferred = false) : ops = [] := by
  rw [Field.isDeferred, Bool.or_eq_false_iff] at hplain
  cases h with
  | plain => rfl
  | scalar _ hindirect _ => exact absurd hindirect (by simp [hplain])
  | fixed _ hindirect _ => exact absurd hindirect (by simp [hplain])
  | dynamic hshape _ => exact absurd hplain (by simp [Field.isDynamic, hshape])

theorem flatten_behind (hp : p.WrittenOn s b)
    (hplain : ∀ f ∈ p.struct.fields, f.isDeferred = false) : p.behind.flatten = [] := by
  rw [List.flatten_eq_nil_iff]
  intro ops hops
  obtain ⟨i, hi⟩ := List.getElem?_of_mem hops
  have hlt : i < p.struct.fields.length := by
    rw [← hp.length]
    exact (List.getElem?_eq_some_iff.mp hi).1
  obtain ⟨v, ops', -, hi', hdata⟩ := hp.behind i _ (List.getElem?_eq_getElem hlt)
  obtain rfl : ops = ops' := Option.some.inj (hi.symm.trans hi')
  exact hdata.eq_nil (hplain _ (List.getElem_mem hlt))

theorem uncounted_of_not_dynamic {f : Field} (h : f.isDynamic = false) :
    f.uncounted = Layout.ofField f := by
  have hne := f.identifier_ne_countIdentifier
  cases hshape : f.shape with
  | dynamic => exact absurd h (by simp [Field.isDynamic, hshape])
  | scalar => simp [Field.uncounted, Layout.ofField, hshape, hne]
  | fixed count => simp [Field.uncounted, Layout.ofField, hshape, hne]

theorem allOperations?_of_not_dynamic {fs : List Field} (h : ∀ f ∈ fs, f.isDynamic = false)
    (members : List (Text × Value)) :
    Field.allOperations? Field.uncounted members fs =
      Field.allOperations? Layout.ofField members fs := by
  induction fs with
  | nil => rfl
  | cons f fs ih =>
      have hrest := ih fun g hg => h g (List.mem_cons_of_mem f hg)
      rw [Field.allOperations?, Field.allOperations?] at hrest ⊢
      rw [List.mapM_cons, List.mapM_cons, hrest,
        uncounted_of_not_dynamic (h f List.mem_cons_self)]

/-- Without dynamic arrays the parts hold all that the layout has. -/
theorem mapM_allOperations? (hall : OwnPart.AllWrittenOn s b parts)
    (hdynamic : ∀ p ∈ parts, ∀ f ∈ p.struct.fields, f.isDynamic = false) :
    (parts.map OwnPart.owner).mapM (fun p => Field.allOperations? Layout.ofField p.2 p.1.fields) =
      some (parts.map OwnPart.inPlace) := by
  induction parts generalizing b with
  | nil => rfl
  | cons p parts ih =>
      obtain ⟨hp, hall⟩ := hall
      have hrest := ih hall fun p' hp' => hdynamic p' (List.mem_cons_of_mem p hp')
      have hfirst : Field.allOperations? Layout.ofField p.members p.struct.fields =
          some p.inPlace := by
        rw [← allOperations?_of_not_dynamic (hdynamic p List.mem_cons_self)]
        exact hp.inPlace
      rw [List.map_cons, List.mapM_cons, hrest]
      simp [OwnPart.owner, hfirst]

/-- Parts without slots have nothing behind them. -/
theorem flatMap_operations (hall : OwnPart.AllWrittenOn s b parts)
    (hplain : ∀ p ∈ parts, ∀ f ∈ p.struct.fields, f.isDeferred = false) :
    parts.flatMap OwnPart.operations = (parts.map OwnPart.inPlace).flatten.flatten := by
  induction parts generalizing b with
  | nil => rfl
  | cons p parts ih =>
      obtain ⟨hp, hall⟩ := hall
      rw [List.flatMap_cons, ih hall fun p' hp' => hplain p' (List.mem_cons_of_mem p hp'),
        OwnPart.operations, flatten_behind hp (hplain p List.mem_cons_self), List.append_nil,
        List.map_cons, List.flatten_cons, List.flatten_append]

/-- If there is no dynamic array and no base has slots, the layout is one run. -/
theorem writesLayout_of_parts {q : Qualified} {v : Value}
    (hchain : s.Flattened q v (parts.map OwnPart.owner)) (hall : OwnPart.AllWrittenOn s b parts)
    (hserialize : s.serialize q v b = some (b.run (parts.flatMap OwnPart.operations)))
    (hdynamic : ∀ p ∈ parts, ∀ f ∈ p.struct.fields, f.isDynamic = false)
    (hplain : ∀ p ∈ parts.dropLast, ∀ f ∈ p.struct.fields, f.isDeferred = false) :
    s.WritesLayout q v b := by
  have hne : parts ≠ [] := by
    rintro rfl
    exact hchain.ne_nil rfl
  refine ⟨_, _, (parts.getLast hne).behind.flatten, hchain, mapM_allOperations? hall hdynamic, ?_⟩
  have hsplit := List.dropLast_append_getLast hne
  generalize parts.dropLast = bases at hplain hsplit
  generalize parts.getLast hne = own at hsplit ⊢
  subst hsplit
  obtain ⟨hbases, -⟩ := OwnPart.allWrittenOn_concat.mp hall
  rw [hserialize, List.flatMap_append, flatMap_operations hbases hplain, List.flatMap_singleton,
    OwnPart.operations]
  simp

end Whole

/-- A value of a struct of an accepted schema is written struct by struct, the outermost base first:
in place what the layout of the struct has, in one run and in its order, without the counts of
dynamic arrays, and then field by field the data behind its slots: each slot is resolved where the
text or the struct it stands for follows, and behind the slot of a dynamic array come its count and
its elements. If the struct and its bases have no dynamic array and its bases no slots, it is
written as its whole layout says. -/
theorem serialize_laid_out {source : Text} {s : Schema} (parsed : parse source = .ok s)
    {q : Qualified} {v : Value} (admitted : s.admits v (.struct q) .scalar = true) :
    ∃ chain, s.Flattened q v chain ∧ ∀ b,
      (∃ parts : List OwnPart, parts.map OwnPart.owner = chain ∧ OwnPart.AllWrittenOn s b parts ∧
        s.serialize q v b = some (b.run (parts.flatMap OwnPart.operations))) ∧
      ((∀ p ∈ chain, ∀ f ∈ p.1.fields, f.isDynamic = false) →
        (∀ p ∈ chain.dropLast, ∀ f ∈ p.1.fields, f.isDeferred = false) →
        s.WritesLayout q v b) := by
  have hs := accepted_of_parse parsed
  obtain ⟨rank, hranked⟩ := hs.acyclic.exists_ranked hs.resolved
  have hlevels : v.levels s.walk.length ≤ v.depth + s.walk.length + 1 :=
    Nat.le_succ_of_le (Value.levels_le_depth s.walk.length v)
  obtain ⟨chain, hchain⟩ := hs.exists_flattened _ q v admitted hlevels
  refine ⟨chain, hchain, fun b => ?_⟩
  obtain ⟨parts, rfl, hall, hserialize⟩ :=
    hs.exists_parts hranked hchain _ admitted hlevels b
  refine ⟨⟨parts, rfl, hall, hserialize⟩, fun hdynamic hplain => ?_⟩
  refine writesLayout_of_parts hchain hall hserialize ?_ ?_
  · exact fun p hp => hdynamic p.owner (List.mem_map_of_mem hp)
  · intro p hp
    rw [← List.map_dropLast] at hplain
    exact hplain p.owner (List.mem_map_of_mem hp)

/-- A base with a number, and an heir with a text. -/
def leafSource : Text :=
  "struct Base \x7b int id; \x7d; struct Leaf : Base \x7b string name; \x7d;"

def leafBase : Struct where
  name := "Base"
  scope := []
  parent := none
  base := none
  line := 1
  enums := []
  fields := [⟨"id", "int", .basic .int, .scalar, false, none, 1⟩]
  children := []

def leafStruct : Struct where
  name := "Leaf"
  scope := []
  parent := some "Base"
  base := some ["Base"]
  line := 1
  enums := []
  fields := [⟨"name", "string", .basic .string, .scalar, false, none, 1⟩]
  children := []

def leafSchema : Schema :=
  ⟨none, none, [leafBase, leafStruct]⟩

def leaf : Value :=
  .record [("Base", .record [("Id", .int 7)]), ("Name", .string "oak")]

theorem serialize_laid_out_tree_leaf :
    (parse treeSource = .ok treeSchema ∧
      treeSchema.admits tree (.struct ["Node"]) .scalar = true ∧
      ∃ chain, treeSchema.Flattened ["Node"] tree chain ∧
        ∃ parts : List OwnPart, parts.map OwnPart.owner = chain ∧
          OwnPart.AllWrittenOn treeSchema {} parts ∧
          treeSchema.serialize ["Node"] tree {} =
            some (run {} (parts.flatMap OwnPart.operations))) ∧
    parse leafSource = .ok leafSchema ∧ leafSchema.admits leaf (.struct ["Leaf"]) .scalar = true ∧
      leafSchema.WritesLayout ["Leaf"] leaf {} := by
  constructor
  · obtain ⟨chain, hchain, hwritten⟩ := serialize_laid_out parse_treeSource admits_tree
    exact ⟨parse_treeSource, admits_tree, chain, hchain, (hwritten {}).1⟩
  · have parsed : parse leafSource = .ok leafSchema := rfl
    have admitted : leafSchema.admits leaf (.struct ["Leaf"]) .scalar = true := by decide +kernel
    have hleaf : leafSchema.Flattened ["Leaf"] leaf
        [(leafBase, [("Id", .int 7)]),
          (leafStruct, [("Base", .record [("Id", .int 7)]), ("Name", .string "oak")])] :=
      .heir rfl rfl rfl (.root rfl rfl)
    obtain ⟨chain, hchain, hwritten⟩ := serialize_laid_out parsed admitted
    obtain rfl := hleaf.unique hchain
    refine ⟨parsed, admitted, (hwritten {}).2 ?_ ?_⟩
    · simp [leafBase, leafStruct, Field.isDynamic]
    · simp [leafBase, Field.isDeferred, Field.isDynamic, FieldType.isIndirect]

/-! ## Where the layout is not one run -/

/-- What is written starts with what the layout has. -/
theorem WritesLayout.bytes_eq {q : Qualified} {v : Value} {b : Buffer}
    {chain : List (Struct × List (Text × Value))} {runs : List (List (List Operation))}
    {bytes : Text} (h : s.WritesLayout q v b) (hchain : s.Flattened q v chain)
    (hruns : chain.mapM (fun p => Field.allOperations? Layout.ofField p.2 p.1.fields) = some runs)
    (hbytes : (s.serialize q v b).map Buffer.bytes = some bytes) :
    (b.run runs.flatten.flatten).bytes <+: bytes := by
  obtain ⟨chain', runs', data, hchain', hruns', hserialize⟩ := h
  obtain rfl := hchain.unique hchain'
  obtain rfl := Option.some.inj (hruns.symm.trans hruns')
  rw [hserialize, run_append] at hbytes
  obtain rfl := Option.some.inj hbytes
  exact (Grows.run _ data).bytes

/-- A base with a text, and an heir. -/
def namedHeirSource : Text :=
  "struct Base \x7b string name; \x7d; struct Heir : Base \x7b int id; \x7d;"

def namedBase : Struct where
  name := "Base"
  scope := []
  parent := none
  base := none
  line := 1
  enums := []
  fields := [⟨"name", "string", .basic .string, .scalar, false, none, 1⟩]
  children := []

def namedHeirStruct : Struct where
  name := "Heir"
  scope := []
  parent := some "Base"
  base := some ["Base"]
  line := 1
  enums := []
  fields := [⟨"id", "int", .basic .int, .scalar, false, none, 1⟩]
  children := []

def namedHeir : Value :=
  .record [("Base", .record [("Name", .string [])]), ("Id", .int 1)]

def namedHeirSchema : Schema :=
  ⟨none, none, [namedBase, namedHeirStruct]⟩

/-- A dynamic array. -/
def bagSource : Text :=
  "struct Bag \x7b int items[]; \x7d;"

def bagStruct : Struct where
  name := "Bag"
  scope := []
  parent := none
  base := none
  line := 1
  enums := []
  fields := [⟨"items", "int", .basic .int, .dynamic, false, none, 1⟩]
  children := []

def bag : Value :=
  .record [("Items", .array [.int 1])]

def bagSchema : Schema :=
  ⟨none, none, [bagStruct]⟩

/-- The data of a base stands in front of its heir, and the count of a dynamic array behind its
slot. -/
theorem not_writesLayout_namedHeir_bag :
    (parse namedHeirSource = .ok namedHeirSchema ∧
      namedHeirSchema.admits namedHeir (.struct ["Heir"]) .scalar = true ∧
      ¬namedHeirSchema.WritesLayout ["Heir"] namedHeir {}) ∧
    parse bagSource = .ok bagSchema ∧ bagSchema.admits bag (.struct ["Bag"]) .scalar = true ∧
      ¬bagSchema.WritesLayout ["Bag"] bag {} := by
  refine ⟨⟨rfl, by decide +kernel, fun h => ?_⟩, rfl, by decide +kernel, fun h => ?_⟩
  · have hchain : namedHeirSchema.Flattened ["Heir"] namedHeir
        [(namedBase, [("Name", .string [])]),
          (namedHeirStruct, [("Base", .record [("Name", .string [])]), ("Id", .int 1)])] :=
      .heir rfl rfl rfl (.root rfl rfl)
    have hbytes : (namedHeirSchema.serialize ["Heir"] namedHeir {}).map Buffer.bytes =
        some (List.replicate 9 0 ++ [1, 0, 0, 0]) := by decide +kernel
    -- In the layout the number stands right behind the slot of the text.
    have hlayout : (run {} [.create, .int32 1]).bytes <+: List.replicate 9 0 ++ [1, 0, 0, 0] :=
      h.bytes_eq hchain rfl hbytes
    exact absurd hlayout (by decide)
  · have hchain : bagSchema.Flattened ["Bag"] bag [(bagStruct, [("Items", .array [.int 1])])] :=
      .root rfl rfl
    have hbytes : (bagSchema.serialize ["Bag"] bag {}).map Buffer.bytes =
        some (List.replicate 8 0 ++ [1, 0, 0, 0, 1, 0, 0, 0]) := by decide +kernel
    -- In the layout the count stands in front of the slot.
    have hlayout : (run {} [.int32 1, .create]).bytes <+:
        List.replicate 8 0 ++ [1, 0, 0, 0, 1, 0, 0, 0] :=
      h.bytes_eq hchain rfl hbytes
    exact absurd hlayout (by decide)

end Schema

end Schematic
