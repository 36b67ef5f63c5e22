import Schematic.Proofs.DefaultLiterals
import Schematic.Proofs.HeldFields

/-!
# Setting defaults

The method that sets the defaults of a struct changes one member after another and calls the methods
of the structs that the struct holds by value. No struct holds itself, so the calls come to an end.
Main statement: every field that a value holds and that declares a default comes to hold what is
assigned for it, every other field stays as it was, and setting the defaults again changes nothing.
-/

namespace Schematic

open Method

/-! ## Changing members -/

/-- One member comes to hold a value, and nothing else changes. -/
structure Changed (name : Text) (w : Value) (members members' : List (Text × Value)) : Prop where
  names : members'.map Prod.fst = members.map Prod.fst
  here : members'.lookup name = some w
  elsewhere : ∀ other, other ≠ name → members'.lookup other = members.lookup other

section Changed

variable {name : Text} {v w : Value} {members members' : List (Text × Value)}

theorem Changed.refl (h : members.lookup name = some w) : Changed name w members members :=
  ⟨rfl, h, fun _ _ => rfl⟩

theorem Changed.trans {w' : Value} {members'' : List (Text × Value)}
    (first : Changed name w members members') (second : Changed name w' members' members'') :
    Changed name w' members members'' where
  names := second.names.trans first.names
  here := second.here
  elsewhere other hother :=
    (second.elsewhere other hother).trans (first.elsewhere other hother)

theorem exists_updateMember {change : Value → Option Value} (hv : members.lookup name = some v)
    (hw : change v = some w) :
    ∃ members', Value.updateMember change name members = some members' ∧
      Changed name w members members' := by
  induction members with
  | nil => exact absurd hv (by simp)
  | cons p members ih =>
      obtain ⟨n, x⟩ := p
      by_cases hname : n = name
      · subst hname
        obtain rfl : x = v := by simpa using hv
        refine ⟨(n, w) :: members, by simp [Value.updateMember, hw], ?_⟩
        constructor
        · rfl
        · simp
        · intro other hother
          simp [List.lookup_cons, beq_false_of_ne hother]
      · have hne : (name == n) = false := beq_false_of_ne (Ne.symm hname)
        rw [List.lookup_cons, hne] at hv
        obtain ⟨members', hupdate, hchanged⟩ := ih hv
        refine ⟨(n, x) :: members', by simp [Value.updateMember, hname, hupdate], ?_⟩
        constructor
        · simp [hchanged.names]
        · rw [List.lookup_cons, hne]
          exact hchanged.here
        · intro other hother
          rw [List.lookup_cons, List.lookup_cons, hchanged.elsewhere other hother]

theorem updateItem_append {change : Value → Option Value} (hw : change v = some w)
    (done rest : List Value) :
    Value.updateItem change done.length (done ++ v :: rest) = some (done ++ w :: rest) := by
  induction done with
  | nil => simp [Value.updateItem, hw]
  | cons x done ih => simp [Value.updateItem, ih]

/-- The change of one item of an array. -/
def changeItem (change : Value → Option Value) (index : Nat) (v : Value) : Option Value := do
  let items ← v.items?
  return .array (← Value.updateItem change index items)

theorem changeItem_append {change : Value → Option Value} (hw : change v = some w)
    (done rest : List Value) :
    changeItem change done.length (.array (done ++ v :: rest)) =
      some (.array (done ++ w :: rest)) := by
  simp [changeItem, Value.items?, updateItem_append hw]

/-- A loop over the items of a member changes one after the other; those in front are done. -/
theorem exists_foldlM_items {step : DefaultStep} {declared : List Text}
    {call : Qualified → Value → Option Value} {change : Value → Option Value}
    (hstep : ∀ members index,
      step.run declared call members index = (Place.memberAt name).update members index change)
    {related : Value → Value → Prop} {rest : List Value}
    (hrest : ∀ v ∈ rest, ∃ w, change v = some w ∧ related v w) (done : List Value)
    (hlookup : members.lookup name = some (.array (done ++ rest))) :
    ∃ rest' members', List.Forall₂ related rest rest' ∧
      (List.range' done.length rest.length).foldlM (step.run declared call) members =
        some members' ∧
      Changed name (.array (done ++ rest')) members members' := by
  induction rest generalizing done members with
  | nil => exact ⟨[], members, .nil, rfl, .refl hlookup⟩
  | cons v rest ih =>
      obtain ⟨⟨w, hw, hrelated⟩, hrest⟩ := List.forall_mem_cons.mp hrest
      obtain ⟨middle, hupdate, hfirst⟩ :=
        exists_updateMember hlookup (changeItem_append hw done rest)
      have hmiddle : middle.lookup name = some (.array ((done ++ [w]) ++ rest)) := by
        simpa using hfirst.here
      obtain ⟨rest', members', hrests, hfold, hsecond⟩ := ih hrest (done ++ [w]) hmiddle
      refine ⟨w :: rest', members', .cons hrelated hrests, ?_, ?_⟩
      · have hrun : step.run declared call members done.length = some middle := by
          rw [hstep]
          exact hupdate
        rw [List.length_cons, List.range'_succ, List.foldlM_cons, hrun]
        simpa using hfold
      · simpa using hfirst.trans hsecond

end Changed

/-! ## What a field comes to hold -/

namespace Field

/-- What a field holds if each value in it is the given one. -/
def filledWith (f : Field) (value : Value) : Value :=
  match f.shape with
  | .fixed count => .array (List.replicate count.toNat value)
  | _ => value

/-- The value that is assigned for the default of a field. -/
def assigned? (f : Field) (declared : List Text) : Option Value :=
  match f.defaultValue with
  | .ok (some d) => Code.denoted? declared (f.default?.getD []) d
  | _ => none

variable {f : Field}

theorem exists_default_of_assigned? {declared : List Text} {w : Value}
    (h : f.assigned? declared = some w) : ∃ d, f.defaultValue = .ok (some d) := by
  unfold assigned? at h
  split at h
  · exact ⟨_, ‹_›⟩
  · exact absurd h (by simp)

theorem assigned?_of_none (h : f.default? = none) (declared : List Text) :
    f.assigned? declared = none := by
  rw [assigned?, defaultValue_eq_none_iff.mpr h]

end Field

namespace Schema

/-- The default of a field, if it has one, can be assigned. -/
def Settable (s : Schema) (f : Field) : Prop :=
  f.default? = none ∨ ∃ w, f.assigned? s.ownedNames = some w

/-- The fields that a value of a struct holds have their defaults set: those that declare a default
hold what is assigned for it, each value of an array does, and all others are as they were
before. -/
structure Defaulted (s : Schema) (q : Qualified) (before after : Value) : Prop where
  shaped : s.Shaped after (.struct q) .scalar
  set : ∀ path f w, s.HeldAt q path f → f.assigned? s.ownedNames = some w →
    after.find? path = some (f.filledWith w)
  kept : ∀ path f, s.HeldAt q path f → f.default? = none → f.holdsStructs = false →
    after.find? path = before.find? path

/-- What becomes of one value of a field. -/
inductive OneSet (s : Schema) (f : Field) : Value → Value → Prop where
  | struct {q : Qualified} {v w : Value} (type : f.type = .struct q) (held : s.Defaulted q v w) :
      OneSet s f v w
  | set {v w : Value} (assigned : f.assigned? s.ownedNames = some w) : OneSet s f v w
  | kept {v : Value} (plain : f.type.isStruct = false) (default : f.default? = none) :
      OneSet s f v v

/-- What becomes of the value of a field. -/
inductive FieldSet (s : Schema) (f : Field) : Value → Value → Prop where
  | dynamic {v : Value} (shape : f.shape = .dynamic) : FieldSet s f v v
  | scalar {v w : Value} (shape : f.shape = .scalar) (one : s.OneSet f v w) : FieldSet s f v w
  | fixed {items items' : List Value} {count : Int} (shape : f.shape = .fixed count)
      (length : items.length = count.toNat) (each : List.Forall₂ (s.OneSet f) items items') :
      FieldSet s f (.array items) (.array items')

/-- A method sets the defaults of a struct in whatever has the form of its values. -/
def Sets (s : Schema) (call : Qualified → Value → Option Value) (q : Qualified) : Prop :=
  ∀ v, s.Shaped v (.struct q) .scalar → ∃ w, call q v = some w ∧ s.Defaulted q v w

section Run

variable {s : Schema} {call : Qualified → Value → Option Value} {f : Field}

/-- The statement for one value of a field, if there is one, changes the value as it should. -/
theorem setOne?_cases (hset : s.Settable f) (hcall : ∀ q, f.type = .struct q → s.Sets call q)
    (p : Place) :
    (f.setOne? p = none ∧ ∀ v, s.OneSet f v v) ∨
      ∃ step change, f.setOne? p = some step ∧
        (∀ members index,
          step.run s.ownedNames call members index = p.update members index change) ∧
        ∀ v, s.Shaped v f.type .scalar → ∃ w, change v = some w ∧ s.OneSet f v w := by
  unfold Field.setOne?
  cases htype : f.type with
  | struct q =>
      refine .inr ⟨_, call q, rfl, fun _ _ => rfl, fun v hv => ?_⟩
      obtain ⟨w, hw, hset⟩ := hcall q htype v hv
      exact ⟨w, hw, .struct htype hset⟩
  | _ =>
      rcases hset with hnone | ⟨w, hw⟩
      · rw [Field.defaultValue_eq_none_iff.mpr hnone]
        exact .inl ⟨rfl, fun v => .kept (by rw [htype]; rfl) hnone⟩
      · obtain ⟨d, hd⟩ := Field.exists_default_of_assigned? hw
        have hdenoted : Code.denoted? s.ownedNames (f.default?.getD []) d = some w := by
          rw [← hw, Field.assigned?, hd]
        rw [hd]
        exact .inr ⟨_, fun _ => Code.denoted? s.ownedNames (f.default?.getD []) d, rfl,
          fun _ _ => rfl, fun v _ => ⟨w, hdenoted, .set hw⟩⟩

theorem runDefaults_singleton (statement : DefaultStatement) {members : List (Text × Value)} :
    runDefaults s.ownedNames call [statement] members =
      statement.run s.ownedNames call members := by
  simp [runDefaults]

/-- The statements for a field set its value and leave the other members alone. -/
theorem exists_run_setDefault (hset : s.Settable f)
    (hcall : ∀ q, f.type = .struct q → f.isDynamic = false → s.Sets call q)
    {members : List (Text × Value)} {v : Value} (hlookup : members.lookup f.identifier = some v)
    (hv : s.Shaped v f.type f.shape) :
    ∃ w members', s.FieldSet f v w ∧
      runDefaults s.ownedNames call f.setDefault members = some members' ∧
      Changed f.identifier w members members' := by
  unfold Field.setDefault
  cases hshape : f.shape with
  | dynamic => exact ⟨v, members, .dynamic hshape, rfl, .refl hlookup⟩
  | scalar =>
      have hstill : f.isDynamic = false := by simp [Field.isDynamic, hshape]
      rw [hshape] at hv
      rcases setOne?_cases hset (fun q hq => hcall q hq hstill) (.member f.identifier) with
        ⟨hnone, hkept⟩ | ⟨step, change, hstep, hrun, hchange⟩
      · rw [hnone]
        exact ⟨v, members, .scalar hshape (hkept v), rfl, .refl hlookup⟩
      · obtain ⟨w, hw, hone⟩ := hchange v hv
        obtain ⟨members', hupdate, hchanged⟩ := exists_updateMember hlookup hw
        refine ⟨w, members', .scalar hshape hone, ?_, hchanged⟩
        rw [hstep]
        exact (runDefaults_singleton _).trans ((hrun members 0).trans hupdate)
  | fixed count =>
      have hstill : f.isDynamic = false := by simp [Field.isDynamic, hshape]
      rw [hshape] at hv
      obtain ⟨items, rfl, hlength, hitems⟩ := hv.exists_array
      rcases setOne?_cases hset (fun q hq => hcall q hq hstill) (.memberAt f.identifier) with
        ⟨hnone, hkept⟩ | ⟨step, change, hstep, hrun, hchange⟩
      · rw [hnone]
        refine ⟨.array items, members, .fixed hshape hlength ?_, rfl, .refl hlookup⟩
        exact List.forall₂_same.mpr fun item _ => hkept item
      · obtain ⟨items', members', heach, hfold, hchanged⟩ :=
          exists_foldlM_items hrun (fun item hitem => hchange item (hitems item hitem)) [] hlookup
        refine ⟨.array items', members', .fixed hshape hlength heach, ?_, hchanged⟩
        rw [hstep]
        refine (runDefaults_singleton _).trans ?_
        simp only [DefaultStatement.run, hlookup, Value.items?, Option.bind_eq_bind,
          Option.bind_some, List.range_eq_range']
        exact hfold

/-- The statements for several fields set the value of each and leave the other members alone. -/
theorem exists_run_setDefaults {fields : List Field}
    (hnodup : (fields.map Field.identifier).Nodup)
    (hsettable : ∀ f ∈ fields, s.Settable f)
    (hcall : ∀ f ∈ fields, ∀ q, f.type = .struct q → f.isDynamic = false → s.Sets call q)
    {members : List (Text × Value)}
    (hmembers : ∀ f ∈ fields, ∃ v, members.lookup f.identifier = some v ∧
      s.Shaped v f.type f.shape) :
    ∃ members',
      runDefaults s.ownedNames call (fields.flatMap Field.setDefault) members = some members' ∧
      members'.map Prod.fst = members.map Prod.fst ∧
      (∀ f ∈ fields, ∀ v, members.lookup f.identifier = some v →
        ∃ w, members'.lookup f.identifier = some w ∧ s.FieldSet f v w) ∧
      ∀ name, name ∉ fields.map Field.identifier → members'.lookup name = members.lookup name := by
  induction fields generalizing members with
  | nil => exact ⟨members, rfl, rfl, by simp, fun _ _ => rfl⟩
  | cons f fields ih =>
      rw [List.map_cons, List.nodup_cons] at hnodup
      rw [List.forall_mem_cons] at hsettable hcall hmembers
      obtain ⟨⟨v, hv, hshaped⟩, hmembers⟩ := hmembers
      obtain ⟨w, middle, hset, hrun, hchanged⟩ :=
        exists_run_setDefault hsettable.1 hcall.1 hv hshaped
      have hother : ∀ g ∈ fields, middle.lookup g.identifier = members.lookup g.identifier := by
        intro g hg
        apply hchanged.elsewhere
        exact fun heq => hnodup.1 (heq ▸ List.mem_map_of_mem hg)
      obtain ⟨members', hrest, hnames, heach, hothers⟩ :=
        ih hnodup.2 hsettable.2 hcall.2 (fun g hg => by rw [hother g hg]; exact hmembers g hg)
      refine ⟨members', ?_, hnames.trans hchanged.names, ?_, ?_⟩
      · rw [List.flatMap_cons, runDefaults, List.foldlM_append]
        exact Option.bind_eq_some_iff.mpr ⟨middle, hrun, hrest⟩
      · rw [List.forall_mem_cons]
        constructor
        · intro v' hv'
          obtain rfl : v = v' := Option.some.inj (hv.symm.trans hv')
          exact ⟨w, (hothers _ hnodup.1).trans hchanged.here, hset⟩
        · intro g hg v' hv'
          exact heach g hg v' ((hother g hg).trans hv')
      · intro name hname
        rw [List.map_cons, List.mem_cons, not_or] at hname
        exact (hothers name hname.2).trans (hchanged.elsewhere name hname.1)

/-! ## Structs -/

theorem FieldSet.shaped {v w : Value} (h : s.FieldSet f v w) : s.Shaped w f.type f.shape := by
  have hone {v w : Value} (h : s.OneSet f v w) : s.Shaped w f.type .scalar := by
    cases h with
    | struct type held => exact type ▸ held.shaped
    | set assigned =>
        obtain ⟨d, hd⟩ := Field.exists_default_of_assigned? assigned
        exact .plain (Field.plain_of_defaultValue hd).1
    | kept plain _ => exact .plain plain
  cases h with
  | dynamic shape => exact shape ▸ .dynamic
  | scalar shape one => exact shape ▸ hone one
  | fixed shape length each =>
      rw [shape]
      refine .fixed (each.length_eq ▸ length) fun w hw => ?_
      obtain ⟨v, _, hset⟩ := exists_of_forall₂_right each hw
      exact hone hset

/-- A field with a default holds it in the end. -/
theorem FieldSet.eq_filledWith {v w x : Value} (h : s.FieldSet f v w)
    (hx : f.assigned? s.ownedNames = some x) : w = f.filledWith x := by
  obtain ⟨d, hd⟩ := Field.exists_default_of_assigned? hx
  obtain ⟨hplain, hstill⟩ := Field.plain_of_defaultValue hd
  have hone {v w : Value} (h : s.OneSet f v w) : w = x := by
    cases h with
    | struct type _ => exact absurd hplain (by simp [type, FieldType.isStruct])
    | set assigned => exact Option.some.inj (assigned.symm.trans hx)
    | kept _ default =>
        rw [Field.assigned?_of_none default] at hx
        exact absurd hx (by simp)
  unfold Field.filledWith
  cases h with
  | dynamic shape => exact absurd hstill (by simp [Field.isDynamic, shape])
  | scalar shape one => simp only [shape, hone one]
  | fixed shape length each =>
      rename_i items items' count
      simp only [shape]
      apply congrArg Value.array
      rw [List.eq_replicate_iff]
      refine ⟨each.length_eq ▸ length, fun w hw => ?_⟩
      obtain ⟨v, _, hset⟩ := exists_of_forall₂_right each hw
      exact hone hset

/-- A field without a default that holds no structs is as before. -/
theorem FieldSet.eq_of_kept {v w : Value} (h : s.FieldSet f v w) (hnone : f.default? = none)
    (hplain : f.holdsStructs = false) : w = v := by
  have hone {v w : Value} (hstill : f.isDynamic = false) (h : s.OneSet f v w) : w = v := by
    cases h with
    | struct type _ =>
        exact absurd hplain (by simp [Field.holdsStructs, type, FieldType.isStruct, hstill])
    | set assigned =>
        rw [Field.assigned?_of_none hnone] at assigned
        exact absurd assigned (by simp)
    | kept _ _ => rfl
  cases h with
  | dynamic _ => rfl
  | scalar shape one => exact hone (by simp [Field.isDynamic, shape]) one
  | fixed shape length each =>
      rename_i items items' count
      apply congrArg Value.array
      have hsame : List.Forall₂ (· = ·) items items' :=
        each.imp fun v w h => (hone (by simp [Field.isDynamic, shape]) h).symm
      exact (List.forall₂_eq_eq_eq ▸ hsame).symm

theorem OneSet.defaulted {v w : Value} (h : s.OneSet f v w) {q : Qualified}
    (htype : f.type = .struct q) : s.Defaulted q v w := by
  have hstruct : f.type.isStruct = true := by rw [htype]; rfl
  cases h with
  | struct type held =>
      obtain rfl := FieldType.struct.inj (htype.symm.trans type)
      exact held
  | set assigned =>
      obtain ⟨d, hd⟩ := Field.exists_default_of_assigned? assigned
      exact absurd hstruct (Bool.eq_false_iff.mp (Field.plain_of_defaultValue hd).1)
  | kept plain _ => exact absurd hstruct (Bool.eq_false_iff.mp plain)

/-- The members of a struct have their defaults set, each as it should. -/
structure MembersSet (s : Schema) (st : Struct) (members members' : List (Text × Value)) :
    Prop where
  names : members'.map Prod.fst = st.members.map Member.name
  base : ∀ b, st.base = some b → ∃ v w, members.lookup b.identifier = some v ∧
    members'.lookup b.identifier = some w ∧ s.Defaulted b v w
  field : ∀ f ∈ st.fields, ∃ v w, members.lookup f.identifier = some v ∧
    members'.lookup f.identifier = some w ∧ s.FieldSet f v w

variable {q : Qualified} {st : Struct} {members members' : List (Text × Value)}

/-- A field that a struct holds is one of its own, or one of a struct in it whose defaults are
set. -/
theorem MembersSet.descend (h : s.MembersSet st members members') (hst : s.struct? q = some st)
    {path : List Value.Step} (held : s.HeldAt q path f) :
    (f ∈ st.fields ∧ path = [.member f.identifier]) ∨
      ∃ inner rest v w, s.HeldAt inner rest f ∧ s.Defaulted inner v w ∧
        (Value.record members).find? path = v.find? rest ∧
        (Value.record members').find? path = w.find? rest := by
  cases held with
  | own declared field =>
      obtain rfl := Option.some.inj (hst.symm.trans declared)
      exact .inl ⟨field, rfl⟩
  | @base _ b _ rest _ declared base held =>
      obtain rfl := Option.some.inj (hst.symm.trans declared)
      obtain ⟨v, w, hv, hw, hset⟩ := h.base b base
      exact .inr ⟨b, rest, v, w, held, hset, Value.find?_member hv, Value.find?_member hw⟩
  | @scalar _ inner _ g _ rest declared field type shape held =>
      obtain rfl := Option.some.inj (hst.symm.trans declared)
      obtain ⟨v, w, hv, hw, hset⟩ := h.field g field
      have hinner : s.Defaulted inner v w := by
        cases hset with
        | dynamic other => exact absurd (shape.symm.trans other) (by simp)
        | scalar _ one => exact one.defaulted type
        | fixed other _ _ => exact absurd (shape.symm.trans other) (by simp)
      exact .inr ⟨inner, rest, v, w, held, hinner, Value.find?_member hv, Value.find?_member hw⟩
  | @fixed _ inner _ g _ rest count index declared field type shape inside held =>
      obtain rfl := Option.some.inj (hst.symm.trans declared)
      obtain ⟨v, w, hv, hw, hset⟩ := h.field g field
      cases hset with
      | dynamic other => exact absurd (shape.symm.trans other) (by simp)
      | scalar other _ => exact absurd (shape.symm.trans other) (by simp)
      | @fixed items items' _ other length each =>
          obtain rfl := Shape.fixed.inj (shape.symm.trans other)
          have hindex : index < items.length := length ▸ inside
          have hindex' : index < items'.length := each.length_eq ▸ hindex
          have hinner : s.Defaulted inner items[index] items'[index] :=
            ((List.forall₂_iff_get.mp each).2 index hindex hindex').defaulted type
          refine .inr ⟨inner, rest, _, _, held, hinner, ?_, ?_⟩
          · rw [Value.find?_member hv, Value.find?_item (List.getElem?_eq_getElem hindex)]
          · rw [Value.find?_member hw, Value.find?_item (List.getElem?_eq_getElem hindex')]

theorem MembersSet.defaulted (h : s.MembersSet st members members')
    (hst : s.struct? q = some st) : s.Defaulted q (.record members) (.record members') where
  shaped := by
    refine .record hst h.names fun m hm v' hv' => ?_
    rcases mem_members_iff.mp hm with ⟨b, hbase, rfl⟩ | ⟨f, hf, rfl⟩
    · obtain ⟨v, w, _, hw, hset⟩ := h.base b hbase
      obtain rfl := Option.some.inj (hw.symm.trans hv')
      exact hset.shaped
    · obtain ⟨v, w, _, hw, hset⟩ := h.field f hf
      obtain rfl := Option.some.inj (hw.symm.trans hv')
      exact hset.shaped
  set := by
    intro path f x held hx
    rcases h.descend hst held with ⟨hf, rfl⟩ | ⟨inner, rest, v, w, held, hset, _, hafter⟩
    · obtain ⟨v, w, _, hw, hset⟩ := h.field f hf
      rw [Value.find?_member hw, hset.eq_filledWith hx]
      rfl
    · rw [hafter]
      exact hset.set rest f x held hx
  kept := by
    intro path f held hnone hplain
    rcases h.descend hst held with ⟨hf, rfl⟩ | ⟨inner, rest, v, w, held, hset, hbefore, hafter⟩
    · obtain ⟨v, w, hv, hw, hset⟩ := h.field f hf
      rw [Value.find?_member hw, Value.find?_member hv, hset.eq_of_kept hnone hplain]
    · rw [hbefore, hafter]
      exact hset.kept rest f held hnone hplain

/-- The statement for the base of a struct sets the defaults of the base and leaves the other
members alone. -/
theorem exists_run_base {base : Option Qualified} (hcall : ∀ b, base = some b → s.Sets call b)
    (hbase : ∀ b, base = some b → ∃ v, members.lookup b.identifier = some v ∧
      s.Shaped v (.struct b) .scalar) :
    ∃ members', runDefaults s.ownedNames call
        (base.map fun b => DefaultStatement.step (.object (.member b.identifier) b)).toList
        members = some members' ∧
      members'.map Prod.fst = members.map Prod.fst ∧
      (∀ b, base = some b → ∃ v w, members.lookup b.identifier = some v ∧
        members'.lookup b.identifier = some w ∧ s.Defaulted b v w) ∧
      ∀ name, (∀ b, base = some b → name ≠ b.identifier) →
        members'.lookup name = members.lookup name := by
  cases base with
  | none => exact ⟨members, rfl, rfl, by simp, fun _ _ => rfl⟩
  | some b =>
      obtain ⟨v, hv, hshaped⟩ := hbase b rfl
      obtain ⟨w, hw, hset⟩ := hcall b rfl v hshaped
      obtain ⟨members', hupdate, hchanged⟩ := exists_updateMember hv hw
      refine ⟨members', (runDefaults_singleton _).trans hupdate, hchanged.names, ?_, ?_⟩
      · intro b' hb'
        obtain rfl := Option.some.inj hb'
        exact ⟨v, w, hv, hchanged.here, hset⟩
      · exact fun name hname => hchanged.elsewhere name (hname b rfl)

/-- Running the statements of a struct sets the defaults of its members. -/
theorem exists_run_defaults (hnodup : (st.members.map Member.name).Nodup)
    (hsettable : ∀ f ∈ st.fields, s.Settable f)
    (hbase : ∀ b, st.base = some b → s.Sets call b)
    (hfield : ∀ f ∈ st.fields, ∀ q, f.type = .struct q → f.isDynamic = false → s.Sets call q)
    (hnames : members.map Prod.fst = st.members.map Member.name)
    (heach : ∀ m ∈ st.members, ∃ v, members.lookup m.name = some v ∧
      s.Shaped v m.type m.shape) :
    ∃ members', runDefaults s.ownedNames call st.defaults members = some members' ∧
      s.MembersSet st members members' := by
  have hfields : (st.fields.map Field.member).map Member.name = st.fields.map Field.identifier := by
    rw [List.map_map]
    rfl
  rw [Struct.members, List.map_append, hfields, List.nodup_append] at hnodup
  obtain ⟨_, hnodup, hapart⟩ := hnodup
  have hne : ∀ f ∈ st.fields, ∀ b, st.base = some b → f.identifier ≠ b.identifier := by
    intro f hf b hb heq
    exact hapart b.identifier (by simp [baseMembers, hb]) _ (List.mem_map_of_mem hf) heq.symm
  obtain ⟨middle, hfirst, hmiddle, hbaseSet, hothers⟩ := exists_run_base hbase
    fun b hb => heach _ (mem_members_iff.mpr (.inl ⟨b, hb, rfl⟩))
  have hsame : ∀ f ∈ st.fields, middle.lookup f.identifier = members.lookup f.identifier :=
    fun f hf => hothers _ (hne f hf)
  have hfieldEach : ∀ f ∈ st.fields, ∃ v, members.lookup f.identifier = some v ∧
      s.Shaped v f.type f.shape :=
    fun f hf => heach _ (mem_members_iff.mpr (.inr ⟨f, hf, rfl⟩))
  obtain ⟨members', hsecond, hlast, hset, hrest⟩ := exists_run_setDefaults hnodup hsettable hfield
    fun f hf => by rw [hsame f hf]; exact hfieldEach f hf
  refine ⟨members', ?_, hlast.trans (hmiddle.trans hnames), ?_, ?_⟩
  · rw [Struct.defaults, runDefaults, List.foldlM_append]
    exact Option.bind_eq_some_iff.mpr ⟨middle, hfirst, hsecond⟩
  · intro b hb
    obtain ⟨v, w, hv, hw, hdefaulted⟩ := hbaseSet b hb
    refine ⟨v, w, hv, ?_, hdefaulted⟩
    rw [hrest _ fun hmem => ?_, hw]
    obtain ⟨f, hf, heq⟩ := List.mem_map.mp hmem
    exact hne f hf b hb heq
  · intro f hf
    obtain ⟨v, hv, _⟩ := hfieldEach f hf
    obtain ⟨w, hw, hfieldSet⟩ := hset f hf v ((hsame f hf).trans hv)
    exact ⟨v, w, hv, hw, hfieldSet⟩

end Run

/-! ## Accepted schemas -/

section Accepted

variable {s : Schema} {rank : Qualified → Nat}

/-- Calls go to structs of lower rank, so a depth above the rank of a struct is enough for it. -/
theorem Ranked.sets_setDefaultsWithin (hs : s.Ranked rank)
    (hmembers : ∀ st ∈ s.walk, (st.members.map Member.name).Nodup)
    (hdefaults : ∀ st ∈ s.walk, ∀ f ∈ st.fields, s.Settable f) {depth : Nat}
    {q : Qualified} (hdepth : rank q < depth) : s.Sets (s.setDefaultsWithin depth) q := by
  -- A struct holds by value only structs of lower rank, so each call gets by with one level less.
  induction depth generalizing q with
  | zero => omega
  | succ depth ih =>
      intro v hv
      obtain ⟨st, members, rfl, hst, hnames, heach⟩ := hv.exists_record
      obtain ⟨hmem, rfl⟩ := mem_walk_of_struct? hst
      have hheld {held : Qualified} (h : s.ByValue st.qualified held) :
          s.Sets (s.setDefaultsWithin depth) held := by
        have hlower := hs.held _ _ h
        exact ih (by omega)
      obtain ⟨members', hrun, hset⟩ := exists_run_defaults (hmembers st hmem) (hdefaults st hmem)
        (fun b hb => hheld (hs.resolved.byValue_base hmem hb))
        (fun f hf q hq hstill => hheld ⟨f.name, .field hmem hf hq hstill⟩) hnames heach
      refine ⟨.record members', ?_, hset.defaulted hst⟩
      simp [setDefaultsWithin, hst, Value.members?, hrun]

theorem HeldAt.exists_struct {q : Qualified} {path : List Value.Step} {f : Field}
    (h : s.HeldAt q path f) : ∃ st ∈ s.walk, f ∈ st.fields := by
  induction h with
  | own declared field => exact ⟨_, (mem_walk_of_struct? declared).1, field⟩
  | base _ _ _ ih => exact ih
  | scalar _ _ _ _ _ ih => exact ih
  | fixed _ _ _ _ _ _ ih => exact ih

/-- Setting defaults determines a value: whatever holds no structs is set or kept. -/
theorem Defaulted.agree (hdefaults : ∀ st ∈ s.walk, ∀ f ∈ st.fields, s.Settable f)
    {q : Qualified} {v w w' : Value} (h : s.Defaulted q v w) (h' : s.Defaulted q v w') :
    s.Agree q [] w w' := by
  intro path f held plain _
  obtain ⟨st, hst, hf⟩ := held.exists_struct
  rcases hdefaults st hst f hf with hnone | ⟨x, hx⟩
  · rw [h.kept path f held hnone plain, h'.kept path f held hnone plain]
  · rw [h.set path f x held hx, h'.set path f x held hx]

theorem Defaulted.again {q : Qualified} {v w : Value} (h : s.Defaulted q v w) :
    s.Defaulted q w w :=
  ⟨h.shaped, h.set, fun _ _ _ _ _ => rfl⟩

end Accepted

/-- In an accepted schema whose defaults can be assigned, setting the defaults of a struct comes to
an end on whatever has the form of a value of the struct, and doing it again changes nothing. -/
theorem exists_defaulted {source : Text} {s : Schema} (parsed : parse source = .ok s)
    (hdefaults : ∀ st ∈ s.walk, ∀ f ∈ st.fields, s.Settable f) {q : Qualified} {v : Value}
    (hv : s.Shaped v (.struct q) .scalar) :
    ∃ w, s.setDefaults q v = some w ∧ s.setDefaults q w = some w ∧
      ∀ w', s.Defaulted q v w' ↔ w' = w := by
  have hs := accepted_of_parse parsed
  obtain ⟨rank, hrank⟩ := hs.acyclic.exists_ranked hs.resolved
  have hsets : s.Sets (s.setDefaultsWithin (s.walk.length + 1)) q := by
    apply hrank.sets_setDefaultsWithin hs.members hdefaults
    obtain ⟨st, _, _, hst, _⟩ := hv.exists_record
    obtain ⟨hmem, rfl⟩ := mem_walk_of_struct? hst
    exact Nat.lt_succ_of_lt (hrank.bound _ (List.mem_map_of_mem hmem))
  have hunique {x y y' : Value} (h : s.Defaulted q x y) (h' : s.Defaulted q x y') : y = y' :=
    Option.some.inj (hrank.find?_eq_of_agree hs.members h.shaped h'.shaped (h.agree hdefaults h'))
  obtain ⟨w, hw, hset⟩ := hsets v hv
  obtain ⟨again, hagain, hsetAgain⟩ := hsets w hset.shaped
  obtain rfl : again = w := hunique hsetAgain hset.again
  refine ⟨again, hw, hagain, fun w' => ?_⟩
  constructor
  · exact fun h => hunique h hset
  · rintro rfl
    exact hset

end Schema

end Schematic
