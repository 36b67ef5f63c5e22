import Schematic.Method.Run
import Schematic.Proofs.History

/-!
# How many slots a serializer reserves

The number of slots can be read off the statements of a serializer: each slot is reserved by a
statement of its own, and a loop reserves as many as its body does, once for each item. What the
methods called reserve is taken as given.
-/

namespace Schematic

open Method

namespace Buffer

/-- Unless there is an error in the end, so many slots are reserved on the way. -/
def Reserves (b : Buffer) (count : Nat) (b' : Buffer) : Prop :=
  b'.error = none → b.error = none ∧ b'.next = b.next + count

namespace Reserves

variable {a b c : Buffer} {m n : Nat}

theorem refl (b : Buffer) : b.Reserves 0 b :=
  fun sound => ⟨sound, rfl⟩

theorem trans (hab : a.Reserves m b) (hbc : b.Reserves n c) : a.Reserves (m + n) c := by
  intro sound
  obtain ⟨hb, hc⟩ := hbc sound
  obtain ⟨ha, hb⟩ := hab hb
  exact ⟨ha, by rw [hc, hb, Nat.add_assoc]⟩

theorem apply (b : Buffer) (op : Operation) :
    b.Reserves (if op = .create then 1 else 0) (op.apply b) := by
  intro sound
  refine ⟨error_of_apply sound, ?_⟩
  rw [next_apply]
  simp only [sound, and_true]

/-- Writing a plain value reserves nothing. -/
theorem write {kind : Plain} {v : Value} (h : kind.write b v = some c) : b.Reserves 0 c := by
  unfold Plain.write at h
  split at h
  case h_1 v => exact Option.some.inj h ▸ apply b (.bool v)
  case h_2 i => exact Option.some.inj h ▸ apply b (.int32 i)
  case h_3 bits => exact Option.some.inj h ▸ apply b (.float32 bits)
  case h_4 t => exact Option.some.inj h ▸ apply b (.string t)
  case h_5 i => exact Option.some.inj h ▸ apply b (.int32 i)
  case h_6 => exact absurd h (by simp)

/-- When nothing waits any more, every slot that was reserved is a relocation. -/
theorem length_relocations (h : Reserves {} n b) (hb : b.Consistent) (sound : b.error = none)
    (hpending : b.pending = []) : b.relocations.length = n := by
  have hcount := hb.count
  rw [hpending, List.length_nil, Nat.zero_add] at hcount
  rw [relocations, List.length_map, hcount, (h sound).2]
  exact Nat.zero_add n

end Reserves

end Buffer

namespace Method

/-- From one state of a serializer to a later one so many slots are reserved. -/
structure Writing.Takes (w : Writing) (count : Nat) (w' : Writing) : Prop where
  members : w'.members = w.members
  reserves : w.buffer.Reserves count w'.buffer

theorem Writing.Takes.trans {a b c : Writing} {m n : Nat} (hab : a.Takes m b) (hbc : b.Takes n c) :
    a.Takes (m + n) c :=
  ⟨hbc.members.trans hab.members, hab.reserves.trans hbc.reserves⟩

/-- What is done for each of several things reserves as much as the single runs do. -/
theorem takes_foldlM {α : Type} {act : Writing → α → Option Writing} {count : α → Nat}
    {members : List (Text × Value)} {as : List α}
    (hact : ∀ a ∈ as, ∀ w w', w.members = members → act w a = some w' → w.Takes (count a) w')
    {w w' : Writing} (hw : w.members = members) (h : as.foldlM act w = some w') :
    w.Takes (as.map count).sum w' := by
  induction as generalizing w with
  | nil =>
      obtain rfl := Option.some.inj h
      exact ⟨rfl, .refl _⟩
  | cons a as ih =>
      rw [List.foldlM_cons] at h
      obtain ⟨w₁, hfirst, hrest⟩ := Option.bind_eq_some_iff.mp h
      have htakes := hact a List.mem_cons_self w w₁ hw hfirst
      have hothers := ih (fun b hb => hact b (List.mem_cons_of_mem a hb))
        (htakes.members.trans hw) hrest
      rw [List.map_cons, List.sum_cons]
      exact htakes.trans hothers

/-- The slots that a simple statement reserves. -/
def WriteStep.slots (callee : Qualified → Nat) : WriteStep → Nat
  | object _ type => callee type
  | reserve _ => 1
  | _ => 0

/-- The struct whose method a simple statement calls. -/
def WriteStep.callee? : WriteStep → Option Qualified
  | object _ type => some type
  | _ => none

/-- The number of items of a member. -/
def itemCount (members : List (Text × Value)) (member : Text) : Nat :=
  (((members.lookup member).bind Value.items?).getD []).length

namespace WriteStatement

/-- The simple statements in a statement. -/
def body : WriteStatement → List WriteStep
  | step s => [s]
  | eachIndex _ body => body
  | eachElement _ body => body
  | _ => []

/-- The slots that a statement reserves for a struct with these members. -/
def slots (callee : Qualified → Nat) (members : List (Text × Value)) : WriteStatement → Nat
  | step s => s.slots callee
  | reserveEach _ count => count.toNat
  | eachIndex member body => itemCount members member * (body.map (WriteStep.slots callee)).sum
  | eachElement member body => itemCount members member * (body.map (WriteStep.slots callee)).sum
  | remark _ => 0

end WriteStatement

section Statements

variable {c : Callees} {callee : Qualified → Nat}

/-- A method that is called reserves so many slots. -/
def Callees.Reserve (c : Callees) (q : Qualified) (count : Nat) : Prop :=
  ∀ v b b', c.serialize q v b = some b' → b.Reserves count b'

theorem Writing.takes_reserve (w : Writing) (s : Slot) : w.Takes 1 (w.reserve s) := by
  refine ⟨?_, .apply w.buffer .create⟩
  cases s <;> rfl

theorem takes_step {s : WriteStep} (hcallee : ∀ q ∈ s.callee?, c.Reserve q (callee q))
    {w w' : Writing} (h : s.run c w = some w') : w.Takes (s.slots callee) w' := by
  cases s with
  | value kind p =>
      obtain ⟨v, _, h⟩ := Option.bind_eq_some_iff.mp h
      obtain ⟨b, hwrite, h⟩ := Option.bind_eq_some_iff.mp h
      obtain rfl := Option.some.inj h
      exact ⟨rfl, .write hwrite⟩
  | object p type =>
      obtain ⟨v, _, h⟩ := Option.bind_eq_some_iff.mp h
      obtain ⟨b, hcall, h⟩ := Option.bind_eq_some_iff.mp h
      obtain rfl := Option.some.inj h
      exact ⟨rfl, hcallee type rfl v w.buffer b hcall⟩
  | count member =>
      obtain ⟨items, _, h⟩ := Option.bind_eq_some_iff.mp h
      obtain rfl := Option.some.inj h
      exact ⟨rfl, .apply w.buffer (.count items.length)⟩
  | reserve s =>
      obtain rfl := Option.some.inj h
      exact w.takes_reserve s
  | resolve s =>
      obtain ⟨handle, _, h⟩ := Option.bind_eq_some_iff.mp h
      obtain rfl := Option.some.inj h
      exact ⟨rfl, .apply w.buffer (.insert handle)⟩
  | orNew type =>
      obtain rfl := Option.some.inj h
      split
      · exact ⟨rfl, .refl _⟩
      · exact ⟨rfl, .refl _⟩

theorem takes_runAll {steps : List WriteStep}
    (hcallee : ∀ s ∈ steps, ∀ q ∈ s.callee?, c.Reserve q (callee q)) {w w' : Writing}
    (h : WriteStep.runAll c w steps = some w') :
    w.Takes (steps.map (WriteStep.slots callee)).sum w' :=
  takes_foldlM (fun s hs _ _ _ h => takes_step (hcallee s hs) h) rfl h

theorem takes_reserveEach (name : Text) (count : Nat) (w : Writing) :
    w.Takes count
      ((List.range count).foldl (fun w i => { w with index := i }.reserve (.fieldAt name)) w) := by
  induction count with
  | zero => exact ⟨rfl, .refl _⟩
  | succ count ih =>
      rw [List.range_succ, List.foldl_concat]
      have hlast (w : Writing) : w.Takes 1 ({ w with index := count }.reserve (.fieldAt name)) :=
        ⟨rfl, .apply w.buffer .create⟩
      exact ih.trans (hlast _)

/-- A loop only sets where it stands before each run of its body. -/
theorem takes_loop {α : Type} {as : List α} (enter : Writing → α → Writing)
    (henter : ∀ w a, (enter w a).members = w.members ∧ (enter w a).buffer = w.buffer)
    {steps : List WriteStep} (hcallee : ∀ s ∈ steps, ∀ q ∈ s.callee?, c.Reserve q (callee q))
    {w w' : Writing} (h : as.foldlM (fun w a => WriteStep.runAll c (enter w a) steps) w = some w') :
    w.Takes (as.length * (steps.map (WriteStep.slots callee)).sum) w' := by
  rw [← List.sum_replicate_nat, ← List.map_const']
  refine takes_foldlM (fun a _ w w' _ h => ?_) rfl h
  obtain ⟨hmembers, hbuffer⟩ := henter w a
  have hbody := takes_runAll hcallee h
  exact ⟨hbody.members.trans hmembers, hbuffer ▸ hbody.reserves⟩

theorem length_items {w : Writing} {member : Text} {items : List Value}
    (h : w.items member = some items) : itemCount w.members member = items.length := by
  have hitems : (w.members.lookup member).bind Value.items? = some items := h
  rw [itemCount, hitems, Option.getD_some]

theorem takes_statement {s : WriteStatement}
    (hcallee : ∀ step ∈ s.body, ∀ q ∈ step.callee?, c.Reserve q (callee q)) {w w' : Writing}
    (h : s.run c w = some w') : w.Takes (s.slots callee w.members) w' := by
  cases s with
  | step s => exact takes_step (hcallee s List.mem_cons_self) h
  | reserveEach name count =>
      obtain rfl := Option.some.inj h
      exact takes_reserveEach name count.toNat w
  | eachIndex member body =>
      obtain ⟨items, hitems, h⟩ := Option.bind_eq_some_iff.mp h
      have hloop := takes_loop (fun w i => { w with index := i }) (fun _ _ => ⟨rfl, rfl⟩) hcallee h
      rw [List.length_range, ← length_items hitems] at hloop
      exact hloop
  | eachElement member body =>
      obtain ⟨items, hitems, h⟩ := Option.bind_eq_some_iff.mp h
      have hloop :=
        takes_loop (fun w v => { w with element := v }) (fun _ _ => ⟨rfl, rfl⟩) hcallee h
      rw [← length_items hitems] at hloop
      exact hloop
  | remark t =>
      obtain rfl := Option.some.inj h
      exact ⟨rfl, .refl _⟩

/-- The structs whose methods the statements call. -/
def callees (statements : List WriteStatement) : List Qualified :=
  (statements.flatMap WriteStatement.body).filterMap WriteStep.callee?

/-- A serializer reserves the slots that are read off its statements. -/
theorem reserves_serializer {statements : List WriteStatement}
    (hcallee : ∀ q ∈ callees statements, c.Reserve q (callee q)) {members : List (Text × Value)}
    {b b' : Buffer} (h : runSerializer c statements members b = some b') :
    b.Reserves (statements.map (WriteStatement.slots callee members)).sum b' := by
  obtain ⟨w, hrun, h⟩ := Option.bind_eq_some_iff.mp h
  obtain rfl := Option.some.inj h
  have hstatement (s : WriteStatement) (hs : s ∈ statements) (w w' : Writing)
      (hw : w.members = members) (h : s.run c w = some w') :
      w.Takes (s.slots callee members) w' := by
    rw [← hw]
    refine takes_statement (fun step hstep q hq => hcallee q ?_) h
    exact List.mem_filterMap.mpr ⟨step, List.mem_flatMap.mpr ⟨s, hs, hstep⟩, hq⟩
  exact (takes_foldlM hstatement rfl hrun).reserves

end Statements

end Method

namespace Schema

variable {s : Schema} {depth : Nat} {q : Qualified} {st : Struct} {v : Value} {b b' : Buffer}

/-- Writing a struct reserves the slots that are read off its serializer. -/
theorem reserves_serializeWithin {callee : Qualified → Nat} (hst : s.struct? q = some st)
    (hcallee : ∀ q ∈ callees st.serializer,
      ∀ v b b', s.serializeWithin depth q v b = some b' → b.Reserves (callee q) b')
    (h : s.serializeWithin (depth + 1) q v b = some b') :
    ∃ members, v.members? = some members ∧
      b.Reserves (st.serializer.map (WriteStatement.slots callee members)).sum b' := by
  simp only [serializeWithin, hst, Option.bind_eq_bind, Option.bind_some] at h
  obtain ⟨members, hmembers, hrun⟩ := Option.bind_eq_some_iff.mp h
  exact ⟨members, hmembers, reserves_serializer hcallee hrun⟩

/-- A struct that holds no other structs takes the same number of slots whatever its value. -/
theorem reserves_leaf (hst : s.struct? q = some st) (hleaf : callees st.serializer = [])
    {count : Nat} (hcount : ∀ members,
      (st.serializer.map (WriteStatement.slots (fun _ => 0) members)).sum = count)
    (h : s.serializeWithin depth q v b = some b') : b.Reserves count b' := by
  cases depth with
  | zero => exact absurd h (by simp [serializeWithin])
  | succ depth =>
      obtain ⟨members, _, hreserves⟩ := reserves_serializeWithin hst (by simp [hleaf]) h
      rw [hcount members] at hreserves
      exact hreserves

end Schema

end Schematic
