import Schematic.Proofs.Addresses

/-!
# Setting defaults in memory

The statements that set defaults write where a struct is, and what they write is what running them
on the value of the struct comes to. Main statement: setting the defaults of a struct in memory
comes to an end, and changes nothing but the fields that the struct holds by value and that declare
defaults; these come to hold what is written for them in code. What a dynamic array refers to is
changed only where it is a part of the struct itself.
-/

namespace Schematic

open Method

/-! ## Statements in memory -/

namespace Method

/-- Methods that do in memory what others do with values. -/
def Mirrors (call : Qualified → Value → Option Value)
    (callAt : Qualified → Address → Memory → Option Memory) : Prop :=
  ∀ q a m v w, m.find? a = some v → call q v = some w →
    ∃ m', callAt q a m = some m' ∧ m.Swapped a v m' w

section Mirrors

variable {call : Qualified → Value → Option Value}
  {callAt : Qualified → Address → Memory → Option Memory} {declared : List Text}
  {members members' : List (Text × Value)} {a : Address} {m : Memory}

theorem exists_path_of_update {p : Place} {index : Nat} {f : Value → Option Value}
    (h : p.update members index f = some members') :
    ∃ path, p.path? index = some path ∧
      (Value.record members).change? f path = some (.record members') := by
  cases p with
  | member name =>
      have h : Value.updateMember (Value.change? f []) name members = some members' := h
      refine ⟨_, rfl, ?_⟩
      rw [Value.change?]
      simp [Value.members?, h]
  | memberAt name =>
      have h : Value.updateMember (Value.change? f [.item index]) name members = some members' := h
      refine ⟨_, rfl, ?_⟩
      rw [Value.change?]
      simp [Value.members?, h]
  | element => exact absurd h (by simp [Place.update])

/-- A simple statement writes where its struct is. -/
theorem Mirrors.step (hcall : Mirrors call callAt) {step : DefaultStep} {index : Nat}
    (h : step.run declared call members index = some members')
    (hm : m.find? a = some (.record members)) :
    ∃ m', step.runAt declared callAt a index m = some m' ∧
      m.Swapped a (.record members) m' (.record members') := by
  cases step with
  | object p type =>
      obtain ⟨path, hpath, hchange⟩ := exists_path_of_update h
      obtain ⟨x, y, hx, hy⟩ := Value.exists_of_change? hchange
      have hfound : m.find? (a.into path) = some x := by rw [Memory.find?_into, hm]; exact hx
      obtain ⟨m', hrun, hswapped⟩ := hcall type (a.into path) m x y hfound hy
      refine ⟨m', by simp [DefaultStep.runAt, hpath, hrun], hswapped.outer hm ?_⟩
      rw [← Value.change?_congr (f := call type) hx hy, hchange]
  | assign p token value =>
      obtain ⟨path, hpath, hchange⟩ := exists_path_of_update h
      obtain ⟨x, y, hx, hy⟩ := Value.exists_of_change? hchange
      have hfound : m.find? (a.into path) = some x := by rw [Memory.find?_into, hm]; exact hx
      obtain ⟨m', hrun, hswapped⟩ :=
        Memory.exists_swapped (f := fun _ => Code.denoted? declared token value) hfound hy
      refine ⟨m', by simp [DefaultStep.runAt, hpath, hrun], hswapped.outer hm ?_⟩
      rw [← hchange, ← hy]

/-- Statements in a row write where their struct is, if each of them does. -/
theorem exists_foldlM_swapped {α : Type}
    {run : List (Text × Value) → α → Option (List (Text × Value))}
    (runAt : Memory → α → Option Memory)
    (hrun : ∀ x members members' m, run members x = some members' →
      m.find? a = some (.record members) →
        ∃ m', runAt m x = some m' ∧ m.Swapped a (.record members) m' (.record members'))
    {xs : List α} (h : xs.foldlM run members = some members')
    (hm : m.find? a = some (.record members)) :
    ∃ m', xs.foldlM runAt m = some m' ∧ m.Swapped a (.record members) m' (.record members') := by
  induction xs generalizing members m with
  | nil =>
      obtain rfl := Option.some.inj h
      exact ⟨m, rfl, .refl hm⟩
  | cons x xs ih =>
      obtain ⟨middle, hfirst, hrest⟩ := Option.bind_eq_some_iff.mp h
      obtain ⟨m₁, hrun₁, hswapped₁⟩ := hrun x members middle m hfirst hm
      obtain ⟨m₂, hrun₂, hswapped₂⟩ := ih hrest hswapped₁.spec.2.1
      refine ⟨m₂, ?_, hswapped₁.trans hswapped₂⟩
      rw [List.foldlM_cons, hrun₁]
      exact hrun₂

theorem Mirrors.statement (hcall : Mirrors call callAt) {statement : DefaultStatement}
    (h : statement.run declared call members = some members')
    (hm : m.find? a = some (.record members)) :
    ∃ m', statement.runAt declared callAt a m = some m' ∧
      m.Swapped a (.record members) m' (.record members') := by
  cases statement with
  | step s => exact hcall.step h hm
  | eachIndex member s =>
      obtain ⟨v, hv, h⟩ := Option.bind_eq_some_iff.mp h
      obtain ⟨items, hitems, h⟩ := Option.bind_eq_some_iff.mp h
      obtain ⟨m', hrun, hswapped⟩ :=
        exists_foldlM_swapped (fun m i => s.runAt declared callAt a i m)
          (fun _ _ _ _ hstep hfound => hcall.step hstep hfound) h hm
      have hfound : m.find? (a.into [.member member]) = some v := by
        rw [Memory.find?_into, hm]
        exact Value.find?_member hv
      exact ⟨m', by simp [DefaultStatement.runAt, hfound, hitems, hrun], hswapped⟩

end Mirrors

end Method

namespace Schema

/-- Setting defaults in memory comes to what setting them in a value comes to. -/
theorem mirrors_setDefaultsWithin (s : Schema) (depth : Nat) :
    Mirrors (s.setDefaultsWithin depth) (s.setDefaultsAtWithin depth) := by
  induction depth with
  | zero => exact fun _ _ _ _ _ _ h => absurd h (by simp [setDefaultsWithin])
  | succ depth ih =>
      intro q a m v w hm h
      obtain ⟨st, hst, h⟩ := Option.bind_eq_some_iff.mp h
      obtain ⟨members, hmembers, h⟩ := Option.bind_eq_some_iff.mp h
      obtain ⟨members', hrun, h⟩ := Option.bind_eq_some_iff.mp h
      obtain rfl := Option.some.inj h
      cases v with
      | record _ =>
          obtain rfl := Option.some.inj hmembers
          obtain ⟨m', hrunAt, hswapped⟩ :=
            exists_foldlM_swapped
              (DefaultStatement.runAt s.ownedNames (s.setDefaultsAtWithin depth) a)
              (fun _ _ _ _ hstatement hfound => ih.statement hstatement hfound) hrun hm
          exact ⟨m', by simp [setDefaultsAtWithin, hst, hrunAt], hswapped⟩
      | _ => exact absurd hmembers (by simp [Value.members?])

/-! ## What is set and what is kept -/

/-- What is written in code for the default of a field denotes a value, in the file of the owning
types. -/
def Assigns (s : Schema) (o : Artifact.Options) (writer : Text) (f : Field) (w : Value) : Prop :=
  ∃ token value, f.default? = some token ∧ f.defaultValue = .ok (some value) ∧
    Code.Denotes (Artifact.declarations s o writer .owned) (Code.ownedValue f.type)
      (Code.defaultPiece token value).text w

/-- An address that has nothing to do with the defaults of the struct at another one. -/
def Untouched (s : Schema) (q : Qualified) (a b : Address) : Prop :=
  ∀ path f, s.HeldAt q path f → f.default? ≠ none → (a.into path).Apart b

/-- What setting the defaults of the struct at an address does to memory: the fields that the struct
holds by value and that declare defaults hold what is written for these, and the values that were
read where that is faithful. The fields that declare none are kept, and so is whatever is elsewhere.
What a dynamic array refers to is kept unless it is one of the fields with defaults, or around or
inside one. -/
structure DefaultsSet (s : Schema) (o : Artifact.Options) (writer : Text) (q : Qualified)
    (a : Address) (m m' : Memory) : Prop where
  set : ∀ path f w, s.HeldAt q path f → s.Assigns o writer f w →
    m'.find? (a.into path) = some (f.filledWith w)
  faithful : ∀ path f token value, s.HeldAt q path f → f.default? = some token →
    f.defaultValue = .ok (some value) →
    Code.Faithful (Artifact.declaredNames s o writer .owned) token value →
      m'.find? (a.into path) = some (f.filledWith value.value)
  held : ∀ path f, s.HeldAt q path f → f.default? = none → f.holdsStructs = false →
    m'.find? (a.into path) = m.find? (a.into path)
  elsewhere : ∀ b, s.Untouched q a b → m'.find? b = m.find? b
  targets : ∀ path f, s.HeldAt q path f → f.isDynamic = true →
    m'.targets? (a.into path) = m.targets? (a.into path)
  referents : ∀ path f targets, s.HeldAt q path f → f.isDynamic = true →
    m.targets? (a.into path) = some targets → (∀ b, some b ∈ targets → s.Untouched q a b) →
      m'.referents? (a.into path) = m.referents? (a.into path)

section DefaultsSet

variable {source : Text} {s : Schema} {o : Artifact.Options} {writer : Text}

theorem mem_declaredNames_iff {t : Text} :
    t ∈ Artifact.declaredNames s o writer .owned ↔ t ∈ s.ownedNames :=
  (perm_declaredNames s o writer).mem_iff

/-- The value that is assigned for a default is the one that is written for it. -/
theorem assigns_iff (parsed : parse source = .ok s) {st : Struct} (hst : st ∈ s.walk) {f : Field}
    (hf : f ∈ st.fields) {w : Value} :
    s.Assigns o writer f w ↔ f.assigned? s.ownedNames = some w := by
  cases hdefault : f.default? with
  | none => simp [Assigns, hdefault, Field.assigned?_of_none hdefault]
  | some token =>
      obtain ⟨value, hvalue, htyped⟩ := exists_default_of_parse parsed hst hf hdefault
      have hnodup := (checkDistinct_iff_nodup s o writer).mp (checkDistinct_of_parse parsed)
      have hdenotes := (denotes_default parsed hnodup
        (fun e he => enumeration_subset_declarations he o writer) hst hf htyped).1 w
      have hassigned : f.assigned? s.ownedNames = Code.denoted? s.ownedNames token value := by
        simp [Field.assigned?, hvalue, hdefault]
      rw [hassigned, ← Code.denoted?_congr (fun _ => mem_declaredNames_iff (o := o))]
      simpa [Assigns, hdefault, hvalue, Artifact.declaredNames] using hdenotes

/-- What is written for a default denotes the value that was read where it is faithful. -/
theorem assigns_of_faithful (parsed : parse source = .ok s) {st : Struct} (hst : st ∈ s.walk)
    {f : Field} (hf : f ∈ st.fields) {token : Text} {value : DefaultValue}
    (hdefault : f.default? = some token) (hvalue : f.defaultValue = .ok (some value))
    (h : Code.Faithful (Artifact.declaredNames s o writer .owned) token value) :
    s.Assigns o writer f value.value := by
  obtain ⟨value', hvalue', htyped⟩ := exists_default_of_parse parsed hst hf hdefault
  obtain rfl : value' = value := by simpa [hvalue] using hvalue'.symm
  have hnodup := (checkDistinct_iff_nodup s o writer).mp (checkDistinct_of_parse parsed)
  have hdenotes := (denotes_default parsed hnodup
    (fun e he => enumeration_subset_declarations he o writer) hst hf htyped).2.mpr h
  exact ⟨token, value', hdefault, hvalue, (hdenotes _).mpr rfl⟩

theorem default?_of_isDynamic (parsed : parse source = .ok s) {st : Struct} (hst : st ∈ s.walk)
    {f : Field} (hf : f ∈ st.fields) (hdynamic : f.isDynamic = true) : f.default? = none := by
  by_contra hsome
  obtain ⟨token, hdefault⟩ := Option.ne_none_iff_exists'.mp hsome
  obtain ⟨value, hvalue, -⟩ := exists_default_of_parse parsed hst hf hdefault
  exact absurd hdynamic (by simp [(Field.plain_of_defaultValue hvalue).2])

/-- Where nothing has to do with defaults, the struct with its defaults set agrees with what it was
before. -/
theorem Untouched.agree {q : Qualified} {a b : Address} (h : s.Untouched q a b) {v w : Value}
    (hset : s.Defaulted q v w) {along : List Value.Step}
    (halong : ∀ path, path <+: along ∨ along <+: path → ¬(a.into path).Apart b) :
    s.Agree q along w v := by
  intro path f held plain hpath
  apply hset.kept path f held ?_ plain
  by_contra hdefault
  exact halong path hpath (h path f held hdefault)

/-- Setting the defaults of a struct keeps what is elsewhere. Inside the struct, nothing is set
along a path to what is kept; around a struct without defaults, nothing changes at all. -/
theorem Defaulted.elsewhere (hs : s.Accepted) {q : Qualified} {a b : Address} {m m' : Memory}
    {v w : Value} (hv : s.Shaped v (.struct q) .scalar) (hset : s.Defaulted q v w)
    (hswapped : m.Swapped a v m' w) (h : s.Untouched q a b) : m'.find? b = m.find? b := by
  obtain ⟨rank, hrank⟩ := hs.acyclic.exists_ranked hs.resolved
  obtain ⟨-, hfound, hothers⟩ := hswapped.spec
  by_cases hapart : a.Apart b
  · exact hothers b hapart
  rw [Address.Apart, Classical.not_imp, not_and_or, not_not, not_not] at hapart
  obtain ⟨hobject, ⟨rest, hinside⟩ | haround⟩ := hapart
  · obtain rfl : a.into rest = b := by
      rw [Address.into, hinside, hobject]
    have hagree : s.Agree q rest w v := h.agree hset fun path hpath hapart => by
      have hnot := hapart rfl
      simp only [Address.into, List.prefix_append_right_inj] at hnot
      exact hpath.elim hnot.1 hnot.2
    rw [Memory.find?_into, Memory.find?_into, hfound, hswapped.before]
    exact hrank.find?_eq_of_agree hs.members hset.shaped hv hagree
  · have hagree : s.Agree q [] w v := h.agree hset fun path _ hapart =>
      (hapart hobject).2 (haround.trans (List.prefix_append _ _))
    obtain rfl : w = v :=
      Option.some.inj (hrank.find?_eq_of_agree hs.members hset.shaped hv hagree)
    rw [hswapped.eq_of_same]

end DefaultsSet

end Schema

/-- Dynamic arrays refer to the same addresses if they hold the same and no address changes its
number. -/
theorem Memory.targets?_congr {m m' : Memory} {a : Address}
    (haddresses : m'.addresses = m.addresses) (hfound : m'.find? a = m.find? a) :
    m'.targets? a = m.targets? a := by
  have htarget : m'.target? = m.target? := by
    funext v
    cases v <;> simp [target?, haddresses]
  rw [targets?, targets?, hfound, htarget]

namespace Schema

/-- In an accepted schema whose defaults can be assigned, setting the defaults of a struct in memory
comes to an end, changes nothing but the fields with defaults that the struct holds by value, and
changes nothing when done again. -/
theorem exists_defaultsSet {source : Text} {s : Schema} (parsed : parse source = .ok s)
    (o : Artifact.Options) (writer : Text)
    (hdefaults : ∀ st ∈ s.walk, ∀ f ∈ st.fields, f.default? ≠ none → ∃ w, s.Assigns o writer f w)
    {q : Qualified} {a : Address} {m : Memory} {v : Value} (hfound : m.find? a = some v)
    (hv : s.Shaped v (.struct q) .scalar) :
    ∃ m', s.setDefaultsAt q a m = some m' ∧ s.setDefaultsAt q a m' = some m' ∧
      s.DefaultsSet o writer q a m m' := by
  have hsettable : ∀ st ∈ s.walk, ∀ f ∈ st.fields, s.Settable f := by
    intro st hst f hf
    refine or_iff_not_imp_left.mpr fun hdefault => ?_
    obtain ⟨w, hw⟩ := hdefaults st hst f hf hdefault
    exact ⟨w, (assigns_iff parsed hst hf).mp hw⟩
  obtain ⟨w, hw, hagain, hiff⟩ := exists_defaulted parsed hsettable hv
  have hset : s.Defaulted q v w := (hiff w).mpr rfl
  obtain ⟨m', hrun, hswapped⟩ := s.mirrors_setDefaultsWithin _ q a m v w hfound hw
  obtain ⟨haddresses, hfound', -⟩ := hswapped.spec
  obtain ⟨m'', hrun', hswapped'⟩ := s.mirrors_setDefaultsWithin _ q a m' w w hfound' hagain
  obtain rfl := hswapped'.eq_of_same
  have hassigned {path : List Value.Step} {f : Field} {x : Value} (held : s.HeldAt q path f)
      (hx : s.Assigns o writer f x) : m''.find? (a.into path) = some (f.filledWith x) := by
    obtain ⟨st, hst, hf⟩ := held.exists_struct
    rw [Memory.find?_into, hfound']
    exact hset.set path f x held ((assigns_iff parsed hst hf).mp hx)
  have hkept {path : List Value.Step} {f : Field} (held : s.HeldAt q path f)
      (hdefault : f.default? = none) (plain : f.holdsStructs = false) :
      m''.find? (a.into path) = m.find? (a.into path) := by
    rw [Memory.find?_into, Memory.find?_into, hfound, hfound']
    exact hset.kept path f held hdefault plain
  have helsewhere {b : Address} (hb : s.Untouched q a b) : m''.find? b = m.find? b :=
    hset.elsewhere (accepted_of_parse parsed) hv hswapped hb
  have htargets {path : List Value.Step} {f : Field} (held : s.HeldAt q path f)
      (hdynamic : f.isDynamic = true) : m''.targets? (a.into path) = m.targets? (a.into path) := by
    obtain ⟨st, hst, hf⟩ := held.exists_struct
    apply Memory.targets?_congr haddresses
    apply hkept held (default?_of_isDynamic parsed hst hf hdynamic)
    simp [Field.holdsStructs, hdynamic]
  refine ⟨m'', hrun, hrun', ?_⟩
  constructor
  case set => exact fun path f x held hx => hassigned held hx
  case faithful =>
    intro path f token value held hdefault hvalue hfaithful
    obtain ⟨st, hst, hf⟩ := held.exists_struct
    exact hassigned held (assigns_of_faithful parsed hst hf hdefault hvalue hfaithful)
  case held => exact fun path f held hdefault plain => hkept held hdefault plain
  case elsewhere => exact fun b hb => helsewhere hb
  case targets => exact fun path f held hdynamic => htargets held hdynamic
  case referents =>
    intro path f targets held hdynamic hbefore huntouched
    rw [Memory.referents?, Memory.referents?, htargets held hdynamic, hbefore]
    simp only [Option.pure_def, Option.bind_eq_bind, Option.bind_some, Option.some.injEq]
    apply List.map_congr_left
    intro target htarget
    cases target with
    | none => rfl
    | some b => exact helsewhere (huntouched b htarget)

/-- A struct with a base, a struct and arrays of structs in it, and defaults of several kinds. -/
def presetSource : Text :=
  Text.concat ["struct P \x7b float x = 1.5; int ts[]; \x7d; ",
    "struct B \x7b enum E \x7b a, b = 5 \x7d; E e = b; \x7d; ",
    "struct S : B \x7b int n[2] = -3; string t = \"hi\"; P p, ps[2], qs[]; bool k; \x7d;"]

/-- A value of that struct in which nothing is set. -/
def unset : Value :=
  let point : Value := .record [("X", .float 0), ("Ts", .array [.int 0])]
  .record [("B", .record [("E", .int 0)]), ("N", .array [.int 0, .int 1]), ("T", .string []),
    ("P", point), ("Ps", .array [point, point]), ("Qs", .array [.absent]), ("K", .bool true)]

/-- Memory with that value and with a number that dynamic arrays in it refer to. -/
def unsetMemory : Memory :=
  { objects := [unset, .int 7], addresses := [⟨1, []⟩] }

/-- The number at the end of a path, as bits if it is one of single precision. -/
def numberAt? (path : List Value.Step) (v : Value) : Option Int :=
  match v.find? path with
  | some (.float bits) => some bits
  | some (.int i) => some i
  | _ => none

theorem exists_defaultsSet_preset :
    ∃ s m', parse presetSource = .ok s ∧ s.setDefaultsAt ["S"] ⟨0, []⟩ unsetMemory = some m' ∧
      s.setDefaultsAt ["S"] ⟨0, []⟩ m' = some m' ∧
      s.DefaultsSet ⟨"", ""⟩ "fixup" ["S"] ⟨0, []⟩ unsetMemory m' ∧
      (m'.find? ⟨0, []⟩).bind (numberAt? [.member "Ps", .item 1, .member "X"]) =
        some 0x3FC00000 := by
  have hparse : (parse presetSource).toOption.map (fun s =>
      (s.admits unset (.struct ["S"]) .scalar,
        s.walk.all (fun st => st.fields.all fun f =>
          f.default?.isNone || (f.assigned? s.ownedNames).isSome),
        (s.setDefaultsAt ["S"] ⟨0, []⟩ unsetMemory).bind fun m' =>
          (m'.find? ⟨0, []⟩).bind (numberAt? [.member "Ps", .item 1, .member "X"]))) =
        some (true, true, some 0x3FC00000) := by
    decide +kernel
  obtain ⟨s, hs, hboth⟩ := exists_ok_of_map hparse
  obtain ⟨hv, hrest⟩ := Prod.mk.inj hboth
  obtain ⟨hassigned, hbits⟩ := Prod.mk.inj hrest
  obtain ⟨m', hrun, hagain, hset⟩ := exists_defaultsSet hs ⟨"", ""⟩ "fixup"
    (fun st hst f hf hdefault => by
      have hsome := List.all_eq_true.mp (List.all_eq_true.mp hassigned st hst) f hf
      rw [Option.isNone_eq_false_iff.mpr (Option.isSome_iff_ne_none.mpr hdefault),
        Bool.false_or, Option.isSome_iff_exists] at hsome
      exact hsome.imp fun w hw => (assigns_iff hs hst hf).mpr hw)
    (m := unsetMemory) (a := ⟨0, []⟩) rfl ((accepted_of_parse hs).shaped unset hv)
  rw [hrun, Option.bind_some] at hbits
  exact ⟨s, m', hs, hrun, hagain, hset, hbits⟩

/-- A struct that holds a struct with a default and refers to others, and one with a default behind
a zero. -/
def sharedSource : Text :=
  Text.concat ["struct P \x7b float x = 1.5; \x7d; struct S \x7b P p, qs[]; \x7d; ",
    "struct T \x7b int x = 010; \x7d;"]

/-- A value whose dynamic array refers to one struct. -/
def sharing : Value :=
  .record [("P", .record [("X", .float 0)]), ("Qs", .array [.int 0])]

/-- Memory in which this is the struct that the value itself holds. -/
def sharedMemory : Memory where
  objects := [sharing, .record [("X", .int 0)]]
  addresses := [⟨0, [.member "P"]⟩]

/-- Setting the defaults of a struct changes what its dynamic array refers to if it holds that
itself. A default that is read as ten leaves eight in its field. -/
theorem exists_defaultsSet_shared :
    ∃ s, parse sharedSource = .ok s ∧ s.Shaped sharing (.struct ["S"]) .scalar ∧
      (∃ m', s.setDefaultsAt ["S"] ⟨0, []⟩ sharedMemory = some m' ∧
        m'.referents? ⟨0, [.member "Qs"]⟩ ≠ sharedMemory.referents? ⟨0, [.member "Qs"]⟩) ∧
      ∃ f m', s.HeldAt ["T"] [.member "X"] f ∧ f.defaultValue = .ok (some (.int 10)) ∧
        s.setDefaultsAt ["T"] ⟨1, []⟩ sharedMemory = some m' ∧
        (m'.find? ⟨1, []⟩).bind (numberAt? [.member "X"]) = some 8 := by
  have hparse : (parse sharedSource).toOption.map (fun s =>
      ((s.struct? ["P"]).map Struct.members, (s.struct? ["S"]).map Struct.members)) =
      some (some [Member.mk "X" (.basic .float) .scalar],
        some [Member.mk "P" (.struct ["P"]) .scalar, Member.mk "Qs" (.struct ["P"]) .dynamic]) := by
    decide +kernel
  have hshared : (parse sharedSource).toOption.map (fun s =>
      (s.setDefaultsAt ["S"] ⟨0, []⟩ sharedMemory).bind fun m' =>
        (m'.referents? ⟨0, [.member "Qs"]⟩).map fun referents =>
          referents.map (·.bind (numberAt? [.member "X"]))) = some (some [some 0x3FC00000]) := by
    decide +kernel
  have hread : (parse sharedSource).toOption.map (fun s =>
      ((s.struct? ["T"]).map fun st => st.fields.map fun f =>
          (f.identifier, decide (f.defaultValue.toOption = some (some (.int 10)))),
        (s.setDefaultsAt ["T"] ⟨1, []⟩ sharedMemory).bind fun m' =>
          (m'.find? ⟨1, []⟩).bind (numberAt? [.member "X"]))) =
      some (some [(("X" : Text), true)], some 8) := by
    decide +kernel
  obtain ⟨s, hs, hdeclared⟩ := exists_ok_of_map hparse
  rw [hs] at hshared hread
  obtain ⟨hfields, hmembers⟩ := Prod.mk.inj hdeclared
  obtain ⟨inner, hinner, hfields⟩ := Option.map_eq_some_iff.mp hfields
  obtain ⟨outer, houter, hmembers⟩ := Option.map_eq_some_iff.mp hmembers
  obtain ⟨hdefault, hnumber⟩ := Prod.mk.inj (Option.some.inj hread)
  obtain ⟨other, hother, hdefault⟩ := Option.map_eq_some_iff.mp hdefault
  obtain ⟨f, hf, hpair⟩ := List.map_eq_singleton_iff.mp hdefault
  obtain ⟨hname, hvalue⟩ := Prod.mk.inj hpair
  have hshaped : s.Shaped (.record [("X", .float 0)]) (.struct ["P"]) .scalar := by
    refine .record hinner (by rw [hfields]; rfl) fun m hm v _ => ?_
    obtain rfl : m = ⟨"X", .basic .float, .scalar⟩ := by simpa [hfields] using hm
    exact .plain rfl
  refine ⟨s, hs, ?_, ?_, ?_⟩
  · refine .record houter (by rw [hmembers]; rfl) fun m hm v hv => ?_
    rw [hmembers, List.mem_pair] at hm
    rcases hm with rfl | rfl
    · obtain rfl := Option.some.inj hv
      exact hshaped
    · exact .dynamic
  · obtain ⟨m', hrun, hafter⟩ := Option.bind_eq_some_iff.mp (Option.some.inj hshared)
    refine ⟨m', hrun, fun hsame => ?_⟩
    rw [hsame] at hafter
    exact absurd hafter (by decide)
  · obtain ⟨m', hrun, hafter⟩ := Option.bind_eq_some_iff.mp hnumber
    refine ⟨f, m', ?_, ?_, hrun, hafter⟩
    · rw [← hname]
      exact .own hother (by simp [hf])
    · cases hten : f.defaultValue with
      | error e => simp [hten, Except.toOption] at hvalue
      | ok d => simpa [hten, Except.toOption] using hvalue

end Schema

end Schematic
