import Schematic.Proofs.Handles
import Schematic.Proofs.StructWriting

/-!
# Marshalled values

Every value of a struct of an accepted schema is written without an error and without leaving a
slot behind, and what is written gives the value back.
-/

namespace Schematic.Schema

open Method Buffer

section Accepted

variable {s : Schema} {q : Qualified} {v : Value}

/-- Writing a value never gets stuck, and promises that the value can be read back. -/
theorem Accepted.exists_serialize (hs : s.Accepted)
    (admitted : s.admits v (.struct q) .scalar = true) :
    ∃ rank, s.Ranked rank ∧ s.Serializes rank s.serialize q v := by
  obtain ⟨rank, hranked⟩ := hs.acyclic.exists_ranked hs.resolved
  refine ⟨rank, hranked, fun b => ?_⟩
  have hlevels := Value.levels_le_depth s.walk.length v
  exact hs.serializes hranked _ q v admitted (Nat.le_succ_of_le hlevels) b

theorem marshal_eq {b : Buffer} (h : s.serialize q v {} = some b) :
    s.marshal q v = some b.finish := by
  simp [marshal, h]

end Accepted

/-- Writing a value of a struct on a buffer without an error sets none, resolves the handles it is
given, each of them once and no others, and leaves waiting what waited before, as long as the
buffer does not become too large; so a value is always marshalled. -/
theorem serialize_settles {source : Text} {s : Schema} (parsed : parse source = .ok s)
    {q : Qualified} {v : Value} (admitted : s.admits v (.struct q) .scalar = true) :
    (∀ before : List Operation, (run {} before).error = none →
      ∃ b, s.serialize q v (run {} before) = some b ∧
        (b.length < 2 ^ 32 →
          b.error = none ∧ b.pending = (run {} before).pending ∧
            (∃ steps, (run {} before).run steps = b) ∧
            ∀ steps, (run {} before).run steps = b →
              (inserted steps).Perm (created (run {} before) steps) ∧
                (inserted steps).Nodup)) ∧
      ∃ b, s.serialize q v {} = some b ∧
        (b.length < 2 ^ 32 → ∃ out, s.marshal q v = some (.ok out)) := by
  obtain ⟨rank, _, hserializes⟩ := (accepted_of_parse parsed).exists_serialize admitted
  constructor
  · intro before sound
    have hlive : (run {} before).Live := ⟨sound, consistent_empty.run before⟩
    obtain ⟨b, hrun, hsettles⟩ := hserializes (run {} before)
    refine ⟨b, hrun, fun hsmall => ?_⟩
    obtain ⟨hb, hpending, _⟩ := hsettles.holds hsmall hlive
    refine ⟨hb.sound, hpending, hsettles.reaches, ?_⟩
    rintro steps rfl
    exact inserted_perm_created hlive.consistent hb.sound hpending
  · obtain ⟨b, hrun, hsettles⟩ := hserializes {}
    refine ⟨b, hrun, fun hsmall => ?_⟩
    obtain ⟨hb, hpending, _⟩ := hsettles.holds hsmall live_empty
    refine ⟨b.payload ++ table b.relocations, ?_⟩
    rw [marshal_eq hrun, finish_eq_ok_iff.mpr ⟨hb.sound, hpending, rfl⟩]

/-- Nodes that build on a base, with a fixed number of texts and a dynamic number of nodes. -/
def treeSource : Text :=
  "struct Base \x7b int id; \x7d; struct Node : Base \x7b string names[2]; Node kids[]; \x7d;"

def treeSchema : Schema where
  binaryNamespace := none
  friendlyNamespace := none
  structs :=
    [{ name := "Base", scope := [], parent := none, base := none, line := 1, enums := []
       fields := [⟨"id", "int", .basic .int, .scalar, false, none, 1⟩], children := [] },
     { name := "Node", scope := [], parent := some "Base", base := some ["Base"], line := 1
       enums := [], children := []
       fields :=
        [⟨"names", "string", .basic .string, .fixed 2, false, none, 1⟩,
         ⟨"kids", "Node", .struct ["Node"], .dynamic, false, none, 1⟩] }]

theorem parse_treeSource : parse treeSource = .ok treeSchema :=
  rfl

/-- A node of `treeSource`. -/
def treeNode (id : Int) (first second : Text) (kids : List Value) : Value :=
  .record [("Base", .record [("Id", .int id)]), ("Names", .array [.string first, .string second]),
    ("Kids", .array kids)]

/-- A node with one node that is absent and one that is not. -/
def tree : Value :=
  treeNode 7 "root" "" [.absent, treeNode (-1) "leaf" "x" []]

theorem admits_tree : treeSchema.admits tree (.struct ["Node"]) .scalar = true := by
  decide +kernel

theorem serialize_settles_tree :
    parse treeSource = .ok treeSchema ∧
      treeSchema.admits tree (.struct ["Node"]) .scalar = true ∧
      ∃ b, treeSchema.serialize ["Node"] tree (run {} [.create]) = some b ∧ b.length = 135 ∧
        b.error = none ∧ b.pending = [(0, 0)] ∧
        (∃ steps, (run {} [.create]).run steps = b) ∧
        ∀ steps, (run {} [.create]).run steps = b →
          (inserted steps).Perm (created (run {} [.create]) steps) ∧ (inserted steps).Nodup := by
  have hlength : (treeSchema.serialize ["Node"] tree (run {} [.create])).map Buffer.length =
      some 135 := by decide +kernel
  obtain ⟨b, hrun, hsettled⟩ := (serialize_settles parse_treeSource admits_tree).1 [.create] rfl
  rw [hrun, Option.map_some, Option.some.injEq] at hlength
  exact ⟨parse_treeSource, admits_tree, b, hrun, hlength, hsettled (by omega)⟩

section Reading

variable {s : Schema} {q : Qualified} {v : Value}

/-- What was marshalled splits into a payload that gives the value back. -/
theorem Accepted.read_payload (hs : s.Accepted)
    (admitted : s.admits v (.struct q) .scalar = true) (nulFree : v.isNulFree = true) {b : Buffer}
    (hrun : s.serialize q v {} = some b) (hsmall : b.length < 2 ^ 32) :
    b.finish = .ok (b.payload ++ table b.relocations) ∧
      split (b.payload ++ table b.relocations) = .ok (b.payload, b.relocations) ∧
      s.read q b.payload = some (s.filled v (.struct q)) := by
  obtain ⟨rank, hranked, hserializes⟩ := hs.exists_serialize admitted
  obtain ⟨b', hrun', hsettles⟩ := hserializes {}
  obtain rfl := Option.some.inj (hrun.symm.trans hrun')
  obtain ⟨hb, hpending, hpromise⟩ := hsettles.holds hsmall live_empty
  refine ⟨finish_eq_ok_iff.mpr ⟨hb.sound, hpending, rfl⟩, hb.consistent.split_payload hsmall, ?_⟩
  have hdepth : (b.payload.length - 0) * s.walk.length + rank q <
      (b.payload.length + 1) * s.walk.length := by
    obtain ⟨st, _, hst, _⟩ := eq_record_of_admits admitted
    obtain ⟨hmem, rfl⟩ := mem_walk_of_struct? hst
    have := hranked.bound st.qualified (List.mem_map_of_mem hmem)
    rw [Nat.sub_zero, Nat.succ_mul]
    omega
  have hread := hpromise b.payload ⟨b, .refl b, hb.sound, rfl⟩ nulFree _ hdepth
  rw [read]
  exact (congrArg (Option.map Prod.fst) hread).trans rfl

theorem Accepted.reaches_of_serialize (hs : s.Accepted)
    (admitted : s.admits v (.struct q) .scalar = true) {b b' : Buffer}
    (hrun : s.serialize q v b = some b') : Reaches b b' := by
  obtain ⟨_, _, hserializes⟩ := hs.exists_serialize admitted
  obtain ⟨b₁, hrun', hsettles⟩ := hserializes b
  obtain rfl := Option.some.inj (hrun.symm.trans hrun')
  exact hsettles.reaches

/-- What is marshalled is no shorter than the buffer it comes from. -/
theorem Accepted.buffer_of_marshal (hs : s.Accepted)
    (admitted : s.admits v (.struct q) .scalar = true) {out : Text}
    (hmarshal : s.marshal q v = some (.ok out)) :
    ∃ b, s.serialize q v {} = some b ∧ b.length ≤ out.length ∧
      out = b.payload ++ table b.relocations := by
  obtain ⟨b, hrun, hfinish⟩ := Option.map_eq_some_iff.mp hmarshal
  obtain ⟨_, _, rfl⟩ := finish_eq_ok_iff.mp hfinish
  have hb := (hs.reaches_of_serialize admitted hrun).consistent consistent_empty
  refine ⟨b, hrun, ?_, rfl⟩
  rw [← hb.length_payload, List.length_append]
  exact Nat.le_add_right _ _

theorem Accepted.read_marshalled (hs : s.Accepted)
    (admitted : s.admits v (.struct q) .scalar = true) (nulFree : v.isNulFree = true) {out : Text}
    (hmarshal : s.marshal q v = some (.ok out)) (hsmall : out.length < 2 ^ 32) :
    ∃ payload slots, split out = .ok (payload, slots) ∧
      s.read q payload = some (s.filled v (.struct q)) := by
  obtain ⟨b, hrun, hle, rfl⟩ := hs.buffer_of_marshal admitted hmarshal
  obtain ⟨_, hsplit, hread⟩ :=
    hs.read_payload admitted nulFree hrun (Nat.lt_of_le_of_lt hle hsmall)
  exact ⟨_, _, hsplit, hread⟩

end Reading

/-- What is marshalled from a value without zeros in its texts splits into a payload from which the
value is read back, with every absent struct as the value it starts with; so values that are
marshalled alike differ at most in structs that are absent from one of them. -/
theorem read_marshal {source : Text} {s : Schema} (parsed : parse source = .ok s)
    {q : Qualified} {v : Value} (admitted : s.admits v (.struct q) .scalar = true)
    (nulFree : v.isNulFree = true) :
    (∃ b, s.serialize q v {} = some b ∧
      (b.length < 2 ^ 32 →
        ∃ out payload, s.marshal q v = some (.ok out) ∧
          split out = .ok (payload, b.relocations) ∧
          s.read q payload = some (s.filled v (.struct q)))) ∧
      ∀ w, s.admits w (.struct q) .scalar = true → w.isNulFree = true → ∀ out : Text,
        out.length < 2 ^ 32 → s.marshal q v = some (.ok out) → s.marshal q w = some (.ok out) →
          s.filled v (.struct q) = s.filled w (.struct q) := by
  have hs := accepted_of_parse parsed
  constructor
  · obtain ⟨_, _, hserializes⟩ := hs.exists_serialize admitted
    obtain ⟨b, hrun, _⟩ := hserializes {}
    refine ⟨b, hrun, fun hsmall => ?_⟩
    obtain ⟨hfinish, hsplit, hread⟩ := hs.read_payload admitted nulFree hrun hsmall
    exact ⟨_, _, by rw [marshal_eq hrun, hfinish], hsplit, hread⟩
  · intro w wAdmitted wNulFree out hsmall hv hw
    obtain ⟨payload, slots, hsplit, hread⟩ := hs.read_marshalled admitted nulFree hv hsmall
    obtain ⟨payload', slots', hsplit', hread'⟩ := hs.read_marshalled wAdmitted wNulFree hw hsmall
    obtain ⟨rfl, _⟩ := Prod.mk.inj (Except.ok.inj (hsplit.symm.trans hsplit'))
    exact Option.some.inj (hread.symm.trans hread')

/-- The same node with nothing absent. -/
def filledTree : Value :=
  treeNode 7 "root" "" [treeNode 0 "" "" [], treeNode (-1) "leaf" "x" []]

theorem read_marshal_tree :
    parse treeSource = .ok treeSchema ∧
      treeSchema.admits tree (.struct ["Node"]) .scalar = true ∧ tree.isNulFree = true ∧
      (∃ out payload, treeSchema.marshal ["Node"] tree = some (.ok out) ∧
        split out = .ok (payload, [4, 12, 20, 38, 50, 58, 66, 80, 92, 100, 108]) ∧
        treeSchema.read ["Node"] payload = some (treeSchema.filled tree (.struct ["Node"]))) ∧
      treeSchema.filled tree (.struct ["Node"]) =
        treeSchema.filled filledTree (.struct ["Node"]) := by
  have hfilled : treeSchema.admits filledTree (.struct ["Node"]) .scalar = true := by
    decide +kernel
  have hnulFree : tree.isNulFree = true := by decide +kernel
  have hwritten : (treeSchema.serialize ["Node"] tree {}).map
      (fun b => (b.length, b.relocations)) =
        some (127, [4, 12, 20, 38, 50, 58, 66, 80, 92, 100, 108]) := by decide +kernel
  have halike : treeSchema.marshal ["Node"] tree = treeSchema.marshal ["Node"] filledTree := by
    decide +kernel
  obtain ⟨⟨b, hrun, hread⟩, hequal⟩ := read_marshal parse_treeSource admits_tree hnulFree
  rw [hrun, Option.map_some, Option.some.injEq, Prod.mk.injEq] at hwritten
  obtain ⟨out, payload, hmarshal, hsplit, hvalue⟩ := hread (by omega)
  rw [hwritten.2] at hsplit
  have hlength : (treeSchema.marshal ["Node"] tree).map (fun r => r.toOption.map List.length) =
      some (some 175) := by decide +kernel
  rw [hmarshal] at hlength halike
  have hlength : out.length = 175 := Option.some.inj (Option.some.inj hlength)
  exact ⟨parse_treeSource, admits_tree, hnulFree, ⟨out, payload, hmarshal, hsplit, hvalue⟩,
    hequal filledTree hfilled (by decide +kernel) out (by omega) hmarshal halike.symm⟩

end Schematic.Schema
