import Mathlib.Data.List.Perm.Basic
import Schematic.Proofs.Acceptance

/-!
# Headers

Where in the texts of a file the headers of its structs stand, what they are called, and which
enumerations the structs hold in the end. The reader declares the structs in the order of their
headers, and every enumeration that it declares comes to stand in one of them.
-/

namespace Schematic

open Text (ofString)

namespace Grammar

/-- The header of a struct: the place of its keyword among the texts, and the struct's name. -/
structure Header where
  place : Nat
  name : Qualified
  deriving Repr, DecidableEq

namespace Header

/-- The keyword stands at the place of the header and the struct's own name behind it. -/
def StandsIn (texts : List Text) (h : Header) : Prop :=
  texts[h.place]? = some (ofString "struct") ∧ texts[h.place + 1]? = h.name.getLast?

/-- The headers stand one behind another from `start` on and in front of `stop`. -/
structure InOrder (start stop : Nat) (headers : List Header) : Prop where
  inside : ∀ h ∈ headers, start ≤ h.place ∧ h.place < stop
  sorted : headers.Pairwise fun h h' => h.place < h'.place

variable {start middle stop : Nat} {headers more : List Header}

theorem inOrder_nil : InOrder start stop [] :=
  ⟨by simp, List.Pairwise.nil⟩

/-- Headers in one stretch and headers in the next are in order together. -/
theorem InOrder.append (first : InOrder start middle headers) (second : InOrder middle stop more)
    (hstart : start ≤ middle) (hstop : middle ≤ stop) : InOrder start stop (headers ++ more) := by
  constructor
  · intro h hmem
    rcases List.mem_append.mp hmem with hmem | hmem
    · exact ⟨(first.inside h hmem).1, (first.inside h hmem).2.trans_le hstop⟩
    · exact ⟨hstart.trans (second.inside h hmem).1, (second.inside h hmem).2⟩
  · rw [List.pairwise_append]
    refine ⟨first.sorted, second.sorted, fun h hmem h' hmem' => ?_⟩
    exact (first.inside h hmem).2.trans_le (second.inside h' hmem').1

end Header

namespace Member

/-- The texts from the keyword of a struct to the brace that opens its body. -/
def headTexts (name : Text) (parent? : Option Text) : List Text :=
  ofString "struct" :: name :: (parentTexts parent? ++ [ofString "\x7b"])

theorem texts_struct (name : Text) (parent? : Option Text) (members : List Member) :
    (struct name parent? members).texts =
      headTexts name parent? ++ (textsAll members ++ [ofString "\x7d", ofString ";"]) := by
  simp [texts, headTexts]

mutual

/-- The headers in a member that begins at `start`. -/
def headers (scope : Qualified) (start : Nat) : Member → List Header
  | struct name parent? members =>
    ⟨start, scope ++ [name]⟩ ::
      headersAll (scope ++ [name]) (start + (headTexts name parent?).length) members
  | enumeration _ _ => []
  | fields _ _ _ _ => []

def headersAll (scope : Qualified) (start : Nat) : List Member → List Header
  | [] => []
  | m :: ms => headers scope start m ++ headersAll scope (start + m.texts.length) ms

end

mutual

/-- Every struct that a member declares has a header, in the order of declaration. -/
theorem map_name_headers (scope : Qualified) (start : Nat) :
    ∀ m : Member, (m.headers scope start).map Header.name = (m.declares scope).structs
  | .struct name parent? members => by
      rw [headers, declares, List.map_cons, map_name_headersAll]
      rfl
  | .enumeration _ _ => rfl
  | .fields _ _ _ _ => rfl

theorem map_name_headersAll (scope : Qualified) (start : Nat) :
    ∀ ms : List Member,
      (headersAll scope start ms).map Header.name = (declaresAll scope ms).structs
  | [] => rfl
  | m :: ms => by
      rw [headersAll, declaresAll, List.map_append, map_name_headers, map_name_headersAll,
        Known.structs_append]

end

mutual

/-- The headers of a member stand in it, one behind another. -/
theorem inOrder_headers (scope : Qualified) (start : Nat) :
    ∀ m : Member, Header.InOrder start (start + m.texts.length) (m.headers scope start)
  | .struct name parent? members => by
      have hheader : Header.InOrder start (start + (headTexts name parent?).length)
          [⟨start, scope ++ [name]⟩] :=
        ⟨by simp [headTexts], List.pairwise_singleton _ _⟩
      have hmembers := inOrder_headersAll (scope ++ [name])
        (start + (headTexts name parent?).length) members
      rw [texts_struct, List.length_append, List.length_append, ← Nat.add_assoc, ← Nat.add_assoc]
      rw [headers, ← List.singleton_append, ← List.append_nil (headersAll _ _ _)]
      exact hheader.append (hmembers.append Header.inOrder_nil (Nat.le_add_right _ _)
        (Nat.le_add_right _ _)) (Nat.le_add_right _ _) (by omega)
  | .enumeration _ _ => Header.inOrder_nil
  | .fields _ _ _ _ => Header.inOrder_nil

theorem inOrder_headersAll (scope : Qualified) (start : Nat) :
    ∀ ms : List Member,
      Header.InOrder start (start + (textsAll ms).length) (headersAll scope start ms)
  | [] => Header.inOrder_nil
  | m :: ms => by
      rw [headersAll, textsAll, List.length_append, ← Nat.add_assoc]
      exact (inOrder_headers scope start m).append (inOrder_headersAll scope _ ms)
        (Nat.le_add_right _ _) (Nat.le_add_right _ _)

end

mutual

/-- The header of every struct below a member stands in the text where it is said to. -/
theorem standsIn_headers (scope : Qualified) (front back : List Text) :
    ∀ m : Member, ∀ h ∈ m.headers scope front.length, h.StandsIn (front ++ m.texts ++ back)
  | .struct name parent? members, h, hmem => by
      rcases List.mem_cons.mp hmem with rfl | hmem
      · simp [Header.StandsIn, texts_struct, headTexts]
      · rw [← List.length_append] at hmem
        have hbody := standsIn_headersAll (scope ++ [name]) (front ++ headTexts name parent?)
          ([ofString "\x7d", ofString ";"] ++ back) members h hmem
        rw [texts_struct]
        simpa only [List.append_assoc] using hbody
  | .enumeration _ _, _, hmem => absurd hmem List.not_mem_nil
  | .fields _ _ _ _, _, hmem => absurd hmem List.not_mem_nil

theorem standsIn_headersAll (scope : Qualified) (front back : List Text) :
    ∀ ms : List Member, ∀ h ∈ headersAll scope front.length ms,
      h.StandsIn (front ++ textsAll ms ++ back)
  | [], _, hmem => absurd hmem List.not_mem_nil
  | m :: ms, h, hmem => by
      rw [headersAll, List.mem_append, ← List.length_append] at hmem
      rw [textsAll]
      rcases hmem with hmem | hmem
      · simpa only [List.append_assoc] using
          standsIn_headers scope front (textsAll ms ++ back) m h hmem
      · simpa only [List.append_assoc] using
          standsIn_headersAll scope (front ++ m.texts) back ms h hmem

end

mutual

/-- The names that make up the names of declared structs are spelled as type names. -/
theorem isTypeName_of_declares {scope : Qualified} (hscope : ∀ name ∈ scope, IsTypeName name) :
    ∀ {m : Member}, m.IsSpelled → ∀ q ∈ (m.declares scope).structs, ∀ name ∈ q, IsTypeName name
  | .struct name parent? members, ⟨hname, _, hmembers⟩ => by
      have hown : ∀ part ∈ scope ++ [name], IsTypeName part := by
        rw [List.forall_mem_append, List.forall_mem_singleton]
        exact ⟨hscope, hname⟩
      rw [declares, Known.structs_append, List.forall_mem_append]
      exact ⟨by simpa using hown, isTypeName_of_declaresAll hown hmembers⟩
  | .enumeration _ _, _ => by simp [declares]
  | .fields _ _ _ _, _ => by simp [declares]

theorem isTypeName_of_declaresAll {scope : Qualified} (hscope : ∀ name ∈ scope, IsTypeName name) :
    ∀ {ms : List Member}, IsSpelledAll ms →
      ∀ q ∈ (declaresAll scope ms).structs, ∀ name ∈ q, IsTypeName name
  | [], _ => by simp [declaresAll]
  | m :: ms, ⟨hm, hms⟩ => by
      rw [declaresAll, Known.structs_append, List.forall_mem_append]
      exact ⟨isTypeName_of_declares hscope hm, isTypeName_of_declaresAll hscope hms⟩

end

end Member

namespace Item

def headers (start : Nat) : Item → List Header
  | struct d => d.member.headers [] start
  | directive _ _ => []

def headersAll (start : Nat) : List Item → List Header
  | [] => []
  | item :: items => item.headers start ++ headersAll (start + item.texts.length) items

theorem map_name_headersAll (start : Nat) (items : List Item) :
    (headersAll start items).map Header.name = (declaresAll items).structs := by
  induction items generalizing start with
  | nil => rfl
  | cons item items ih =>
      rw [headersAll, declaresAll, List.map_append, ih, Known.structs_append]
      cases item with
      | struct d => rw [headers, declares, Member.map_name_headers]
      | directive side name => rfl

theorem inOrder_headersAll (start : Nat) (items : List Item) :
    Header.InOrder start (start + (items.flatMap texts).length) (headersAll start items) := by
  induction items generalizing start with
  | nil => exact Header.inOrder_nil
  | cons item items ih =>
      rw [headersAll, List.flatMap_cons, List.length_append, ← Nat.add_assoc]
      refine Header.InOrder.append ?_ (ih _) (Nat.le_add_right _ _) (Nat.le_add_right _ _)
      cases item with
      | struct d => exact Member.inOrder_headers [] start d.member
      | directive side name => exact Header.inOrder_nil

theorem standsIn_headersAll (front back : List Text) {items : List Item} {h : Header}
    (hmem : h ∈ headersAll front.length items) :
    h.StandsIn (front ++ items.flatMap texts ++ back) := by
  induction items generalizing front with
  | nil => exact absurd hmem List.not_mem_nil
  | cons item items ih =>
      rw [headersAll, List.mem_append, ← List.length_append] at hmem
      rw [List.flatMap_cons]
      rcases hmem with hmem | hmem
      · cases item with
        | struct d =>
            rw [texts]
            simpa only [List.append_assoc] using
              Member.standsIn_headers [] front (items.flatMap texts ++ back) d.member h hmem
        | directive side name => exact absurd hmem List.not_mem_nil
      · simpa only [List.append_assoc] using ih (front ++ item.texts) hmem

/-- Every part of a declared name is a name of a type. -/
theorem isTypeName_of_declaresAll {items : List Item} (spelled : ∀ item ∈ items, item.IsSpelled) :
    ∀ q ∈ (declaresAll items).structs, ∀ name ∈ q, IsTypeName name := by
  induction items with
  | nil => simp [declaresAll]
  | cons item items ih =>
      rw [List.forall_mem_cons] at spelled
      rw [declaresAll, Known.structs_append, List.forall_mem_append]
      refine ⟨?_, ih spelled.2⟩
      cases item with
      | struct d => exact Member.isTypeName_of_declares (by simp) spelled.1
      | directive side name => simp [declares]

end Item

namespace File

/-- The headers of the structs of a file. -/
def headers (file : File) : List Header :=
  Item.headersAll 0 file.items

variable {file : File}

theorem map_name_headers : file.headers.map Header.name = file.declares.structs :=
  Item.map_name_headersAll 0 file.items

/-- The headers of a file come in the order of their places. -/
theorem sorted_headers : file.headers.Pairwise fun h h' => h.place < h'.place :=
  (Item.inOrder_headersAll 0 file.items).sorted

theorem standsIn_headers {h : Header} (hmem : h ∈ file.headers) : h.StandsIn file.texts := by
  have hstands := Item.standsIn_headersAll [] (file.unread?.elim [] fun unread =>
    "\x7d" :: ";" :: unread) hmem
  simpa [texts] using hstands

end File

/-! ## Enumerations that are built -/

end Grammar

namespace Struct

/-- The enumerations of a struct and of those declared in it. -/
def allEnums (st : Struct) : List Enumeration :=
  st.walk.flatMap enums

/-- The enumerations of a struct are its own and those of the structs below it. -/
theorem allEnums_eq (st : Struct) :
    st.allEnums = st.enums ++ (walkAll st.children).flatMap enums := by
  rw [allEnums, walk_eq, List.flatMap_cons]

theorem flatMap_enums_walkAll_append (ss : List Struct) (st : Struct) :
    (walkAll (ss ++ [st])).flatMap enums = (walkAll ss).flatMap enums ++ st.allEnums := by
  rw [walkAll_append, List.flatMap_append, walkAll_singleton, ← walk_eq]
  rfl

end Struct

namespace Grammar

namespace Member

mutual

/-- A member puts the enumerations that it declares into the struct or into one declared in it. -/
theorem perm_allEnums_of_builds {k : Known} {owner built : Struct} :
    ∀ {m : Member}, m.Builds k owner built →
      built.allEnums.Perm (owner.allEnums ++ (m.declares owner.qualified).enums)
  | .struct name parent? members, ⟨inner, hinner, h⟩ => by
      have hperm := perm_allEnums_of_buildsAll hinner
      subst h
      rw [Struct.allEnums_eq, Struct.allEnums_eq, Struct.flatMap_enums_walkAll_append,
        ← List.append_assoc]
      exact hperm.append_left _
  | .enumeration name entries, h => by
      subst h
      rw [Struct.allEnums_eq, Struct.allEnums_eq, List.append_assoc, List.append_assoc]
      exact List.perm_append_comm.append_left _
  | .fields type optional first rest, ⟨denoted, _, h⟩ => by
      subst h
      rw [Struct.allEnums_eq, Struct.allEnums_eq, declares, Known.enums_empty, List.append_nil]

theorem perm_allEnums_of_buildsAll {k : Known} {owner built : Struct} :
    ∀ {ms : List Member}, BuildsAll k owner ms built →
      built.allEnums.Perm (owner.allEnums ++ (declaresAll owner.qualified ms).enums)
  | [], h => by
      subst h
      rw [declaresAll, Known.enums_empty, List.append_nil]
  | m :: ms, ⟨mid, hmid, hbuilt⟩ => by
      have hrest := perm_allEnums_of_buildsAll hbuilt
      rw [qualified_of_builds hmid] at hrest
      rw [declaresAll, Known.enums_append, ← List.append_assoc]
      exact hrest.trans ((perm_allEnums_of_builds hmid).append_right _)

end

end Member

theorem Item.perm_enums_of_buildsAll {k : Known} {s built : Schema} {items : List Item}
    (h : Item.BuildsAll k s items built) :
    built.enums.Perm (s.enums ++ (declaresAll items).enums) := by
  induction items generalizing k s with
  | nil =>
      obtain rfl := h
      rw [declaresAll, Known.enums_empty, List.append_nil]
  | cons item items ih =>
      obtain ⟨mid, hmid, hbuilt⟩ := h
      rw [declaresAll, Known.enums_append, ← List.append_assoc]
      refine (ih hbuilt).trans (List.Perm.append_right _ ?_)
      cases item with
      | struct d =>
          obtain ⟨st, hst, rfl⟩ := hmid
          have hperm := Member.perm_allEnums_of_buildsAll hst
          rw [Schema.enums, Schema.walk, Struct.flatMap_enums_walkAll_append]
          exact hperm.append_left _
      | directive side name =>
          obtain rfl := hmid
          rw [declares, Known.enums_empty, List.append_nil]
          cases side <;> rfl

end Grammar

/-! ## What the reader has declared in the end -/

namespace Reader

open Grammar

variable {r : Reader}

/-- Behind the items of a file nothing more is declared. -/
theorem declares_of_unread {s : Schema} {k : Known} (unread? : Option (List Text))
    (h : (state s k [] .file).takeAll
      (unread?.elim [] fun unread => "\x7d" :: ";" :: unread) = some r) :
    r.declared = k.structs ∧ r.enums = k.enums := by
  cases unread? with
  | none =>
      obtain rfl := Option.some.inj h
      exact ⟨rfl, rfl⟩
  | some unread =>
      have hbrace : (state s k [] .file).takeAll (ofString "\x7d" :: ofString ";" :: unread) =
          (state s k [] .finished).takeAll unread := rfl
      rw [Option.elim_some, hbrace, takeAll_finished] at h
      obtain rfl := Option.some.inj h
      exact ⟨rfl, rfl⟩

/-- Along a derivation the reader declares what the derivation declares, but for the lines. -/
theorem declares_of_derives {tokens : List Token} (hfold : tokens.foldlM step {} = .ok r)
    {file : File} (derives : file.Derives (tokens.map Token.text)) :
    r.declared = file.declares.structs ∧
      r.enums.map Enumeration.eraseLine = file.declares.enums := by
  obtain ⟨spelled, htexts⟩ := derives
  have hstart : ({} : Reader) = state ⟨none, none, []⟩ ∅ [] .file := rfl
  have herased : (state ⟨none, none, []⟩ ∅ [] .file).takeAll file.texts = some r.eraseLines := by
    have herase := foldlM_step_eraseLines {} tokens
    rw [hfold] at herase
    rw [htexts, ← takeAll_eq_foldlM, List.map_map, ← hstart]
    exact congrArg Except.toOption herase.symm
  rw [File.texts, List.flatten_cons, List.flatten_singleton,
    takeAll_items Known.distinct_empty spelled, Known.empty_append] at herased
  obtain ⟨_, built, _, htail⟩ := herased
  exact declares_of_unread file.unread? htail

end Reader

theorem Schema.enums_eraseLines (s : Schema) :
    s.eraseLines.enums = s.enums.map Enumeration.eraseLine := by
  have henums : ∀ st : Struct, st.eraseLines.enums = st.enums.map Enumeration.eraseLine := by
    intro st
    rw [Struct.eraseLines_eq]
  rw [enums, enums, walk, eraseLines, ← Struct.eraseLinesAll_eq_map, Struct.walkAll_eraseLinesAll,
    List.flatMap_map, List.map_flatMap]
  simp only [henums]
  rfl

/-- In the end every enumeration that was declared stands in a struct, and no other one does. -/
theorem Reader.perm_enums_of_read {tokens : List Token} {r : Reader} {s : Schema}
    (hfold : tokens.foldlM step {} = .ok r) (hread : read tokens = .ok s) :
    (s.enums.map Enumeration.eraseLine).Perm (r.enums.map Enumeration.eraseLine) := by
  obtain ⟨file, derives⟩ := exists_derives_of_read hread
  rw [(declares_of_derives hfold derives).2, ← Schema.enums_eraseLines]
  exact Grammar.Item.perm_enums_of_buildsAll (builds_of_read hread derives).2

end Schematic
