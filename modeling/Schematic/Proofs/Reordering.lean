import Mathlib.Data.List.Perm.Basic
import Schematic.Proofs.Acceptance
import Schematic.Proofs.Bases

/-!
# The order of declarations

What a type name denotes inside a struct of the file depends on the struct itself and on which of
the other declarations stand in front of it. Names are declared once, so another order can only
leave a name without a meaning, unless it is the name of a built-in type. Main statement: if no
enumeration and no struct of the file is named like a built-in type, two orders of the same structs
that can both be parsed give the same structs.
-/

namespace Schematic

open Grammar

namespace Grammar

namespace Known

instance : HasSubset Known :=
  ⟨fun k all => k.structs ⊆ all.structs ∧ k.enums ⊆ all.enums⟩

variable {all k k' more : Known} {root : Text}

theorem subset_iff : k ⊆ all ↔ k.structs ⊆ all.structs ∧ k.enums ⊆ all.enums :=
  Iff.rfl

theorem append_subset_iff : k ++ more ⊆ all ↔ k ⊆ all ∧ more ⊆ all := by
  simp only [subset_iff, structs_append, enums_append, List.append_subset]
  tauto

/-- All declarations of a file in which no type name can be taken for that of a built-in type. -/
structure Settled (all : Known) : Prop where
  distinct : all.Distinct
  enums : ∀ e ∈ all.enums, ∀ b : Basic, e.name ≠ b.name
  structs : ∀ name, [name] ∈ all.structs → ∀ b : Basic, name ≠ b.name

/-- Two parts of what is declared that hold the same of one struct of the file. -/
structure Alike (all : Known) (root : Text) (k k' : Known) : Prop where
  left : k ⊆ all
  right : k' ⊆ all
  inside : ∀ q : Qualified, q.take 1 = [root] → (q ∈ k.structs ↔ q ∈ k'.structs)

theorem Alike.append (h : all.Alike root k k') (hmore : more ⊆ all) :
    all.Alike root (k ++ more) (k' ++ more) := by
  refine ⟨append_subset_iff.mpr ⟨h.left, hmore⟩, append_subset_iff.mpr ⟨h.right, hmore⟩, ?_⟩
  intro q hq
  rw [structs_append, structs_append, List.mem_append, List.mem_append, h.inside q hq]

variable {scope : Qualified} {name : Text}

theorem Alike.encloses_iff (h : all.Alike root k k') (hscope : scope.take 1 = [root])
    {outer : Qualified} : k.Encloses scope name outer ↔ k'.Encloses scope name outer := by
  refine and_congr_right fun hne => and_congr_right fun hbegins => h.inside _ ?_
  rw [Qualified.take_one_eq hne (List.prefix_append _ _),
    ← Qualified.take_one_eq hne hbegins, hscope]

/-- An enumeration and a struct of the file do not share a name. -/
theorem Settled.name_ne (h : all.Settled) {e : Enumeration} (he : e ∈ all.enums)
    (hname : [name] ∈ all.structs) : e.name ≠ name := by
  have hdisjoint := (List.nodup_append.mp h.distinct.names).2.2
  exact (hdisjoint _ (List.mem_map_of_mem hname) _ (List.mem_map_of_mem he)).symm

theorem Settled.enum_unique (h : all.Settled) {e e' : Enumeration} (he : e ∈ all.enums)
    (he' : e' ∈ all.enums) (hname : e.name = e'.name) : e = e' :=
  List.inj_on_of_nodup_map h.distinct.names.of_append_right he he' hname

/-- Inside a struct of the file a name denotes at most one thing, whatever of the other
declarations stands in front of it. -/
theorem Alike.denotes_unique (settled : all.Settled) (alike : all.Alike root k k')
    (hscope : scope.take 1 = [root]) {type type' : FieldType} (h : k.Denotes scope name type)
    (h' : k'.Denotes scope name type') : type = type' := by
  have hencloses (outer : Qualified) :
      k.Encloses scope name outer ↔ k'.Encloses scope name outer := alike.encloses_iff hscope
  have structs := alike.left.1
  have enums := alike.left.2
  have structs' := alike.right.1
  have enums' := alike.right.2
  -- Inside the struct both lookups see the same; outside it, one name is one declaration.
  cases h with
  | nested here innermost =>
      cases h' with
      | nested here' innermost' =>
          rw [here.eq_of_innermost ((hencloses _).mpr here') innermost fun inner h =>
            innermost' inner ((hencloses inner).mp h)]
      | enumeration away' mem' named' => exact absurd ((hencloses _).mp here) (away' _)
      | top away' unnamed' mem' => exact absurd ((hencloses _).mp here) (away' _)
      | basic away' unnamed' absent' named' => exact absurd ((hencloses _).mp here) (away' _)
  | enumeration away mem named =>
      cases h' with
      | nested here' innermost' => exact absurd ((hencloses _).mpr here') (away _)
      | enumeration away' mem' named' =>
          rw [settled.enum_unique (enums mem) (enums' mem') (named.trans named'.symm)]
      | top away' unnamed' mem' =>
          exact absurd named (settled.name_ne (enums mem) (structs' mem'))
      | basic away' unnamed' absent' named' =>
          exact absurd (named.trans named'.symm) (settled.enums _ (enums mem) _)
  | top away unnamed mem =>
      cases h' with
      | nested here' innermost' => exact absurd ((hencloses _).mpr here') (away _)
      | enumeration away' mem' named' =>
          exact absurd named' (settled.name_ne (enums' mem') (structs mem))
      | top away' unnamed' mem' => rfl
      | basic away' unnamed' absent' named' =>
          exact absurd named'.symm (settled.structs _ (structs mem) _)
  | basic away unnamed absent named =>
      cases h' with
      | nested here' innermost' => exact absurd ((hencloses _).mpr here') (away _)
      | enumeration away' mem' named' =>
          exact absurd (named'.trans named.symm) (settled.enums _ (enums' mem') _)
      | top away' unnamed' mem' => exact absurd named.symm (settled.structs _ (structs' mem') _)
      | basic away' unnamed' absent' named' =>
          have hbasic := Basic.ofName?_eq_some_iff.mpr named
          rw [Basic.ofName?_eq_some_iff.mpr named'] at hbasic
          rw [Option.some.inj hbasic]

end Known

/-! ## Structs of the file -/

variable {all : Known} {root : Text}

namespace Member

mutual

/-- What a member declares stands in the scope of the member. -/
theorem exists_of_mem_declares {q scope : Qualified} :
    ∀ m : Member, q ∈ (m.declares scope).structs → ∃ name rest, q = scope ++ name :: rest
  | .struct name parent? members, h => by
      rcases List.mem_cons.mp h with rfl | h
      · exact ⟨name, [], rfl⟩
      · obtain ⟨inner, rest, rfl⟩ := exists_of_mem_declaresAll members h
        exact ⟨name, inner :: rest, by simp⟩
  | .enumeration name entries, h => absurd h List.not_mem_nil
  | .fields type optional first rest, h => absurd h List.not_mem_nil

theorem exists_of_mem_declaresAll {q scope : Qualified} :
    ∀ ms : List Member, q ∈ (declaresAll scope ms).structs → ∃ name rest, q = scope ++ name :: rest
  | [], h => absurd h List.not_mem_nil
  | m :: ms, h => by
      rcases List.mem_append.mp h with h | h
      · exact exists_of_mem_declares m h
      · exact exists_of_mem_declaresAll ms h

end

mutual

/-- Inside a struct of the file a member builds at most one thing. -/
theorem builds_unique (settled : all.Settled) {k k' : Known} {owner built built' : Struct}
    (alike : all.Alike root k k') (hroot : owner.qualified.take 1 = [root]) :
    ∀ m : Member, m.declares owner.qualified ⊆ all → m.Builds k owner built →
      m.Builds k' owner built' → built = built'
  | .struct name parent? members, hall, ⟨inner, h, hbuilt⟩, ⟨inner', h', hbuilt'⟩ => by
      obtain ⟨hname, hmembers⟩ := Known.append_subset_iff.mp hall
      have hne : owner.qualified ≠ [] := by simp [Struct.qualified]
      have hinner : (emptyStruct owner.qualified name parent?).qualified.take 1 = [root] :=
        (Qualified.take_one_eq hne (List.prefix_append _ _)).trans hroot
      rw [hbuilt, hbuilt',
        buildsAll_unique settled (alike.append hname) hinner members hmembers h h']
  | .enumeration name entries, _, h, h' => h.trans h'.symm
  | .fields type optional first rest, _, ⟨denoted, h, hbuilt⟩, ⟨denoted', h', hbuilt'⟩ => by
      rw [hbuilt, hbuilt', alike.denotes_unique settled hroot h h']

theorem buildsAll_unique (settled : all.Settled) {k k' : Known} {owner built built' : Struct}
    (alike : all.Alike root k k') (hroot : owner.qualified.take 1 = [root]) :
    ∀ ms : List Member, declaresAll owner.qualified ms ⊆ all → BuildsAll k owner ms built →
      BuildsAll k' owner ms built' → built = built'
  | [], _, h, h' => h.trans h'.symm
  | m :: ms, hall, ⟨mid, hmid, h⟩, ⟨mid', hmid', h'⟩ => by
      obtain ⟨hm, hms⟩ := Known.append_subset_iff.mp hall
      obtain rfl := builds_unique settled alike hroot m hm hmid hmid'
      have hname := qualified_of_builds hmid
      rw [← hname] at hroot hms
      exact buildsAll_unique settled (alike.append hm) hroot ms hms h h'

end

end Member

namespace TopStruct

/-- What a struct of the file declares. -/
def declares (d : TopStruct) : Known :=
  d.member.declares []

theorem mem_declares {d : TopStruct} : [d.name] ∈ d.declares.structs :=
  List.mem_cons_self

theorem eq_of_mem_declares {d : TopStruct} {q : Qualified} (h : q ∈ d.declares.structs) :
    q = [d.name] ∨ ∃ name rest, q = d.name :: name :: rest := by
  rcases List.mem_cons.mp h with rfl | h
  · exact .inl rfl
  · exact .inr (Member.exists_of_mem_declaresAll d.members h)

theorem take_one_of_mem_declares {d : TopStruct} {q : Qualified} (h : q ∈ d.declares.structs) :
    q.take 1 = [d.name] := by
  rcases eq_of_mem_declares h with rfl | ⟨name, rest, rfl⟩ <;> rfl

/-- The struct is built somewhere in a file that declares `all`. -/
def BuiltIn (all : Known) (d : TopStruct) (st : Struct) : Prop :=
  d.declares ⊆ all ∧
    ∃ k, k ⊆ all ∧ (∀ q ∈ k.structs, q.take 1 ≠ [d.name]) ∧ d.Builds k st

/-- Wherever it stands, a struct of the file is built in one way only. -/
theorem builtIn_unique (settled : all.Settled) : Relator.RightUnique (BuiltIn all) := by
  rintro d st st' ⟨hall, k, hk, hroots, h⟩ ⟨_, k', hk', hroots', h'⟩
  obtain ⟨hname, hmembers⟩ := Known.append_subset_iff.mp hall
  have hout {q : Qualified} (hq : q.take 1 = [d.name]) : q ∉ k.structs ∧ q ∉ k'.structs :=
    ⟨fun hmem => hroots q hmem hq, fun hmem => hroots' q hmem hq⟩
  have alike : all.Alike d.name (k ++ {[d.name]}) (k' ++ {[d.name]}) := by
    refine ⟨Known.append_subset_iff.mpr ⟨hk, hname⟩, Known.append_subset_iff.mpr ⟨hk', hname⟩, ?_⟩
    intro q hq
    simp [hout hq]
  have hroot : (emptyStruct [] d.name d.parent?).qualified.take 1 = [d.name] := rfl
  exact Member.buildsAll_unique settled alike hroot d.members hmembers h h'

end TopStruct

namespace File

/-- A file of structs only. -/
def ofStructs (ds : List TopStruct) : File :=
  ⟨ds.map Item.struct, none⟩

/-- Structs or enumerations of a file are those of its structs together. -/
theorem flatMap_declaresAll {α : Type} (part : Known → List α) (empty : part ∅ = [])
    (append : ∀ k more, part (k ++ more) = part k ++ part more) (ds : List TopStruct) :
    part (Item.declaresAll (ds.map Item.struct)) = ds.flatMap fun d => part d.declares := by
  induction ds with
  | nil => exact empty
  | cons d ds ih =>
      rw [List.flatMap_cons, ← ih]
      exact append _ _

theorem subset_of_perm {ds es : List TopStruct} (h : ds.Perm es) :
    (ofStructs ds).declares ⊆ (ofStructs es).declares := by
  have hstructs := flatMap_declaresAll Known.structs rfl fun _ _ => rfl
  have henums := flatMap_declaresAll Known.enums rfl fun _ _ => rfl
  rw [Known.subset_iff, declares, declares, ofStructs, ofStructs, hstructs, hstructs, henums,
    henums]
  exact ⟨(h.flatMap_right _).subset, (h.flatMap_right _).subset⟩

/-- The structs that a file of structs describes are built from its declarations, one by one. -/
theorem forall₂_of_buildsAll {ds : List TopStruct} {k : Known} {s built : Schema}
    (rooted : ∀ q ∈ k.structs, q.take 1 ∈ k.structs)
    (distinct : (k ++ Item.declaresAll (ds.map Item.struct)).Distinct)
    (hall : k ++ Item.declaresAll (ds.map Item.struct) ⊆ all)
    (h : Item.BuildsAll k s (ds.map Item.struct) built) :
    ∃ sts, built.structs = s.structs ++ sts ∧ List.Forall₂ (TopStruct.BuiltIn all) ds sts := by
  induction ds generalizing k s with
  | nil => exact ⟨[], by simp [show built = s from h], .nil⟩
  | cons d ds ih =>
      obtain ⟨mid, ⟨st, hst, rfl⟩, h⟩ := h
      rw [List.map_cons, Item.declaresAll, ← Known.append_assoc] at distinct hall
      obtain ⟨hk, hd⟩ := Known.append_subset_iff.mp (Known.append_subset_iff.mp hall).1
      -- What stands in front of `d` is in other structs of the file, or `d` would come twice.
      have hroots : ∀ q ∈ k.structs, q.take 1 ≠ [d.name] := fun q hq hroot =>
        distinct.of_append.not_mem_left TopStruct.mem_declares (hroot ▸ rooted q hq)
      have rooted' : ∀ q ∈ (k ++ d.declares).structs, q.take 1 ∈ (k ++ d.declares).structs := by
        intro q hq
        rcases List.mem_append.mp hq with hq | hq
        · exact List.mem_append_left _ (rooted q hq)
        · rw [TopStruct.take_one_of_mem_declares hq]
          exact List.mem_append_right _ TopStruct.mem_declares
      obtain ⟨sts, hstructs, hsts⟩ := ih rooted' distinct hall h
      exact ⟨st :: sts, by simp [hstructs], .cons ⟨hd, k, hk, hroots, hst⟩ hsts⟩

theorem forall₂_of_builds {ds : List TopStruct} {built : Schema}
    (distinct : (ofStructs ds).declares.Distinct) (hall : (ofStructs ds).declares ⊆ all)
    (h : (ofStructs ds).Builds built) : List.Forall₂ (TopStruct.BuiltIn all) ds built.structs := by
  rw [declares, ← Known.empty_append (Item.declaresAll _)] at distinct hall
  obtain ⟨sts, hstructs, hsts⟩ := forall₂_of_buildsAll (by simp) distinct hall h
  rwa [hstructs, List.nil_append]

theorem settled_declares {ds : List TopStruct} (distinct : (ofStructs ds).declares.Distinct)
    (enums : ∀ e ∈ (ofStructs ds).declares.enums, ∀ b : Basic, e.name ≠ b.name)
    (structs : ∀ d ∈ ds, ∀ b : Basic, d.name ≠ b.name) : (ofStructs ds).declares.Settled := by
  refine ⟨distinct, enums, fun name hname b => ?_⟩
  rw [declares, ofStructs, flatMap_declaresAll Known.structs rfl fun _ _ => rfl,
    List.mem_flatMap] at hname
  obtain ⟨d, hd, hname⟩ := hname
  rcases TopStruct.eq_of_mem_declares hname with heq | ⟨inner, rest, heq⟩
  · rw [List.singleton_inj.mp heq]
    exact structs d hd b
  · exact absurd heq (by simp)

end File

end Grammar

theorem perm_of_forall₂ {α β : Type} {R : α → β → Prop} (unique : Relator.RightUnique R)
    {as as' : List α} {bs bs' : List β} (order : as.Perm as') (h : List.Forall₂ R as bs)
    (h' : List.Forall₂ R as' bs') : bs.Perm bs' := by
  obtain ⟨bs₁, h₁, hperm⟩ := List.perm_comp_forall₂ order h'
  rwa [List.right_unique_forall₂' unique h h₁]

namespace Schema

/-- The source consists of the given structs. -/
def Spells (source : Text) (ds : List TopStruct) : Prop :=
  ∃ tokens, Token.lex source = .ok tokens ∧ (File.ofStructs ds).Derives (tokens.map Token.text)

theorem perm_walk {s t : Schema}
    (h : (s.structs.map Struct.eraseLines).Perm (t.structs.map Struct.eraseLines)) :
    (s.walk.map Struct.eraseLines).Perm (t.walk.map Struct.eraseLines) := by
  rw [walk, walk, ← Struct.walkAll_eraseLinesAll, ← Struct.walkAll_eraseLinesAll,
    Struct.eraseLinesAll_eq_map, Struct.eraseLinesAll_eq_map, Struct.walkAll_eq_flatMap,
    Struct.walkAll_eq_flatMap]
  exact h.flatMap_right _

theorem names_eq_map (s : Schema) :
    s.names = (s.walk.map Struct.eraseLines).map Struct.qualified := by
  simp [names]

/-- A struct without its lines is found under its name. -/
theorem Resolved.map_struct?_eq_some_iff {s : Schema} (hs : s.Resolved) {name : Qualified}
    {st : Struct} :
    (s.struct? name).map Struct.eraseLines = some st ↔
      st ∈ s.walk.map Struct.eraseLines ∧ st.qualified = name := by
  rw [Option.map_eq_some_iff, List.mem_map]
  constructor
  · rintro ⟨found, hfound, rfl⟩
    obtain ⟨hmem, hname⟩ := mem_walk_of_struct? hfound
    exact ⟨⟨found, hmem, rfl⟩, by rwa [Struct.qualified_eraseLines]⟩
  · rintro ⟨⟨found, hmem, rfl⟩, hname⟩
    rw [Struct.qualified_eraseLines] at hname
    exact ⟨found, hname ▸ hs.struct?_eq hmem, rfl⟩

/-- Two orders of the same structs are read alike. -/
theorem perm_structs_of_read {before behind : List Token} {ds es : List TopStruct} {s t : Schema}
    (hds : (File.ofStructs ds).Derives (before.map Token.text))
    (hes : (File.ofStructs es).Derives (behind.map Token.text)) (order : ds.Perm es)
    (enums : ∀ e ∈ (File.ofStructs ds).declares.enums, ∀ b : Basic, e.name ≠ b.name)
    (structs : ∀ d ∈ ds, ∀ b : Basic, d.name ≠ b.name)
    (hs : Reader.read before = .ok s) (ht : Reader.read behind = .ok t) :
    (s.structs.map Struct.eraseLines).Perm (t.structs.map Struct.eraseLines) := by
  obtain ⟨distinct, builds⟩ := Reader.builds_of_read hs hds
  obtain ⟨distinct', builds'⟩ := Reader.builds_of_read ht hes
  exact perm_of_forall₂
    (TopStruct.builtIn_unique (File.settled_declares distinct enums structs)) order
    (File.forall₂_of_builds distinct ⟨List.Subset.refl _, List.Subset.refl _⟩ builds)
    (File.forall₂_of_builds distinct' (File.subset_of_perm order.symm) builds')

theorem forall₂_of_link {s₀ s : Schema} (h : s₀.link = .ok s) :
    List.Forall₂ (fun st st' => Struct.link s₀.names st = .ok st')
      (s₀.structs.map Struct.eraseLines) (s.structs.map Struct.eraseLines) := by
  have herased := Struct.linkAll_eraseLines s₀.names s₀.structs
  rw [linkAll_of_link h] at herased
  rw [← Struct.linkAll_eq_ok_iff, ← Struct.eraseLinesAll_eq_map, ← Struct.eraseLinesAll_eq_map]
  exact herased.symm

/-- Linking keeps structs alike that are alike but for lines and order. -/
theorem perm_structs_of_link {s₀ t₀ s t : Schema}
    (h : (s₀.structs.map Struct.eraseLines).Perm (t₀.structs.map Struct.eraseLines))
    (hs : s₀.link = .ok s) (ht : t₀.link = .ok t) :
    (s.structs.map Struct.eraseLines).Perm (t.structs.map Struct.eraseLines) := by
  have same (name : Qualified) : name ∈ t₀.names ↔ name ∈ s₀.names := by
    rw [names_eq_map, names_eq_map, ((perm_walk h).map _).mem_iff]
  exact perm_of_forall₂ (fun _ _ _ hst hst' => Except.ok.inj (hst.symm.trans hst')) h
    (forall₂_of_link hs) ((forall₂_of_link ht).imp fun _ _ => Struct.link_congr same)

/-- If two sources consist of the same structs in two orders and none of their enumerations and
structs of the file is named like a built-in type, then they spell the same structs, but for lines
and order. -/
theorem perm_structs_of_reordered {p q : Text} {ds es : List TopStruct} {s t : Schema}
    (hp : Spells p ds) (hq : Spells q es) (order : ds.Perm es)
    (enums : ∀ e ∈ (File.ofStructs ds).declares.enums, ∀ b : Basic, e.name ≠ b.name)
    (structs : ∀ d ∈ ds, ∀ b : Basic, d.name ≠ b.name)
    (ps : parse p = .ok s) (pt : parse q = .ok t) :
    (s.structs.map Struct.eraseLines).Perm (t.structs.map Struct.eraseLines) ∧
      ∀ name, (s.struct? name).map Struct.eraseLines = (t.struct? name).map Struct.eraseLines := by
  obtain ⟨before, hlex, hds⟩ := hp
  obtain ⟨behind, hlex', hes⟩ := hq
  obtain ⟨tokens, s₀, hlexed, hread, hlink, _⟩ := parse_eq_ok_iff.mp ps
  obtain ⟨tokens', t₀, hlexed', hread', hlink', _⟩ := parse_eq_ok_iff.mp pt
  obtain rfl := Except.ok.inj (hlex.symm.trans hlexed)
  obtain rfl := Except.ok.inj (hlex'.symm.trans hlexed')
  have hperm := perm_structs_of_link
    (perm_structs_of_read hds hes order enums structs hread hread') hlink hlink'
  refine ⟨hperm, fun name => Option.ext fun st => ?_⟩
  rw [(resolved_of_link hread hlink).map_struct?_eq_some_iff,
    (resolved_of_link hread' hlink').map_struct?_eq_some_iff, (perm_walk hperm).mem_iff]

/-- A struct with an enumeration and a struct of its own. -/
def baseStruct : TopStruct where
  name := "A"
  parent? := none
  members :=
    [.enumeration "E" [⟨"x", some "3", true⟩, ⟨"y", none, false⟩],
     .fields "E" false ⟨"e", none, some "y"⟩ [],
     .struct "N" none [.fields "int" true ⟨"i", some (some "2"), none⟩ []],
     .fields "N" false ⟨"n", some none, none⟩ [⟨"m", none, none⟩]]

/-- A struct that builds on the other one. -/
def heirStruct : TopStruct where
  name := "B"
  parent? := some "A"
  members := [.struct "C" (some "A") [.fields "string" false ⟨"s", none, none⟩ []]]

def baseSource : Text :=
  "struct A \x7b enum E \x7b x = 3, y \x7d; E e = y; struct N \x7b int? i[2]; \x7d; N n[], m; \x7d;"

def heirSource : Text :=
  "struct B : A \x7b struct C : A \x7b string s; \x7d; \x7d;"

theorem perm_structs_of_reordered_heir :
    ∃ s t, Spells (baseSource ++ 0x0A :: heirSource) [baseStruct, heirStruct] ∧
      Spells (heirSource ++ 0x0A :: baseSource) [heirStruct, baseStruct] ∧
      parse (baseSource ++ 0x0A :: heirSource) = .ok s ∧
      parse (heirSource ++ 0x0A :: baseSource) = .ok t ∧
      (s.structs.map Struct.eraseLines).Perm (t.structs.map Struct.eraseLines) ∧
      ∀ name, (s.struct? name).map Struct.eraseLines = (t.struct? name).map Struct.eraseLines := by
  have hspells {source : Text} {ds : List TopStruct}
      (h : (Token.lex source).toOption.map (List.map Token.text) =
        some (File.ofStructs ds).texts) (spelled : (File.ofStructs ds).IsSpelled) :
      Spells source ds := by
    obtain ⟨tokens, hlex, htexts⟩ := exists_ok_of_map h
    exact ⟨tokens, hlex, spelled, htexts.symm⟩
  have hp : Spells (baseSource ++ 0x0A :: heirSource) [baseStruct, heirStruct] :=
    hspells (by decide +kernel) (by decide +kernel)
  have hq : Spells (heirSource ++ 0x0A :: baseSource) [heirStruct, baseStruct] :=
    hspells (by decide +kernel) (by decide +kernel)
  have ps : (parse (baseSource ++ 0x0A :: heirSource)).toOption.map (fun s => s.names.length) =
      some 4 := by decide +kernel
  have pt : (parse (heirSource ++ 0x0A :: baseSource)).toOption.map (fun t => t.names.length) =
      some 4 := by decide +kernel
  obtain ⟨s, hs, _⟩ := exists_ok_of_map ps
  obtain ⟨t, ht, _⟩ := exists_ok_of_map pt
  have hother {name : Text} (h : Basic.ofName? name = none) (b : Basic) : name ≠ b.name := by
    intro hname
    rw [Basic.ofName?_eq_some_iff.mpr hname.symm] at h
    exact absurd h (by simp)
  have enums : ∀ e ∈ (File.ofStructs [baseStruct, heirStruct]).declares.enums,
      Basic.ofName? e.name = none := by decide +kernel
  have structs : ∀ d ∈ [baseStruct, heirStruct], Basic.ofName? d.name = none := by
    decide +kernel
  exact ⟨s, t, hp, hq, hs, ht, perm_structs_of_reordered hp hq (List.Perm.swap _ _ _)
    (fun e he => hother (enums e he)) (fun d hd => hother (structs d hd)) hs ht⟩

end Schema

end Schematic
