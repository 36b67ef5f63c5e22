import Schematic.Artifact
import Schematic.Proofs.Sequences

/-!
# What generating comes to

The artifacts of a schema are generated at the same time, and the failure that comes first is the
one that is reported. Main statement: whatever comes to an end first, a schema has the same
artifacts or has none. It has none for one reason if its namespaces do not do, and else for any kind
that cannot be rendered.
-/

namespace Schematic

namespace Artifact

variable {s : Schema} {options : Options} {kind : Kind}

theorem Kind.mem_all (kind : Kind) : kind ∈ Kind.all := by
  cases kind <;> decide

theorem kind_of_generate {a : Artifact} (h : generate s options kind = .ok a) :
    a.kind = kind ∧ packageOf s kind = .ok a.package := by
  obtain ⟨package, hpackage, h⟩ := bind_eq_ok.mp h
  obtain ⟨source, -, h⟩ := bind_eq_ok.mp h
  obtain rfl := Except.ok.inj h
  exact ⟨rfl, hpackage⟩

/-- With both namespaces at hand, an artifact is there unless its text cannot be rendered. -/
theorem eq_malformed_of_generate {e : ArtifactError} (hnamespaces : s.checkNamespaces = .ok ())
    (h : generate s options kind = .error e) : e = .malformed kind := by
  obtain ⟨layout, hlayout, hrest⟩ := bind_eq_ok.mp hnamespaces
  obtain ⟨owned, howned, -⟩ := bind_eq_ok.mp hrest
  obtain ⟨package, hpackage⟩ : ∃ package, packageOf s kind = .ok package := by
    cases kind with
    | layout => exact ⟨layout, hlayout⟩
    | owned => exact ⟨owned, howned⟩
    | serializer => exact ⟨owned, howned⟩
  rw [generate, render, sourceFile, hpackage] at h
  rcases bind_eq_error.mp h with h | ⟨_, -, h⟩
  · exact absurd h (by simp)
  rcases bind_eq_error.mp h with h | ⟨_, -, h⟩
  · rcases bind_eq_error.mp h with h | ⟨file, -, h⟩
    · exact absurd h (by simp [pure, Except.pure, bind, Except.bind])
    · split at h
      · exact absurd h (by simp [pure, Except.pure])
      · exact (Except.error.inj h).symm
  · exact absurd h (by simp [pure, Except.pure])

/-- Among the artifacts that came to an end is the one of each kind. -/
theorem exists_find?_kind {order : List Kind} {ended : List Artifact}
    (hended : List.Forall₂ (fun kind a => generate s options kind = .ok a) order ended)
    (hkind : kind ∈ order) :
    ∃ a, generate s options kind = .ok a ∧ ended.find? (fun a => a.kind = kind) = some a := by
  induction hended with
  | nil => exact absurd hkind List.not_mem_nil
  | @cons first a order ended hfirst _ ih =>
      obtain ⟨rfl, -⟩ := kind_of_generate hfirst
      by_cases hsame : a.kind = kind
      · exact ⟨a, hsame ▸ hfirst, List.find?_cons_of_pos (by simpa using hsame)⟩
      · rw [List.find?_cons_of_neg (by simpa using hsame)]
        exact ih ((List.mem_cons.mp hkind).resolve_left (Ne.symm hsame))

end Artifact

namespace Schema

open Artifact (Kind generate)

variable {s : Schema} {options : Artifact.Options} {order : List Kind} {artifacts : List Artifact}
  {e : ArtifactError}

/-- Any order in which all kinds come to an end gives the same artifacts. -/
theorem artifactsIn_eq_ok_iff (hall : ∀ kind, kind ∈ order) :
    s.artifactsIn order options = .ok artifacts ↔
      s.checkNamespaces = .ok () ∧ Kind.all.mapM (generate s options) = .ok artifacts := by
  -- The artifacts that came to an end are looked up kind by kind.
  have hlisted {ended : List Artifact} (h : order.mapM (generate s options) = .ok ended) :
      Kind.all.mapM (generate s options) =
        .ok (Kind.all.filterMap fun kind => ended.find? fun a => a.kind = kind) := by
    have hfind (kind : Kind) := Artifact.exists_find?_kind (mapM_eq_ok_iff.mp h) (hall kind)
    rw [mapM_eq_ok_iff]
    generalize Kind.all = kinds
    induction kinds with
    | nil => exact .nil
    | cons kind kinds ih =>
        obtain ⟨a, ha, hfound⟩ := hfind kind
        rw [List.filterMap_cons, hfound]
        exact .cons ha ih
  constructor
  · intro h
    obtain ⟨_, hnamespaces, h⟩ := bind_eq_ok.mp h
    obtain ⟨ended, hended, h⟩ := bind_eq_ok.mp h
    exact ⟨hnamespaces, (hlisted hended).trans h⟩
  · rintro ⟨hnamespaces, h⟩
    obtain ⟨ended, hended⟩ : ∃ ended, order.mapM (generate s options) = .ok ended := by
      refine exists_mapM fun kind _ => ?_
      obtain ⟨a, ha, -⟩ := Artifact.exists_find?_kind (mapM_eq_ok_iff.mp h) kind.mem_all
      exact ⟨a, ha⟩
    rw [artifactsIn, hnamespaces]
    exact bind_eq_ok.mpr ⟨(), rfl, bind_eq_ok.mpr ⟨ended, hended, (hlisted hended).symm.trans h⟩⟩

theorem artifacts_eq_ok_iff :
    s.artifacts options = .ok artifacts ↔
      s.checkNamespaces = .ok () ∧ Kind.all.mapM (generate s options) = .ok artifacts :=
  artifactsIn_eq_ok_iff Kind.mem_all

/-- What generating may come to: the kinds come to an end in any order. -/
def MayGive (s : Schema) (options : Artifact.Options)
    (outcome : Except ArtifactError (List Artifact)) : Prop :=
  ∃ order : List Kind, order.Perm Kind.all ∧ s.artifactsIn order options = outcome

theorem mayGive_ok_iff :
    s.MayGive options (.ok artifacts) ↔
      s.checkNamespaces = .ok () ∧ Kind.all.mapM (generate s options) = .ok artifacts := by
  constructor
  · rintro ⟨order, hperm, h⟩
    exact (artifactsIn_eq_ok_iff fun kind => hperm.mem_iff.mpr kind.mem_all).mp h
  · exact fun h => ⟨Kind.all, .refl _, artifacts_eq_ok_iff.mpr h⟩

/-- The failure of any kind may be the one that comes first. -/
theorem mayGive_error_iff :
    s.MayGive options (.error e) ↔
      s.checkNamespaces = .error e ∨
        s.checkNamespaces = .ok () ∧ ∃ kind, generate s options kind = .error e := by
  constructor
  · rintro ⟨order, -, h⟩
    rcases bind_eq_error.mp h with h | ⟨_, hnamespaces, h⟩
    · exact .inl h
    rcases bind_eq_error.mp h with h | ⟨_, -, h⟩
    · obtain ⟨kind, -, hkind⟩ := exists_of_mapM_error h
      exact .inr ⟨hnamespaces, kind, hkind⟩
    · exact absurd h (by simp [pure, Except.pure])
  · rintro (h | ⟨hnamespaces, kind, hkind⟩)
    · exact ⟨Kind.all, .refl _, bind_eq_error.mpr (.inl h)⟩
    · refine ⟨kind :: Kind.all.erase kind, (List.perm_cons_erase kind.mem_all).symm, ?_⟩
      refine bind_eq_error.mpr (.inr ⟨(), hnamespaces, bind_eq_error.mpr (.inl ?_)⟩)
      rw [List.mapM_cons, hkind]
      rfl

/-- Whatever comes to an end first, a schema has the same artifacts, or it has none for one reason,
or none as some kinds cannot be rendered, of which any may be reported. -/
theorem mayGive_cases (s : Schema) (options : Artifact.Options) :
    (∃ artifacts, ∀ outcome, s.MayGive options outcome ↔ outcome = .ok artifacts) ∨
      (∃ e, ∀ outcome, s.MayGive options outcome ↔ outcome = .error e) ∨
      (∃ kind, generate s options kind = .error (.malformed kind)) ∧
        ∀ outcome, s.MayGive options outcome ↔
          ∃ kind, generate s options kind = .error (.malformed kind) ∧
            outcome = .error (.malformed kind) := by
  cases hnamespaces : s.checkNamespaces with
  | error e =>
      refine .inr (.inl ⟨e, fun outcome => ?_⟩)
      cases outcome with
      | ok artifacts => simp [mayGive_ok_iff, hnamespaces]
      | error e' => simp [mayGive_error_iff, hnamespaces, eq_comm]
  | ok _ =>
      cases hmapM : Kind.all.mapM (generate s options) with
      | ok artifacts =>
          refine .inl ⟨artifacts, fun outcome => ?_⟩
          cases outcome with
          | ok artifacts' => simp [mayGive_ok_iff, hnamespaces, hmapM, eq_comm]
          | error e =>
              have hfine (kind : Kind) : generate s options kind ≠ .error e := by
                obtain ⟨a, ha, -⟩ :=
                  Artifact.exists_find?_kind (mapM_eq_ok_iff.mp hmapM) kind.mem_all
                simp [ha]
              simp [mayGive_error_iff, hnamespaces, hfine]
      | error e =>
          have hmalformed {kind : Kind} {e : ArtifactError}
              (h : generate s options kind = .error e) : e = .malformed kind :=
            Artifact.eq_malformed_of_generate hnamespaces h
          obtain ⟨kind, -, hkind⟩ := exists_of_mapM_error hmapM
          refine .inr (.inr ⟨⟨kind, hmalformed hkind ▸ hkind⟩, fun outcome => ?_⟩)
          cases outcome with
          | ok artifacts => simp [mayGive_ok_iff, hmapM]
          | error e' =>
              rw [mayGive_error_iff]
              constructor
              · rintro (h | ⟨-, kind', h⟩)
                · exact absurd (hnamespaces.symm.trans h) (by simp)
                · obtain rfl := hmalformed h
                  exact ⟨kind', h, rfl⟩
              · rintro ⟨kind', h, heq⟩
                obtain rfl := Except.error.inj heq
                exact .inr ⟨hnamespaces, kind', h⟩

end Schema

end Schematic
