import Mathlib.Data.List.Forall2
import EntityQuery.Proofs.Joins.Requests

/-!
# The joins of a request

What a sequence of calls on a request ends in. There are joins if all registered entities are in
the tree of the root; otherwise the error names one that is not. The entities that are joined are
those on the paths from the root, each once and along a parent link from a table that is there
already (`FollowsPaths`). After them come the identifiers, and then the expeditions. What a join is
said to be is its type, its table, the name of this table and the text of its condition.
-/

namespace EntityQuery

open JoinRequest (ofCalls)

/-! ## §1 Single joins -/

namespace JoinStep

/-- The name that a step adds to a statement. -/
def reference : JoinStep → String
  | entity hop => hop.table
  | identifiers owner => identifiersName owner
  | expeditions _ => expeditionsTable

@[simp] theorem referenceName_toJoin (network : Nat) (step : JoinStep) :
    (step.toJoin network).referenceName = step.reference := by
  cases step <;> rfl

end JoinStep

/-- The text that makes rows partners: the one is the parent of the other in their expedition. -/
def linkText (child parent : String) : String :=
  child ++ ".parent_identifier = " ++ parent ++ ".local_identifier AND " ++
    child ++ ".expedition_id = " ++ parent ++ ".expedition_id"

theorem JoinStep.render_on_entity (network : Nat) (hop : Hop) :
    Sql.render ((entity hop).toJoin network).on = linkText hop.child hop.parent := by
  apply String.toList_injective
  simp [toJoin, both, equal, Sql.column, Sql.spaced, Sql.render, Sql.Token.text, Sql.Symbol.text,
    Sql.Keyword.text, linkText]

/-- A join of the table of an entity along a parent link, from a table that is there already. -/
def Schema.JoinsAlong (s : Schema) (network : Nat) (present : List String) (j : Sql.Join) : Prop :=
  ∃ parent child, s.IsParent parent child ∧
    (j.referenceName = child ∧ parent ∈ present ∨ j.referenceName = parent ∧ child ∈ present) ∧
    j.table = ⟨some ("network_" ++ toString network), j.referenceName, some j.referenceName⟩ ∧
    Sql.render j.on = linkText child parent

/-- A join of the identifiers of an entity. It keeps the rows that have none. -/
structure JoinsIdentifiers (owner : String) (j : Sql.Join) : Prop where
  type : j.type = .left
  table : j.table = ⟨none, "entity_identifiers", some (owner ++ "_entity_identifiers")⟩
  on : Sql.render j.on =
    owner ++ "_entity_identifiers.expedition_id = " ++ owner ++ ".expedition_id AND " ++
      owner ++ "_entity_identifiers.concept_alias = '" ++ owner ++ "'"

/-- A join of the expeditions to the rows of an entity. -/
structure JoinsExpeditions (entity : String) (j : Sql.Join) : Prop where
  type : j.type = .inner
  table : j.table = ⟨none, "expeditions", none⟩
  on : Sql.render j.on = "expeditions.id = " ++ entity ++ ".expedition_id"

theorem JoinStep.joinsIdentifiers (network : Nat) {owner : String} (howner : isIdentifier owner) :
    JoinsIdentifiers owner ((identifiers owner).toJoin network) where
  type := rfl
  table := by
    have hname : identifiersName owner = owner ++ "_entity_identifiers" := String.append_assoc
    rw [← hname]
    rfl
  on := by
    -- the name of the owner is the only string, and it has no quotes
    have hquoted : Sql.quoted '\'' owner = String.ofList ['\''] ++ owner ++ String.ofList ['\''] :=
      Sql.quoted_of_isIdentifier howner rfl
    apply String.toList_injective
    simp [toJoin, both, equal, Sql.column, Sql.spaced, Sql.render, Sql.Token.text, hquoted,
      Sql.Symbol.text, Sql.Keyword.text, identifiersName, identifiersTable]

theorem JoinStep.joinsExpeditions (network : Nat) (entity : String) :
    JoinsExpeditions entity ((expeditions entity).toJoin network) where
  type := rfl
  table := rfl
  on := by
    apply String.toList_injective
    simp [toJoin, equal, Sql.column, Sql.spaced, Sql.render, Sql.Token.text, Sql.Symbol.text,
      expeditionsTable]

/-! ## §2 Joins along the paths -/

/-- The joins of the entities on the paths from a root to the entities that calls register. -/
structure FollowsPaths (s : Schema) (root : String) (calls : List JoinCall) (network : Nat)
    (joins : List Sql.Join) : Prop where
  once : (joins.map Sql.Join.referenceName).Nodup
  exact : ∀ name, name ∈ joins.map Sql.Join.referenceName ↔
    name ≠ root ∧ ∃ target ∈ registered calls, s.OnPath root target name
  linked : ∀ before j after, joins = before ++ j :: after →
    s.JoinsAlong network (root :: before.map Sql.Join.referenceName) j
  /-- A join upwards drops rows without partner, and so does one to an entity that is not added to
  the result. -/
  type : ∀ j ∈ joins,
    j.type = .left ↔ ¬ s.AtOrAbove j.referenceName root ∧ .select j.referenceName ∈ calls

theorem map_referenceName_entities (network : Nat) (hops : List Hop) :
    (hops.map fun hop => (JoinStep.entity hop).toJoin network).map Sql.Join.referenceName =
      hopTables hops := by
  simp [hopTables, JoinStep.reference]

theorem Schema.OnPath.eq_of_self {s : Schema} {root name : String} (h : s.OnPath root root name) :
    name = root := by
  obtain ⟨meeting, hmeeting, hle, hge⟩ := h
  -- an entity meets itself where it is
  have hroot := hmeeting.nearest root (.refl root) (.refl root)
  exact (hge.elim id id).antisymm (hroot.trans hle)

/-- Registering the root adds nothing. -/
theorem exists_required_iff {s : Schema} {root name : String} {calls : List JoinCall}
    (hname : name ≠ root) : (∃ target ∈ (ofCalls root calls).required, s.OnPath root target name) ↔
      ∃ target ∈ registered calls, s.OnPath root target name := by
  simp only [JoinRequest.mem_required_ofCalls]
  constructor
  · rintro ⟨target, ⟨-, htarget⟩, hpath⟩
    exact ⟨target, htarget, hpath⟩
  · rintro ⟨target, htarget, hpath⟩
    refine ⟨target, ⟨?_, htarget⟩, hpath⟩
    rintro rfl
    exact hname hpath.eq_of_self

theorem followsPaths_of_isPlan {s : Schema} {root : String} {calls : List JoinCall}
    {hops : List Hop} {steps : List JoinStep} (network : Nat)
    (h : JoinRequest.IsPlan s (ofCalls root calls) hops steps) :
    FollowsPaths s root calls network
      (hops.map fun hop => (JoinStep.entity hop).toJoin network) where
  once := by
    rw [map_referenceName_entities]
    exact h.once
  exact name := by
    rw [map_referenceName_entities, h.tables, JoinRequest.root_ofCalls]
    exact and_congr_right exists_required_iff
  linked before j after hjoins := by
    obtain ⟨hops₁, hops₂, rfl, rfl, hafter⟩ := List.map_eq_append_iff.mp hjoins
    obtain ⟨hop, hops₃, rfl, rfl, -⟩ := List.map_eq_cons_iff.mp hafter
    have hextends := h.connected.extends_of_eq_append rfl
    rw [JoinRequest.root_ofCalls] at hextends
    rw [map_referenceName_entities]
    exact ⟨hop.parent, hop.child, hextends.link, hextends.ends, rfl,
      JoinStep.render_on_entity network hop⟩
  type j hj := by
    obtain ⟨hop, hhop, rfl⟩ := List.mem_map.mp hj
    have htyped := h.typed hop hhop
    unfold JoinRequest.RightlyTyped at htyped
    rw [JoinRequest.mem_selected_ofCalls, JoinRequest.root_ofCalls] at htyped
    show hop.type = .left ↔ ¬ s.AtOrAbove hop.table root ∧ .select hop.table ∈ calls
    rw [htyped]
    refine and_congr_right fun hoff => and_iff_right ?_
    -- the root is at or above itself
    exact fun heq => hoff (heq ▸ .refl _)

/-! ## §3 All joins -/

namespace JoinRequest

/-- The steps of a plan as joins. -/
theorem map_toJoin_of_isPlan {s : Schema} {root : String} {calls : List JoinCall} {hops : List Hop}
    {steps : List JoinStep} (network : Nat) (h : IsPlan s (ofCalls root calls) hops steps) :
    steps.map (JoinStep.toJoin network) =
      hops.map (fun hop => (JoinStep.entity hop).toJoin network) ++
        (root :: (ofCalls root calls).selection s).map
          (fun owner => (JoinStep.identifiers owner).toJoin network) ++
        (if .requireExpeditions ∈ calls then
          [(JoinStep.expeditions root).toJoin network] else []) := by
  rw [h.steps, root_ofCalls]
  simp only [expeditions_ofCalls, List.map_append, List.map_map]
  split <;> rfl

theorem mem_selection_ofCalls {s : Schema} {root name : String} {calls : List JoinCall} :
    name ∈ (ofCalls root calls).selection s ↔ name ≠ root ∧ .select name ∈ calls := by
  rw [selection, s.mem_inOrder_iff, mem_selected_ofCalls]

/-- The owners of the identifiers are entities of the schema, so that their names have no quotes. -/
theorem forall₂_joinsIdentifiers {s : Schema} {root : String} {calls : List JoinCall}
    (network : Nat) (hroot : s.Declares [root]) (hcalls : s.Declares (registered calls)) :
    List.Forall₂ JoinsIdentifiers (root :: (ofCalls root calls).selection s)
      ((root :: (ofCalls root calls).selection s).map
        fun owner => (JoinStep.identifiers owner).toJoin network) := by
  rw [List.forall₂_map_right_iff, List.forall₂_same]
  intro owner howner
  apply JoinStep.joinsIdentifiers
  rcases List.mem_cons.mp howner with rfl | howner
  · exact hroot.isIdentifier owner List.mem_cons_self
  · obtain ⟨-, hselected⟩ := mem_selection_ofCalls.mp howner
    exact hcalls.isIdentifier owner (List.mem_filterMap.mpr ⟨_, hselected, rfl⟩)

theorem forall₂_joinsExpeditions (network : Nat) (root : String) (calls : List JoinCall) :
    List.Forall₂ JoinsExpeditions (if .requireExpeditions ∈ calls then [root] else [])
      (if .requireExpeditions ∈ calls then
        [(JoinStep.expeditions root).toJoin network] else []) := by
  split
  · exact .cons (JoinStep.joinsExpeditions network root) .nil
  · exact .nil

/-- The joins that a sequence of calls ends in. They exist if each registered entity shares with
the root an ancestor or one of the two, and the error names an entity that does not. They join the
entities on the paths from the root, then the identifiers of the root and of each selected entity,
ancestors first, and at last the expeditions if these are asked for. -/
theorem joins_follow_paths {s : Schema} {root : String} {calls : List JoinCall} (network : Nat)
    (hroot : s.Declares [root]) (hcalls : s.Declares (registered calls)) :
    ((∃ joins, (ofCalls root calls).joins s network = .ok joins) ↔
      ∀ target ∈ registered calls, s.SameTree root target) ∧
    (∀ error, (ofCalls root calls).joins s network = .error error →
      ∃ target ∈ registered calls, error = .unrelatedEntities target root ∧
        ¬ s.SameTree root target) ∧
    ∀ joins, (ofCalls root calls).joins s network = .ok joins →
      ∃ entities selected, FollowsPaths s root calls network entities ∧
        selected = (ofCalls root calls).selection s ∧ selected.Pairwise (s.isBefore · ·) ∧
        (∀ name, name ∈ selected ↔ name ≠ root ∧ .select name ∈ calls) ∧
        ∃ identifiers expeditions, joins = entities ++ identifiers ++ expeditions ∧
          List.Forall₂ JoinsIdentifiers (root :: selected) identifiers ∧
          List.Forall₂ JoinsExpeditions (if .requireExpeditions ∈ calls then [root] else [])
            expeditions := by
  have hplan := (Sound.ofCalls hroot hcalls).plan_spec
  unfold joins
  cases hsteps : (ofCalls root calls).plan s with
  | error error =>
    rw [hsteps] at hplan
    obtain ⟨target, htarget, rfl, hnot⟩ := hplan
    rw [root_ofCalls] at hnot ⊢
    have hregistered := ((mem_required_ofCalls root).mp htarget).2
    refine ⟨⟨fun ⟨_, hok⟩ => absurd hok (by simp [Except.map]), fun hall => ?_⟩, ?_, ?_⟩
    · exact absurd (hall target hregistered) hnot
    · rintro error ⟨⟩
      exact ⟨target, hregistered, rfl, hnot⟩
    · exact fun _ hok => absurd hok (by simp [Except.map])
  | ok steps =>
    rw [hsteps] at hplan
    obtain ⟨hops, hplan⟩ := hplan
    refine ⟨⟨fun _ target htarget => ?_, fun _ => ⟨_, rfl⟩⟩, ?_, ?_⟩
    · -- the root itself is registered without being required
      by_cases heq : target = root
      · rw [heq]
        exact ⟨root, .refl root, .refl root⟩
      · have hsame := hplan.sameTree target ((mem_required_ofCalls root).mpr ⟨heq, htarget⟩)
        rwa [root_ofCalls] at hsame
    · exact fun _ herror => absurd herror (by simp [Except.map])
    · rintro joins ⟨⟩
      refine ⟨_, _, followsPaths_of_isPlan network hplan, rfl, s.pairwise_inOrder _,
        fun _ => mem_selection_ofCalls, _, _, map_toJoin_of_isPlan network hplan, ?_, ?_⟩
      · exact forall₂_joinsIdentifiers network hroot hcalls
      · exact forall₂_joinsExpeditions network root calls

end JoinRequest

/-- Events with samples, their tissues and photos; and sites, in a tree of their own. -/
def Schema.survey : Schema where
  entities :=
    [⟨"Event", none, "eventID", [⟨"eventID", "urn:eventID", .string⟩]⟩,
     ⟨"Tissue", some "Sample", "tissueID", [⟨"tissueID", "urn:tissueID", .string⟩]⟩,
     ⟨"Photo", some "Event", "photoID", [⟨"photoID", "urn:photoID", .string⟩]⟩,
     ⟨"Sample", some "Event", "sampleID", [⟨"sampleID", "urn:sampleID", .string⟩]⟩,
     ⟨"Site", none, "siteID", [⟨"siteID", "urn:siteID", .string⟩]⟩]
  metadata := []
  valid := by decide

/-- A request for the photos beside a sample and for the tissues below it. -/
def surveyCalls : List JoinCall :=
  [.requireExpeditions, .select "Photo", .require "Tissue", .require "Photo", .require "Sample"]

theorem JoinRequest.joins_follow_paths_survey :
    ∃ joins entities identifiers expeditions,
      (ofCalls "Sample" surveyCalls).joins .survey 1 = .ok joins ∧
      joins.map (fun j => (j.type, j.referenceName)) =
        [(.inner, "Event"), (.left, "Photo"), (.inner, "Tissue"),
          (.left, "Sample_entity_identifiers"), (.left, "Photo_entity_identifiers"),
          (.inner, "expeditions")] ∧
      joins = entities ++ identifiers ++ expeditions ∧
      FollowsPaths .survey "Sample" surveyCalls 1 entities ∧
      List.Forall₂ JoinsIdentifiers ["Sample", "Photo"] identifiers ∧
      List.Forall₂ JoinsExpeditions ["Sample"] expeditions ∧
      ∀ target ∈ registered surveyCalls, Schema.survey.SameTree "Sample" target := by
  have hroot : Schema.survey.Declares ["Sample"] := by
    unfold Schema.Declares
    decide
  have hcalls : Schema.survey.Declares (registered surveyCalls) := by
    unfold Schema.Declares
    decide
  have hok : (ofCalls "Sample" surveyCalls).joins .survey 1 = .ok _ := rfl
  obtain ⟨hiff, -, hjoins⟩ := joins_follow_paths 1 hroot hcalls
  obtain ⟨entities, _, hfollows, rfl, -, -, identifiers, expeditions, heq, hidentifiers,
    hexpeditions⟩ := hjoins _ hok
  exact ⟨_, entities, identifiers, expeditions, hok, rfl, heq, hfollows, hidentifiers, hexpeditions,
    hiff.mp ⟨_, hok⟩⟩

end EntityQuery
