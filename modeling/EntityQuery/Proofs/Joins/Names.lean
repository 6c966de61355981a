import EntityQuery.Proofs.Joins.Plan

/-!
# Names of joined tables

A statement refers to its tables by names of three kinds: entities have their own, identifiers have
one that is made from their owner's, and the expeditions have a fixed one. Names of one kind never
clash, and no entity is named like the expeditions. But an entity may be named like the identifiers
of another one, and this is the only clash there is (`nodup_references_iff`).
-/

namespace EntityQuery

/-! ## §1 Three kinds of names -/

theorem identifiersName_injective : Function.Injective identifiersName := by
  intro a b h
  exact (String.append_left_inj _).mp ((String.append_left_inj _).mp h)

theorem identifiersName_ne_expeditionsTable (owner : String) :
    identifiersName owner ≠ expeditionsTable := by
  intro h
  -- only one of them has an underscore
  have hmem : '_' ∈ (identifiersName owner).toList := by simp [identifiersName]
  rw [h] at hmem
  exact absurd hmem (by decide)

namespace Schema

variable {s : Schema}

theorem not_isReserved_of_mem {e : Entity} (he : e ∈ s.entities) : ¬ isReserved e.name := by
  have hfirst := (violation?_eq_none_iff.mp s.valid).1
  have hnone := entityViolation?_of_mem hfirst e he
  intro hreserved
  rw [entityViolation?, if_pos hreserved] at hnone
  split at hnone <;> exact absurd hnone (by simp)

theorem Declares.ne_expeditionsTable {names : List String} (h : s.Declares names) :
    ∀ name ∈ names, name ≠ expeditionsTable := by
  rintro name hname rfl
  obtain ⟨e, he, heq⟩ := h _ hname
  apply not_isReserved_of_mem he
  rw [heq]
  decide

end Schema

/-! ## §2 Names of a plan -/

namespace JoinRequest

variable {s : Schema} {r : JoinRequest} {hops : List Hop} {steps : List JoinStep}

theorem IsPlan.map_reference (h : IsPlan s r hops steps) :
    steps.map JoinStep.reference =
      hopTables hops ++ (r.root :: r.selection s).map identifiersName ++
        (if r.expeditions then [expeditionsTable] else []) := by
  rw [h.steps]
  simp only [List.map_append, List.map_map, hopTables]
  split <;> rfl

theorem IsPlan.declares_hopTables (h : IsPlan s r hops steps) (hsound : Sound s r) :
    s.Declares (hopTables hops) := by
  intro name hname
  obtain ⟨-, target, htarget, hpath⟩ := (h.tables name).mp hname
  have hdeclares : s.Declares [target] := Schema.declares_singleton.mpr (hsound.required _ htarget)
  exact Schema.declares_singleton.mp (hpath.declares hsound.root hdeclares)

/-- The names of a plan are all different, unless an entity is named like the identifiers of one. -/
theorem IsPlan.nodup_references_iff (h : IsPlan s r hops steps) (hsound : Sound s r) :
    (r.root :: steps.map JoinStep.reference).Nodup ↔
      ∀ owner ∈ r.root :: r.selection s, ∀ name ∈ r.root :: hopTables hops,
        name ≠ identifiersName owner := by
  -- the names of each kind are distinct among themselves
  have htables : (r.root :: hopTables hops).Nodup :=
    List.nodup_cons.mpr ⟨fun hmem => ((h.tables _).mp hmem).1 rfl, h.once⟩
  have hidentifiers : ((r.root :: r.selection s).map identifiersName).Nodup := by
    apply List.Nodup.map identifiersName_injective
    refine List.nodup_cons.mpr ⟨fun hmem => hsound.apart ?_, s.nodup_inOrder _⟩
    exact hsound.selected (s.mem_inOrder_iff.mp hmem)
  have hexpeditions : expeditionsTable ∉
      r.root :: hopTables hops ++ (r.root :: r.selection s).map identifiersName := by
    rw [List.mem_append, List.mem_cons, List.mem_map]
    rintro ((heq | hmem) | ⟨owner, -, heq⟩)
    · exact hsound.root.ne_expeditionsTable _ List.mem_cons_self heq.symm
    · exact (h.declares_hopTables hsound).ne_expeditionsTable _ hmem rfl
    · exact identifiersName_ne_expeditionsTable owner heq
  have hlast : (r.root :: steps.map JoinStep.reference).Nodup ↔
      (r.root :: hopTables hops ++ (r.root :: r.selection s).map identifiersName).Nodup := by
    rw [h.map_reference, ← List.cons_append, ← List.cons_append]
    split
    · rw [List.nodup_append_comm, List.singleton_append, List.nodup_cons,
        and_iff_right hexpeditions]
    · rw [List.append_nil]
  rw [hlast, List.nodup_append, and_iff_right htables, and_iff_right hidentifiers]
  constructor
  · exact fun hne owner howner name hname => hne name hname _ (List.mem_map_of_mem howner)
  · rintro hne name hname _ hidentifiers
    obtain ⟨owner, howner, rfl⟩ := List.mem_map.mp hidentifiers
    exact hne owner howner name hname

/-! ## §3 Names of the joins of a request -/

/-- An entity that a request reads: the root, or one on the way to an entity that it registers. -/
def Reaches (s : Schema) (root : String) (calls : List JoinCall) (name : String) : Prop :=
  name = root ∨ ∃ target ∈ registered calls, s.OnPath root target name

/-- The names that a statement refers to its tables by, those of the root and of all joins, are
different exactly if no entity that is read is named like the identifiers of the root or of a
selected entity. -/
theorem nodup_referenceNames_iff {root : String} {calls : List JoinCall} {network : Nat}
    {joins : List Sql.Join} (hroot : s.Declares [root]) (hcalls : s.Declares (registered calls))
    (hok : (ofCalls root calls).joins s network = .ok joins) :
    (root :: joins.map Sql.Join.referenceName).Nodup ↔
      ∀ owner, owner = root ∨ .select owner ∈ calls →
        ∀ name, Reaches s root calls name → name ≠ identifiersName owner := by
  have hsound := Sound.ofCalls hroot hcalls
  obtain ⟨hops, steps, hplan, rfl⟩ := hsound.exists_isPlan hok
  have hreferences : (steps.map (JoinStep.toJoin network)).map Sql.Join.referenceName =
      steps.map JoinStep.reference := by simp
  have howner : ∀ owner, owner ∈ root :: (ofCalls root calls).selection s ↔
      owner = root ∨ .select owner ∈ calls := by
    intro owner
    rw [List.mem_cons, mem_selection_ofCalls]
    tauto
  have hname : ∀ name, name ∈ root :: hopTables hops ↔ Reaches s root calls name := by
    intro name
    rw [List.mem_cons, hplan.tables, root_ofCalls, and_congr_right exists_required_iff, Reaches]
    tauto
  have hiff := hplan.nodup_references_iff hsound
  rw [root_ofCalls] at hiff
  rw [hreferences, hiff]
  simp only [howner, hname]

end JoinRequest

/-- Events with a list of their identifiers that was declared as an entity of its own. -/
def Schema.register : Schema where
  entities :=
    [⟨"Event", none, "eventID", [⟨"eventID", "urn:eventID", .string⟩]⟩,
     ⟨"Event_entity_identifiers", some "Event", "entryID", [⟨"entryID", "urn:entryID", .string⟩]⟩]
  metadata := []
  valid := by decide

/-- Here the joined child and the identifiers of the root have the same name. -/
theorem JoinRequest.nodup_referenceNames_iff_register :
    ∃ joins, (ofCalls "Event" [.require "Event_entity_identifiers"]).joins .register 1 = .ok joins ∧
      joins.map Sql.Join.referenceName =
        ["Event_entity_identifiers", "Event_entity_identifiers"] ∧
      ¬ ("Event" :: joins.map Sql.Join.referenceName).Nodup := by
  have hroot : Schema.register.Declares ["Event"] := by
    unfold Schema.Declares
    decide
  have hcalls : Schema.register.Declares (registered [.require "Event_entity_identifiers"]) := by
    unfold Schema.Declares
    decide
  have hok : (ofCalls "Event" [.require "Event_entity_identifiers"]).joins .register 1 = .ok _ :=
    rfl
  refine ⟨_, hok, rfl, fun hnodup => ?_⟩
  have hno := (nodup_referenceNames_iff hroot hcalls hok).mp hnodup "Event" (.inl rfl)
  have hlink : Schema.register.IsParent "Event" "Event_entity_identifiers" :=
    ⟨_, List.mem_cons_of_mem _ List.mem_cons_self, rfl, rfl⟩
  have habove := Schema.AtOrAbove.of_isParent hlink
  -- the root meets its child where it is itself
  have hpath :
      Schema.register.OnPath "Event" "Event_entity_identifiers" "Event_entity_identifiers" :=
    ⟨"Event", ⟨.refl _, habove, fun _ hc _ => hc⟩, habove, .inr (.refl _)⟩
  exact hno _ (.inr ⟨_, List.mem_cons_self, hpath⟩) rfl

end EntityQuery
