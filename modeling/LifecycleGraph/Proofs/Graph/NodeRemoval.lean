import LifecycleGraph.Proofs.Graph.Assignment

/-!
# Removing a node from a graph

The node first loses what it holds, so that no node is told of it any more, and
then is taken out of the values of the nodes that it was told of.  None of these
changes can fail: each value that is left over is one that its property would
accept, because it is a part of one that is held.
-/

set_option autoImplicit false

namespace LifecycleGraph

namespace Graph

variable {graph : Graph} {id : NodeId}

/-! ## The values of the node -/

theorem Validated.eq_null {declared : Property} {held : Value}
    (validated : graph.Validated declared .null held) : held = .null := by
  cases validated with
  | null => rfl
  | wrapped _ notNull => exact absurd rfl notNull
  | single _ notNull => exact absurd rfl notNull

/-- Taking a value away always succeeds. -/
theorem leads_setNull (sound : graph.Sound) {property : PropertyId} {declared : Property}
    (offers : graph.Offers id property declared) :
    (setProperty id property .null).Leads graph
      (fun _ changed => changed.Sound ∧ Assigned id property .null graph changed)
      (fun _ => False) := by
  refine (leads_setProperty sound id property .null).imp ?_ ?_
  · intro _ changed outcome
    obtain ⟨changedSound, _, held, -, validated, assigned⟩ := outcome
    rw [validated.eq_null] at assigned
    exact ⟨changedSound, assigned⟩
  · intro changed outcome
    obtain ⟨-, refused⟩ := outcome
    obtain ⟨-, tag, member, -⟩ := refused declared .null offers .null
    cases member

/-- A node without values, in an otherwise equal graph. -/
structure Emptied (id : NodeId) (old new : Graph) : Prop extends SameNodes old new where
  sound : new.Sound
  empty : ∀ property, new.valueAt? id property = none

theorem leads_clearProperties (sound : graph.Sound) {node : Node}
    (found : graph.node? id = some node) :
    (clearProperties id node.properties.keys).Leads graph
      (fun _ changed => Emptied id graph changed) (fun _ => False) := by
  have known (property : PropertyId) (value : Value)
      (isValue : graph.valueAt? id property = some value) : property ∈ node.properties.keys := by
    rw [valueAt?_of_node? found] at isValue
    exact List.mem_map.mpr ⟨_, Table.findIn_mem isValue, rfl⟩
  refine (Change.leads_forEach_progress
    (fun done state => state.Sound ∧ graph.SameNodes state ∧
      ∀ property, property ∈ done ∨ property ∉ node.properties.keys →
        state.valueAt? id property = none) ⟨sound, .refl graph, ?_⟩ ?_).imp ?_
    fun _ stopped => stopped
  · intro property outcome
    obtain done | unknown := outcome
    · cases done
    · cases isValue : graph.valueAt? id property with
      | none => rfl
      | some value => exact absurd (known property value isValue) unknown
  · intro done property rest whole state outcome
    obtain ⟨stateSound, same, cleared⟩ := outcome
    have member : property ∈ node.properties.keys := by simp [whole]
    obtain ⟨value, isValue⟩ := Option.isSome_iff_exists.mp
      (Table.isSome_find?_of_mem_keys member)
    obtain ⟨declared, offers, -⟩ := sound.referenced.held
      ((valueAt?_of_node? found property).trans isValue)
    refine (leads_setNull stateSound (same.offers sound.listed offers)).imp ?_
      fun _ stopped => stopped
    intro _ changed outcome
    obtain ⟨changedSound, assigned⟩ := outcome
    refine ⟨changedSound, same.trans assigned.toSameNodes, fun other isOther => ?_⟩
    rw [assigned.valueAt?]
    split
    · rfl
    · rename_i notIt
      refine cleared other (isOther.imp_left fun isDone => ?_)
      rcases List.mem_append.mp isDone with earlier | last
      · exact earlier
      · exact absurd ⟨rfl, List.mem_singleton.mp last⟩ notIt
  · intro _ changed outcome
    obtain ⟨changedSound, same, cleared⟩ := outcome
    refine ⟨same, changedSound, fun property => cleared property ?_⟩
    by_cases member : property ∈ node.properties.keys
    · exact .inl member
    · exact .inr member

/-! ## The values that hold the node -/

/-- What is left of a value of a node property is accepted. -/
theorem validated_withoutReferences (id : NodeId) {declared : Property} {value : Option Value}
    (isNode : declared.isNode = true)
    (validated : ∀ held, value = some held → graph.Validated declared held held) :
    ∃ left, graph.Validated declared (withoutReferences id value) left ∧ id ∉ left.nodes := by
  cases value with
  | none => exact ⟨.null, .null, List.not_mem_nil⟩
  | some value =>
      have fits := validated value rfl
      cases value with
      | list items =>
          have notAny : declared.dataType ≠ .any := by
            intro isAny
            rw [Property.isNode, isAny] at isNode
            cases isNode
          have list : declared.list = true := by
            cases fits with
            | list list _ => exact list
            | wrapped list _ _ _ => exact list
            | single _ _ anyList _ => exact absurd (anyList items rfl) notAny
          let left := items.filter fun item => item.node? ≠ some id
          refine ⟨.list left, .list list ?_, ?_⟩
          · refine List.forall₂_same.mpr fun item member => ?_
            exact fits.fit?_of_mem_items (List.mem_of_mem_filter member) notAny
          · intro member
            have inLeft : Value.node id ∈ left := (Value.mem_nodes_iff _ id).mp member
            have differs := List.of_mem_filter inLeft
            simp [Value.node?] at differs
      | _ => exact ⟨.null, .null, List.not_mem_nil⟩

/-- A new value without a node only leaves references to it that were there, and none
through the property. -/
theorem Assigned.refersBack {referrer : NodeId} {property : PropertyId} {left : Value}
    {changed : Graph} (sound : graph.Sound) (changedSound : changed.Sound)
    (assigned : Assigned referrer property left graph changed) (without : id ∉ left.nodes)
    {asked : PropertyId} {source : NodeId} (refers : changed.refersBack id asked source = true) :
    graph.refersBack id asked source = true ∧ ¬ (asked = property ∧ source = referrer) := by
  obtain ⟨declared, value, isDeclared, isNode, isValue, member⟩ :=
    (changedSound.referenced.mirrored id asked source).mp refers
  rw [assigned.valueAt?] at isValue
  split at isValue
  · split at isValue
    · cases isValue
    · cases isValue
      exact absurd member without
  · rename_i notIt
    rw [property?_of_types assigned.types] at isDeclared
    exact ⟨(sound.referenced.mirrored id asked source).mpr
      ⟨declared, value, isDeclared, isNode, isValue, member⟩, fun both => notIt ⟨both.2, both.1⟩⟩

/-- A node on its way out: it holds nothing, and no node refers to it that did not. -/
structure Severing (id : NodeId) (start state : Graph) : Prop extends Emptied id start state where
  fewer : ∀ property source, state.refersBack id property source = true →
    start.refersBack id property source = true

theorem leads_dropReferences {start : Graph} (startSound : start.Sound)
    (startEmpty : ∀ property, start.valueAt? id property = none)
    (severing : Severing id start graph) {property : PropertyId} {referrer : NodeId}
    (refers : start.refersBack id property referrer = true) :
    (dropReferences id property referrer).Leads graph
      (fun _ changed => Severing id start changed ∧
        ∀ asked source, changed.refersBack id asked source = true →
          graph.refersBack id asked source = true ∧ ¬ (asked = property ∧ source = referrer))
      (fun _ => False) := by
  obtain ⟨declared, value, isDeclared, isNode, isValue, -⟩ :=
    (startSound.referenced.mirrored id property referrer).mp refers
  obtain ⟨known, startOffers, -⟩ := startSound.referenced.held isValue
  have sameDeclared : known = declared := Option.some.inj (startOffers.1.symm.trans isDeclared)
  subst sameDeclared
  have other : referrer ≠ id := by
    intro same
    obtain rfl := same
    rw [startEmpty] at isValue
    cases isValue
  have offers := severing.offers startSound.listed startOffers
  obtain ⟨own, isOwn, -⟩ := offers.2
  obtain ⟨node, found, -⟩ := (typeOf?_eq_some_iff referrer own).mp isOwn
  -- What is left of an accepted value is accepted, so that nothing can stop the change.
  have accepted (held : Value) (isHeld : node.value? property = some held) :
      graph.Validated known held held := by
    obtain ⟨again, ⟨isAgain, -⟩, -, fits⟩ := severing.sound.referenced.held
      ((valueAt?_of_node? found property).trans isHeld)
    rw [offers.1] at isAgain
    cases isAgain
    exact fits.nodes isNode
  obtain ⟨left, validated, without⟩ := validated_withoutReferences id isNode accepted
  rw [dropReferences]
  refine leads_nodeOrFault_bind (fun gone => ?_) fun same isSame => ?_
  · rw [found] at gone
    cases gone
  obtain rfl := Option.some.inj (found.symm.trans isSame)
  refine (leads_setProperty severing.sound referrer property _).imp ?_ ?_
  · intro _ changed outcome
    obtain ⟨changedSound, again, held, ⟨isAgain, -⟩, validatedToo, assigned⟩ := outcome
    rw [offers.1] at isAgain
    cases isAgain
    have gone : id ∉ held.nodes := by
      rw [validatedToo.nodes_eq, ← validated.nodes_eq]
      exact without
    have refersBack (asked : PropertyId) (source : NodeId)
        (still : changed.refersBack id asked source = true) :=
      assigned.refersBack severing.sound changedSound gone still
    refine ⟨⟨⟨severing.toSameNodes.trans assigned.toSameNodes, changedSound, fun asked => ?_⟩,
      fun asked source still => ?_⟩, refersBack⟩
    · rw [assigned.valueAt?, if_neg fun both => other both.1.symm]
      exact severing.empty asked
    · exact severing.fewer asked source (refersBack asked source still).1
  · intro changed outcome
    obtain ⟨-, refused⟩ := outcome
    obtain ⟨-, tag, member, -⟩ := refused known left offers validated
    rw [validated.tags_of_isNode isNode] at member
    cases member

/-- What is left of the references to a node after some entries were dealt with. -/
theorem leads_dropEntries {start : Graph} (startSound : start.Sound)
    (startEmpty : ∀ property, start.valueAt? id property = none)
    (entries : List (PropertyId × Ascending NodeId))
    (known : ∀ entry ∈ entries, ∀ referrer ∈ entry.2.members,
      start.refersBack id entry.1 referrer = true) (severing : Severing id start graph) :
    (Change.forEach entries fun (property, referrers) =>
      Change.forEach referrers.members fun referrer => dropReferences id property referrer).Leads
        graph
        (fun _ changed => Severing id start changed ∧
          ∀ asked source, changed.refersBack id asked source = true →
            ∀ entry ∈ entries, ¬ (asked = entry.1 ∧ source ∈ entry.2.members))
        (fun _ => False) := by
  refine Change.leads_forEach_progress
    (fun (done : List (PropertyId × Ascending NodeId)) state => Severing id start state ∧
      ∀ asked source, state.refersBack id asked source = true →
        ∀ entry ∈ done, ¬ (asked = entry.1 ∧ source ∈ entry.2.members))
    ⟨severing, fun _ _ _ _ member => by cases member⟩ ?_
  intro done entry rest whole state outcome
  obtain ⟨property, referrers⟩ := entry
  obtain ⟨stateSevering, dealt⟩ := outcome
  have isEntry : (property, referrers) ∈ entries := by simp [whole]
  -- One property after the other, and for each of them one referrer after the other.
  refine (Change.leads_forEach_progress
    (fun doneToo inner => Severing id start inner ∧
      ∀ asked source, inner.refersBack id asked source = true →
        state.refersBack id asked source = true ∧ ¬ (asked = property ∧ source ∈ doneToo))
    ⟨stateSevering, fun _ _ still => ⟨still, fun both => by cases both.2⟩⟩ ?_).imp ?_
    fun _ stopped => stopped
  · intro doneToo referrer restToo wholeToo inner outcome
    obtain ⟨innerSevering, dealtToo⟩ := outcome
    have member : referrer ∈ referrers.members := by simp [wholeToo]
    refine (leads_dropReferences startSound startEmpty innerSevering
      (known _ isEntry referrer member)).imp ?_ fun _ stopped => stopped
    intro _ changed outcome
    obtain ⟨changedSevering, fewer⟩ := outcome
    refine ⟨changedSevering, fun asked source still => ?_⟩
    obtain ⟨before, notIt⟩ := fewer asked source still
    obtain ⟨atStart, notDone⟩ := dealtToo asked source before
    refine ⟨atStart, ?_⟩
    intro given
    obtain ⟨isProperty, inDone⟩ := given
    rcases List.mem_append.mp inDone with earlier | last
    · exact notDone ⟨isProperty, earlier⟩
    · exact notIt ⟨isProperty, List.mem_singleton.mp last⟩
  · intro _ changed outcome
    obtain ⟨changedSevering, fewer⟩ := outcome
    refine ⟨changedSevering, fun asked source still entry member => ?_⟩
    obtain ⟨atStart, notIt⟩ := fewer asked source still
    rcases List.mem_append.mp member with earlier | last
    · exact dealt asked source atStart entry earlier
    · rw [List.mem_singleton.mp last]
      exact notIt

/-! ## Taking the node out -/

/-- A node that holds nothing and that no node refers to can be taken out. -/
theorem Sound.discard (sound : graph.Sound) {node : Node} (found : graph.node? id = some node)
    (unreferred : ∀ property source, graph.refersBack id property source = false)
    (empty : ∀ property, graph.valueAt? id property = none) : (graph.discard node).Sound := by
  have stamp := sound.listed.id_eq found
  have content (other : NodeId) : (graph.discard node).node? other =
      if other = id then none else graph.node? other := by
    rw [node?_discard, stamp]
  have valueAt (other : NodeId) (property : PropertyId) :
      (graph.discard node).valueAt? other property = graph.valueAt? other property := by
    rw [valueAt?, content]
    split
    · rename_i same
      rw [same, empty, Option.bind_none]
    · rfl
  have typeOf {other : NodeId} (different : other ≠ id) :
      (graph.discard node).typeOf? other = graph.typeOf? other := by
    rw [typeOf?, content, if_neg different, typeOf?]
  refine ⟨sound.listed.discard found, ?_, ?_, ?_⟩
  · intro other held isHeld
    rw [content] at isHeld
    split at isHeld
    · cases isHeld
    · exact sound.referenced.sorted isHeld
  · intro other property value isValue
    rw [valueAt] at isValue
    have different : other ≠ id := by
      intro same
      obtain rfl := same
      rw [empty] at isValue
      cases isValue
    have declares : graph.Declares (graph.discard node) := .of_types rfl
    refine (sound.referenced.held isValue).move sound.listed declares (Forest.follows_self _)
      (typeOf different) fun declared isDeclared isNode target member => typeOf ?_
    intro same
    obtain rfl := same
    have refers := (sound.referenced.mirrored target property other).mpr
      ⟨declared, value, isDeclared, isNode, isValue, member⟩
    rw [unreferred] at refers
    cases refers
  · intro target property source
    have back : (graph.discard node).refersBack target property source =
        graph.refersBack target property source := by
      rw [refersBack, content]
      split
      · rename_i same
        rw [same, unreferred, Option.any_none]
      · rfl
    rw [back, sound.referenced.mirrored]
    unfold Refers
    rw [valueAt]
    rfl

/-- A node that is there can always be removed. -/
theorem leads_removeNode (sound : graph.Sound) (id : NodeId) :
    (removeNode id).Leads graph (fun _ changed => changed.Sound)
      (fun changed => changed = graph ∧ graph.node? id = none) := by
  cases found : graph.node? id with
  | none =>
      rw [removeNode]
      refine leads_nodeOrFault_bind (fun _ => ⟨rfl, rfl⟩) fun node isNode => ?_
      rw [found] at isNode
      cases isNode
  | some node =>
      have live {state : Graph} (same : graph.SameNodes state) (gone : state.node? id = none) :
          False := by
        have there := same.isSome_node? id
        rw [found, gone] at there
        cases there
      suffices succeeds : (removeNode id).Leads graph (fun _ changed => changed.Sound)
          (fun _ => False) from succeeds.imp (fun _ _ changedSound => changedSound)
            fun _ stopped => stopped.elim
      rw [removeNode]
      refine leads_nodeOrFault_bind (live (.refl graph)) fun node found => ?_
      refine Change.leads_bind _ (leads_clearProperties sound found) ?_
      intro _ start emptied
      refine leads_nodeOrFault_bind (live emptied.toSameNodes) fun bare isBare => ?_
      -- Only the referrers are left, and each is in the list that is gone through now.
      have sorted := (emptied.sound.referenced.sorted isBare).2
      have back (property : PropertyId) (source : NodeId) :
          start.refersBack id property source = true ↔
            bare.referrers.hasMember property source = true := by
        rw [refersBack, isBare, Option.any_some]
      refine Change.leads_bind _ (leads_dropEntries emptied.sound emptied.empty
        bare.referrers.entries ?_ ⟨⟨.refl start, emptied.sound, emptied.empty⟩,
          fun _ _ refers => refers⟩) ?_
      · intro given isEntry referrer member
        obtain ⟨property, referrers⟩ := given
        rw [back, Table.hasMember_iff]
        exact ⟨referrers, (sorted.mem_entries_iff property referrers).mp isEntry, member⟩
      intro _ left outcome
      obtain ⟨severing, dealt⟩ := outcome
      refine leads_nodeOrFault_bind (live (emptied.toSameNodes.trans severing.toSameNodes))
        fun last isLast => ?_
      refine Change.leads_modify (severing.sound.discard isLast ?_ severing.empty)
      intro property source
      by_contra refers
      have still : left.refersBack id property source = true := by simpa using refers
      obtain ⟨referrers, isEntry, member⟩ := (Table.hasMember_iff property source).mp
        ((back property source).mp (severing.fewer property source still))
      exact dealt property source still (property, referrers)
        ((sorted.mem_entries_iff property referrers).mpr isEntry) ⟨rfl, member⟩

end Graph

end LifecycleGraph
