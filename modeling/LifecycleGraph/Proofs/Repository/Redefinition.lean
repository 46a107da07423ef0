import LifecycleGraph.Proofs.Repository.Integrity

/-!
# Types that are defined anew

Values and referrers are kept under the type that declares a property and the place of the
property there.  Another definition of the type gives these places other properties, and
the nodes keep what they hold.  So the graph stays intact exactly if each place under which
a value is held is given a property that the value suits.
-/

set_option autoImplicit false

namespace LifecycleGraph

namespace Graph

variable {old new : Graph}

theorem node?_of_nodes (nodes : new.nodes = old.nodes) : new.node? = old.node? := by
  funext id
  rw [node?, node?, nodes]

theorem refersBack_of_nodes (nodes : new.nodes = old.nodes) : new.refersBack = old.refersBack := by
  funext target property source
  rw [refersBack, refersBack, node?_of_nodes nodes]

/-- What stands beside a value does not depend on types. -/
theorem Backed.of_nodes (nodes : new.nodes = old.nodes) {holder : NodeId} {node : Node}
    {declared : Property} {value : Value} (backed : old.Backed holder node declared value) :
    new.Backed holder node declared value := by
  refine ⟨fun isNode target member => ?_, backed.tags⟩
  rw [refersBack_of_nodes nodes]
  exact backed.nodes isNode target member

theorem property?_of_type? {id : PropertyId} (types : new.type? id.owner = old.type? id.owner) :
    new.property? id = old.property? id := by
  rw [property?, property?, types]

/-- What is held under a type is backed under the properties of another graph. -/
def Upheld (old new : Graph) (id : TypeId) : Prop :=
  ∀ holder node slot value, old.node? holder = some node → node.value? ⟨id, slot⟩ = some value →
    ∃ declared, new.property? ⟨id, slot⟩ = some declared ∧ old.Backed holder node declared value

/-- Where only one type is another, an intact graph stays so exactly if what is held under the
type is upheld. -/
theorem Intact.redefined_iff (intact : old.Intact) {id : TypeId} (nodes : new.nodes = old.nodes)
    (others : ∀ other, other ≠ id → new.type? other = old.type? other) :
    new.Intact ↔ old.Upheld new id := by
  constructor
  · intro newIntact holder node slot value found isValue
    rw [← node?_of_nodes nodes] at found
    obtain ⟨declared, isDeclared, backed⟩ := newIntact.held found isValue
    exact ⟨declared, isDeclared, backed.of_nodes nodes.symm⟩
  · refine fun upheld => ⟨fun {holder node property value} found isValue => ?_,
      fun {target property source} refers => ?_⟩
    · rw [node?_of_nodes nodes] at found
      obtain ⟨owner, slot⟩ := property
      by_cases same : owner = id
      · rw [same] at isValue ⊢
        obtain ⟨declared, isDeclared, backed⟩ := upheld holder node slot value found isValue
        exact ⟨declared, isDeclared, backed.of_nodes nodes⟩
      · obtain ⟨declared, isDeclared, backed⟩ := intact.held found isValue
        rw [← property?_of_type? (others owner same)] at isDeclared
        exact ⟨declared, isDeclared, backed.of_nodes nodes⟩
    · rw [refersBack_of_nodes nodes] at refers
      rw [valueAt?, node?_of_nodes nodes]
      exact intact.referred refers

/-- Values under places that are given properties again, of nodes or of tags only if they were
so before, are upheld. -/
theorem Intact.upheld (intact : old.Intact) (oldTyped : old.Typed) (newTyped : new.Typed)
    {id : TypeId}
    (kinds : ∀ holder node slot value, old.node? holder = some node →
      node.value? ⟨id, slot⟩ = some value →
        ∃ before declared, old.property? ⟨id, slot⟩ = some before ∧
          new.property? ⟨id, slot⟩ = some declared ∧
          (declared.isNode = true → before.isNode = true) ∧
          (declared.isTag = true → before.isTag = true)) : old.Upheld new id := by
  intro holder node slot value found isValue
  obtain ⟨before, declared, isBefore, isDeclared, nodes, tags⟩ :=
    kinds holder node slot value found isValue
  obtain ⟨again, isAgain, backed⟩ := intact.held found isValue
  obtain rfl := Option.some.inj (isBefore.symm.trans isAgain)
  refine ⟨declared, isDeclared, fun isNode target member => ?_, fun isTag => backed.tags (tags isTag)⟩
  rw [newTyped.id_of_property? isDeclared, ← oldTyped.id_of_property? isBefore]
  exact backed.nodes (nodes isNode) target member

end Graph

namespace Repository

open Graph

variable {repository : Repository}

/-- Defining a declared type anew keeps the integrity of a repository exactly if every place of
the type under which a value is held has a property again that the value suits: the nodes in
it know its holder if this is a node property, and its tags are in the flat list if it is a
tag property.  This is so if each such place has a property again that is one of nodes or of
tags only if the one before was. -/
theorem checkIntegrity_redefined (reachable : Reachable repository)
    (intact : repository.graph.checkIntegrity = .ok ()) {name : String} {id answer : TypeId}
    {declaration : TypeDeclaration} {changed : Repository}
    (known : repository.graph.typeId? name = some id)
    (redefined : (addNodeType name declaration).apply repository = (.ok answer, changed)) :
    (changed.graph.checkIntegrity = .ok () ↔ repository.graph.Upheld changed.graph id) ∧
    ((∀ holder node slot value, repository.graph.node? holder = some node →
        node.value? ⟨id, slot⟩ = some value →
          ∃ before declared, repository.graph.property? ⟨id, slot⟩ = some before ∧
            changed.graph.property? ⟨id, slot⟩ = some declared ∧
            (declared.isNode = true → before.isNode = true) ∧
            (declared.isTag = true → before.isTag = true)) →
      changed.graph.checkIntegrity = .ok ()) := by
  have further : Reachable changed := by
    have step : Reachable (((Operation.addNodeType name declaration).perform).apply repository).2 :=
      reachable.step trivial
    rwa [Operation.perform, Change.apply_bind_pure, redefined] at step
  have defines : Defines name repository.graph changed.graph := by
    have leads := leads_addNodeType name declaration repository
    rwa [Change.Leads, redefined] at leads
  have before := (Reached.checkIntegrity_eq_ok_iff reachable).mp intact
  have upholds : changed.graph.checkIntegrity = .ok () ↔
      repository.graph.Upheld changed.graph id :=
    (Reached.checkIntegrity_eq_ok_iff further).trans
      (before.redefined_iff defines.reshapes.nodes (defines.others id known))
  exact ⟨upholds, fun kinds => upholds.mpr
    (before.upheld (Reached.listed reachable).schema (Reached.listed further).schema kinds)⟩

/-- A type with a title and a list of needed nodes, and two nodes of which one needs the
other. -/
def needingJob : Repository :=
  Operation.run
    [.addNodeType "job" ⟨none, "", [("title", .text "string"),
        ("needs", .object [("type", .text "job"), ("list", .boolean true)])]⟩,
      .mutate (.addNode ⟨0⟩ "a"), .mutate (.addNode ⟨0⟩ "b"),
      .mutate (.setProperty ⟨0⟩ ⟨⟨0⟩, 1⟩ (.list [.node ⟨1⟩, .node ⟨0⟩]))]
    .empty

theorem reachable_needingJob : Reachable needingJob :=
  reachable_run _

/-- Another definition of the type: the place of the title takes tags, and that of the needed
nodes takes anything. -/
def loosely : TypeDeclaration :=
  ⟨none, "", [("label", .text "tag"), ("uses", .object [("type", .text "any")]),
    ("needs", .text "job")]⟩

theorem checkIntegrity_redefined_needingJob :
    needingJob.graph.checkIntegrity = .ok () ∧ needingJob.graph.typeId? "job" = some ⟨0⟩ ∧
    ∃ changed, (addNodeType "job" loosely).apply needingJob = (.ok ⟨0⟩, changed) ∧
      changed.graph.checkIntegrity = .ok () := by
  have intact : needingJob.graph.checkIntegrity = .ok () :=
    eq_ok_of_toOption (by decide)
  have known : needingJob.graph.typeId? "job" = some ⟨0⟩ := by decide
  have answered : ((addNodeType "job" loosely).apply needingJob).1 = .ok ⟨0⟩ :=
    eq_ok_of_toOption (by decide)
  let changed := ((addNodeType "job" loosely).apply needingJob).2
  have redefined : (addNodeType "job" loosely).apply needingJob = (.ok ⟨0⟩, changed) :=
    Prod.ext answered rfl
  refine ⟨intact, known, changed, redefined, ?_⟩
  refine (checkIntegrity_redefined reachable_needingJob intact known redefined).2 ?_
  intro holder node slot value found isValue
  have held : ∀ node ∈ needingJob.graph.nodes.values, ∀ property ∈ node.properties.keys,
      property = ⟨⟨0⟩, 1⟩ := by
    decide
  have place := held node ((needingJob.graph.nodes.mem_values_iff node).mpr ⟨holder.index, found⟩)
    ⟨⟨0⟩, slot⟩ (List.mem_map.mpr ⟨_, Table.findIn_mem isValue, rfl⟩)
  rw [place]
  have isBefore : (needingJob.graph.property? ⟨⟨0⟩, 1⟩).isSome = true := by decide
  have isNow : (changed.graph.property? ⟨⟨0⟩, 1⟩).any
      (fun declared => !declared.isNode && !declared.isTag) = true := by
    decide
  obtain ⟨before, isBefore⟩ := Option.isSome_iff_exists.mp isBefore
  obtain ⟨declared, isDeclared, kind⟩ := (Option.any_eq_true _ _).mp isNow
  obtain ⟨notNode, notTag⟩ := by simpa using kind
  exact ⟨before, declared, isBefore, isDeclared, fun isNode => by simp [notNode] at isNode,
    fun isTag => by simp [notTag] at isTag⟩

/-- Without a property in the place of the needed nodes the repository fails the check, though
the definition was accepted. -/
theorem integrity_lost_by_redefinition :
    Reachable needingJob ∧ needingJob.graph.checkIntegrity.toOption = some () ∧
    needingJob.graph.typeId? "job" = some ⟨0⟩ ∧
    ((addNodeType "job" ⟨none, "", []⟩).apply needingJob).1.toOption = some ⟨0⟩ ∧
    ((addNodeType "job" ⟨none, "", []⟩).apply needingJob).2.graph.checkIntegrity.toOption = none :=
  ⟨reachable_needingJob, by decide, by decide, by decide,
    by decide⟩

end Repository

end LifecycleGraph
