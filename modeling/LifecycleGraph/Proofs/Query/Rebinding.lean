import Mathlib.Data.List.Forall2
import LifecycleGraph.Proofs.Repository.Recall
import LifecycleGraph.Query.Evaluation

/-!
# Queries that are bound again

A bound query holds the nodes that its right-hand sides were read as, and looks up other names
when it is used.  Changes of nodes leave what it holds: bound again, it is the same query exactly
if every node that it holds is still there.  A node that was removed and added again under its
name is another one, which only the query that is bound again compares with.
-/

set_option autoImplicit false

namespace LifecycleGraph

/-! ## The nodes that a query holds -/

/-- The node that a right-hand side was read as. -/
def Operand.node? : Operand → Option NodeId
  | .literal value _ => value.node?
  | .deferred _ => none

mutual
/-- The nodes that a bound condition holds. -/
def Expression.nodes : Expression → List NodeId
  | .everything => []
  | .nothing => []
  | .all terms => Expression.nodesAll terms
  | .any terms => Expression.nodesAll terms
  | .negation term => term.nodes
  | .type .. => []
  | .state .. => []
  | .name _ => []
  | .relation _ _ operands => operands.filterMap Operand.node?
  | .application _ _ body => body.nodes

def Expression.nodesAll : List Expression → List NodeId
  | [] => []
  | term :: rest => term.nodes ++ Expression.nodesAll rest
end

def Query.nodes (query : Query) : List NodeId := (query.bound.map Expression.nodes).getD []

/-! ## Paths -/

section Types

variable {old new : Graph} (types : new.types = old.types)

include types

theorem PathStep.candidates_of_types (step : PathStep) (needNode : Bool)
    (context : Option (List TypeId)) :
    step.candidates new needNode context = step.candidates old needNode context := by
  have reachable : PathStep.reachable new = PathStep.reachable old := by
    funext context candidate
    simp only [PathStep.reachable, Graph.isSubtype_of_types types]
  rw [candidates, candidates, types, reachable]

theorem PathStep.nextContext_of_types (candidates : List Candidate) :
    nextContext new candidates = nextContext old candidates := by
  rw [nextContext, nextContext, Graph.subtypes_of_types types]

theorem BoundPath.resolveFrom_of_types (needNode : Bool) (path : List PathStep)
    (context : Option (List TypeId)) :
    resolveFrom new needNode context path = resolveFrom old needNode context path := by
  induction path generalizing context with
  | nil => rfl
  | cons step rest inductionHypothesis =>
      simp only [resolveFrom, PathStep.candidates_of_types types,
        PathStep.nextContext_of_types types, inductionHypothesis]

theorem BoundPath.resolve_of_types (path : List PathStep) (needNode : Bool) :
    resolve new path needNode = resolve old path needNode := by
  rw [resolve, resolve, resolveFrom_of_types types]

end Types

/-! ## Questions that are asked again -/

/-- What two questions answer is related, where both of them are answered. -/
def Agree {ε α : Type} (related : α → α → Prop) (first second : Except ε α) : Prop :=
  ∀ one two, first = .ok one → second = .ok two → related one two

namespace Agree

variable {ε α β : Type} {related : α → α → Prop} {outcome : β → β → Prop}

theorem ok {one two : α} (holds : related one two) :
    Agree related (.ok one : Except ε α) (.ok two) := by
  rintro _ _ ⟨⟩ ⟨⟩
  exact holds

theorem self (question : Except ε α) : Agree Eq question question :=
  fun _ _ isOne isTwo => Except.ok.inj (isOne.symm.trans isTwo)

theorem bind {first second : Except ε α} {next further : α → Except ε β}
    (agree : Agree related first second)
    (onwards : ∀ one two, related one two → Agree outcome (next one) (further two)) :
    Agree outcome (first >>= next) (second >>= further) := by
  intro answer other isAnswer isOther
  obtain ⟨one, isOne, isAnswer⟩ := exists_of_bind_eq_ok isAnswer
  obtain ⟨two, isTwo, isOther⟩ := exists_of_bind_eq_ok isOther
  exact onwards one two (agree one two isOne isTwo) answer other isAnswer isOther

end Agree

/-! ## Parts that are bound again -/

/-- Lists whose members are pairwise the same where something holds are the same where it holds
of all. -/
theorem forall₂_eq_iff {α : Type} {holds : α → Prop} {first second : List α}
    (each : List.Forall₂ (fun one two => two = one ↔ holds one) first second) :
    second = first ↔ ∀ member ∈ first, holds member := by
  induction each with
  | nil => simp
  | cons same _ inductionHypothesis =>
      rw [List.cons.injEq, same, inductionHypothesis, List.forall_mem_cons]

theorem Expression.mem_nodesAll_iff (terms : List Expression) (id : NodeId) :
    id ∈ nodesAll terms ↔ ∃ term ∈ terms, id ∈ term.nodes := by
  induction terms with
  | nil => simp [nodesAll]
  | cons term rest inductionHypothesis => simp [nodesAll, inductionHypothesis]

/-- The second condition is the first one bound again: it is the same, exactly if each node that
this holds is there. -/
def Renews (live : NodeId → Prop) (stored rebound : Expression) : Prop :=
  rebound = stored ↔ ∀ id ∈ stored.nodes, live id

/-- The second right-hand side is the first one bound again. -/
def Operand.Renews (live : NodeId → Prop) (stored rebound : Operand) : Prop :=
  rebound = stored ↔ ∀ id, stored.node? = some id → live id

namespace Renews

variable {live : NodeId → Prop}

theorem of_no_nodes {expression : Expression} (none : expression.nodes = []) :
    Renews live expression expression := by simp [Renews, none]

theorem all_iff {stored rebound : List Expression}
    (renew : List.Forall₂ (Renews live) stored rebound) :
    rebound = stored ↔ ∀ id ∈ Expression.nodesAll stored, live id := by
  rw [forall₂_eq_iff renew]
  simp only [Expression.mem_nodesAll_iff]
  exact ⟨fun each id ⟨term, member, held⟩ => each term member id held,
    fun each term member id held => each id ⟨term, member, held⟩⟩

/-- Terms that are joined are bound again where each of them is. -/
theorem joined {join : List Expression → Expression} {empty : Option Expression}
    (injective : Function.Injective join)
    (nodes : ∀ terms, (join terms).nodes = Expression.nodesAll terms)
    (none : ∀ expression, empty = some expression → expression.nodes = [])
    {stored rebound : List Expression} (renew : List.Forall₂ (Renews live) stored rebound) :
    Option.Rel (Renews live) (Repository.joinTerms join empty stored)
      (Repository.joinTerms join empty rebound) := by
  have whole := all_iff renew
  cases renew with
  | nil =>
      cases empty with
      | none => exact .none
      | some expression => exact .some (of_no_nodes (none expression rfl))
  | cons renews others =>
      cases others with
      | nil => exact .some renews
      | cons more rest =>
          refine .some ?_
          rw [Renews, nodes, injective.eq_iff, whole]

theorem related {path : BoundPath} {relation : Relation} {stored rebound : List Operand}
    (renew : List.Forall₂ (Operand.Renews live) stored rebound) :
    Renews live (.relation path relation stored) (.relation path relation rebound) := by
  rw [Renews, Expression.nodes, Expression.relation.injEq]
  simp only [true_and, forall₂_eq_iff renew, List.mem_filterMap]
  exact ⟨fun each id ⟨operand, member, held⟩ => each operand member id held,
    fun each operand member id held => each id ⟨operand, member, held⟩⟩

theorem negated {stored rebound : Expression} (renews : Renews live stored rebound) :
    Renews live (.negation stored) (.negation rebound) := by
  rw [Renews, Expression.nodes, Expression.negation.injEq]
  exact renews

theorem applied {path : BoundPath} {mode : MatchMode} {stored rebound : Option Expression}
    (renew : Option.Rel (Renews live) stored rebound) :
    Option.Rel (Renews live) (stored.map (.application path mode))
      (rebound.map (.application path mode)) := by
  cases renew with
  | none => exact .none
  | some renews =>
      refine .some ?_
      rw [Renews, Expression.nodes, Expression.application.injEq]
      simp only [true_and]
      exact renews

end Renews

/-! ## Binding again -/

namespace Repository

variable {old new : Repository}

theorem nodes_of_bindIdentifier {identifier : Identifier} {expression : Expression}
    (bound : old.bindIdentifier identifier = .ok expression) : expression.nodes = [] := by
  cases identifier with
  | name name =>
      rw [bindIdentifier] at bound
      split at bound
      · cases bound
        rfl
      · split at bound <;> cases bound <;> rfl
  | dotted names =>
      cases bound
      rfl
  | qualified ns name =>
      rw [bindIdentifier] at bound
      split at bound <;> cases bound
      rfl

theorem Repeopled.bindIdentifier_eq (repeopled : old.Repeopled new) (identifier : Identifier) :
    new.bindIdentifier identifier = old.bindIdentifier identifier := by
  have typeIds := Graph.typeId?_of_types repeopled.declared.types
  have stateIds : new.graph.stateId? = old.graph.stateId? := by
    funext name
    rw [Graph.stateId?, Graph.stateId?, repeopled.declared.states]
  cases identifier <;> simp only [bindIdentifier, typeIds, stateIds]

theorem Repeopled.resolve_eq (repeopled : old.Repeopled new) (path : List PathStep)
    (needNode : Bool) :
    BoundPath.resolve new.graph path needNode = BoundPath.resolve old.graph path needNode :=
  BoundPath.resolve_of_types repeopled.declared.types path needNode

theorem agree_bindOperand (repeopled : old.Repeopled new)
    (discerning : old.converters.Discerning) (type : Option DataType) (literal : Literal) :
    Agree (Operand.Renews new.graph.Live) (old.bindOperand type literal)
      (new.bindOperand type literal) := by
  cases type with
  | none => exact .ok (by simp [Operand.Renews, Operand.node?])
  | some type =>
      intro stored rebound bound again
      simp only [bindOperand] at bound again
      split at bound
      · rename_i value before
        split at again
        · rename_i read after
          cases bound
          cases again
          have same := repeopled.decodeText_again discerning before after
          simpa [Operand.Renews, Operand.node?] using same
        · cases again
      · cases bound

theorem agree_bindOperands (repeopled : old.Repeopled new)
    (discerning : old.converters.Discerning) (type : Option DataType) (literals : List Literal) :
    Agree (List.Forall₂ (Operand.Renews new.graph.Live)) (old.bindOperands type literals)
      (new.bindOperands type literals) := by
  induction literals with
  | nil => exact .ok .nil
  | cons literal rest inductionHypothesis =>
      refine (agree_bindOperand repeopled discerning type literal).bind fun one two renews => ?_
      exact inductionHypothesis.bind fun ones twos renew => .ok (.cons renews renew)

mutual
/-- A condition that can be bound again is the same, but for nodes that are gone. -/
theorem agree_bindCondition (repeopled : old.Repeopled new)
    (discerning : old.converters.Discerning) (condition : Condition) :
    Agree (Option.Rel (Renews new.graph.Live)) (old.bindCondition condition)
      (new.bindCondition condition) := by
  cases condition with
  | any terms =>
      rw [bindCondition, bindCondition]
      refine (agree_bindAny repeopled discerning terms).bind fun one two renew => .ok ?_
      exact Renews.joined (fun _ _ => Expression.any.inj) (fun _ => rfl) (by rintro _ ⟨⟩) renew
  | all terms =>
      rw [bindCondition, bindCondition]
      refine (agree_bindAll repeopled discerning terms).bind fun one two bound => ?_
      cases bound with
      | none => exact .ok .none
      | some renew =>
          refine .ok (Renews.joined (fun _ _ => Expression.all.inj) (fun _ => rfl) ?_ renew)
          rintro _ ⟨⟩
          rfl
  | negation term =>
      rw [bindCondition, bindCondition]
      refine (agree_bindCondition repeopled discerning term).bind fun one two bound => ?_
      cases bound with
      | none => exact .ok (.some (.of_no_nodes rfl))
      | some renews => exact .ok (.some (.negated renews))
  | predicate identifier =>
      rw [bindCondition, bindCondition, repeopled.bindIdentifier_eq]
      intro stored rebound bound again
      obtain ⟨expression, isBound, rfl⟩ := exists_of_map_eq_ok bound
      obtain ⟨same, isSame, rfl⟩ := exists_of_map_eq_ok again
      obtain rfl := Except.ok.inj (isBound.symm.trans isSame)
      exact .some (.of_no_nodes (nodes_of_bindIdentifier isBound))
  | relation path relation literals =>
      rw [bindCondition, bindCondition, repeopled.resolve_eq]
      refine (Agree.self _).bind fun path same samePath => ?_
      subst samePath
      exact (agree_bindOperands repeopled discerning path.valueType literals).bind
        fun one two renew => .ok (.some (.related renew))
  | application path mode body =>
      rw [bindCondition, bindCondition, repeopled.resolve_eq]
      refine (Agree.self _).bind fun path same samePath => ?_
      subst samePath
      exact (agree_bindCondition repeopled discerning body).bind fun one two bound =>
        .ok (Renews.applied bound)

theorem agree_bindAny (repeopled : old.Repeopled new)
    (discerning : old.converters.Discerning) (terms : List Condition) :
    Agree (List.Forall₂ (Renews new.graph.Live)) (old.bindAny terms) (new.bindAny terms) := by
  cases terms with
  | nil =>
      rw [bindAny, bindAny]
      exact .ok .nil
  | cons term rest =>
      rw [bindAny, bindAny]
      refine (agree_bindCondition repeopled discerning term).bind fun one two bound =>
        (agree_bindAny repeopled discerning rest).bind fun ones twos renew => .ok ?_
      cases bound with
      | none => exact renew
      | some renews => exact .cons renews renew

theorem agree_bindAll (repeopled : old.Repeopled new)
    (discerning : old.converters.Discerning) (terms : List Condition) :
    Agree (Option.Rel (List.Forall₂ (Renews new.graph.Live))) (old.bindAll terms)
      (new.bindAll terms) := by
  cases terms with
  | nil =>
      rw [bindAll, bindAll]
      exact .ok (.some .nil)
  | cons term rest =>
      rw [bindAll, bindAll]
      refine (agree_bindCondition repeopled discerning term).bind fun one two bound => ?_
      cases bound with
      | none => exact .ok .none
      | some renews =>
          refine (agree_bindAll repeopled discerning rest).bind fun ones twos others => .ok ?_
          cases others with
          | none => exact .none
          | some renew => exact .some (.cons renews renew)
end

theorem agree_bind (repeopled : old.Repeopled new) (discerning : old.converters.Discerning)
    (query : Query) : Agree (Renews new.graph.Live) (old.bind query) (new.bind query) := by
  rw [bind, bind]
  cases query.condition with
  | none => exact .ok (.of_no_nodes rfl)
  | some condition =>
      intro stored rebound bound again
      obtain ⟨one, isOne, rfl⟩ := exists_of_map_eq_ok bound
      obtain ⟨two, isTwo, rfl⟩ := exists_of_map_eq_ok again
      cases agree_bindCondition repeopled discerning condition one two isOne isTwo with
      | none => exact .of_no_nodes rfl
      | some renews => exact renews

/-! ## Nodes that come and go -/

/-- A query that can be bound again after changes of nodes is the same one, exactly if each node
that it holds is still there. -/
theorem Repeopled.rebind_eq_iff (repeopled : old.Repeopled new)
    (discerning : old.converters.Discerning) {query stored rebound : Query}
    (bound : old.rebind query = .ok stored) (again : new.rebind query = .ok rebound) :
    rebound = stored ↔ ∀ id ∈ stored.nodes, new.graph.Live id := by
  obtain ⟨expression, isBound, rfl⟩ := exists_of_map_eq_ok bound
  obtain ⟨renewed, isRenewed, rfl⟩ := exists_of_map_eq_ok again
  have renews : renewed = expression ↔ ∀ id ∈ expression.nodes, new.graph.Live id :=
    agree_bind repeopled discerning query _ _ isBound isRenewed
  exact Iff.trans (by simp [Query.setBound]) renews

/-- What a query is bound to depends on its condition alone. -/
theorem rebind_of_rebound {repository changed : Repository} {query stored : Query}
    (bound : repository.rebind query = .ok stored) :
    changed.rebind stored = changed.rebind query := by
  obtain ⟨expression, -, rfl⟩ := exists_of_map_eq_ok bound
  rfl

/-- After changes of nodes a query that can be bound again is the stored one exactly if every node
that this holds is still there; then both of them accept the same nodes.  Bound again, it holds
only nodes that are there. -/
theorem rebind_again {repository : Repository} (reachable : Reachable repository)
    (discerning : repository.converters.Discerning) {query stored : Query}
    (bound : repository.rebind query = .ok stored) {mutations : List Mutation}
    (ofNodes : ∀ mutation ∈ mutations, mutation.OfNodes) :
    let changed := Operation.run (mutations.map .mutate) repository
    ∀ rebound, changed.rebind stored = .ok rebound →
      (rebound = stored ↔ ∀ id ∈ stored.nodes, changed.graph.Live id) ∧
      ((∀ id ∈ stored.nodes, changed.graph.Live id) →
        ∀ id, changed.satisfies rebound id = changed.satisfies stored id) ∧
      ∀ id ∈ rebound.nodes, changed.graph.Live id := by
  intro changed rebound again
  have repeopled : repository.Repeopled changed := repeopled_run reachable ofNodes
  rw [rebind_of_rebound bound] at again
  have same := repeopled.rebind_eq_iff discerning bound again
  have still : changed.Repeopled changed := .refl repeopled.newListed
  have live := still.rebind_eq_iff (repeopled.converters ▸ discerning) again again
  exact ⟨same, fun each id => by rw [same.mpr each], live.mp rfl⟩

/-- Jobs that need a node, and two of them. -/
def needyJobs : Repository :=
  Operation.run
    [.addNodeType "job" ⟨none, "", [("needs", .text "node")]⟩, .mutate (.addNode ⟨0⟩ "a"),
      .mutate (.addNode ⟨0⟩ "b")]
    .empty

theorem reachable_needyJobs : Reachable needyJobs :=
  reachable_run _

/-- Others than the needed job come and go. -/
def othersRenewed : List Mutation :=
  [.addNode ⟨0⟩ "c", .setProperty ⟨2⟩ ⟨⟨0⟩, 0⟩ (.node ⟨1⟩), .removeNode ⟨0⟩, .addNode ⟨0⟩ "a"]

/-- The needed job is removed and added again, and then it is needed. -/
def needRenewed : List Mutation :=
  [.removeNode ⟨1⟩, .addNode ⟨0⟩ "b", .setProperty ⟨0⟩ ⟨⟨0⟩, 0⟩ (.node ⟨2⟩)]

/-- A query for what needs b holds the job b, and is bound again to the same while this is
there. -/
theorem rebind_again_othersRenewed :
    let changed := Operation.run (othersRenewed.map .mutate) needyJobs
    ∃ query stored, Query.parse "needs=b" = .ok query ∧ needyJobs.rebind query = .ok stored ∧
      stored.nodes = [⟨1⟩] ∧ changed.rebind stored = .ok stored := by
  intro changed
  have outcome : (do
      let query ← (Query.parse "needs=b").toOption
      let stored ← (needyJobs.rebind query).toOption
      let _ ← (changed.rebind stored).toOption
      some stored.nodes) = some [⟨1⟩] := by
    decide +kernel
  obtain ⟨query, parsed, outcome⟩ := Option.bind_eq_some_iff.mp outcome
  obtain ⟨stored, bound, outcome⟩ := Option.bind_eq_some_iff.mp outcome
  obtain ⟨rebound, again, outcome⟩ := Option.bind_eq_some_iff.mp outcome
  have holds : stored.nodes = [⟨1⟩] := Option.some.inj outcome
  have isBound : needyJobs.rebind query = .ok stored := eq_ok_of_toOption bound
  have isRebound : changed.rebind stored = .ok rebound := eq_ok_of_toOption again
  have discerning : needyJobs.converters.Discerning := Converters.discerning_builtIn
  have ofNodes : ∀ mutation ∈ othersRenewed, mutation.OfNodes := by
    simp [othersRenewed, Mutation.OfNodes]
  have live : changed.graph.Live ⟨1⟩ := by
    rw [Graph.Live]
    decide +kernel
  have same : rebound = stored :=
    (rebind_again reachable_needyJobs discerning isBound ofNodes rebound isRebound).1.mpr
      (by simpa [holds] using live)
  exact ⟨query, stored, eq_ok_of_toOption parsed, isBound, holds, same ▸ isRebound⟩

/-- Bound before the job b was added anew, the query does not find that the job a needs it; bound
again, it does. -/
theorem stored_query_misses_renewed_node :
    let changed := Operation.run (needRenewed.map .mutate) needyJobs
    Reachable needyJobs ∧ (∀ mutation ∈ needRenewed, mutation.OfNodes) ∧
      ∃ query stored rebound, Query.parse "needs=b" = .ok query ∧
        needyJobs.rebind query = .ok stored ∧ changed.rebind stored = .ok rebound ∧
        changed.graph.Live ⟨0⟩ ∧ changed.satisfies stored ⟨0⟩ = .ok false ∧
        changed.satisfies rebound ⟨0⟩ = .ok true := by
  intro changed
  have outcome : (do
      let query ← (Query.parse "needs=b").toOption
      let stored ← (needyJobs.rebind query).toOption
      let rebound ← (changed.rebind stored).toOption
      let before ← (changed.satisfies stored ⟨0⟩).toOption
      let now ← (changed.satisfies rebound ⟨0⟩).toOption
      some (before, now)) = some (false, true) := by
    decide +kernel
  obtain ⟨query, parsed, outcome⟩ := Option.bind_eq_some_iff.mp outcome
  obtain ⟨stored, bound, outcome⟩ := Option.bind_eq_some_iff.mp outcome
  obtain ⟨rebound, again, outcome⟩ := Option.bind_eq_some_iff.mp outcome
  obtain ⟨before, isBefore, outcome⟩ := Option.bind_eq_some_iff.mp outcome
  obtain ⟨now, isNow, outcome⟩ := Option.bind_eq_some_iff.mp outcome
  obtain ⟨rfl, rfl⟩ := Prod.mk.inj (Option.some.inj outcome)
  have live : changed.graph.Live ⟨0⟩ := by
    rw [Graph.Live]
    decide +kernel
  exact ⟨reachable_needyJobs, by simp [needRenewed, Mutation.OfNodes], query, stored, rebound,
    eq_ok_of_toOption parsed, eq_ok_of_toOption bound, eq_ok_of_toOption again, live,
    eq_ok_of_toOption isBefore, eq_ok_of_toOption isNow⟩

end Repository

end LifecycleGraph
