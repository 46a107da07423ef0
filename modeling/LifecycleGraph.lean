import LifecycleGraph.Change
import LifecycleGraph.Collection.Arena
import LifecycleGraph.Collection.Ascending
import LifecycleGraph.Collection.Distinct
import LifecycleGraph.Collection.Named
import LifecycleGraph.Collection.Roster
import LifecycleGraph.Collection.Sorted
import LifecycleGraph.Collection.Table
import LifecycleGraph.Collection.Total
import LifecycleGraph.Configuration.Content
import LifecycleGraph.Configuration.Declaration
import LifecycleGraph.Configuration.Record
import LifecycleGraph.DataType
import LifecycleGraph.Decimal.Layout
import LifecycleGraph.Decimal.Reader
import LifecycleGraph.Decimal.Shortest
import LifecycleGraph.Decimal.Whole
import LifecycleGraph.Decimal.Word
import LifecycleGraph.Engine.Basic
import LifecycleGraph.Engine.Commit
import LifecycleGraph.Engine.Proposal
import LifecycleGraph.Engine.Service
import LifecycleGraph.Fault
import LifecycleGraph.Graph.Assignment
import LifecycleGraph.Graph.Basic
import LifecycleGraph.Graph.Index
import LifecycleGraph.Graph.Integrity
import LifecycleGraph.Graph.Label
import LifecycleGraph.Graph.Membership
import LifecycleGraph.Graph.Node
import LifecycleGraph.Graph.Removal
import LifecycleGraph.Graph.Schema
import LifecycleGraph.Graph.State
import LifecycleGraph.Handle
import LifecycleGraph.Json.Basic
import LifecycleGraph.Json.Printer
import LifecycleGraph.Json.Reader
import LifecycleGraph.Proofs.Change
import LifecycleGraph.Proofs.Collection
import LifecycleGraph.Proofs.Decimal.Comparison
import LifecycleGraph.Proofs.Decimal.Exact
import LifecycleGraph.Proofs.Engine.Audit
import LifecycleGraph.Proofs.Engine.Commit
import LifecycleGraph.Proofs.Engine.Conclusion
import LifecycleGraph.Proofs.Engine.Descent
import LifecycleGraph.Proofs.Engine.Guard
import LifecycleGraph.Proofs.Engine.Lasting
import LifecycleGraph.Proofs.Engine.Notification
import LifecycleGraph.Proofs.Engine.Proposal
import LifecycleGraph.Proofs.Engine.Rest
import LifecycleGraph.Proofs.Engine.Round
import LifecycleGraph.Proofs.Engine.Settling
import LifecycleGraph.Proofs.Engine.Stopping
import LifecycleGraph.Proofs.Engine.Trace
import LifecycleGraph.Proofs.Engine.Update
import LifecycleGraph.Proofs.Forest.Creation
import LifecycleGraph.Proofs.Forest.Growth
import LifecycleGraph.Proofs.Forest.Lineage
import LifecycleGraph.Proofs.Forest.Lookup
import LifecycleGraph.Proofs.Forest.Path
import LifecycleGraph.Proofs.Forest.Removal
import LifecycleGraph.Proofs.Forest.Run
import LifecycleGraph.Proofs.Forest.Walk
import LifecycleGraph.Proofs.Graph.Assignment
import LifecycleGraph.Proofs.Graph.BaseChain
import LifecycleGraph.Proofs.Graph.Covering
import LifecycleGraph.Proofs.Graph.Index
import LifecycleGraph.Proofs.Graph.Membership
import LifecycleGraph.Proofs.Graph.NodeRemoval
import LifecycleGraph.Proofs.Graph.Population
import LifecycleGraph.Proofs.Graph.Reference
import LifecycleGraph.Proofs.Graph.Schema
import LifecycleGraph.Proofs.Graph.TagRemoval
import LifecycleGraph.Proofs.Graph.Validation
import LifecycleGraph.Proofs.Query.Answer
import LifecycleGraph.Proofs.Query.Blindness
import LifecycleGraph.Proofs.Query.Executor
import LifecycleGraph.Proofs.Query.Leaf
import LifecycleGraph.Proofs.Query.Meaning
import LifecycleGraph.Proofs.Query.Negation
import LifecycleGraph.Proofs.Query.Parser
import LifecycleGraph.Proofs.Query.Path
import LifecycleGraph.Proofs.Query.Printer
import LifecycleGraph.Proofs.Query.Rearrangement
import LifecycleGraph.Proofs.Query.Rebinding
import LifecycleGraph.Proofs.Query.RoundTrip
import LifecycleGraph.Proofs.Query.Stateless
import LifecycleGraph.Proofs.Query.Token
import LifecycleGraph.Proofs.Repository.Addition
import LifecycleGraph.Proofs.Repository.Atomicity
import LifecycleGraph.Proofs.Repository.Content
import LifecycleGraph.Proofs.Repository.Conversion
import LifecycleGraph.Proofs.Repository.Declaration
import LifecycleGraph.Proofs.Repository.Dumping
import LifecycleGraph.Proofs.Repository.Elementary
import LifecycleGraph.Proofs.Repository.Indices
import LifecycleGraph.Proofs.Repository.Inheritance
import LifecycleGraph.Proofs.Repository.Integer
import LifecycleGraph.Proofs.Repository.Integrity
import LifecycleGraph.Proofs.Repository.Lookup
import LifecycleGraph.Proofs.Repository.Naming
import LifecycleGraph.Proofs.Repository.NodeRemoval
import LifecycleGraph.Proofs.Repository.Order
import LifecycleGraph.Proofs.Repository.Plain
import LifecycleGraph.Proofs.Repository.Recall
import LifecycleGraph.Proofs.Repository.Redefinition
import LifecycleGraph.Proofs.Repository.Reference
import LifecycleGraph.Proofs.Repository.Refilling
import LifecycleGraph.Proofs.Repository.Refreshing
import LifecycleGraph.Proofs.Repository.Replacement
import LifecycleGraph.Proofs.Repository.Rereading
import LifecycleGraph.Proofs.Repository.Resolution
import LifecycleGraph.Proofs.Repository.Restoration
import LifecycleGraph.Proofs.Repository.Run
import LifecycleGraph.Proofs.Repository.TagCreation
import LifecycleGraph.Proofs.Repository.TagListing
import LifecycleGraph.Proofs.Repository.TagRemoval
import LifecycleGraph.Proofs.Repository.Transition
import LifecycleGraph.Proofs.Repository.Untagging
import LifecycleGraph.Proofs.Roster
import LifecycleGraph.Proofs.Store.Memory
import LifecycleGraph.Proofs.Text.Parts
import LifecycleGraph.Proofs.Value
import LifecycleGraph.Query.Binding
import LifecycleGraph.Query.Evaluation
import LifecycleGraph.Query.Executor
import LifecycleGraph.Query.Expression
import LifecycleGraph.Query.Parser
import LifecycleGraph.Query.Path
import LifecycleGraph.Query.Printer
import LifecycleGraph.Query.Syntax
import LifecycleGraph.Query.Token
import LifecycleGraph.Repository.Basic
import LifecycleGraph.Repository.Content
import LifecycleGraph.Repository.Converter
import LifecycleGraph.Repository.Declaration
import LifecycleGraph.Selector
import LifecycleGraph.Settings
import LifecycleGraph.Store.Memory
import LifecycleGraph.Tag.Forest
import LifecycleGraph.Text.Alphanumeric
import LifecycleGraph.Text.Blank
import LifecycleGraph.Text.Parts
import LifecycleGraph.Value
