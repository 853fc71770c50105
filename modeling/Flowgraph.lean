import Flowgraph.Decimal.Numeral
import Flowgraph.Decimal.Shortest
import Flowgraph.Decimal.Layout
import Flowgraph.Decimal.Reading
import Flowgraph.Document.Basic
import Flowgraph.Document.Printer
import Flowgraph.Document.Parser
import Flowgraph.Document.Reading
import Flowgraph.Handle
import Flowgraph.GraphId
import Flowgraph.Value
import Flowgraph.Table
import Flowgraph.Error
import Flowgraph.Update
import Flowgraph.Arena
import Flowgraph.Config
import Flowgraph.Metadata
import Flowgraph.Event
import Flowgraph.Journal
import Flowgraph.Program
import Flowgraph.Registry
import Flowgraph.Node
import Flowgraph.Graph
import Flowgraph.Extensions
import Flowgraph.Session.Basic
import Flowgraph.Session.Verdict
import Flowgraph.Session.Evaluation
import Flowgraph.Session.Fuel
import Flowgraph.Builtin
import Flowgraph.Script
import Flowgraph.Text.Hidden
import Flowgraph.Text.Quoted
import Flowgraph.Outline
import Flowgraph.Workspace
import Flowgraph.Proofs.Updates
import Flowgraph.Proofs.Memory
import Flowgraph.Proofs.Verdict
import Flowgraph.Proofs.Machine
import Flowgraph.Proofs.Correspondence
import Flowgraph.Proofs.Stack
import Flowgraph.Proofs.Effects
import Flowgraph.Proofs.Resolution
import Flowgraph.Proofs.Memoization
import Flowgraph.Proofs.Slots
import Flowgraph.Proofs.Conditions
import Flowgraph.Proofs.Editing
import Flowgraph.Proofs.Shapes
import Flowgraph.Proofs.Denotation
import Flowgraph.Proofs.Bodies
import Flowgraph.Proofs.Agreement
import Flowgraph.Proofs.Refinement
import Flowgraph.Proofs.Coverage
import Flowgraph.Proofs.Activations
import Flowgraph.Proofs.CycleSearch
import Flowgraph.Proofs.Locality
import Flowgraph.Proofs.Deferral
import Flowgraph.Proofs.Termination
import Flowgraph.Proofs.Reports
import Flowgraph.Proofs.Budget
import Flowgraph.Proofs.Isolation
import Flowgraph.Proofs.Construction
import Flowgraph.Proofs.Bookkeeping
import Flowgraph.Proofs.Observation
import Flowgraph.Proofs.Brackets
import Flowgraph.Proofs.Tally
import Flowgraph.Proofs.Allowance
import Flowgraph.Proofs.Truncation
import Flowgraph.Proofs.LiveHandles
import Flowgraph.Proofs.ArenaMap
import Flowgraph.Proofs.DocumentText
import Flowgraph.Proofs.ValueText
import Flowgraph.Proofs.RecordText
import Flowgraph.Proofs.ObjectText
import Flowgraph.Proofs.EntryErrors
import Flowgraph.Proofs.TameBodies
import Flowgraph.Proofs.PureChain
import Flowgraph.Proofs.Dependencies
import Flowgraph.Proofs.DataFlow
import Flowgraph.Proofs.Removal
import Flowgraph.Proofs.Legality
import Flowgraph.Proofs.Cycles
import Flowgraph.Proofs.Consumers
import Flowgraph.Proofs.Addition
