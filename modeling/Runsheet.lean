import Runsheet.Builtin.Assignment
import Runsheet.Builtin.Condition
import Runsheet.Builtin.Message
import Runsheet.Calendar
import Runsheet.CommandLine.Arguments
import Runsheet.CommandLine.Commands
import Runsheet.CommandLine.Configuration
import Runsheet.CommandLine.Disk
import Runsheet.CommandLine.Usage
import Runsheet.Context
import Runsheet.Decimal.Binary64
import Runsheet.Decimal.Layout
import Runsheet.Decimal.Reader
import Runsheet.Decimal.Shortest
import Runsheet.Duration
import Runsheet.Engine.Engine
import Runsheet.Engine.Plan
import Runsheet.Engine.Registry
import Runsheet.Evaluator
import Runsheet.Expression.Access
import Runsheet.Expression.Arguments
import Runsheet.Expression.Arithmetic
import Runsheet.Expression.Check
import Runsheet.Expression.Display
import Runsheet.Expression.Eval
import Runsheet.Expression.Filter
import Runsheet.Expression.Function
import Runsheet.Expression.Parser
import Runsheet.Expression.Problem
import Runsheet.Expression.Setting
import Runsheet.Expression.Token
import Runsheet.Expression.Tree
import Runsheet.Expression.Value
import Runsheet.Fault
import Runsheet.Flow.Activity
import Runsheet.Flow.Predicate
import Runsheet.Flow.Step
import Runsheet.Flow.Tally
import Runsheet.Flow.Work
import Runsheet.Flow.World
import Runsheet.Json.Problem
import Runsheet.Json.Reader
import Runsheet.Json.Text
import Runsheet.Json.Value
import Runsheet.Main
import Runsheet.Playbook.Loader
import Runsheet.Playbook.Model
import Runsheet.Playbook.Problem
import Runsheet.Report
import Runsheet.Table
import Runsheet.Template.Parser
import Runsheet.Template.Render
import Runsheet.Template.Token
import Runsheet.Template.Tree
import Runsheet.Text.Base64
import Runsheet.Text.Blank
import Runsheet.Text.Case
import Runsheet.Text.Letter
import Runsheet.Text.Quoted
import Runsheet.Text.Search
import Runsheet.Yaml.Cursor
import Runsheet.Yaml.Node
import Runsheet.Yaml.Scalar
import Runsheet.Yaml.Token
import Runsheet.Yaml.Value
import Runsheet.Proofs.Tallies
import Runsheet.Proofs.Rest
import Runsheet.Proofs.Interleaving
import Runsheet.Proofs.Parts
import Runsheet.Proofs.Branches
import Runsheet.Proofs.Schedule
import Runsheet.Proofs.Batch
import Runsheet.Proofs.Aggregation
import Runsheet.Proofs.Throughout
import Runsheet.Proofs.SingleUse
import Runsheet.Proofs.Cancellation
import Runsheet.Proofs.Determinism
import Runsheet.Proofs.Deadlines
import Runsheet.Proofs.Regions
import Runsheet.Proofs.Truncation
import Runsheet.Proofs.Mirroring
import Runsheet.Proofs.Lockstep
import Runsheet.Proofs.CatchingUp
import Runsheet.Proofs.Meaning
import Runsheet.Proofs.Acceptance
import Runsheet.Proofs.Heedless
import Runsheet.Proofs.Compilation
import Runsheet.Proofs.Nodes
import Runsheet.Proofs.Refusal
import Runsheet.Proofs.Marks
import Runsheet.Proofs.MarkedWork
import Runsheet.Proofs.Precedence
import Runsheet.Proofs.Budgets
import Runsheet.Proofs.Invocations
import Runsheet.Proofs.Occupancy
import Runsheet.Proofs.Tenures
import Runsheet.Proofs.Ledgers
import Runsheet.Proofs.FanOut
import Runsheet.Proofs.Steadiness
import Runsheet.Proofs.Timetable
import Runsheet.Proofs.Threads
import Runsheet.Proofs.Layers
import Runsheet.Proofs.Addresses
import Runsheet.Proofs.Causes
import Runsheet.Proofs.Histories
import Runsheet.Proofs.Seeding
import Runsheet.Proofs.Plans
import Runsheet.Proofs.Assignments
import Runsheet.Proofs.Sources
import Runsheet.Proofs.Gate
import Runsheet.Proofs.OpenPools
import Runsheet.Proofs.OwnPools
import Runsheet.Proofs.Entries
import Runsheet.Proofs.Grammar
import Runsheet.Proofs.Writing
import Runsheet.Proofs.Attempts
import Runsheet.Proofs.Guards
import Runsheet.Proofs.Nulls
import Runsheet.Proofs.Registrations
import Runsheet.Proofs.Variables
import Runsheet.Proofs.Endings
import Runsheet.Proofs.Sequences
import Runsheet.Proofs.Repetitions
import Runsheet.Proofs.Units
import Runsheet.Proofs.Braces
import Runsheet.Proofs.PastReading
import Runsheet.Proofs.Prediction
import Runsheet.Proofs.Builtins
import Runsheet.Proofs.Agreement
import Runsheet.Proofs.Literals
import Runsheet.Proofs.Places
import Runsheet.Proofs.Tails
import Runsheet.Proofs.Gaps
import Runsheet.Proofs.Messages
import Runsheet.Proofs.Scalars
import Runsheet.Proofs.Lines
import Runsheet.Proofs.Trees
import Runsheet.Proofs.Starters
import Runsheet.Proofs.Sextets
