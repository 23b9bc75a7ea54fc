import LogConfig.Accessor
import LogConfig.Action
import LogConfig.ActionRegistry
import LogConfig.Actions
import LogConfig.Actions.Appender
import LogConfig.Actions.Context
import LogConfig.Actions.Logger
import LogConfig.Actions.Nested
import LogConfig.ClassRegistry
import LogConfig.CommandLine
import LogConfig.Component
import LogConfig.Component.Appender
import LogConfig.Component.Custom
import LogConfig.Component.Filter
import LogConfig.Component.Kind
import LogConfig.Component.Layout
import LogConfig.Component.Logger
import LogConfig.Component.PropertyName
import LogConfig.Configurator
import LogConfig.Diagnostic
import LogConfig.Document.Attribute
import LogConfig.Document.Event
import LogConfig.Document.Markup
import LogConfig.Document.Position
import LogConfig.Document.Reference
import LogConfig.Document.Sequence
import LogConfig.ElementPath
import LogConfig.Entries
import LogConfig.Environment
import LogConfig.Error
import LogConfig.Graph
import LogConfig.Interpreter
import LogConfig.Json
import LogConfig.Json.Diagnostic
import LogConfig.Level
import LogConfig.LoggerTree
import LogConfig.PropertyFile
import LogConfig.Report
import LogConfig.RuleStore
import LogConfig.Session
import LogConfig.Substitution
import LogConfig.Text.Blank
import LogConfig.Text.Bytes
import LogConfig.Text.CaseTable
import LogConfig.Text.LetterCase
import LogConfig.Text.Numeral
import LogConfig.Text.Pieces
import LogConfig.Text.PrintTable
import LogConfig.Text.Quoted
import LogConfig.Value
import LogConfig.Main
import LogConfig.Proofs.Dispatch.Refinement
import LogConfig.Proofs.Stack.Balance
import LogConfig.Proofs.Substitution.Evaluation
import LogConfig.Proofs.Substitution.Unguarded
import LogConfig.Proofs.Substitution.Expansion
import LogConfig.Proofs.Stack.Actions
import LogConfig.Proofs.Dispatch.Rules
import LogConfig.Proofs.Dispatch.Calls
import LogConfig.Proofs.Stack.Release
import LogConfig.Proofs.Stack.Nesting
import LogConfig.Proofs.Stack.Elements
import LogConfig.Proofs.Dispatch.History
import LogConfig.Proofs.Effects.Actions
import LogConfig.Proofs.Effects.Components
import LogConfig.Proofs.Effects.Atomic
import LogConfig.Proofs.Report.Disclosure
import LogConfig.Proofs.Report.Dispatch
import LogConfig.Proofs.Report.Clean
import LogConfig.Proofs.Lifecycle.Graph
import LogConfig.Proofs.Lifecycle.Order
import LogConfig.Proofs.Lifecycle.Actions
import LogConfig.Proofs.Lifecycle.Rules
import LogConfig.Proofs.Lifecycle.Elements
import LogConfig.Proofs.Lifecycle.Once
import LogConfig.Proofs.Substitution.Machine
import LogConfig.Proofs.Substitution.Termination
import LogConfig.Proofs.Substitution.Pieces
import LogConfig.Proofs.Effects.Changes
import LogConfig.Proofs.Effects.Course
import LogConfig.Proofs.Invariants.Loggers
import LogConfig.Proofs.Invariants.Sessions
import LogConfig.Proofs.Invariants.Kinds
import LogConfig.Proofs.Invariants.Attachments
import LogConfig.Proofs.Invariants.Settled
import LogConfig.Proofs.Effects.Trace
import LogConfig.Proofs.PropertyFile.Escaping
import LogConfig.Proofs.PropertyFile.Rendering
import LogConfig.Proofs.Invariants.Names
import LogConfig.Proofs.Dispatch.Body
import LogConfig.Proofs.Invariants.Children
import LogConfig.Proofs.Invariants.Weaving
import LogConfig.Proofs.Invariants.Cycles
import LogConfig.Proofs.Rules.Resolution
import LogConfig.Proofs.Rules.Matching
import LogConfig.Proofs.Access.Setting
import LogConfig.Proofs.Loggers.Levels
import LogConfig.Proofs.Document.Places
import LogConfig.Proofs.Text.Trimming
import LogConfig.Proofs.Values.Coercion
import LogConfig.Proofs.PropertyFile.Numbers
import LogConfig.Proofs.Substitution.Unclosed
import LogConfig.Proofs.Access.Attaching
import LogConfig.Proofs.Layout.Conversions
import LogConfig.Proofs.Registries.Aliases
import LogConfig.Proofs.Registries.Instances
import LogConfig.Proofs.Dispatch.Skips
import LogConfig.Proofs.Dispatch.Succession
import LogConfig.Proofs.Document.Tracking
import LogConfig.Proofs.Report.Recording
import LogConfig.Proofs.Report.Order
