import Stencil.Main
import Stencil.Outline.Decode
import Stencil.Proofs.Lexing.Lexeme
import Stencil.Proofs.Lexing.Scan
import Stencil.Proofs.Lexing.Lossless
import Stencil.Proofs.Lexing.Stream
import Stencil.Proofs.Grammar.Derivation
import Stencil.Proofs.Grammar.Context
import Stencil.Proofs.Grammar.Steps
import Stencil.Proofs.Grammar.Starts
import Stencil.Proofs.Grammar.Soundness
import Stencil.Proofs.Grammar.Completeness
import Stencil.Proofs.Lexing.Outside
import Stencil.Proofs.Grammar.Leaves
import Stencil.Proofs.Grammar.Sentences
import Stencil.Proofs.Lexing.Punctuation
import Stencil.Proofs.Lexing.Redelimiting
import Stencil.Proofs.Grammar.Positions
import Stencil.Proofs.Grammar.Plain
import Stencil.Proofs.Grammar.Offsets
import Stencil.Proofs.Execution.Plain
import Stencil.Proofs.Grammar.Trees
import Stencil.Proofs.Grammar.Definitions
import Stencil.Proofs.DelimiterIndependence
import Stencil.Proofs.DefinitionStore
import Stencil.Proofs.Line.Source
import Stencil.Proofs.Line.Tree
import Stencil.Proofs.Line.Execution
import Stencil.Proofs.Line.Outline
import Stencil.Proofs.Outline.Order
import Stencil.Proofs.Outline.Image
import Stencil.Proofs.Outline.Visitors
import Stencil.Proofs.Json.RoundTrip
import Stencil.Proofs.Outline.Decoding
import Stencil.Proofs.Outline.Wire
import Stencil.Proofs.Json.Scalars
import Stencil.Proofs.Outline.Additions
import Stencil.Proofs.Reparsing.Lexemes
import Stencil.Proofs.Reparsing.Legible
import Stencil.Proofs.Reparsing.Facing
import Stencil.Proofs.Reparsing.Shape
import Stencil.Proofs.Reparsing.Terms
import Stencil.Proofs.Reparsing.Pipelines
import Stencil.Proofs.Reparsing.Statements
import Stencil.Proofs.Reparsing.Bodies
import Stencil.Proofs.Reparsing.Sources
import Stencil.Proofs.Reparsing.RoundTrip
import Stencil.Proofs.Grammar.Formed
import Stencil.Proofs.Execution.Ends
import Stencil.Proofs.Variables.Mention
import Stencil.Proofs.Variables.Parsed
import Stencil.Proofs.Execution.Faults
import Stencil.Proofs.Variables.Undefined
import Stencil.Proofs.Variables.Scopes
import Stencil.Proofs.Execution.Loops
import Stencil.Proofs.Execution.Coupling
import Stencil.Proofs.Execution.MissingKeys
import Stencil.Proofs.Grammar.Nesting
import Stencil.Proofs.Reparsing.Chains
import Stencil.Proofs.Lexing.Concatenation
import Stencil.Proofs.Grammar.Insertion
import Stencil.Proofs.Execution.Invocations
import Stencil.Proofs.Execution.Concatenation
import Stencil.Proofs.Grammar.Concatenation
import Stencil.Proofs.Concatenation
import Stencil.Proofs.Execution.Silence
import Stencil.Proofs.Execution.Machine
import Stencil.Proofs.Execution.Adequacy
import Stencil.Proofs.Execution.Limits
import Stencil.Proofs.Execution.Panics
import Stencil.Proofs.Execution.Termination
import Stencil.Proofs.Execution.Delegation
import Stencil.Proofs.Lexing.Stages
import Stencil.Proofs.Grammar.Calls
import Stencil.Proofs.Grammar.Scripts
import Stencil.Proofs.Grammar.Progress
import Stencil.Proofs.Grammar.Promises
import Stencil.Proofs.Grammar.Termination
import Stencil.Proofs.Execution.Slots
import Stencil.Proofs.Execution.Assignments
import Stencil.Proofs.Execution.VariableStack
import Stencil.Proofs.Literals.Evaluation
import Stencil.Proofs.Literals.Grammar
import Stencil.Proofs.Literals.Integers
import Stencil.Proofs.Literals.Numerals
import Stencil.Proofs.Literals.Quoting
import Stencil.Proofs.Literals.Values
import Stencil.Proofs.Execution.Paths
import Stencil.Proofs.Execution.Arguments
import Stencil.Proofs.Formatting.Directives
import Stencil.Proofs.Formatting.Integers
import Stencil.Proofs.Comparison.Nearest
import Stencil.Proofs.Comparison.Texts
import Stencil.Proofs.Comparison.Order
import Stencil.Proofs.Execution.Deciding
import Stencil.Proofs.Execution.Positions
import Stencil.Proofs.Execution.Piping
import Stencil.Proofs.Formatting.Composition
import Stencil.Proofs.Collections.Sequences
import Stencil.Proofs.Collections.Slices
import Stencil.Proofs.Escaping
import Stencil.Proofs.Outline.Places
import Stencil.Proofs.Outline.Printing
import Stencil.Proofs.CommandLine.Requests
import Stencil.Proofs.CommandLine.Agreement
import Stencil.Proofs.Unfolding.Items
import Stencil.Proofs.Unfolding.Lockstep
import Stencil.Proofs.Unfolding.States
import Stencil.Proofs.Unfolding.Phrases
import Stencil.Proofs.Unfolding.Passages
import Stencil.Proofs.Unfolding.Lookahead
import Stencil.Proofs.Unfolding.Nesting
import Stencil.Proofs.Unfolding.Rewriting
import Stencil.Proofs.Unfolding.Balance
import Stencil.Proofs.Unfolding.Sites
import Stencil.Proofs.Unfolding.Elses
