import Resolution.Assistant.Basic
import Resolution.Checkpoint
import Resolution.Clause
import Resolution.ClauseText
import Resolution.CommandLine.Options
import Resolution.CommandLine.Program
import Resolution.Derivation
import Resolution.Graph
import Resolution.Host
import Resolution.Json
import Resolution.Main
import Resolution.Proofs.Attempts
import Resolution.Proofs.Balance
import Resolution.Proofs.Chains
import Resolution.Proofs.CheckedSearch
import Resolution.Proofs.Checkpoints
import Resolution.Proofs.Concatenation
import Resolution.Proofs.Coverage
import Resolution.Proofs.Cutting
import Resolution.Proofs.DenseDerivations
import Resolution.Proofs.Divisions
import Resolution.Proofs.Enumeration
import Resolution.Proofs.Exchange
import Resolution.Proofs.Fallible
import Resolution.Proofs.Fences
import Resolution.Proofs.Generality
import Resolution.Proofs.GroundSearch
import Resolution.Proofs.Growth
import Resolution.Proofs.Interpretations
import Resolution.Proofs.Invocations
import Resolution.Proofs.JsonTexts
import Resolution.Proofs.Labels
import Resolution.Proofs.Lifting
import Resolution.Proofs.Limits
import Resolution.Proofs.LiteralGrammar
import Resolution.Proofs.Minimization
import Resolution.Proofs.Outcomes
import Resolution.Proofs.PairMemory
import Resolution.Proofs.ParseFaults
import Resolution.Proofs.Permanence
import Resolution.Proofs.Printing
import Resolution.Proofs.Readback
import Resolution.Proofs.Reading
import Resolution.Proofs.Renaming
import Resolution.Proofs.Reports
import Resolution.Proofs.Resolvents
import Resolution.Proofs.Resumption
import Resolution.Proofs.SavedStates
import Resolution.Proofs.SearchBounds
import Resolution.Proofs.Selections
import Resolution.Proofs.Slices
import Resolution.Proofs.Verdict
import Resolution.Proofs.Walks
import Resolution.Report
import Resolution.Resolvent
import Resolution.Sample
import Resolution.Scratch
import Resolution.Search.Atoms
import Resolution.Search.Pass
import Resolution.Search.Progress
import Resolution.Search.Run
import Resolution.Substitution
import Resolution.Summary
import Resolution.Text.Basic
import Resolution.Text.Identifier
import Resolution.Text.Quoted
import Resolution.Unification
