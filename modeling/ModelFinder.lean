import ModelFinder.Backend
import ModelFinder.CommandLine.Directory
import ModelFinder.Dimacs.Encoding
import ModelFinder.Dimacs.Reader
import ModelFinder.Event
import ModelFinder.Journal
import ModelFinder.Main
import ModelFinder.Proofs.Prover.Exploration
import ModelFinder.Proofs.Resolution
import ModelFinder.Proofs.Session
import ModelFinder.Proofs.Trace.WellFormed
import ModelFinder.Script
import ModelFinder.SlotTable
import ModelFinder.Solver
import ModelFinder.StopCondition
import ModelFinder.Trace.Exchange
import ModelFinder.Trace.Reach
import ModelFinder.Trace.Splice
import ModelFinder.TraceCheck.Reader
import ModelFinder.Proofs.Prover.Search
import ModelFinder.Proofs.Prover.Answer
import ModelFinder.Proofs.Prover.Correctness
import ModelFinder.Proofs.Trace.Selection
import ModelFinder.Proofs.Trace.Splice
import ModelFinder.Proofs.Reduction.Candidate
import ModelFinder.Proofs.Reduction.Invariant
import ModelFinder.Proofs.Backend
import ModelFinder.Proofs.Reduction.Run
import ModelFinder.Proofs.Reduction.Soundness
import ModelFinder.Proofs.Pipeline
import ModelFinder.Proofs.Pipeline.Sufficiency
import ModelFinder.Proofs.Dimacs.Reader
import ModelFinder.Proofs.Dimacs.Guards
import ModelFinder.Proofs.Dimacs.Core
import ModelFinder.Proofs.Dimacs.Correctness
import ModelFinder.Proofs.Dimacs.Necessity
import ModelFinder.Proofs.Refinement.Soundness
import ModelFinder.Proofs.Lockstep.Pipeline
import ModelFinder.Proofs.Refinement.Steps
import ModelFinder.Proofs.Solver.Limits
import ModelFinder.Proofs.Refinement.History
import ModelFinder.Proofs.Refinement.Protocol
import ModelFinder.Proofs.Refinement.Cores
import ModelFinder.Proofs.Refinement.Courses
import ModelFinder.Proofs.Refinement.Exclusion
import ModelFinder.Proofs.Pipeline.History
import ModelFinder.Proofs.Pipeline.Completion
import ModelFinder.Proofs.Refinement.Completion
import ModelFinder.Proofs.Solver.Termination
import ModelFinder.TraceCheck.Writer
import ModelFinder.Proofs.TraceCheck.Reader
import ModelFinder.Proofs.TraceCheck.RoundTrip
import ModelFinder.Proofs.Trace.Exchange
import ModelFinder.Proofs.Prover.Exchange
import ModelFinder.Proofs.Prover.Replay
import ModelFinder.Proofs.Reduction.Exchange
import ModelFinder.Proofs.Session.Budgets
import ModelFinder.Proofs.Session.Conduct
import ModelFinder.Proofs.Session.Tallies
import ModelFinder.Proofs.Session.Accounts
import ModelFinder.Proofs.Pipeline.Iterations
import ModelFinder.Proofs.Prover.Polling
import ModelFinder.Proofs.Refinement.Iterations
import ModelFinder.Proofs.Solver.Iterations
import ModelFinder.Proofs.Words
import ModelFinder.Proofs.TraceCheck.Grammar
import ModelFinder.Proofs.Dimacs.Contents
import ModelFinder.Proofs.Dimacs.Layout
import ModelFinder.Proofs.Trace.Building
import ModelFinder.Proofs.Reduction.Comparison
import ModelFinder.Proofs.Reduction.Convergence
import ModelFinder.Proofs.Trace.Learning
import ModelFinder.Proofs.Trace.Splice.Outcome
import ModelFinder.Proofs.Reduction.Course
import ModelFinder.Proofs.Reduction.Removal
import ModelFinder.Proofs.Prover.LeastModel
import ModelFinder.Proofs.Reduction.Distance
import ModelFinder.Proofs.Reduction.Refusal
import ModelFinder.Proofs.Trace.Ancestry
import ModelFinder.Proofs.Trace.Import
import ModelFinder.Proofs.Dimacs.Independence
import ModelFinder.Proofs.Dimacs.Selectors
import ModelFinder.Proofs.Dimacs.Units
import ModelFinder.Proofs.UnsatCore
import ModelFinder.Proofs.Text
import ModelFinder.Proofs.Dimacs.Names
import ModelFinder.SetProgram
import ModelFinder.Proofs.BitSet.Iteration
import ModelFinder.Proofs.SetProgram
import ModelFinder.Proofs.Prover.Following
import ModelFinder.Proofs.Prover.Refuting
import ModelFinder.Proofs.Prover.Backtracking
import ModelFinder.Proofs.Prover.Tree
import ModelFinder.Proofs.Prover.Counting
import ModelFinder.Proofs.Reduction.Terminal
import ModelFinder.Proofs.Clause
import ModelFinder.Proofs.Session.Parts
