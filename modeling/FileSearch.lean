import FileSearch.FileSystem.Inventory
import FileSearch.Main
import FileSearch.Proofs.Glob.Concatenation
import FileSearch.Proofs.Glob.Levels
import FileSearch.Proofs.Path.Agreement
import FileSearch.Proofs.Walk.History
import FileSearch.Proofs.Deletion.Exact
import FileSearch.Proofs.Walk.Refinement
import FileSearch.Proofs.Deletion.Account
import FileSearch.Proofs.Query.Clauses
import FileSearch.Proofs.Walk.Journey
import FileSearch.Proofs.Walk.Spelling
import FileSearch.Proofs.Path.Order
import FileSearch.Proofs.Walk.Order
import FileSearch.Proofs.Search.Failure
import FileSearch.Proofs.Query.Conjunction
import FileSearch.Proofs.Query.Numbers
import FileSearch.Proofs.Query.ShortCircuit
import FileSearch.Proofs.Search.Outcome
import FileSearch.Proofs.Search.Subtrees
import FileSearch.Proofs.Search.Disjoint
import FileSearch.Proofs.Search.Repeated
import FileSearch.Proofs.Search.Emptiness
import FileSearch.Proofs.Search.Selection
import FileSearch.Proofs.Search.Window
import FileSearch.Proofs.Search.Partition
import FileSearch.Proofs.CommandLine.WrongExpression
import FileSearch.Proofs.CommandLine.Cut
import FileSearch.Proofs.CommandLine.DefaultRoot
import FileSearch.Proofs.CommandLine.Ending
import FileSearch.Proofs.Glob.AnyCase
import FileSearch.Proofs.Glob.CutRanges
import FileSearch.Proofs.Query.Reordering
import FileSearch.Proofs.Walk.Turns
