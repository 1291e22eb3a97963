import GenericTuring.CommandLine
import GenericTuring.Listing.Simulator
import GenericTuring.Main
import GenericTuring.Program.Open
import GenericTuring.Proofs.Assembly
import GenericTuring.Proofs.Search
import GenericTuring.Proofs.WellFormed
import GenericTuring.Proofs.Reaching
import GenericTuring.Proofs.Flow
import GenericTuring.Proofs.Ranking
import GenericTuring.Proofs.Expansion
import GenericTuring.Proofs.Termination
import GenericTuring.Proofs.Growth
import GenericTuring.Proofs.LineRuns
import GenericTuring.Proofs.Spelling
import GenericTuring.Proofs.Regular
import GenericTuring.Proofs.Naming
import GenericTuring.Proofs.Tapes
import GenericTuring.Proofs.Texts
import GenericTuring.Proofs.Listings
import GenericTuring.Proofs.Simulation
import GenericTuring.Proofs.Instances
import GenericTuring.Proofs.Roundtrip
import GenericTuring.Proofs.Written
import GenericTuring.Proofs.Lexemes
import GenericTuring.Proofs.Scanners
import GenericTuring.Proofs.Accepted
import GenericTuring.Proofs.ProgramText
import GenericTuring.Proofs.Safety
import GenericTuring.Proofs.Breakpoints
import GenericTuring.Proofs.Reordering
import GenericTuring.Proofs.Limits
import GenericTuring.Proofs.StateNames
import GenericTuring.Proofs.Gathering
import GenericTuring.Proofs.Refusals
import GenericTuring.Proofs.Traces
import GenericTuring.Proofs.Offsets
import GenericTuring.Proofs.Places
import GenericTuring.Proofs.SourceLines
import GenericTuring.Proofs.Failures
import GenericTuring.Proofs.ErrorPlaces
import GenericTuring.Proofs.Locality
import GenericTuring.Proofs.Mentions
import GenericTuring.Proofs.Cycles
import GenericTuring.Proofs.TapeTexts
import GenericTuring.Proofs.Nesting
import GenericTuring.Proofs.PrintedLines
import GenericTuring.Proofs.ShellLines
import GenericTuring.Proofs.ExitCodes
import GenericTuring.Proofs.Entries
import GenericTuring.Proofs.Overflows
