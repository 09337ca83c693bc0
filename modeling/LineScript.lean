import LineScript.Command.Perform
import LineScript.Main
import LineScript.Proofs.Command.Effects
import LineScript.Proofs.Grammar.Escapes
import LineScript.Proofs.Grammar.Rulebook
import LineScript.Proofs.Listing.Compilation
import LineScript.Proofs.Listing.Concatenation
import LineScript.Proofs.Listing.Counters
import LineScript.Proofs.Listing.Feedback
import LineScript.Proofs.Listing.Naming
import LineScript.Proofs.Listing.Placement
import LineScript.Proofs.Listing.Repetition
import LineScript.Proofs.Listing.Templates
import LineScript.Proofs.Listing.Translation
import LineScript.Proofs.Nesting.Agreement
import LineScript.Proofs.Number.Whole
import LineScript.Proofs.Run.Budget
import LineScript.Proofs.Run.Compound
import LineScript.Proofs.Run.Expansion
import LineScript.Proofs.Run.Meter
import LineScript.Proofs.Run.Rounds
import LineScript.Proofs.Run.Shadowing
import LineScript.Proofs.Run.Stack
import LineScript.Proofs.Run.Succession
import LineScript.Proofs.Run.Untouched
import LineScript.Proofs.Script.Declarations
import LineScript.Proofs.Settings.Layers
import LineScript.Proofs.Text.Units
import LineScript.Proofs.Tidy.Canonical
