import AutomatonSketch.Canvas.Gesture
import AutomatonSketch.Diagram.Consistency
import AutomatonSketch.Format.App
import AutomatonSketch.Format.Mode
import AutomatonSketch.Format.Simulation
import AutomatonSketch.Proofs.Acceptance
import AutomatonSketch.Proofs.Reversal
import AutomatonSketch.Window.Frame
import AutomatonSketch.Proofs.Makes
import AutomatonSketch.Proofs.Rewind
import AutomatonSketch.Proofs.Log
import AutomatonSketch.Proofs.AppRuns
import AutomatonSketch.Proofs.CheckedResults
import AutomatonSketch.Proofs.Snapshots
import AutomatonSketch.Proofs.Agreement
import AutomatonSketch.Proofs.LateAnswers
import AutomatonSketch.Proofs.InProgress
import AutomatonSketch.Proofs.Reopening
import AutomatonSketch.Proofs.WellFormed
import AutomatonSketch.Proofs.Failures
import AutomatonSketch.Proofs.SharedBackends
import AutomatonSketch.Proofs.IndexRuns
import AutomatonSketch.Proofs.GridPlaces
import AutomatonSketch.Proofs.SearchWork
import AutomatonSketch.Proofs.Strictness
import AutomatonSketch.Proofs.Highlights
import AutomatonSketch.Proofs.WaysIn
import AutomatonSketch.Proofs.AlphabetField
import AutomatonSketch.Proofs.FirstDestinations
import AutomatonSketch.Proofs.Nearest
import AutomatonSketch.Proofs.KeyGrammar
import AutomatonSketch.Proofs.Listings
import AutomatonSketch.Proofs.RoundingOrder
import AutomatonSketch.Proofs.Drafts
import AutomatonSketch.Proofs.ForeignEdits
import AutomatonSketch.Proofs.ExactCheck
import AutomatonSketch.Proofs.Loops
import AutomatonSketch.Proofs.Layout
import AutomatonSketch.Proofs.TreeText
