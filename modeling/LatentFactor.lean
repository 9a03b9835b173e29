import LatentFactor.Main
import LatentFactor.RowMatrix.Solve
import LatentFactor.Settings.Json
import LatentFactor.Proofs.Block.Inverse
import LatentFactor.Proofs.Block.Shape
import LatentFactor.Proofs.CommandLine
import LatentFactor.Proofs.Distinct
import LatentFactor.Proofs.Ends
import LatentFactor.Proofs.Grouping
import LatentFactor.Proofs.Numbering
import LatentFactor.Proofs.Phase.Cancelled
import LatentFactor.Proofs.Phase.InOrder
import LatentFactor.Proofs.Phase.Outcome
import LatentFactor.Proofs.Phase.Progress
import LatentFactor.Proofs.Projector
import LatentFactor.Proofs.Ratings.Catalogue
import LatentFactor.Proofs.Ratings.Renaming
import LatentFactor.Proofs.Ratings.Representation
import LatentFactor.Proofs.Ratings.Source
import LatentFactor.Proofs.Ratings.Store
import LatentFactor.Proofs.Ratings.Transposed
import LatentFactor.Proofs.Real.Block
import LatentFactor.Proofs.Real.Catalogue
import LatentFactor.Proofs.Real.Cholesky
import LatentFactor.Proofs.Real.Confident
import LatentFactor.Proofs.Real.Descent
import LatentFactor.Proofs.Real.Explicit
import LatentFactor.Proofs.Real.Implicit
import LatentFactor.Proofs.Real.Matrix
import LatentFactor.Proofs.Real.Objective
import LatentFactor.Proofs.Real.Order
import LatentFactor.Proofs.Real.Permutation
import LatentFactor.Proofs.Real.Row
import LatentFactor.Proofs.Real.RowUpdate
import LatentFactor.Proofs.RowUpdate.Solve
import LatentFactor.Proofs.Training.Alternation
import LatentFactor.Proofs.Training.Cancellation
import LatentFactor.Proofs.Training.Confluence
import LatentFactor.Proofs.Training.Faults
import LatentFactor.Proofs.Training.Independence
import LatentFactor.Proofs.Training.Model
import LatentFactor.Proofs.Training.Prepared
import LatentFactor.Proofs.Training.Recursion
import LatentFactor.Proofs.Training.Refinement
import LatentFactor.Proofs.Training.Renaming
import LatentFactor.Proofs.Training.Room
import LatentFactor.Proofs.Training.Session
import LatentFactor.Proofs.Training.Stage
import LatentFactor.Proofs.Training.Step
import LatentFactor.Proofs.Training.Transcript
import LatentFactor.Proofs.Real.Ridge
import LatentFactor.Proofs.Block.Lower
import LatentFactor.Proofs.Real.System
import LatentFactor.Proofs.Real.Elimination
import LatentFactor.Proofs.Real.Inverse
import LatentFactor.Proofs.Real.Projection
import LatentFactor.Proofs.Real.Projector
import LatentFactor.Proofs.Contiguous
import LatentFactor.Proofs.Ratings.Enumeration
import LatentFactor.Proofs.Binary64.Exact
import LatentFactor.Proofs.Ratings.Split
import LatentFactor.Proofs.Real.Anonymous
import LatentFactor.Proofs.Training.Predictions
import LatentFactor.Proofs.Phase.Sequential
import LatentFactor.Proofs.Features.Noise
import LatentFactor.Proofs.Lookup
import LatentFactor.Proofs.Ratings.File
import LatentFactor.Proofs.Settings.Arguments
import LatentFactor.Proofs.Settings.Json
