import Scoring.Main
import Scoring.Registry
import Scoring.Proofs.Layout.Alignment
import Scoring.Spec.Encoder
import Scoring.Proofs.Compile
import Scoring.Proofs.Linear.Score
import Scoring.Proofs.Tree.Descent
import Scoring.Proofs.NaiveBayes
import Scoring.Proofs.Tree.Stop
import Scoring.Proofs.Scorer.Fit
import Scoring.Proofs.Scorer.Refusal
import Scoring.Proofs.Scorer.Agreement
import Scoring.Proofs.Linear.Predictor
import Scoring.Proofs.Field.Resolution
import Scoring.Proofs.NaiveBayes.Likelihood
import Scoring.Proofs.Fault.Running
import Scoring.Proofs.Registry
import Scoring.Proofs.Spec.RoundTrip
import Scoring.Proofs.Field.Reordering
import Scoring.Proofs.Layout.Reordering
import Scoring.Proofs.Scorer.Reordering
import Scoring.Proofs.Scorer.Locality
import Scoring.Proofs.Linear.Reordering
import Scoring.Proofs.Linear.Precomputed
import Scoring.Proofs.Condition
import Scoring.Proofs.Linear.Classes
import Scoring.Proofs.Condition.Known
import Scoring.Proofs.Layout.Replacement
import Scoring.Proofs.Condition.Membership
import Scoring.Proofs.Scalar.Quantity
import Scoring.Proofs.Scorer.Category
import Scoring.Proofs.Linear.Naming
import Scoring.Proofs.NaiveBayes.Normal
import Scoring.Proofs.Field.Check
import Scoring.Proofs.CommandLine
import Scoring.Proofs.Linear.Terms
import Scoring.Proofs.Scorer.Finite
import Scoring.Proofs.SparseVector.Payload
import Scoring.Proofs.SparseVector.Unordered
import Scoring.Proofs.Field.Intake
import Scoring.Proofs.Tree.Fields
