import BoolCalc.Expr.Draft
import BoolCalc.Main
import BoolCalc.Parse.Session
import BoolCalc.Proofs.RoundTrip
import BoolCalc.Proofs.Scan
import BoolCalc.Proofs.Viable
import BoolCalc.Proofs.Meaning
import BoolCalc.Proofs.Variables
import BoolCalc.Proofs.Rows
import BoolCalc.Table.Session
import BoolCalc.Proofs.CanonicalForms
import BoolCalc.Proofs.Agreement
import BoolCalc.Proofs.Addresses
import BoolCalc.Proofs.Restart
import BoolCalc.Proofs.Limits
import BoolCalc.Proofs.Faults
import BoolCalc.Proofs.Interchange
import BoolCalc.Proofs.Written
import BoolCalc.Proofs.Coincidence
import BoolCalc.Proofs.Steps
import BoolCalc.Proofs.Conservation
import BoolCalc.Proofs.Display
import BoolCalc.Proofs.Postorder
import BoolCalc.Proofs.Markup
import BoolCalc.Proofs.Configuration
import BoolCalc.Proofs.Kept
import BoolCalc.Proofs.Trace
import BoolCalc.Proofs.Joining
import BoolCalc.Proofs.Locations
import BoolCalc.Proofs.Thresholds
import BoolCalc.Proofs.RowTerms
import BoolCalc.Proofs.TokenRuns
