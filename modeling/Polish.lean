import Polish.Cursor
import Polish.Expr.Journal
import Polish.Main
import Polish.Proofs.Anywhere
import Polish.Proofs.Arrangements
import Polish.Proofs.Assembly
import Polish.Proofs.Caret
import Polish.Proofs.Drawing
import Polish.Proofs.EarlyFailure
import Polish.Proofs.Harmonic
import Polish.Proofs.Literals
import Polish.Proofs.Locality
import Polish.Proofs.Making
import Polish.Proofs.Median
import Polish.Proofs.Moving
import Polish.Proofs.NormalForm
import Polish.Proofs.Places
import Polish.Proofs.Postfix
import Polish.Proofs.Records
import Polish.Proofs.RoundTrip
import Polish.Proofs.Segmentation
import Polish.Proofs.Substitution
import Polish.Proofs.Walking
import Polish.Workbench
