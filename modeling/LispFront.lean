import LispFront.Main
import LispFront.Proofs.Interchange.Acceptance
import LispFront.Proofs.Numeral.Literals
import LispFront.Proofs.Parse.Grouping
import LispFront.Proofs.Parse.Log
import LispFront.Proofs.Parse.Printing
import LispFront.Proofs.Parse.Rendering
import LispFront.Proofs.Parse.Strays
import LispFront.Proofs.Parse.Tape
import LispFront.Proofs.Parse.Declarations
import LispFront.Proofs.Parse.Matching
import LispFront.Proofs.Parse.Accounting
import LispFront.Proofs.Transcript
import LispFront.Proofs.Parse.Completion
import LispFront.Proofs.Parse.Anchors
