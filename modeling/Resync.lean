import Resync.Diagnostic
import Resync.Parser.Conversion
import Resync.Report
import Resync.Trace
import Resync.Proofs.Assembly.Primitives
import Resync.Proofs.Bytes.Runs
import Resync.Proofs.Cursor.Journey
import Resync.Proofs.Cursor.Lines
import Resync.Proofs.Cursor.Order
import Resync.Proofs.Cursor.Slices
import Resync.Proofs.Cursor.Units
import Resync.Proofs.Excerpt.Dump
import Resync.Proofs.Leaf.Admission
import Resync.Proofs.Leaf.Least
import Resync.Proofs.Leaf.Malformed
import Resync.Proofs.Probing.Runs
import Resync.Proofs.Reading.Descent
import Resync.Proofs.Reading.Texts
import Resync.Proofs.Recovery.Bidding
import Resync.Proofs.Recovery.Brackets
import Resync.Proofs.Recovery.Budget
import Resync.Proofs.Recovery.Errors
import Resync.Proofs.Recovery.Leftovers
import Resync.Proofs.Recovery.Onward
import Resync.Proofs.Recovery.Parentheses
import Resync.Proofs.Recovery.Row
import Resync.Proofs.Recovery.Termination
import Resync.Proofs.Recovery.Transparency
import Resync.Proofs.Recovery.Unwinding
import Resync.Proofs.Registry.Wellformed
import Resync.Proofs.Typing.Safety
import Resync.Proofs.Unfolding.Sharing
