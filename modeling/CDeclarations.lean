import CDeclarations.Main
import CDeclarations.Proofs.Comments.Transparent
import CDeclarations.Proofs.Declaration.Capacity
import CDeclarations.Proofs.Declaration.Overwritten
import CDeclarations.Proofs.Declaration.Piecewise
import CDeclarations.Proofs.Declaration.Recorded
import CDeclarations.Proofs.Declaration.Unfinished
import CDeclarations.Proofs.Malformed.Duplicate
import CDeclarations.Proofs.Malformed.ErrorText
import CDeclarations.Proofs.Requests.Faults
import CDeclarations.Proofs.Session.FirstFailure
import CDeclarations.Proofs.Session.Limit
import CDeclarations.Proofs.Session.Modes
import CDeclarations.Proofs.Session.SingleStream
import CDeclarations.Proofs.Spelling.Printed
import CDeclarations.Proofs.Reading.Reads
import CDeclarations.Proofs.Reading.Rounds
import CDeclarations.Proofs.Session.Listing
import CDeclarations.Proofs.Diagnostic.Rows
import CDeclarations.Proofs.Session.Details
import CDeclarations.Proofs.Diagnostic.Unambiguous
import CDeclarations.Proofs.Session.Messages
