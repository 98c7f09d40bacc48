import LineCalc.CommandLine
import LineCalc.Cursor
import LineCalc.Main
import LineCalc.Proofs.AssignedValue
import LineCalc.Proofs.SignApart
import LineCalc.Proofs.RememberedValues
import LineCalc.Proofs.ExactValues
import LineCalc.Proofs.ZeroDivisors
import LineCalc.Proofs.FoldedGroups
import LineCalc.Proofs.NameFaults
import LineCalc.Proofs.NamesRead
import LineCalc.Proofs.Renaming
import LineCalc.Proofs.RenamedSessions
import LineCalc.Proofs.Continuation
import LineCalc.Proofs.RefusedMessages
import LineCalc.Proofs.EchoedAssignments
import LineCalc.Proofs.EvaluatedFiles
import LineCalc.Proofs.SavedBindings
import LineCalc.Proofs.VisibleSessions
import LineCalc.Proofs.TokenizedFiles
import LineCalc.Proofs.FirstFault
import LineCalc.Proofs.PhraseWalks
