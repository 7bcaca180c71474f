import PseudoMove.Main
import PseudoMove.Progress
import PseudoMove.Proofs.NameTable
import PseudoMove.Proofs.StackEffect
import PseudoMove.Proofs.SlotLabel
import PseudoMove.Proofs.StraightLine
import PseudoMove.Proofs.ArithmeticText
import PseudoMove.Proofs.Evaluation
import PseudoMove.Proofs.Conservation
import PseudoMove.Proofs.LineByLine
import PseudoMove.Proofs.NameHistory
import PseudoMove.Proofs.Scanning
import PseudoMove.Proofs.BracketedList
import PseudoMove.Proofs.DeclarationLines
import PseudoMove.Proofs.StructLines
import PseudoMove.Proofs.FunctionLines
import PseudoMove.Proofs.Recovery
import PseudoMove.Proofs.Placeholder
import PseudoMove.Proofs.BracePlacement
import PseudoMove.Proofs.FunctionParts
import PseudoMove.Proofs.NameSize
import PseudoMove.Proofs.OutputSize
import PseudoMove.Proofs.OutputGrowth
import PseudoMove.Proofs.Overflow
import PseudoMove.Proofs.InertLine
import PseudoMove.Proofs.Accounts
import PseudoMove.Proofs.CallOrder
import PseudoMove.Proofs.RunOptions
import PseudoMove.Proofs.BatchRun
import PseudoMove.Proofs.Indentation
import PseudoMove.Proofs.IdleLines
import PseudoMove.Proofs.FunctionStretches
import PseudoMove.Proofs.Failure
import PseudoMove.Proofs.OutcomeReport
import PseudoMove.Proofs.UniqueReading
import PseudoMove.Proofs.SlotNumbers
import PseudoMove.Proofs.ConfigFiles
import PseudoMove.Proofs.FreshNames
import PseudoMove.Proofs.InstructionLine
import PseudoMove.Proofs.CallRemark
import PseudoMove.Proofs.UsableNames
import PseudoMove.Proofs.BareTypes
import PseudoMove.Proofs.UnitReturn
import PseudoMove.Proofs.GivenNames
import PseudoMove.Proofs.AnnotatedLines
import PseudoMove.Proofs.FamilyRanking
import PseudoMove.Proofs.LabelAndType
