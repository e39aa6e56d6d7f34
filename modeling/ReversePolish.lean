import ReversePolish.Main
import ReversePolish.Proofs.Closed
import ReversePolish.Proofs.Flush
import ReversePolish.Proofs.Redeclaration
import ReversePolish.Proofs.Rendering
import ReversePolish.Proofs.StackShape
import ReversePolish.Proofs.Unrolling
import ReversePolish.Proofs.History
import ReversePolish.Proofs.Dependence
import ReversePolish.Proofs.Locality
import ReversePolish.Proofs.Recovery
import ReversePolish.Proofs.LineEnds
import ReversePolish.Proofs.Commuting
import ReversePolish.Proofs.Extent
import ReversePolish.Proofs.ScriptInput
import ReversePolish.Proofs.Tiling
import ReversePolish.Proofs.PushCheck
import ReversePolish.Proofs.DepthLimit
import ReversePolish.Proofs.Congruence
import ReversePolish.Proofs.Substitution
import ReversePolish.Proofs.Coverage
import ReversePolish.Proofs.Listing
import ReversePolish.Proofs.Packing
import ReversePolish.Proofs.ModularPower
import ReversePolish.Proofs.NumberText
import ReversePolish.Proofs.StringLiteral
import ReversePolish.Proofs.Balance
import ReversePolish.Proofs.Iteration
import ReversePolish.Proofs.Echo
