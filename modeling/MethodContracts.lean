import MethodContracts.Analysis.Settings
import MethodContracts.Cache.Fault
import MethodContracts.Proofs.Analysis.Assembly
import MethodContracts.Proofs.Analysis.Interleaving
import MethodContracts.Proofs.Analysis.Warm
import MethodContracts.Proofs.Cache.Fault
import MethodContracts.Proofs.Cache.Permanence
import MethodContracts.Proofs.Contract.Loading
import MethodContracts.Proofs.Expr.Agreement
import MethodContracts.Proofs.Expr.Meaning
import MethodContracts.Proofs.Expr.NormalForm
import MethodContracts.Proofs.Expr.Readable
import MethodContracts.Proofs.Expr.Substitution
import MethodContracts.Proofs.Expr.Trace
import MethodContracts.Proofs.Extract.Defaults
import MethodContracts.Proofs.Extract.Extension
import MethodContracts.Proofs.Extract.Terminator
import MethodContracts.Proofs.Record.Damage
import MethodContracts.Proofs.Stored
