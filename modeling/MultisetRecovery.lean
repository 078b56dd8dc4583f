import MultisetRecovery.Main
import MultisetRecovery.Poly.Tagged
import MultisetRecovery.Proofs.Certificate
import MultisetRecovery.Proofs.Deflation
import MultisetRecovery.Proofs.Delivery
import MultisetRecovery.Proofs.Euclid
import MultisetRecovery.Proofs.Grid
import MultisetRecovery.Proofs.Instance
import MultisetRecovery.Proofs.Inverse
import MultisetRecovery.Proofs.NewtonMap
import MultisetRecovery.Proofs.PolyRing
import MultisetRecovery.Proofs.Power
import MultisetRecovery.Proofs.RootCount
import MultisetRecovery.Proofs.Separation
import MultisetRecovery.Proofs.SolveCommand
import MultisetRecovery.Proofs.StrongBases
import MultisetRecovery.Proofs.Validation
import MultisetRecovery.Timing.Ticks
