import PqAuth.Verifier.Pruning
import PqAuth.Mac.Separation
import PqAuth.Mac.Comparison
import PqAuth.Totp.Acceptance
import PqAuth.Totp.Display
import PqAuth.Hybrid.Conjunction
import PqAuth.Keystore.Acceptance
import PqAuth.Recovery.Printed
import PqAuth.Server.KeyAgreement
import PqAuth.Server.Credentials
import PqAuth.Server.RateLimit
import PqAuth.Server.Noninterference
import PqAuth.Server.TotpReuse
import PqAuth.Server.AuditLog
import PqAuth.Server.WireFields
import PqAuth.Server.GreedyWindows
import PqAuth.Server.LimiterArithmetic
import PqAuth.Server.Races
import PqAuth.Server.Client
import PqAuth.Server.Secrecy
import PqAuth.Server.Availability
import PqAuth.Server.Lifecycle
import PqAuth.Server.Unlimited
import PqAuth.Server.ReplayTable
import PqAuth.Server.Provenance
import PqAuth.Server.Service
import PqAuth.Storage.Persistence
