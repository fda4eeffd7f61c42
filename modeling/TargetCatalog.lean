import TargetCatalog.Main
import TargetCatalog.Registry.Session
import TargetCatalog.Json.Reader
import TargetCatalog.Proofs.Compiler
import TargetCatalog.Proofs.Arch.Validation
import TargetCatalog.Proofs.Definitions.Admissible
import TargetCatalog.Proofs.Definitions.Reordering
import TargetCatalog.Proofs.Definitions.Toml
import TargetCatalog.Proofs.Definitions.Json
import TargetCatalog.Proofs.Definitions.Members
import TargetCatalog.Proofs.Definitions.Search
import TargetCatalog.Proofs.Registry.Issued
import TargetCatalog.Proofs.Registry.Replay
import TargetCatalog.Proofs.Query.MachineFlags
import TargetCatalog.Proofs.Query.Matching
import TargetCatalog.Proofs.Query.LineFormat
import TargetCatalog.Proofs.Query.Available
import TargetCatalog.Proofs.Query.ArchList
import TargetCatalog.Proofs.Query.JsonFormat
import TargetCatalog.Proofs.Machine.VariantName
import TargetCatalog.Proofs.CommandLine.Run
import TargetCatalog.Proofs.CommandLine.SingleLine
