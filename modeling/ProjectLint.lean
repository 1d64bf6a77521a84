import ProjectLint.Files.Edit
import ProjectLint.Proofs.Audience
import ProjectLint.Proofs.Closures
import ProjectLint.Proofs.Deliveries
import ProjectLint.Proofs.Dispatch.Source
import ProjectLint.Proofs.Gathering
import ProjectLint.Proofs.Inheritance
import ProjectLint.Proofs.Isolation
import ProjectLint.Proofs.ListedIds
import ProjectLint.Proofs.Loading
import ProjectLint.Proofs.Patterns
import ProjectLint.Proofs.Pointing
import ProjectLint.Proofs.Promptness
import ProjectLint.Proofs.PropertyLines
import ProjectLint.Proofs.Repeats
import ProjectLint.Proofs.Rerun
import ProjectLint.Proofs.Reuse.Stages
import ProjectLint.Proofs.Salvage
import ProjectLint.Proofs.Sweeps
