import Datapack.Main
import Datapack.Proofs.References
import Datapack.Proofs.Simplification
import Datapack.Proofs.Moments
import Datapack.Proofs.Leftovers
import Datapack.Proofs.Attachment
import Datapack.Proofs.Independence
import Datapack.Proofs.Memberships
import Datapack.Proofs.Heirs
import Datapack.Proofs.Additions
import Datapack.Proofs.Printed
import Datapack.Proofs.PackFiles
import Datapack.Proofs.RoundTrip
import Datapack.Proofs.CommandLine
import Datapack.Proofs.Resolving
import Datapack.Proofs.Directories
import Datapack.Proofs.Clearing
import Datapack.Proofs.WrittenPacks
import Datapack.Proofs.BaseChains
import Datapack.Proofs.FlatMembers
import Datapack.Proofs.Artifacts
import Datapack.Proofs.Interrupted
import Datapack.Proofs.Endings
import Datapack.Proofs.Transcript
import Datapack.Proofs.Confinement
import Datapack.Proofs.InnerFiles
import Datapack.Proofs.PackDirectory
import Datapack.Proofs.Dispatch
import Datapack.Proofs.Inlining
import Datapack.Proofs.Reports
import Datapack.Proofs.Invocations
import Datapack.Proofs.RecursionGuards
import Datapack.Proofs.Announcements
import Datapack.Proofs.FunctionLines
import Datapack.Proofs.RegistryHistory
import Datapack.Proofs.DraftHistory
import Datapack.Proofs.Forest
import Datapack.Proofs.FreshNames
