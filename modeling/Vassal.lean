import Vassal.Host.Memory
import Vassal.Main
import Vassal.Proofs.Document.Links
import Vassal.Proofs.Groups.Bag
import Vassal.Proofs.Groups.ErrorPages
import Vassal.Proofs.Groups.Farm
import Vassal.Proofs.Groups.Logger
import Vassal.Proofs.Groups.Reordering
import Vassal.Proofs.Groups.Router
import Vassal.Proofs.Groups.Rule
import Vassal.Proofs.Host.FileTree
import Vassal.Proofs.Offload.Foreign
import Vassal.Proofs.Offload.RoundTrip
import Vassal.Proofs.Options.Flag
import Vassal.Proofs.Options.Frame
import Vassal.Proofs.Options.Grouping
import Vassal.Proofs.Options.Leaves
import Vassal.Proofs.Options.Merge
import Vassal.Proofs.Options.Placement
import Vassal.Proofs.Options.Replay
import Vassal.Proofs.Options.Settled
import Vassal.Proofs.Program.Compile
import Vassal.Proofs.Project.Check
import Vassal.Proofs.Project.Embedded
import Vassal.Proofs.Project.Environment
import Vassal.Proofs.Project.Naming
import Vassal.Proofs.Project.References
import Vassal.Proofs.Section.Chain
import Vassal.Proofs.Section.EmptyCall
import Vassal.Proofs.Section.GroupCache
import Vassal.Proofs.Section.GroupHistory
import Vassal.Proofs.Section.Lines
import Vassal.Proofs.Section.LoadOrder
import Vassal.Proofs.Section.Plugins
import Vassal.Proofs.Section.Preset
import Vassal.Proofs.Section.PythonVersion
import Vassal.Proofs.Section.Registration
import Vassal.Proofs.Section.Required
import Vassal.Proofs.Section.Route
import Vassal.Proofs.Section.SearchDirs
import Vassal.Proofs.Server.Allocation
import Vassal.Proofs.Server.Target
import Vassal.Section.Operation
import Vassal.Server.Signal
