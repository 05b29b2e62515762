import NativeLayout.Main
import NativeLayout.Address
import NativeLayout.Catalog
import NativeLayout.Stored
import NativeLayout.Arena
import NativeLayout.Memory.Bytes
import NativeLayout.Node.Content
import NativeLayout.Node.Describe
import NativeLayout.Node.Record
import NativeLayout.Session.Arenas
import NativeLayout.Session.Elements
import NativeLayout.Session.Leaves
import NativeLayout.Session.Pointers
import NativeLayout.Proofs.Layout.Least
import NativeLayout.Proofs.Tree.Basic
import NativeLayout.Proofs.Tree.Outcome
import NativeLayout.Proofs.Tree.Sound
import NativeLayout.Proofs.Tree.Resolve
import NativeLayout.Proofs.Tree.Alike
import NativeLayout.Proofs.Tree.Prepare
import NativeLayout.Proofs.Tree.Claim
import NativeLayout.Proofs.Tree.Failure
import NativeLayout.Proofs.Tree.Element
import NativeLayout.Proofs.Session.Safe
import NativeLayout.Proofs.Layout.Spacing
import NativeLayout.Proofs.Tree.Placement
import NativeLayout.Proofs.Session.World
import NativeLayout.Proofs.Session.Route
import NativeLayout.Proofs.Session.Failure
import NativeLayout.Proofs.Text.Utf8
import NativeLayout.Proofs.Memory.Heap
import NativeLayout.Proofs.Memory.Cells
import NativeLayout.Proofs.Tree.Leaves
import NativeLayout.Proofs.Session.Access
import NativeLayout.Proofs.Session.Scene
import NativeLayout.Proofs.Session.Run
import NativeLayout.Proofs.Layout.Whole
import NativeLayout.Proofs.Tree.Described
import NativeLayout.Proofs.Source.Agreement
import NativeLayout.Proofs.Source.InOrder
import NativeLayout.Proofs.Source.Languages
import NativeLayout.Proofs.Session.Declared
import NativeLayout.Proofs.Arena.Discipline
import NativeLayout.Proofs.Arena.SafePoints
import NativeLayout.Proofs.Arena.Newest
import NativeLayout.Proofs.Catalog.Oblivious
import NativeLayout.Proofs.Session.Advance
import NativeLayout.Proofs.Lazy.Paired
import NativeLayout.Proofs.Session.Typed
import NativeLayout.Proofs.Session.Rooted
import NativeLayout.Proofs.Tree.Alignment
import NativeLayout.Proofs.Session.Alignment
import NativeLayout.Proofs.Session.Commit
import NativeLayout.Proofs.Session.Confined
import NativeLayout.Proofs.Session.Located
import NativeLayout.Proofs.Session.Stepping
import NativeLayout.Proofs.Catalog.Building
import NativeLayout.Proofs.Relocation.Tree
import NativeLayout.Proofs.Relocation.Claim
import NativeLayout.Proofs.Relocation.Visits
import NativeLayout.Proofs.Arena.Clean
import NativeLayout.Proofs.Session.Views
import NativeLayout.Proofs.Session.Texts
import NativeLayout.Proofs.Session.Numbers
import NativeLayout.Proofs.Tree.Stems
import NativeLayout.Proofs.Tree.Counts
import NativeLayout.Proofs.Session.Asks
import NativeLayout.Proofs.Session.Uses
import NativeLayout.Proofs.Layout.Caps
import NativeLayout.Proofs.Session.Registration
import NativeLayout.Proofs.Tree.Pieces
import NativeLayout.Proofs.Source.Dependencies
import NativeLayout.Proofs.Session.Definitions
import NativeLayout.Proofs.Layout.Append
import NativeLayout.Proofs.Tree.WellFormed
import NativeLayout.Proofs.Session.WellFormed
import NativeLayout.Proofs.Command.TypeText
import NativeLayout.Proofs.Command.Pointers
import NativeLayout.Proofs.Source.Names
import NativeLayout.Proofs.Command.Fields
import NativeLayout.Proofs.Layout.Registers
import NativeLayout.Proofs.Command.Options
import NativeLayout.Proofs.Stored.Variations
import NativeLayout.Proofs.Stored.RoundTrip
