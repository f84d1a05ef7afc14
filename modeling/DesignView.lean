import DesignView.Network.Number
import DesignView.Network.Populate
import DesignView.Proofs.Container.OrderedMap
import DesignView.Proofs.Catalog.Label
import DesignView.Proofs.Catalog.Mirror
import DesignView.Proofs.Container.Table
import DesignView.Proofs.Physical.Reference
import DesignView.Proofs.Physical.Outcome
import DesignView.Proofs.Physical.WellFormed
import DesignView.Proofs.Physical.History
import DesignView.Proofs.Physical.Binding
import DesignView.Proofs.Physical.Integrity
import DesignView.Proofs.Physical.Nesting
import DesignView.Proofs.Physical.Joined
import DesignView.Proofs.Network.Sound
import DesignView.Proofs.Network.Sweep
import DesignView.Proofs.Network.Direction
import DesignView.Proofs.Network.Kept
import DesignView.Proofs.Network.Upkeep
import DesignView.Proofs.Physical.Keeps
import DesignView.Proofs.Network.Current
import DesignView.Proofs.Network.Wire
import DesignView.Proofs.Network.Populate
import DesignView.Proofs.Network.Load
import DesignView.Proofs.Network.History
import DesignView.Proofs.Network.Change
import DesignView.Proofs.Network.Outline
import DesignView.Proofs.Network.Origin
import DesignView.Proofs.Network.Connectivity
import DesignView.Proofs.Network.Drivers
import DesignView.Proofs.Network.Nesting
import DesignView.Proofs.Network.Mirror
import DesignView.Proofs.Network.Shown
import DesignView.Proofs.Network.Ports
import DesignView.Proofs.Network.Terms
import DesignView.Proofs.Catalog.Grouping
import DesignView.Proofs.Catalog.Intact
import DesignView.Proofs.Catalog.Face
import DesignView.Proofs.Network.Arrange
import DesignView.Proofs.Network.Stored
import DesignView.Proofs.Network.Integrity
import DesignView.Proofs.Catalog.Beside
import DesignView.Proofs.Catalog.Graft
import DesignView.Proofs.Catalog.Without
import DesignView.Proofs.Catalog.Bare
import DesignView.Proofs.Catalog.Part
import DesignView.Proofs.Catalog.Flat
import DesignView.Proofs.Network.FirstLink
import DesignView.Proofs.Network.TimingMasters
import DesignView.Proofs.Network.Rebuild
import DesignView.Proofs.Network.Reload
import DesignView.Proofs.Network.Fitted
import DesignView.Proofs.Network.Untimed
import DesignView.Proofs.Network.LoadOrder
import DesignView.Proofs.Network.Answered
import DesignView.Proofs.Network.Numbering
import DesignView.Proofs.Physical.MasterTerms
import DesignView.Physical.InPlace
import DesignView.Proofs.Physical.InPlace
import DesignView.Proofs.Network.Children
import DesignView.Proofs.Network.Membership
import DesignView.Proofs.Catalog.Indexed
import DesignView.Proofs.Network.FlatLoad
import DesignView.Proofs.Network.FlatView
import DesignView.Proofs.Physical.Descent
import DesignView.Proofs.Network.Lookup
import DesignView.Proofs.Catalog.BusBits
import DesignView.Proofs.Catalog.Buses
import DesignView.Proofs.Catalog.Forest
import DesignView.Proofs.Catalog.Planted
import DesignView.Proofs.Catalog.History
import DesignView.Proofs.Network.Catalog
import DesignView.Proofs.Network.Bits
import DesignView.Proofs.Catalog.BusLayout
import DesignView.Proofs.Catalog.FreshCell
import DesignView.Text.Pattern
import DesignView.Proofs.Text.BitName
import DesignView.Proofs.Timing
import DesignView.Proofs.Catalog.Building
import DesignView.Proofs.Network.Building
import DesignView.Proofs.Catalog.BusDirection
import DesignView.Proofs.Network.BusDirection
import DesignView.Proofs.Catalog.PortLinks
import DesignView.Proofs.Network.PortLinks
import DesignView.Proofs.Catalog.Mismatches
import DesignView.Proofs.Network.LoadReports
import DesignView.Proofs.Network.Constants
import DesignView.Physical.TwoEnds
import DesignView.Proofs.Physical.TwoEnds
import DesignView.Proofs.Network.PinNets
import DesignView.Proofs.Catalog.Lasting
import DesignView.Proofs.Network.TopCell
import DesignView.Proofs.Network.TopConnection
import DesignView.Text.Expression
import DesignView.Proofs.Text.Expression
import DesignView.Proofs.Network.Search
import DesignView.Proofs.Container.Allocation
import DesignView.Proofs.Records.Destruction
import DesignView.Proofs.Records.Integrity
import DesignView.Proofs.Network.Inventory
