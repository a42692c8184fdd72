import NodeFleet.Grid.Reason
import NodeFleet.Main
import NodeFleet.Metrics.Exporter
import NodeFleet.Node.Creation
import NodeFleet.Node.Upkeep
import NodeFleet.Proofs.Node.Creation
import NodeFleet.Proofs.Reclaimer.Agreement
import NodeFleet.Proofs.Reclaimer.Release
import NodeFleet.Proofs.Reclaimer.Terminal
import NodeFleet.Reclaimer.Session
import NodeFleet.Proofs.Parent.Fact
import NodeFleet.Proofs.Node.Session
import NodeFleet.Proofs.Node.Recognition
import NodeFleet.Proofs.Reclaimer.Pass
import NodeFleet.Proofs.Reclaimer.Balance
import NodeFleet.Proofs.Reclaimer.Once
import NodeFleet.Proofs.Reclaimer.Stopping
import NodeFleet.Proofs.Node.Preview
import NodeFleet.Proofs.Settings.Layer
import NodeFleet.Proofs.Settings.Variables
import NodeFleet.Proofs.Settings.Decision
import NodeFleet.Proofs.Node.PortPair
import NodeFleet.Proofs.Node.Retry
import NodeFleet.Proofs.Monitor
import NodeFleet.Proofs.Reclaimer.Alive
import NodeFleet.Proofs.Settings.Validity
import NodeFleet.Proofs.Reclaimer.Ready
import NodeFleet.Proofs.Reclaimer.Settling
import NodeFleet.Proofs.Reclaimer.Passage
import NodeFleet.Proofs.Reclaimer.Capture
import NodeFleet.Proofs.Reclaimer.Nested
import NodeFleet.Proofs.Time.Calendar
import NodeFleet.Proofs.Time.Timestamp
import NodeFleet.Proofs.Records
import NodeFleet.Proofs.Node.Bindings
import NodeFleet.Proofs.Parent.Mounts
import NodeFleet.Proofs.Reclaimer.Selection
import NodeFleet.Proofs.Reclaimer.Schedule
import NodeFleet.Proofs.Text.Pieces
import NodeFleet.Proofs.Text.ByteOrder
import NodeFleet.Proofs.Daemon.Output
import NodeFleet.Proofs.Daemon.Networks
import NodeFleet.Proofs.Parent.Propagation
import NodeFleet.Proofs.Node.Variables
import NodeFleet.Proofs.Parent.Proxies
import NodeFleet.Proofs.Settings.Defaults
import NodeFleet.Proofs.Node.Lookup
import NodeFleet.Proofs.Number.Rounding
import NodeFleet.Proofs.Number.Numeral
import NodeFleet.Proofs.Number.Shortest
import NodeFleet.Proofs.Settings.Spelling
import NodeFleet.Proofs.Settings.Files
import NodeFleet.Proofs.Daemon.Images
import NodeFleet.Proofs.Daemon.Archive
import NodeFleet.Proofs.Daemon.Specification
import NodeFleet.Proofs.Origins
import NodeFleet.Proofs.Node.Name
