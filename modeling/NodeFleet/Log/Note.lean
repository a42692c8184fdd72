import NodeFleet.Container.Fault
import NodeFleet.Json.Basic
import NodeFleet.Log.Level
import NodeFleet.Text.Quoted

set_option autoImplicit false
namespace NodeFleet

inductive Note
  -- the monitor
  | starting
  | metricsReady (listenAddr : Option String)
  | imageSelected (image : String)
  | parentResolved (parent mode : String) (extraHosts : List String) (mounts proxyVars : Nat)
  | fleetStatus (image : String) (running : Nat)
  | shutdownReceived
  | stopped
  -- the gateway to the engine
  | gatewayConnected (timeoutSecs : Nat)
  | creationWarning (warning : String)
  -- what nodes inherit
  | lookupFailed (fault : Fault)
  | networkResolved (mode : String) (extraHosts : List String)
  | mountsResolved (count : Nat)
  | mountsRejected (error : ConfigurationError)
  | parentNotFound (parent : String)
  | parentInspectionFailed (parent : String) (fault : Fault)
  | hostNameFailed (fault : Fault)
  -- nodes
  | invalidPort (text : String)
  | noPreviewPort (port : Nat)
  | creating (name : String)
  | creationFailed (name : String) (fault : Fault)
  | startFailed (name : String) (fault : Fault)
  | removalFailed (fault : Fault)
  | nodeStarted (id name : String) (previewPort : Nat)
  | nodeStopped (id : String)
  | stopFailed (id : String) (fault : Fault)
  | executing (command : List String)
  | commandOutput (output : String)
  | outputLost (detail : String)
  | commandFailed (fault : Fault)
  | copyFailed (id folder : String) (fault : Fault)
  | hostWithoutPort
  | defaultPortAssumed (port : Nat)
  | addressFailed (fault : Fault)
  | imagesFailed (fault : Fault)
  | imageNotFound (image : String)
  | countFailed (fault : Fault)
  -- the reclaimer
  | reclaimerStarted (proxy : String)
  | reclaimerStopped (proxy : String)
  | reclaimerFailed
  | releasing (proxy slot session : String)
  | sessionCompleted (proxy session : String)
  | captureFailed (session : String) (completed : Bool)
deriving DecidableEq, Repr

namespace Note

def version : String := "1.0.0"

def level : Note → Level
  | .starting | .metricsReady _ | .imageSelected _ | .parentResolved .. | .fleetStatus ..
  | .shutdownReceived | .stopped | .gatewayConnected _ | .networkResolved .. | .nodeStarted ..
  | .executing _ | .reclaimerStarted _ | .releasing .. | .sessionCompleted .. => .info
  | .mountsRejected _ | .parentNotFound _ | .parentInspectionFailed .. | .invalidPort _
  | .noPreviewPort _ | .creationFailed .. | .startFailed .. | .stopFailed .. | .copyFailed ..
  | .hostWithoutPort | .defaultPortAssumed _ | .imagesFailed _ | .imageNotFound _
  | .countFailed _ | .reclaimerFailed | .captureFailed .. => .warn
  | .creationWarning _ | .lookupFailed _ | .mountsResolved _ | .hostNameFailed _ | .creating _
  | .removalFailed _ | .nodeStopped _ | .commandOutput _ | .outputLost _ | .commandFailed _
  | .addressFailed _ | .reclaimerStopped _ => .debug

def target : Note → String
  | .starting | .metricsReady _ | .imageSelected _ | .parentResolved .. | .fleetStatus ..
  | .shutdownReceived | .stopped => "dockgrid"
  | .gatewayConnected _ | .creationWarning _ => "dockgrid::runtime::docker"
  | .lookupFailed _ | .networkResolved .. | .mountsResolved _ | .mountsRejected _
  | .parentNotFound _ | .parentInspectionFailed .. | .hostNameFailed _ =>
    "dockgrid::container::resolver"
  | .reclaimerStarted _ | .reclaimerStopped _ | .reclaimerFailed | .releasing ..
  | .sessionCompleted .. | .captureFailed .. => "dockgrid::reclaimer"
  | _ => "dockgrid::container::manager"

def message : Note → String
  | .starting => "Starting dockgrid"
  | .metricsReady _ => "Prometheus metrics initialized"
  | .imageSelected _ => "Node image selected"
  | .parentResolved .. => "Parent container resolved"
  | .fleetStatus .. => "Node fleet status"
  | .shutdownReceived => "Shutdown signal received"
  | .stopped => "dockgrid stopped"
  | .gatewayConnected _ => "Docker runtime connected"
  | .creationWarning _ => "Container created with warning"
  | .lookupFailed _ => "Error while getting container id"
  | .networkResolved .. => "Node network resolved"
  | .mountsResolved _ => "Node mounts resolved"
  | .mountsRejected _ => "Node mounts rejected"
  | .parentNotFound _ => "Parent container not found, using defaults"
  | .parentInspectionFailed .. => "Error while inspecting parent container, using defaults"
  | .hostNameFailed _ => "Error while getting host name"
  | .invalidPort _ => "Invalid node port"
  | .noPreviewPort _ => "Node port leaves no room for the live-preview port"
  | .creating _ => "Creating node container"
  | .creationFailed .. => "Error while creating a new container"
  | .startFailed .. => "Error while starting a new container"
  | .removalFailed _ => "Error while removing unstarted container"
  | .nodeStarted .. => "Node container started"
  | .nodeStopped _ => "Container stopped"
  | .stopFailed .. => "Error while stopping the container"
  | .executing _ => "Executing command"
  | .commandOutput _ => "Command output"
  | .outputLost _ => "Error while reading the command output"
  | .commandFailed _ => "Error while executing the command"
  | .copyFailed .. => "Error while copying folder"
  | .hostWithoutPort => "Registered node has no port"
  | .defaultPortAssumed _ => "Registered node has no explicit port, assuming the scheme default"
  | .addressFailed _ => "Error while getting the container IP"
  | .imagesFailed _ => "Error while listing images"
  | .imageNotFound _ => "A downloaded node image was not found"
  | .countFailed _ => "Error while getting number of running containers"
  | .reclaimerStarted _ => "Idle session reclaimer started"
  | .reclaimerStopped _ => "Idle session reclaimer stopped"
  | .reclaimerFailed => "Idle session reclaimer task failed"
  | .releasing .. => "Releasing idle session"
  | .sessionCompleted .. => "Session completed"
  | .captureFailed .. => "Error while capturing session artifacts"

def fields : Note → List (String × Json)
  | .starting => [("version", .text version)]
  | .metricsReady a => [("listen_addr", .text (quotedOption a))]
  | .imageSelected i | .imageNotFound i => [("image", .text i)]
  | .parentResolved p m hosts mounts proxies =>
    [("parent", .text p), ("network_mode", .text m), ("extra_hosts", .text (quotedList hosts)),
      ("mounts", .natural mounts), ("proxy_vars", .natural proxies)]
  | .fleetStatus i n => [("image", .text i), ("running", .natural n)]
  | .gatewayConnected t => [("timeout_secs", .natural t)]
  | .creationWarning w => [("warning", .text w)]
  | .networkResolved m hosts =>
    [("network_mode", .text m), ("extra_hosts", .text (quotedList hosts))]
  | .mountsResolved n => [("count", .natural n)]
  | .mountsRejected e => [("error", .text e.message)]
  | .parentNotFound p => [("parent", .text p)]
  | .parentInspectionFailed p f => [("parent", .text p), ("error", .text f.message)]
  | .lookupFailed f | .hostNameFailed f | .removalFailed f | .commandFailed f | .addressFailed f
  | .imagesFailed f | .countFailed f => [("error", .text f.message)]
  | .invalidPort t => [("node_port", .text t)]
  | .noPreviewPort p => [("node_port", .natural p)]
  | .creating n => [("container_name", .text n)]
  | .creationFailed n f | .startFailed n f =>
    [("container_name", .text n), ("error", .text f.message)]
  | .nodeStarted i n p =>
    [("container_id", .text i), ("container_name", .text n), ("no_vnc_port", .natural p)]
  | .nodeStopped i => [("container_id", .text i)]
  | .stopFailed i f => [("container_id", .text i), ("error", .text f.message)]
  | .executing c => [("command", .text (quotedList c))]
  | .commandOutput o => [("output", .text o)]
  | .outputLost d => [("error", .text d)]
  | .copyFailed i folder f =>
    [("container_id", .text i), ("folder", .text folder), ("error", .text f.message)]
  | .defaultPortAssumed p => [("node_port", .natural p)]
  | .reclaimerStarted p | .reclaimerStopped p => [("proxy", .text p)]
  | .releasing p slot s =>
    [("proxy", .text p), ("slot_id", .text slot), ("session_id", .text s)]
  | .sessionCompleted p s => [("proxy", .text p), ("session_id", .text s)]
  | .captureFailed s c => [("session_id", .text s), ("completed", .bool c)]
  | .shutdownReceived | .stopped | .hostWithoutPort | .reclaimerFailed => []

def line (n : Note) : String := n.level.label ++ " " ++ n.message

end Note
end NodeFleet
