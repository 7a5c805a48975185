import CexHertz.Lib.Run
import CexHertz.Lib.Versioned
import CexHertz.Service.PostgresEventLog

/-!
# Node ids and the cluster

`node_id_manager.go` and the construction of a node's engine. A node asks the registry in Consul for
its id, or allocates one with compare-and-set on a counter; if that fails it runs with id zero.
Calls to Consul are the atomic steps: any may fail, with or without effect, and a node may crash
between any two.
-/

namespace CexHertz

open Json Function

def nodeRegistryPrefix : String := "node_registry/"

def nodeIDCounterKey : String := "node_registry/next_id"

inductive RegistryValue where
  | counter (n : Nat)
  | entry (nodeID : Nat) (nodeAddr : String) (timestamp : Int)

/-- `parseNodeID`: what is not a number is read as zero. -/
def parseNodeID : RegistryValue → Nat
  | .counter n => n
  | .entry _ _ _ => 0

/-- `json.Unmarshal` into a `NodeIDEntry`: a number is not one. -/
def RegistryValue.nodeID : RegistryValue → Option Nat
  | .counter _ => none
  | .entry nodeID _ _ => some nodeID

abbrev Consul := Versioned.Store String RegistryValue

def registeredID (consul : Consul) (nodeAddr : String) : Option Nat :=
  (consul.pair (nodeRegistryPrefix ++ nodeAddr)).bind fun pair => pair.1.nodeID

def offeredID : Option (RegistryValue × Nat) → Nat
  | none => 1
  | some (value, _) => parseNodeID value

inductive CallResult where
  | ok
  | failed (effect : Bool)
  deriving DecidableEq

inductive BootPhase where
  | query
  | readCounter (attempt : Nat)
  | cas (attempt currentID modifyIndex : Nat)
  | put (nodeID : Nat)

inductive BootStep where
  | next (phase : BootPhase)
  /-- A fresh id was allocated by this very call; otherwise it was found in the registry. -/
  | returned (fresh : Bool) (nodeID : Nat)
  | error

def maxRetries : Nat := 3

def bootStep (nodeAddr : String) (consul : Consul) (phase : BootPhase) (result : CallResult)
    (now : Int) : Consul × BootStep :=
  let key := nodeRegistryPrefix ++ nodeAddr
  match phase, result with
  | .query, result =>
    if nodeAddr = "" then (consul, .error)
    else
      match result with
      | .failed _ => (consul, .error)
      | .ok =>
        match registeredID consul nodeAddr with
        | some nodeID => (consul, .returned false nodeID)
        | none => (consul, .next (.readCounter 0))
  | .readCounter _, .failed _ => (consul, .error)
  | .readCounter attempt, .ok =>
    let pair := consul.pair nodeIDCounterKey
    let currentID := offeredID pair
    if currentID > 1023 then (consul, .error)
    else (consul, .next (.cas attempt currentID (Versioned.version pair)))
  | .cas _ currentID modifyIndex, .failed effect =>
    (if effect then (consul.cas nodeIDCounterKey (.counter (currentID + 1)) modifyIndex).1
      else consul, .error)
  | .cas attempt currentID modifyIndex, .ok =>
    match consul.cas nodeIDCounterKey (.counter (currentID + 1)) modifyIndex with
    | (consul, true) => (consul, .next (.put currentID))
    | (consul, false) =>
      if attempt + 1 < maxRetries then (consul, .next (.readCounter (attempt + 1)))
      else (consul, .error)
  | .put nodeID, .failed effect =>
    (if effect then consul.put key (.entry nodeID nodeAddr now) else consul, .error)
  | .put nodeID, .ok => (consul.put key (.entry nodeID nodeAddr now), .returned true nodeID)

/-! ## Nodes -/

inductive Process where
  | down
  | booting (phase : BootPhase)
  | up (fresh : Bool) (sequencer : Sequencer)

structure Node where
  process : Process
  boots : Nat
  drawn : Nat
  allocated : List Nat

/-- A row that an `AppendEvent` call passed to `WriteEvent`, and who made the call. -/
structure StoreAttempt (ι : Type) where
  globalSeq : Int
  node : ι
  boot : Nat
  nodeID : Nat
  localSeq : Nat

variable {ι τ : Type} [DecidableEq ι]

structure Cluster (ι τ : Type) where
  consul : Consul
  table : List (PersistentEvent τ)
  nodes : ι → Node
  attempts : List (StoreAttempt ι)

def newCluster : Cluster ι τ where
  consul := .empty
  table := []
  nodes := fun _ => ⟨.down, 0, 0, []⟩
  attempts := []

inductive ClusterAction (ι : Type) where
  | start (i : ι)
  | boot (i : ι) (result : CallResult) (now : Int)
  | crash (i : ι)
  /-- The engine draws a number for an event. -/
  | draw (i : ι)
  | append (i : ι) (event : MatchingEngineEvent) (input : WriteInput)

/-- The rest of `NewPartitionAwareMatchEngine`: a new sequencer; too large a node id panics. -/
def startEngine (fresh : Bool) (nodeID : Nat) : Process :=
  match newSequencerWithNodeID nodeID with
  | none => .down
  | some sequencer => .up fresh sequencer

/-- What the answer of `GetOrAllocateNodeID` leads to: an error means node id zero. -/
def engineProcess : BootStep → Process
  | .next phase => .booting phase
  | .returned fresh nodeID => startEngine fresh nodeID
  | .error => startEngine false 0

def wonID : BootPhase → BootStep → List Nat
  | .cas _ currentID _, .next (.put _) => [currentID]
  | _, _ => []

def Cluster.step (J : Encoding τ) (addr : ι → String) (c : Cluster ι τ) :
    ClusterAction ι → Option (Cluster ι τ)
  | .start i =>
    match (c.nodes i).process with
    | .down => some { c with nodes := update c.nodes i { c.nodes i with
        process := .booting .query, boots := (c.nodes i).boots + 1 } }
    | _ => none
  | .boot i result now =>
    match (c.nodes i).process with
    | .booting phase =>
      let (consul, next) := bootStep (addr i) c.consul phase result now
      some { c with
        consul := consul
        nodes := update c.nodes i { c.nodes i with
          process := engineProcess next
          allocated := wonID phase next ++ (c.nodes i).allocated } }
    | _ => none
  | .crash i =>
    some { c with nodes := update c.nodes i { c.nodes i with process := .down } }
  | .draw i =>
    match (c.nodes i).process with
    | .up fresh sequencer => some { c with nodes := update c.nodes i { c.nodes i with
        process := .up fresh sequencer.nextGlobalSeq.2, drawn := (c.nodes i).drawn + 1 } }
    | _ => none
  | .append i event input =>
    match (c.nodes i).process with
    | .up fresh sequencer =>
      let log := ((newPostgresEventLog c.table sequencer).appendEvent J input (some event)).1
      some { c with
        table := log.table
        nodes := update c.nodes i { c.nodes i with
          process := .up fresh log.sequencer, drawn := (c.nodes i).drawn + 1 }
        attempts := c.attempts ++ [{
          globalSeq := int64 sequencer.nextGlobalSeq.1
          node := i
          boot := (c.nodes i).boots
          nodeID := sequencer.nodeID
          localSeq := sequencer.nextGlobalSeq.2.localSeq }] }
    | _ => none

end CexHertz
