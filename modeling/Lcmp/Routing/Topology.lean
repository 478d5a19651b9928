import Lcmp.Lib.Transition
import Lcmp.Routing.DciSwitch

/-!
# Topologies and routes

The driver's side of routing: `CalculateRoute`, which searches the topology from a host, the tables that
`SetRoutingEntries` installs, `TakeDownLink`, and the way a packet takes through the tables. The maps of
the driver are keyed by pointers; `order` is the order of the pointers, in which they are iterated.
-/

namespace Lcmp

inductive NodeType where
  | host
  | switch
  | dciSwitch
  deriving DecidableEq

/-- A device at one end of a link. Its rate divides, so there has to be one. -/
structure Interface where
  idx : UInt32
  up : Bool
  delay : UInt64
  bw : UInt64
  hasRate : bw ≠ 0

variable {n : Nat}

/-- `nbr2if[a][b].up`; an interface that does not exist is down. -/
def linkUp (nbr2if : Fin n → Fin n → Option Interface) (a b : Fin n) : Bool := (nbr2if a b).any Interface.up

/-- The nodes and at most one link for each two of them. The two ends of a link are up or down together,
and each link has a device of its own at either end. -/
structure Topology (n : Nat) where
  nodeType : Fin n → NodeType
  nbr2if : Fin n → Fin n → Option Interface
  order : List (Fin n)
  order_nodup : order.Nodup
  mem_order : ∀ v, v ∈ order
  symm : ∀ a b, linkUp nbr2if a b = linkUp nbr2if b a
  device : ∀ a b c i j, nbr2if a b = some i → nbr2if a c = some j → i.idx = j.idx → b = c

namespace Topology

variable (t : Topology n)

def linkUp (a b : Fin n) : Bool := Lcmp.linkUp t.nbr2if a b

/-- Node types 1 and 2. -/
def isSwitch (v : Fin n) : Bool := t.nodeType v != .host

/-- The address of interface 1 of a node, which the driver gives to hosts. -/
def dstAddr (v : Fin n) : UInt32 := nodeIdToIp (UInt32.ofNat v.val)

/-- `nbr2if[a][b].idx`, with the default of a new entry. -/
def ifIdx (a b : Fin n) : UInt32 := ((t.nbr2if a b).map Interface.idx).getD 0

end Topology

/-! ### CalculateRoute -/

/-- A path from the host to a node, and what it adds up to. -/
structure PathInfo (n : Nat) where
  delay : UInt64
  txDelay : UInt64
  bw : UInt64
  path : List (Fin n)

/-- The state of the search for one host. -/
structure RouteSearch (n : Nat) where
  q : List (Fin n)
  dis : Fin n → Option Nat
  nodePaths : Fin n → List (PathInfo n)
  nextHop : Fin n → List (Fin n)

/-- What the routes are computed into. -/
structure RouteTables (n : Nat) where
  nextHop : Fin n → Fin n → List (Fin n)
  pairDelay : Fin n → Fin n → UInt64
  pairTxDelay : Fin n → Fin n → UInt64
  pairBw : Fin n → Fin n → UInt64

namespace RouteTables

def empty : RouteTables n where
  nextHop := fun _ _ => []
  pairDelay := fun _ _ => 0
  pairTxDelay := fun _ _ => 0
  pairBw := fun _ _ => 0

end RouteTables

namespace Topology

variable (t : Topology n) (packetPayloadSize : UInt32)

/-- A path with one hop more. -/
def extendPath (iface : Interface) (next : Fin n) (curPath : PathInfo n) : PathInfo n where
  delay := curPath.delay + iface.delay
  txDelay := curPath.txDelay + packetPayloadSize.toUInt64 * 1000000000 * 8 / iface.bw
  bw := min curPath.bw iface.bw
  path := curPath.path ++ [next]

/-- The body of the loop over the paths to `now`. -/
def visitPath (now : Fin n) (d : Nat) (next : Fin n) (iface : Interface) (s : RouteSearch n) (curPath : PathInfo n) :
    RouteSearch n :=
  let newPath := extendPath packetPayloadSize iface next curPath
  match s.dis next with
  | none => {
      q := if t.isSwitch next then s.q ++ [next] else s.q
      dis := Function.update s.dis next (some (d + 1))
      nodePaths := Function.update s.nodePaths next (s.nodePaths next ++ [newPath])
      nextHop := Function.update s.nextHop next (s.nextHop next ++ [now]) }
  | some k =>
      if d + 1 = k then
        let alreadyAdded := decide (now ∈ s.nextHop next)
        { s with
          nodePaths := Function.update s.nodePaths next (s.nodePaths next ++ [newPath])
          nextHop := if alreadyAdded then s.nextHop else Function.update s.nextHop next (s.nextHop next ++ [now]) }
      else s

/-- The body of the loop over the neighbours of `now`. -/
def visitNeighbour (now : Fin n) (d : Nat) (s : RouteSearch n) (next : Fin n) : RouteSearch n :=
  match t.nbr2if now next with
  | none => s
  | some iface =>
      if iface.up then (s.nodePaths now).foldl (t.visitPath packetPayloadSize now d next iface) s else s

def visitNode (s : RouteSearch n) (now : Fin n) : RouteSearch n :=
  t.order.foldl (t.visitNeighbour packetPayloadSize now ((s.dis now).getD 0)) s

/-- The loop over the growing queue, from position `i` on. -/
def routeLoop : Nat → Nat → RouteSearch n → RouteSearch n
  | 0, _, s => s
  | fuel + 1, i, s =>
      match s.q[i]? with
      | some now => routeLoop fuel (i + 1) (t.visitNode packetPayloadSize s now)
      | none => s

/-- The search starts at the host; a node is queued once at most, so `n` rounds are enough. -/
def searchRoutes (r : RouteTables n) (host : Fin n) : RouteSearch n :=
  t.routeLoop packetPayloadSize n 0 {
    q := [host]
    dis := Function.update (fun _ => none) host (some 0)
    nodePaths := Function.update (fun _ => []) host [⟨0, 0, 0xffffffffffffffff, [host]⟩]
    nextHop := fun v => r.nextHop v host }

end Topology

/-- The least delay of the paths to a node. -/
def minDelay (paths : List (PathInfo n)) : UInt64 :=
  paths.foldl (fun least p => min least p.delay) 0xffffffffffffffff

/-- The largest bandwidth of the paths with the least delay, and the transmission delay of that path. -/
def bestPath (paths : List (PathInfo n)) : UInt64 × UInt64 :=
  paths.foldl (fun best p => if p.delay = minDelay paths ∧ p.bw > best.1 then (p.bw, p.txDelay) else best) (0, 0)

namespace Topology

variable (t : Topology n) (packetPayloadSize : UInt32)

def calculateRoute (r : RouteTables n) (host : Fin n) : RouteTables n :=
  let s := t.searchRoutes packetPayloadSize r host
  let record (value : List (PathInfo n) → UInt64) (old : Fin n → Fin n → UInt64) : Fin n → Fin n → UInt64 :=
    fun node dst => if dst = host ∧ s.nodePaths node ≠ [] then value (s.nodePaths node) else old node dst
  { nextHop := fun node dst => if dst = host then s.nextHop node else r.nextHop node dst
    pairDelay := record minDelay r.pairDelay
    pairTxDelay := record (fun paths => (bestPath paths).2) r.pairTxDelay
    pairBw := record (fun paths => (bestPath paths).1) r.pairBw }

/-- The nodes in the order of their ids. -/
def calculateRoutes (r : RouteTables n) : RouteTables n :=
  (List.finRange n).foldl (fun r node => if t.nodeType node = .host then t.calculateRoute packetPayloadSize r node else r) r

end Topology

/-! ### The routing tables -/

namespace RtTable

def ports (table : RtTable) (dip : UInt32) : List UInt32 :=
  match table.lookup dip with
  | none => []
  | some hops => hops.ports

def addTableEntry (table : RtTable) (dip intfIdx : UInt32) : RtTable :=
  table.insert dip ⟨table.ports dip ++ [intfIdx], by simp⟩

/-- `GetOutDev` of a switch, which is also how a host chooses a NIC and a DCI switch in mode 0 a port. -/
def getOutDev (table : RtTable) (dip hash : UInt32) : Option UInt32 :=
  (table.lookup dip).map fun nexthops => pick nexthops.ports nexthops.nonempty hash

end RtTable

namespace Topology

variable (t : Topology n)

/-- The calls of `AddTableEntry` for a node. -/
def routingEntries (nextHop : Fin n → Fin n → List (Fin n)) (node : Fin n) : List (UInt32 × UInt32) :=
  t.order.flatMap fun dst => (nextHop node dst).map fun next => (dstAddr dst, t.ifIdx node next)

def setRoutingEntries (nextHop : Fin n → Fin n → List (Fin n)) (rtTable : Fin n → RtTable) : Fin n → RtTable :=
  fun node => (t.routingEntries nextHop node).foldl (fun table e => table.addTableEntry e.1 e.2) (rtTable node)

/-- `nbr2if[a][b].up = nbr2if[b][a].up = false` for a link that is there. -/
def takeDown (a b : Fin n) (nbr2if : Fin n → Fin n → Option Interface) (x y : Fin n) : Option Interface :=
  if (x = a ∧ y = b) ∨ (x = b ∧ y = a) then (nbr2if x y).map fun iface => { iface with up := false } else nbr2if x y

theorem linkUp_takeDown (a b x y : Fin n) (nbr2if : Fin n → Fin n → Option Interface) :
    Lcmp.linkUp (takeDown a b nbr2if) x y =
      if (x = a ∧ y = b) ∨ (x = b ∧ y = a) then false else Lcmp.linkUp nbr2if x y := by
  simp only [Lcmp.linkUp, takeDown]
  split
  · cases nbr2if x y with
    | none => rfl
    | some iface => rfl
  · rfl

theorem takeDown_idx {a b x y : Fin n} {nbr2if : Fin n → Fin n → Option Interface} {iface : Interface}
    (h : takeDown a b nbr2if x y = some iface) : ∃ iface', nbr2if x y = some iface' ∧ iface'.idx = iface.idx := by
  simp only [takeDown] at h
  split at h
  · obtain ⟨iface', hiface', rfl⟩ := Option.map_eq_some_iff.mp h
    exact ⟨iface', hiface', rfl⟩
  · exact ⟨iface, h, rfl⟩

/-- The topology without the link between `a` and `b`. -/
def withoutLink (a b : Fin n) : Topology n where
  nodeType := t.nodeType
  nbr2if := takeDown a b t.nbr2if
  order := t.order
  order_nodup := t.order_nodup
  mem_order := t.mem_order
  symm := by
    intro x y
    rw [linkUp_takeDown, linkUp_takeDown, t.symm x y]
    apply if_congr _ rfl rfl
    tauto
  device := by
    intro x y z i j hi hj hidx
    obtain ⟨i', hi', hi''⟩ := takeDown_idx hi
    obtain ⟨j', hj', hj''⟩ := takeDown_idx hj
    exact t.device x y z i' j' hi' hj' (hi''.trans (hidx.trans hj''.symm))

end Topology

/-! ### The driver -/

/-- The topology with its routes and tables. -/
structure RouteDriver (n : Nat) where
  topo : Topology n
  routes : RouteTables n
  rtTable : Fin n → RtTable

namespace RouteDriver

variable (packetPayloadSize : UInt32)

/-- The end of the setup: `CalculateRoutes` and `SetRoutingEntries`. -/
def start (t : Topology n) : RouteDriver n :=
  let routes := t.calculateRoutes packetPayloadSize .empty
  { topo := t, routes := routes, rtTable := t.setRoutingEntries routes.nextHop fun _ => ∅ }

/-- The tables are cleared before the new entries are installed. -/
def takeDownLink (d : RouteDriver n) (a b : Fin n) : RouteDriver n :=
  if d.topo.linkUp a b then
    let topo := d.topo.withoutLink a b
    let routes := topo.calculateRoutes packetPayloadSize { d.routes with nextHop := fun _ _ => [] }
    { topo := topo, routes := routes, rtTable := topo.setRoutingEntries routes.nextHop fun _ => ∅ }
  else d

/-- Any sequence of links may be taken down. -/
def driverSystem (t : Topology n) : System (RouteDriver n) (Fin n × Fin n) where
  init := start packetPayloadSize t
  next := fun d link => some (d.takeDownLink packetPayloadSize link.1 link.2)

/-! ### The way of a packet -/

variable (d : RouteDriver n)

/-- The node at the other end of a port. A port that is down is refused by an assertion. -/
def peer (u : Fin n) (port : UInt32) : Option (Fin n) :=
  d.topo.order.find? fun v => (d.topo.nbr2if u v).any fun iface => iface.up && iface.idx == port

def nextNode (dip hash : UInt32) (u : Fin n) : Option (Fin n) :=
  ((d.rtTable u).getOutDev dip hash).bind (d.peer u)

/-- The nodes that a packet sent from `u` comes to, `fuel` at most, with the hash that each node finds. A
host is the end: it keeps what comes in. -/
def journey (dip : UInt32) (hash : Fin n → UInt32) : Nat → Fin n → List (Fin n)
  | 0, _ => []
  | fuel + 1, u =>
      match d.nextNode dip (hash u) u with
      | none => []
      | some v => if d.topo.isSwitch v then v :: journey dip hash fuel v else [v]

end RouteDriver

/-! ### Tables of all three kinds of node -/

/-- `AddTableEntry` of a DCI switch. -/
theorem DciSwitch.addTableEntry_rtTable (sw : DciSwitch) (dip intfIdx : UInt32) :
    (sw.addTableEntry dip intfIdx).rtTable = RtTable.addTableEntry sw.rtTable dip intfIdx := rfl

/-- In mode 0 a DCI switch does what a switch does. -/
theorem DciSwitch.getOutDev_ecmp {cfg : DciConfig} (hmode : cfg.routingMode = .ecmp) (env : SwitchEnv) (ch : CustomHeader)
    (sw : DciSwitch) : (sw.getOutDev cfg env ch).2 = RtTable.getOutDev sw.rtTable ch.dip (flowHash cfg env ch) := by
  simp only [DciSwitch.getOutDev, RtTable.getOutDev]
  rw [hmode]
  cases sw.rtTable.lookup ch.dip with
  | none => rfl
  | some nexthops => rfl

end Lcmp
