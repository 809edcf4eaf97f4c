/-
**The indexes of the configuration** (`ConfigDB::rebuildIndexes`, `matchGroup`, `matchDevice`,
`matchHttpDevice`).

A pointer to a device or to a group is its index in `_devices` or `_groups`; neither vector moves
once it is built. `std::sort` leaves the order of equivalent members open, so it is a parameter
(`Grouping.Sorter`), and so is every result that mentions it.

* `rebuildIndexes` — ports, groups, ranks, ip index, in the order of the source.
* `Config.toDB` — the part of the indexes the ingest server reads, as pointers to the groups;
  **`matchGroup_toDB`** says that it finds what `Config.matchGroup` finds.
-/

import Mathlib.Data.List.Destutter
import EtherAdapter.Grouping.Basic
import EtherAdapter.Model.Config

namespace EtherAdapter

open Grouping

/-! ### Listen ports -/

structure PortIndex where
  listenPorts : List UInt16 := []
  httpListenPorts : List UInt16 := []
  httpByPort : AList (fun _ : UInt16 => ℕ) := ∅

/-- One device of the port loop; the first http device of a port wins. -/
def PortIndex.add (ports : PortIndex) (i : ℕ) (d : Device) : PortIndex :=
  if d.localServerPort = 0 then ports
  else if d.connProto = connHttp then
    { ports with
      httpListenPorts := ports.httpListenPorts ++ [d.localServerPort]
      httpByPort :=
        if d.localServerPort ∈ ports.httpByPort then ports.httpByPort
        else ports.httpByPort.insert d.localServerPort i }
  else if d.connProto = connCustomData ∨ d.connProto = connModbus then
    { ports with listenPorts := ports.listenPorts ++ [d.localServerPort] }
  else ports

def indexPorts (devices : List Device) : PortIndex :=
  devices.zipIdx.foldl (fun ports entry => ports.add entry.2 entry.1) {}

/-- `std::sort`, then `std::unique`. -/
def sortUnique (ports : List UInt16) : List UInt16 :=
  (ports.insertionSort (· ≤ ·)).destutter (· ≠ ·)

/-! ### Groups -/

/-- One endpoint, with the indexes of its devices. -/
abbrev PeerGroup := Group Text ℕ

/-- `DeviceDesc()`, behind no pointer the program follows. -/
def Device.blank : Device where
  spec := ProtoSpec.empty.toFrameSpec
  connProto := 0
  deviceId := []
  ip := []
  devicePort := 0
  localServerPort := 0
  dataProtoId := 0
  columns := []
  columns_eq := ProtoSpec.empty.columns_eq

def deviceAt (devices : List Device) (i : ℕ) : Device := devices.getD i Device.blank

/-- Devices with a source port share the group of their endpoint, the others stand alone. -/
def Device.place (d : Device) (i : ℕ) : Place Text :=
  if d.devicePort ≠ 0 then .join (Peer.key ⟨d.ip, d.devicePort⟩)
  else .alone (d.ip ++ ':' :: '0' :: '#' :: Nat.toDigits 10 i)

/-- Step 2: the groups in the order they are opened, and `_groupByIpPort`. -/
def groupDevices (devices : List Device) : Groups Text ℕ :=
  arrange (fun i => (deviceAt devices i).place i) (List.range devices.length)

/-- The order of the members: by `data_proto_id`, then by `device_id`. -/
def Device.before (a b : Device) : Bool :=
  if a.dataProtoId ≠ b.dataProtoId then a.dataProtoId < b.dataProtoId else a.deviceId < b.deviceId

def memberBefore (devices : List Device) (i j : ℕ) : Bool :=
  (deviceAt devices i).before (deviceAt devices j)

/-- The routing of the member with rank `k` in group `gi`. -/
def Device.route (gi : ℕ) (baseProto : Int32) (k : ℕ) (d : Device) : Device :=
  { d with
    group := some gi
    isEvent := 0 < k
    eventType := if 0 < k then d.dataProtoId - baseProto else 0
    immediateFlush := k = 0 ∧ d.connProto = connCustomData }

def sortMembers (sorter : Sorter ℕ) (devices : List Device) (group : PeerGroup) : PeerGroup :=
  { group with members := sorter.sort (memberBefore devices) group.members }

/-- `g.members.front()->dataProtoId`. -/
def baseProto (devices : List Device) (group : PeerGroup) : Int32 :=
  (deviceAt devices (group.members.headD 0)).dataProtoId

/-- Step 3 for one group: sort, then route the members. -/
def rankGroup (sorter : Sorter ℕ) (devices : List Device) (gi : ℕ) (group : PeerGroup) :
    List Device × PeerGroup :=
  let group := sortMembers sorter devices group
  (modifyEach (Device.route gi (baseProto devices group)) group.members devices, group)

/-- Step 3: every group, in order. -/
def rankGroups (sorter : Sorter ℕ) (devices : List Device) (groups : List PeerGroup) :
    List Device × List PeerGroup :=
  groups.zipIdx.foldl (fun st entry =>
    let ranked := rankGroup sorter st.1 entry.2 entry.1
    (ranked.1, st.2 ++ [ranked.2])) (devices, [])

/-- `key.substr(0, key.find(':'))`. -/
def groupIp (group : PeerGroup) : Text := group.key.takeWhile (· ≠ ':')

/-- `ipGroups[ip]`. -/
def ipGroups (groups : List PeerGroup) (ip : Text) : ℕ := groups.countP fun group => groupIp group = ip

/-- Step 4: the ips of one group only. -/
def indexIps (groups : List PeerGroup) : AList fun _ : Text => ℕ :=
  groups.zipIdx.foldl (fun index entry =>
    if ipGroups groups (groupIp entry.1) = 1 then index.insert (groupIp entry.1) entry.2
    else index) ∅

/-! ### The configuration and its lookups -/

structure Config where
  devices : List Device
  listenPorts : List UInt16
  httpListenPorts : List UInt16
  httpByPort : AList fun _ : UInt16 => ℕ
  groups : List PeerGroup
  groupByIpPort : AList fun _ : Text => ℕ
  groupByIpUnique : AList fun _ : Text => ℕ

def rebuildIndexes (sorter : Sorter ℕ) (devices : List Device) : Config :=
  let ports := indexPorts devices
  let grouped := groupDevices devices
  let ranked := rankGroups sorter devices grouped.groups
  { devices := ranked.1
    listenPorts := sortUnique ports.listenPorts
    httpListenPorts := sortUnique ports.httpListenPorts
    httpByPort := ports.httpByPort
    groups := ranked.2
    groupByIpPort := grouped.index
    groupByIpUnique := indexIps ranked.2 }

/-- `ConfigDB::loadAll`. -/
def Tables.loadAll (tables : Tables) (sorter : Sorter ℕ) : Config :=
  rebuildIndexes sorter tables.devicesLoaded

namespace Config

/-- The group of a peer: its exact endpoint, or else its ip where that has one group only. -/
def matchGroup (db : Config) (peer : Peer) : Option ℕ :=
  match db.groupByIpPort.lookup peer.key with
  | some gi => some gi
  | none => db.groupByIpUnique.lookup peer.ip

def primary (db : Config) (gi : ℕ) : Option ℕ := (db.groups[gi]?).bind fun group => group.members.head?

def matchDevice (db : Config) (peer : Peer) : Option ℕ := (db.matchGroup peer).bind db.primary

/-- The peer's own http device, or else the one registered for the port. -/
def matchHttpDevice (db : Config) (peer : Peer) (httpPort : UInt16) : Option ℕ :=
  match db.matchDevice peer with
  | some i =>
    if (deviceAt db.devices i).connProto = connHttp then some i else db.httpByPort.lookup httpPort
  | none => db.httpByPort.lookup httpPort

/-! ### The view of the ingest server -/

/-- The pointer to a device. -/
def devicePtr (db : Config) (i : ℕ) : DevicePtr := ⟨i, (deviceAt db.devices i).toDeviceDesc⟩

/-- The pointer to a group. -/
def groupPtr (db : Config) (gi : ℕ) : GroupPtr :=
  ⟨gi, ⟨((db.groups[gi]?).map fun group => group.members.map db.devicePtr).getD []⟩⟩

/-- An index with its group numbers followed to the groups. -/
def pointers (db : Config) (index : AList fun _ : Text => ℕ) : AList fun _ : Text => GroupPtr :=
  (index.entries.map fun entry => (⟨entry.1, db.groupPtr entry.2⟩ : Sigma _)).toAList

def toDB (db : Config) : ConfigDB where
  groupByIpPort := db.pointers db.groupByIpPort
  groupByIpUnique := db.pointers db.groupByIpUnique

theorem lookup_pointers (db : Config) (index : AList fun _ : Text => ℕ) (key : Text) :
    (db.pointers index).lookup key = (index.lookup key).map db.groupPtr := by
  rw [pointers, AList.lookup_to_alist, AList.lookup]
  induction index.entries with
  | nil => rfl
  | cons entry entries ih =>
    obtain ⟨name, gi⟩ := entry
    by_cases same : name = key
    · subst same
      rw [List.map_cons, List.dlookup_cons_eq, List.dlookup_cons_eq, Option.map_some]
    · rw [List.map_cons, List.dlookup_cons_ne _ _ (Ne.symm same),
        List.dlookup_cons_ne _ _ (Ne.symm same), ih]

/-- **The ingest server finds the group the configuration finds.** -/
theorem matchGroup_toDB (db : Config) (peer : Peer) :
    db.toDB.matchGroup peer = (db.matchGroup peer).map db.groupPtr := by
  simp only [ConfigDB.matchGroup, toDB, lookup_pointers, matchGroup]
  cases db.groupByIpPort.lookup peer.key with
  | none => rfl
  | some gi => rfl

end Config

end EtherAdapter
