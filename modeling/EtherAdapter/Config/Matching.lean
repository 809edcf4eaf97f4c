/-
**Peer matching: which group and which http device a peer gets.**

* `lookup_indexIps` — the ip index holds exactly the ips of one group.
* **`matchGroup_order`** — the documented order: the group of the exact endpoint, or else the only
  group of the ip, or else none. It needs ips without `:`, since step 4 of `rebuildIndexes` cuts the
  ip out of the group's key.
* **`matchHttpDevice_ip`** — an http request is attributed to a device of the peer's own ip exactly
  when the peer match is an http device, or the first http device of the port has that ip. So a peer
  with an http device of its own can be given another one (`matchHttpDevice_other_ip`).
-/

import EtherAdapter.Config.Groups

namespace EtherAdapter

open Grouping

/-! ### The ip index -/

/-- An ip of one group only. -/
theorem ipGroups_eq_one_iff (groups : List PeerGroup) (ip : Text) :
    ipGroups groups ip = 1 ↔ ∃! gi : ℕ, ∃ group, groups[gi]? = some group ∧ groupIp group = ip := by
  rw [ipGroups, countP_eq_one_iff]
  simp only [decide_eq_true_eq]

/-- Step 4 on a front part of the groups. -/
theorem lookup_indexIps_front {groups : List PeerGroup} {ip : Text} {gi : ℕ}
    (front rest : List PeerGroup) (whole : groups = front ++ rest) :
    (front.zipIdx.foldl (fun index entry =>
        if ipGroups groups (groupIp entry.1) = 1 then index.insert (groupIp entry.1) entry.2
        else index) (∅ : AList fun _ : Text => ℕ)).lookup ip = some gi ↔
      ipGroups groups ip = 1 ∧ ∃ group, front[gi]? = some group ∧ groupIp group = ip := by
  induction front using List.reverseRecOn generalizing rest with
  | nil =>
    constructor
    · intro found
      cases found
    · rintro ⟨_, group, found, _⟩
      cases found
  | append_singleton front last ih =>
    rw [List.append_assoc] at whole
    have before := ih ([last] ++ rest) whole
    have here : groups[front.length]? = some last := by
      rw [whole, List.getElem?_append_right (Nat.le_refl _), Nat.sub_self]
      rfl
    rw [List.zipIdx_append, List.foldl_append]
    simp only [List.zipIdx_singleton, Nat.zero_add, List.foldl_cons, List.foldl_nil,
      getElem?_concat_iff]
    by_cases own : groupIp last = ip
    · rw [own]
      by_cases one : ipGroups groups ip = 1
      · rw [if_pos one, AList.lookup_insert, Option.some.injEq]
        obtain ⟨only, _, unique⟩ := (ipGroups_eq_one_iff groups ip).mp one
        constructor
        · rintro rfl
          exact ⟨one, last, Or.inr ⟨rfl, rfl⟩, own⟩
        · rintro ⟨_, group, old | ⟨rfl, _⟩, same⟩
          · -- an earlier group of this ip would be a second one
            have elsewhere : groups[gi]? = some group := by
              rw [whole, List.getElem?_append_left (List.getElem?_eq_some_iff.mp old).1, old]
            rw [unique front.length ⟨last, here, own⟩, unique gi ⟨group, elsewhere, same⟩]
          · rfl
      · rw [if_neg one, before]
        simp only [one, false_and]
    · have skipped : ∀ index : AList fun _ : Text => ℕ,
          (if ipGroups groups (groupIp last) = 1 then index.insert (groupIp last) front.length
            else index).lookup ip = index.lookup ip := by
        intro index
        split
        · exact AList.lookup_insert_ne (Ne.symm own)
        · rfl
      rw [skipped, before]
      refine and_congr_right fun _ => ?_
      constructor
      · rintro ⟨group, old, same⟩
        exact ⟨group, Or.inl old, same⟩
      · rintro ⟨group, old | ⟨_, rfl⟩, same⟩
        · exact ⟨group, old, same⟩
        · exact absurd same own

/-- **The ip index**: the ips of one group only, with that group. -/
theorem lookup_indexIps (groups : List PeerGroup) (ip : Text) (gi : ℕ) :
    (indexIps groups).lookup ip = some gi ↔
      ipGroups groups ip = 1 ∧ ∃ group, groups[gi]? = some group ∧ groupIp group = ip :=
  lookup_indexIps_front groups [] (List.append_nil groups).symm

/-! ### The order of matching -/

/-- The group has a member with this ip. -/
def Config.HasIp (db : Config) (ip : Text) (gi : ℕ) : Prop :=
  ∃ group, db.groups[gi]? = some group ∧ ∃ i ∈ group.members, (deviceAt db.devices i).ip = ip

/-- The device is configured with exactly this endpoint, with a port that is not 0. -/
def Device.At (d : Device) (peer : Peer) : Prop :=
  d.ip = peer.ip ∧ d.devicePort = peer.port ∧ d.devicePort ≠ 0

instance (d : Device) (peer : Peer) : Decidable (d.At peer) :=
  inferInstanceAs (Decidable (_ ∧ _ ∧ _))

theorem takeWhile_colon {ip : Text} (free : ':' ∉ ip) (rest : Text) :
    (ip ++ ':' :: rest).takeWhile (· ≠ ':') = ip := by
  rw [List.takeWhile_append_of_pos]
  · rw [List.takeWhile_cons_of_neg (by decide), List.append_nil]
  · intro c member
    exact decide_eq_true fun same => free (same ▸ member)

/-- The key of a group starts with the ip of each of its members. -/
theorem groupIp_of_place {d : Device} (free : ':' ∉ d.ip) {i : ℕ} {group : PeerGroup}
    (placed : d.place i = .join group.key ∨ d.place i = .alone group.key) :
    groupIp group = d.ip := by
  have key : ∃ rest, group.key = d.ip ++ ':' :: rest := by
    unfold Device.place at placed
    split at placed
    · rcases placed with join | alone
      · exact ⟨_, (Place.join.inj join).symm⟩
      · cases alone
    · rcases placed with join | alone
      · cases join
      · exact ⟨_, (Place.alone.inj alone).symm⟩
  obtain ⟨rest, key⟩ := key
  rw [groupIp, key, takeWhile_colon free]

/-- A device joins the group of a peer's key exactly when it is configured with that endpoint. -/
theorem Device.place_eq_join_iff (d : Device) (i : ℕ) (peer : Peer) :
    d.place i = .join peer.key ↔ d.At peer := by
  unfold place At
  by_cases port : d.devicePort = 0
  · simp only [port, ne_eq, not_true_eq_false, if_false, reduceCtorEq, and_false]
  · simp only [port, ne_eq, not_false_eq_true, if_true, Place.join.injEq,
      Peer.key_injective.eq_iff, and_true]
    rw [Peer.mk.injEq]

section Matching

variable (sorter : Sorter ℕ) (devices : List Device)

/-- Every device of the list has a member index, and the member is its own. -/
theorem member_device {gi : ℕ} {group : PeerGroup}
    (found : (rebuildIndexes sorter devices).groups[gi]? = some group) {i : ℕ}
    (member : i ∈ group.members) :
    (rebuildIndexes sorter devices).devices[i]? =
      some (deviceAt (rebuildIndexes sorter devices).devices i) := by
  have inside := member_lt sorter devices found member
  rw [List.getElem?_eq_getElem inside, deviceAt_of_getElem? (List.getElem?_eq_getElem inside)]

section NoColon

variable (ips : ∀ d ∈ devices, ':' ∉ d.ip)

include ips

theorem groupIp_of_member {gi : ℕ} {group : PeerGroup}
    (found : (rebuildIndexes sorter devices).groups[gi]? = some group) {i : ℕ}
    (member : i ∈ group.members) :
    groupIp group = (deviceAt (rebuildIndexes sorter devices).devices i).ip := by
  obtain ⟨old, inside, same⟩ := mem_of_unrouted sorter devices
    (member_device sorter devices found member)
  have ip : old.unrouted.ip = (deviceAt (rebuildIndexes sorter devices).devices i).unrouted.ip := by
    rw [same]
  have labelled := (rebuildIndexes_arranged sorter devices).labelled group
    (List.mem_of_getElem? found)
  refine groupIp_of_place (i := i) (ip ▸ ips old inside) ?_
  rcases labelled with shared | ⟨item, members, alone⟩
  · exact Or.inl (shared.2 i member)
  · rw [members, List.mem_singleton] at member
    exact Or.inr (member ▸ alone)

theorem hasIp_iff (ip : Text) (gi : ℕ) :
    (rebuildIndexes sorter devices).HasIp ip gi ↔
      ∃ group, (rebuildIndexes sorter devices).groups[gi]? = some group ∧ groupIp group = ip := by
  constructor
  · rintro ⟨group, found, i, member, same⟩
    exact ⟨group, found, (groupIp_of_member sorter devices ips found member).trans same⟩
  · rintro ⟨group, found, same⟩
    obtain ⟨i, member⟩ := List.exists_mem_of_ne_nil _ (members_ne_nil sorter devices found)
    exact ⟨group, found, i, member, (groupIp_of_member sorter devices ips found member).symm.trans same⟩

/-- The ip index finds the only group of an ip. -/
theorem lookup_unique_iff (ip : Text) (gi : ℕ) :
    (rebuildIndexes sorter devices).groupByIpUnique.lookup ip = some gi ↔
      (∃! gj : ℕ, (rebuildIndexes sorter devices).HasIp ip gj) ∧
        (rebuildIndexes sorter devices).HasIp ip gi := by
  have index := lookup_indexIps (rebuildIndexes sorter devices).groups ip gi
  rw [ipGroups_eq_one_iff] at index
  simp only [hasIp_iff sorter devices ips]
  exact index

end NoColon

/-- The endpoint index finds the group of exactly the devices configured with the endpoint. -/
theorem lookup_endpoint_iff (peer : Peer) (gi : ℕ) :
    (rebuildIndexes sorter devices).groupByIpPort.lookup peer.key = some gi ↔
      ∃ group, (rebuildIndexes sorter devices).groups[gi]? = some group ∧
        ∃ i ∈ group.members, (deviceAt (rebuildIndexes sorter devices).devices i).At peer := by
  have arranged := rebuildIndexes_arranged sorter devices
  rw [show (rebuildIndexes sorter devices).groupByIpPort.lookup peer.key = some gi ↔ _ from
    arranged.index_iff peer.key gi]
  constructor
  · rintro ⟨group, found, key, nonempty, joins⟩
    obtain ⟨i, member⟩ := List.exists_mem_of_ne_nil _ nonempty
    refine ⟨group, found, i, member, (Device.place_eq_join_iff _ i peer).mp ?_⟩
    rw [← key]
    exact joins i member
  · rintro ⟨group, found, i, member, exact⟩
    obtain ⟨key, shared⟩ := Group.shared_of_join
      (arranged.labelled group (List.mem_of_getElem? found)) member
      ((Device.place_eq_join_iff _ i peer).mpr exact)
    exact ⟨group, found, key, shared⟩

/-- A group with one device of an endpoint has all of them, and no others. -/
theorem mem_members_iff {peer : Peer} {gi i j : ℕ} {group : PeerGroup} {e : Device}
    (found : (rebuildIndexes sorter devices).groups[gi]? = some group) (inside : i ∈ group.members)
    (exact : (deviceAt (rebuildIndexes sorter devices).devices i).At peer)
    (other : (rebuildIndexes sorter devices).devices[j]? = some e) :
    j ∈ group.members ↔ e.At peer := by
  have arranged := rebuildIndexes_arranged sorter devices
  have indexed := (lookup_endpoint_iff sorter devices peer gi).mpr ⟨group, found, i, inside, exact⟩
  obtain ⟨key, shared⟩ := Group.shared_of_join
    (arranged.labelled group (List.mem_of_getElem? found)) inside
    ((Device.place_eq_join_iff _ i peer).mpr exact)
  rw [← e.place_eq_join_iff j, ← deviceAt_of_getElem? other]
  constructor
  · intro here
    rw [← key]
    exact shared.2 j here
  · intro joins
    -- the group of `j` is indexed under the same key, so it is this one
    obtain ⟨gj, ⟨group', found', inside'⟩, _⟩ := existsUnique_group sorter devices other
    have again := (lookup_endpoint_iff sorter devices peer gj).mpr
      ⟨group', found', j, inside', (Device.place_eq_join_iff _ j peer).mp joins⟩
    rw [indexed] at again
    cases again
    cases found.symm.trans found'
    exact inside'

/-- **Peer matching follows its documented order.** For ips without `:`:

* if devices are configured with exactly the peer's ip and port, the port not being 0, the result is
  their group, and its members are exactly these devices;
* otherwise the result is the only group with a member of the peer's ip, if there is exactly one
  such group (the groups of devices without a port included);
* otherwise there is no result. -/
theorem matchGroup_order (ips : ∀ d ∈ devices, ':' ∉ d.ip) (peer : Peer) :
    let db := rebuildIndexes sorter devices
    ((∃ d ∈ db.devices, d.At peer) →
      ∃ (gi : ℕ) (group : PeerGroup), db.matchGroup peer = some gi ∧ db.groups[gi]? = some group ∧
        ∀ (i : ℕ) (d : Device), db.devices[i]? = some d → (i ∈ group.members ↔ d.At peer)) ∧
      ((¬ ∃ d ∈ db.devices, d.At peer) →
        (∀ gi : ℕ, db.HasIp peer.ip gi → (∀ gj : ℕ, db.HasIp peer.ip gj → gj = gi) →
          db.matchGroup peer = some gi) ∧
        ((¬ ∃! gi : ℕ, db.HasIp peer.ip gi) → db.matchGroup peer = none)) := by
  intro db
  constructor
  · rintro ⟨d, member, exact⟩
    obtain ⟨i, device⟩ := List.mem_iff_getElem?.mp member
    obtain ⟨gi, ⟨group, found, inside⟩, _⟩ := existsUnique_group sorter devices device
    rw [← deviceAt_of_getElem? device] at exact
    have indexed := (lookup_endpoint_iff sorter devices peer gi).mpr
      ⟨group, found, i, inside, exact⟩
    refine ⟨gi, group, ?_, found, fun j e other => ?_⟩
    · rw [Config.matchGroup, indexed]
    · exact mem_members_iff sorter devices found inside exact other
  · intro none
    have unindexed : db.groupByIpPort.lookup peer.key = Option.none := by
      cases indexed : db.groupByIpPort.lookup peer.key with
      | none => rfl
      | some gi =>
        obtain ⟨group, found, i, inside, exact⟩ :=
          (lookup_endpoint_iff sorter devices peer gi).mp indexed
        have device := member_device sorter devices found inside
        exact absurd ⟨_, List.mem_of_getElem? device, exact⟩ none
    have fallback : db.matchGroup peer = db.groupByIpUnique.lookup peer.ip := by
      rw [Config.matchGroup, unindexed]
    rw [fallback]
    constructor
    · intro gi has unique
      exact (lookup_unique_iff sorter devices ips peer.ip gi).mpr ⟨⟨gi, has, unique⟩, has⟩
    · intro several
      cases indexed : db.groupByIpUnique.lookup peer.ip with
      | none => rfl
      | some gi =>
        exact absurd ((lookup_unique_iff sorter devices ips peer.ip gi).mp indexed).1 several

/-- What a peer is matched to has the peer's ip. -/
theorem ip_of_matchGroup (ips : ∀ d ∈ devices, ':' ∉ d.ip) {peer : Peer} {gi : ℕ}
    (matched : (rebuildIndexes sorter devices).matchGroup peer = some gi) :
    ∃ group, (rebuildIndexes sorter devices).groups[gi]? = some group ∧
      ∀ i ∈ group.members, (deviceAt (rebuildIndexes sorter devices).devices i).ip = peer.ip := by
  unfold Config.matchGroup at matched
  have own : (rebuildIndexes sorter devices).HasIp peer.ip gi := by
    split at matched
    · rename_i indexed
      cases matched
      obtain ⟨group, found, i, member, exact⟩ :=
        (lookup_endpoint_iff sorter devices peer gi).mp indexed
      exact ⟨group, found, i, member, exact.1⟩
    · exact ((lookup_unique_iff sorter devices ips peer.ip gi).mp matched).2
  obtain ⟨group, found, same⟩ := (hasIp_iff sorter devices ips peer.ip gi).mp own
  exact ⟨group, found, fun i member =>
    (groupIp_of_member sorter devices ips found member).symm.trans same⟩

end Matching

/-! ### http devices -/

/-- An http device of this listen port. -/
def Device.httpOn (port : UInt16) (d : Device) : Bool :=
  d.connProto = connHttp ∧ d.localServerPort = port

/-- One device of the port loop, as the http index sees it. -/
theorem PortIndex.lookup_add (ports : PortIndex) (i : ℕ) (d : Device) (port : UInt16) :
    (ports.add i d).httpByPort.lookup port =
      if port ≠ 0 ∧ d.httpOn port ∧ ports.httpByPort.lookup port = none then some i
      else ports.httpByPort.lookup port := by
  unfold add
  by_cases closed : d.localServerPort = 0
  · have other : ¬ (port ≠ 0 ∧ d.httpOn port ∧ ports.httpByPort.lookup port = none) := by
      rintro ⟨open_, on, _⟩
      rw [Device.httpOn, decide_eq_true_eq] at on
      exact open_ (on.2.symm.trans closed)
    rw [if_pos closed, if_neg other]
  by_cases http : d.connProto = connHttp
  · rw [if_neg closed, if_pos http]
    by_cases own : d.localServerPort = port
    · subst own
      simp only [Device.httpOn, http, closed, ne_eq, not_false_eq_true, and_self, decide_true,
        true_and]
      by_cases present : d.localServerPort ∈ ports.httpByPort
      · have found : ports.httpByPort.lookup d.localServerPort ≠ none :=
          Option.isSome_iff_ne_none.mp (AList.lookup_isSome.mpr present)
        rw [if_pos present, if_neg found]
      · have missing : ports.httpByPort.lookup d.localServerPort = none :=
          AList.lookup_eq_none.mpr present
        rw [if_neg present, if_pos missing, AList.lookup_insert]
    · have other : d.httpOn port = false := decide_eq_false fun on => own on.2
      simp only [other, Bool.false_eq_true, false_and, and_false, if_false]
      split
      · rfl
      · exact AList.lookup_insert_ne (Ne.symm own)
  · have other : d.httpOn port = false := decide_eq_false fun on => http on.1
    rw [if_neg closed, if_neg http]
    simp only [other, Bool.false_eq_true, false_and, and_false, if_false]
    split
    · rfl
    · rfl

/-- **The http index**: the first http device of a port. -/
theorem lookup_httpByPort (devices : List Device) (port : UInt16) :
    (indexPorts devices).httpByPort.lookup port =
      if port = 0 then none else devices.findIdx? (Device.httpOn port) := by
  induction devices using List.reverseRecOn with
  | nil => exact (ite_self none).symm
  | append_singleton devices last ih =>
    have step : indexPorts (devices ++ [last]) =
        (indexPorts devices).add devices.length last := by
      rw [indexPorts, List.zipIdx_append, List.foldl_append]
      simp only [List.zipIdx_singleton, Nat.zero_add, List.foldl_cons, List.foldl_nil, indexPorts]
    rw [step, List.findIdx?_append, List.findIdx?_singleton, PortIndex.lookup_add, ih]
    by_cases zero : port = 0
    · simp only [zero, ne_eq, not_true_eq_false, false_and, if_false, if_true]
    · simp only [zero, ne_eq, not_false_eq_true, true_and, if_false]
      cases devices.findIdx? (Device.httpOn port) with
      | some i => simp only [reduceCtorEq, and_false, if_false, Option.some_or]
      | none =>
        cases last.httpOn port with
        | true => simp only [and_self, if_true, Option.map_some, Option.none_or, Nat.zero_add]
        | false =>
          simp only [Bool.false_eq_true, false_and, if_false, Option.map_none, Option.none_or]

section Http

variable (sorter : Sorter ℕ) (devices : List Device)

/-- A device of the rebuilt list, on the list it was built from. -/
theorem unrouted_of_getElem? {i : ℕ} {old : Device} (found : devices[i]? = some old) :
    ∃ d, (rebuildIndexes sorter devices).devices[i]? = some d ∧ d.unrouted = old.unrouted := by
  have kept := congrArg (fun list : List Device => list[i]?) (unrouted_rebuildIndexes sorter devices)
  simp only [List.getElem?_map, found, Option.map_some] at kept
  exact Option.map_eq_some_iff.mp kept

/-- The peer match is an http device. -/
def Config.MatchesHttp (db : Config) (peer : Peer) : Prop :=
  ∃ i, db.matchDevice peer = some i ∧ (deviceAt db.devices i).connProto = connHttp

theorem matchHttpDevice_of_matches {db : Config} {peer : Peer} (http : db.MatchesHttp peer)
    (httpPort : UInt16) : db.matchHttpDevice peer httpPort = db.matchDevice peer := by
  obtain ⟨i, matched, proto⟩ := http
  rw [Config.matchHttpDevice, matched]
  exact if_pos proto

theorem matchHttpDevice_of_not_matches {db : Config} {peer : Peer} (other : ¬ db.MatchesHttp peer)
    (httpPort : UInt16) :
    db.matchHttpDevice peer httpPort = db.httpByPort.lookup httpPort := by
  unfold Config.matchHttpDevice
  split
  · rename_i i matched
    exact if_neg fun proto => other ⟨i, matched, proto⟩
  · rfl

/-- The fallback is the first http device of the port. -/
theorem fallback_iff (httpPort : UInt16) (i : ℕ) :
    (rebuildIndexes sorter devices).httpByPort.lookup httpPort = some i ↔
      httpPort ≠ 0 ∧ devices.findIdx? (Device.httpOn httpPort) = some i := by
  rw [show (rebuildIndexes sorter devices).httpByPort = (indexPorts devices).httpByPort from rfl,
    lookup_httpByPort]
  by_cases zero : httpPort = 0
  · simp only [zero, if_true, reduceCtorEq, ne_eq, not_true_eq_false, false_and]
  · simp only [zero, if_false, ne_eq, not_false_eq_true, true_and]

/-- What `findIdx?` finds is what `find?` finds, and routing does not change it. -/
theorem fallback_device {httpPort : UInt16} {i : ℕ}
    (found : devices.findIdx? (Device.httpOn httpPort) = some i) :
    ∃ first, devices.find? (Device.httpOn httpPort) = some first ∧
      (deviceAt (rebuildIndexes sorter devices).devices i).connProto = connHttp ∧
      (deviceAt (rebuildIndexes sorter devices).devices i).ip = first.ip := by
  obtain ⟨inside, on, before⟩ := List.findIdx?_eq_some_iff_getElem.mp found
  obtain ⟨d, device, same⟩ := unrouted_of_getElem? sorter devices
    (List.getElem?_eq_getElem inside)
  have proto : d.unrouted.connProto = devices[i].unrouted.connProto := by rw [same]
  have ip : d.unrouted.ip = devices[i].unrouted.ip := by rw [same]
  refine ⟨devices[i], List.find?_eq_some_iff_getElem.mpr ⟨on, i, inside, rfl, ?_⟩, ?_, ?_⟩
  · intro j earlier
    rw [Bool.not_eq_true', ← Bool.not_eq_true]
    exact before j earlier
  · rw [deviceAt_of_getElem? device]
    exact proto.trans (of_decide_eq_true on).1
  · rw [deviceAt_of_getElem? device]
    exact ip

/-- Only http devices take requests. -/
theorem connProto_of_matchHttpDevice {peer : Peer} {httpPort : UInt16} {i : ℕ}
    (matched : (rebuildIndexes sorter devices).matchHttpDevice peer httpPort = some i) :
    (deviceAt (rebuildIndexes sorter devices).devices i).connProto = connHttp := by
  by_cases http : (rebuildIndexes sorter devices).MatchesHttp peer
  · rw [matchHttpDevice_of_matches http] at matched
    obtain ⟨j, own, proto⟩ := http
    rw [own] at matched
    cases matched
    exact proto
  · rw [matchHttpDevice_of_not_matches http] at matched
    obtain ⟨_, _, proto, _⟩ := fallback_device sorter devices
      ((fallback_iff sorter devices httpPort i).mp matched).2
    exact proto

theorem exists_findIdx? {devices : List Device} {p : Device → Bool}
    (own : ∃ d ∈ devices, p d = true) : ∃ i, devices.findIdx? p = some i := by
  have found : (devices.findIdx? p).isSome = true := by
    rw [List.findIdx?_isSome, List.any_eq_true.mpr own]
  exact Option.isSome_iff_exists.mp found

/-- The peer match has the peer's ip. -/
theorem ip_of_matchDevice (ips : ∀ d ∈ devices, ':' ∉ d.ip) {peer : Peer} {i : ℕ}
    (matched : (rebuildIndexes sorter devices).matchDevice peer = some i) :
    (deviceAt (rebuildIndexes sorter devices).devices i).ip = peer.ip := by
  obtain ⟨gi, grouped, first⟩ := Option.bind_eq_some_iff.mp matched
  obtain ⟨group, found, members⟩ := ip_of_matchGroup sorter devices ips grouped
  rw [Config.primary, found] at first
  exact members i (List.mem_of_head? first)

/-- **To whom an http request is attributed.** For ips without `:`:

* what is found is an http device, and something is found whenever the port, not 0, has one;
* an http device of the peer's own ip is found exactly when the peer match is an http device, or the
  first http device of the port has that ip. -/
theorem matchHttpDevice_ip (ips : ∀ d ∈ devices, ':' ∉ d.ip) (peer : Peer) (httpPort : UInt16) :
    let db := rebuildIndexes sorter devices
    (∀ i, db.matchHttpDevice peer httpPort = some i →
        (deviceAt db.devices i).connProto = connHttp) ∧
      (httpPort ≠ 0 → (∃ d ∈ devices, d.httpOn httpPort = true) →
        ∃ i, db.matchHttpDevice peer httpPort = some i) ∧
      ((∃ i, db.matchHttpDevice peer httpPort = some i ∧
          (deviceAt db.devices i).connProto = connHttp ∧ (deviceAt db.devices i).ip = peer.ip) ↔
        db.MatchesHttp peer ∨
          httpPort ≠ 0 ∧ ∃ first, devices.find? (Device.httpOn httpPort) = some first ∧
            first.ip = peer.ip) := by
  intro db
  refine ⟨fun i => connProto_of_matchHttpDevice sorter devices, ?_⟩
  by_cases http : db.MatchesHttp peer
  · have found := matchHttpDevice_of_matches http httpPort
    obtain ⟨i, matched, proto⟩ := http
    rw [found, matched]
    refine ⟨fun _ _ => ⟨i, rfl⟩, ?_⟩
    have ip := ip_of_matchDevice sorter devices ips matched
    exact iff_of_true ⟨i, rfl, proto, ip⟩ (Or.inl ⟨i, matched, proto⟩)
  · rw [matchHttpDevice_of_not_matches http]
    simp only [http, false_or]
    refine ⟨fun nonzero own => ?_, ?_⟩
    · obtain ⟨i, found⟩ := exists_findIdx? own
      exact ⟨i, (fallback_iff sorter devices httpPort i).mpr ⟨nonzero, found⟩⟩
    · constructor
      · rintro ⟨i, found, _, ip⟩
        obtain ⟨nonzero, index⟩ := (fallback_iff sorter devices httpPort i).mp found
        obtain ⟨first, isFirst, _, same⟩ := fallback_device sorter devices index
        exact ⟨nonzero, first, isFirst, same.symm.trans ip⟩
      · rintro ⟨nonzero, first, isFirst, ip⟩
        obtain ⟨i, index⟩ :=
          exists_findIdx? ⟨first, List.mem_of_find?_eq_some isFirst, List.find?_some isFirst⟩
        obtain ⟨first', isFirst', proto, same⟩ := fallback_device sorter devices index
        cases isFirst.symm.trans isFirst'
        exact ⟨i, (fallback_iff sorter devices httpPort i).mpr ⟨nonzero, index⟩, proto,
          same.trans ip⟩

end Http

/-! ### Two http devices on one port -/

/-- Two http devices on port 8080, and a custom_data device that shares the second one's ip. -/
def httpTables : Tables where
  devices :=
    [{ deviceId := bytesOf "gate_a", deviceIp := "10.0.0.1".toList, connProto := "http(3)".toList
       localServerPort := 8080, dataProtoId := 1 },
     { deviceId := bytesOf "gate_b", deviceIp := "10.0.0.2".toList, connProto := "http(3)".toList
       localServerPort := 8080, dataProtoId := 1 },
     { deviceId := bytesOf "press", deviceIp := "10.0.0.2".toList, devicePort := 5000
       connProto := "custom_data(1)".toList, localServerPort := 9000, dataProtoId := 2 }]

def httpPeer : Peer := ⟨"10.0.0.2".toList, 40000⟩

theorem httpTables_ips : ∀ d ∈ httpTables.devicesLoaded, ':' ∉ d.ip := by decide

/-- **A request from the second device's ip is attributed to the first one.** The ip has two groups,
so the peer match finds none, and the fallback is the first http device of the port. -/
theorem matchHttpDevice_other_ip :
    (∃ d ∈ httpTables.devicesLoaded, d.httpOn 8080 = true ∧ d.ip = httpPeer.ip) ∧
      (httpTables.loadAll (Sorter.insertion ℕ)).matchHttpDevice httpPeer 8080 = some 0 ∧
      (deviceAt (httpTables.loadAll (Sorter.insertion ℕ)).devices 0).ip ≠ httpPeer.ip := by
  decide

/-- From the first device's ip, whose only group is the http device's own. -/
theorem matchHttpDevice_ip_gate :
    ∃ i, (httpTables.loadAll (Sorter.insertion ℕ)).matchHttpDevice ⟨"10.0.0.1".toList, 40000⟩ 8080 =
        some i ∧
      (deviceAt (httpTables.loadAll (Sorter.insertion ℕ)).devices i).connProto = connHttp ∧
      (deviceAt (httpTables.loadAll (Sorter.insertion ℕ)).devices i).ip = "10.0.0.1".toList :=
  (matchHttpDevice_ip (Sorter.insertion ℕ) httpTables.devicesLoaded httpTables_ips
    ⟨"10.0.0.1".toList, 40000⟩ 8080).2.2.mpr (Or.inl ⟨0, by decide, by decide⟩)

/-- The custom_data endpoint of the second ip is matched exactly, whatever else has that ip. -/
theorem matchGroup_order_press :
    ∃ (gi : ℕ) (group : PeerGroup),
      (httpTables.loadAll (Sorter.insertion ℕ)).matchGroup ⟨"10.0.0.2".toList, 5000⟩ = some gi ∧
        (httpTables.loadAll (Sorter.insertion ℕ)).groups[gi]? = some group ∧
        ∀ (i : ℕ) (d : Device), (httpTables.loadAll (Sorter.insertion ℕ)).devices[i]? = some d →
          (i ∈ group.members ↔ d.At ⟨"10.0.0.2".toList, 5000⟩) :=
  (matchGroup_order (Sorter.insertion ℕ) httpTables.devicesLoaded httpTables_ips
    ⟨"10.0.0.2".toList, 5000⟩).1
    ⟨deviceAt (httpTables.loadAll (Sorter.insertion ℕ)).devices 2, by decide, by decide⟩

end EtherAdapter
