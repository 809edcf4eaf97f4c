/-
**Peer groups: they partition the devices and rank them.**

* `Peer.key_injective` — `ip:port` names one endpoint, whatever the ip: the digits hold no `:`.
* `rankGroups_ranked` — step 3 in closed form: the groups are sorted, every member is routed once,
  with its own rank, and nothing else about a device changes.
* `PeersGrouped` — every device is in exactly one group and points to it; two devices share a group
  exactly when they share their ip and their port, which is not 0; the members are sorted, and the
  routing fields are those of the rank.
* **`rebuildIndexes_groups`** — the devices are grouped so exactly when no two of one endpoint have
  ids whose difference overflows an `int`.
-/

import EtherAdapter.Model.Indexes

namespace EtherAdapter

open Grouping

/-! ### Endpoint keys -/

theorem colon_not_mem_toDigits (n : ℕ) : ':' ∉ Nat.toDigits 10 n := by
  intro member
  have digit := Nat.isDigit_of_mem_toDigits (by decide) (by decide) member
  exact absurd digit (by decide)

/-- A text is cut in one way at a separator that the second part does not hold. -/
theorem append_colon_inj {a b x y : Text} (freeX : ':' ∉ x) (freeY : ':' ∉ y)
    (same : a ++ ':' :: x = b ++ ':' :: y) : a = b ∧ x = y := by
  rcases List.append_eq_append_iff.mp same with ⟨more, rfl, rest⟩ | ⟨more, rfl, rest⟩
  · cases more with
    | nil => exact ⟨(List.append_nil a).symm, (List.cons.inj rest).2⟩
    | cons c more =>
      rw [List.cons_append] at rest
      refine absurd ?_ freeX
      rw [(List.cons.inj rest).2]
      exact List.mem_append_right _ List.mem_cons_self
  · cases more with
    | nil => exact ⟨List.append_nil b, (List.cons.inj rest).2.symm⟩
    | cons c more =>
      rw [List.cons_append] at rest
      refine absurd ?_ freeY
      rw [(List.cons.inj rest).2]
      exact List.mem_append_right _ List.mem_cons_self

/-- **A key names one endpoint.** -/
theorem Peer.key_injective : Function.Injective Peer.key := by
  intro first second same
  obtain ⟨ip, digits⟩ := append_colon_inj (colon_not_mem_toDigits _) (colon_not_mem_toDigits _) same
  have port : first.port.toNat = second.port.toNat := by
    calc first.port.toNat = Nat.ofDigitChars 10 (Nat.toDigits 10 first.port.toNat) 0 :=
          Nat.ofDigitChars_ten_toDigits.symm
      _ = Nat.ofDigitChars 10 (Nat.toDigits 10 second.port.toNat) 0 := by rw [digits]
      _ = second.port.toNat := Nat.ofDigitChars_ten_toDigits
  cases first
  cases second
  simp only at ip port
  rw [ip, UInt16.toNat_inj.mp port]

/-- Two devices join one group exactly when they name the same endpoint. -/
theorem Device.join_iff (d e : Device) (i j : ℕ) :
    (∃ key, d.place i = .join key ∧ e.place j = .join key) ↔
      d.ip = e.ip ∧ d.devicePort = e.devicePort ∧ d.devicePort ≠ 0 := by
  unfold place
  constructor
  · rintro ⟨key, first, second⟩
    split at first
    · rename_i port
      split at second
      · cases first
        have same := Peer.key_injective (Place.join.inj second)
        rw [Peer.mk.injEq] at same
        exact ⟨same.1.symm, same.2.symm, port⟩
      · cases second
    · cases first
  · rintro ⟨ip, port, nonzero⟩
    rw [if_pos nonzero, if_pos (port ▸ nonzero), ip, port]
    exact ⟨_, rfl, rfl⟩

/-! ### Ranks -/

/-- A device without its routing. -/
def Device.unrouted (d : Device) : Device :=
  { d with group := none, isEvent := false, eventType := 0, immediateFlush := false }

theorem deviceAt_of_getElem? {devices : List Device} {i : ℕ} {d : Device}
    (found : devices[i]? = some d) : deviceAt devices i = d := by
  rw [deviceAt, List.getD_eq_getElem?_getD, found, Option.getD_some]

theorem map_unrouted_modifyEach (gi : ℕ) (base : Int32) (positions : List ℕ)
    (devices : List Device) :
    (modifyEach (Device.route gi base) positions devices).map Device.unrouted =
      devices.map Device.unrouted := by
  induction positions using List.reverseRecOn with
  | nil => rfl
  | append_singleton positions last ih =>
    rw [modifyEach_concat, ← ih]
    refine List.ext_getElem? fun i => ?_
    rw [List.getElem?_map, List.getElem?_map, List.getElem?_modify]
    cases (modifyEach (Device.route gi base) positions devices)[i]? with
    | none => rfl
    | some d =>
      by_cases here : last = i
      · simp only [here, if_true, Option.map_eq_map, Option.map_some]
        rfl
      · simp only [here, if_false, Option.map_eq_map, Option.map_some]

section Unrouted

variable {devices other : List Device}

theorem deviceAt_unrouted (same : other.map Device.unrouted = devices.map Device.unrouted) (i : ℕ) :
    (deviceAt other i).unrouted = (deviceAt devices i).unrouted := by
  have entry := congrArg (fun list : List Device => list[i]?) same
  simp only [List.getElem?_map] at entry
  rw [deviceAt, deviceAt, List.getD_eq_getElem?_getD, List.getD_eq_getElem?_getD]
  cases left : other[i]? with
  | none =>
    rw [left, Option.map_none] at entry
    rw [Option.map_eq_none_iff.mp entry.symm]
  | some d =>
    rw [left, Option.map_some] at entry
    obtain ⟨e, right, equal⟩ := Option.map_eq_some_iff.mp entry.symm
    rw [right]
    exact equal.symm

/-- Routing does not change the order of the members. -/
theorem memberBefore_unrouted (same : other.map Device.unrouted = devices.map Device.unrouted) :
    memberBefore other = memberBefore devices := by
  funext i j
  show (deviceAt other i).unrouted.before (deviceAt other j).unrouted = _
  rw [deviceAt_unrouted same, deviceAt_unrouted same]
  rfl

theorem sortMembers_unrouted (sorter : Sorter ℕ)
    (same : other.map Device.unrouted = devices.map Device.unrouted) (group : PeerGroup) :
    sortMembers sorter other group = sortMembers sorter devices group := by
  rw [sortMembers, memberBefore_unrouted same, sortMembers]

theorem baseProto_unrouted (same : other.map Device.unrouted = devices.map Device.unrouted)
    (group : PeerGroup) : baseProto other group = baseProto devices group := by
  show (deviceAt other _).unrouted.dataProtoId = _
  rw [deviceAt_unrouted same]
  rfl

end Unrouted

/-- **Step 3, in closed form.** -/
structure Ranked (sorter : Sorter ℕ) (devices : List Device) (groups : List PeerGroup)
    (result : List Device × List PeerGroup) : Prop where
  kept : result.1.map Device.unrouted = devices.map Device.unrouted
  sorted : result.2 = groups.map (sortMembers sorter devices)
  routed : ∀ {gi : ℕ} {group : PeerGroup} {k i : ℕ}, groups[gi]? = some group →
    (sortMembers sorter devices group).members[k]? = some i →
    result.1[i]? = devices[i]?.map
      (Device.route gi (baseProto devices (sortMembers sorter devices group)) k)
  untouched : ∀ {i : ℕ}, i ∉ groups.flatMap Group.members → result.1[i]? = devices[i]?

theorem rankGroups_concat (sorter : Sorter ℕ) (devices : List Device) (groups : List PeerGroup)
    (last : PeerGroup) :
    rankGroups sorter devices (groups ++ [last]) =
      let st := rankGroups sorter devices groups
      let ranked := rankGroup sorter st.1 groups.length last
      (ranked.1, st.2 ++ [ranked.2]) := by
  rw [rankGroups, List.zipIdx_append, List.foldl_append]
  simp only [List.zipIdx_singleton, Nat.zero_add, List.foldl_cons, List.foldl_nil, rankGroups]

theorem rankGroups_ranked (sorter : Sorter ℕ) (devices : List Device) (groups : List PeerGroup)
    (nodup : (groups.flatMap Group.members).Nodup) :
    Ranked sorter devices groups (rankGroups sorter devices groups) := by
  induction groups using List.reverseRecOn with
  | nil =>
    refine ⟨rfl, rfl, fun found => ?_, fun _ => rfl⟩
    cases found
  | append_singleton groups last ih =>
    rw [List.flatMap_append, List.flatMap_singleton] at nodup
    obtain ⟨front, own, apart⟩ := List.nodup_append.mp nodup
    have before := ih front
    have order := sortMembers_unrouted sorter before.kept last
    have perm : (sortMembers sorter devices last).members.Perm last.members := sorter.perm _ _
    have ownNodup : (sortMembers sorter devices last).members.Nodup := perm.nodup_iff.mpr own
    rw [rankGroups_concat]
    simp only [rankGroup, order, baseProto_unrouted before.kept]
    refine ⟨?_, ?_, fun {gi group k i} found here => ?_, fun {i} outside => ?_⟩
    · rw [map_unrouted_modifyEach, before.kept]
    · rw [before.sorted, List.map_append, List.map_singleton]
    · rcases getElem?_concat_iff.mp found with old | ⟨rfl, rfl⟩
      · -- a member of an earlier group is not among the last group's
        have member : i ∈ group.members :=
          (sorter.perm _ group.members).mem_iff.mp (List.mem_of_getElem? here)
        have earlier : i ∈ groups.flatMap Group.members :=
          List.mem_flatMap.mpr ⟨group, List.mem_of_getElem? old, member⟩
        have other : i ∉ (sortMembers sorter devices last).members := fun inside =>
          apart i earlier i (perm.mem_iff.mp inside) rfl
        rw [getElem?_modifyEach_of_not_mem other]
        exact before.routed old here
      · have fresh : i ∉ groups.flatMap Group.members := fun earlier =>
          apart i earlier i (perm.mem_iff.mp (List.mem_of_getElem? here)) rfl
        rw [getElem?_modifyEach ownNodup here, before.untouched fresh]
    · rw [List.flatMap_append, List.flatMap_singleton, List.mem_append, not_or] at outside
      have other : i ∉ (sortMembers sorter devices last).members := fun inside =>
        outside.2 (perm.mem_iff.mp inside)
      rw [getElem?_modifyEach_of_not_mem other, before.untouched outside.1]

/-! ### The order of the members -/

theorem Device.before_iff (a b : Device) :
    a.before b = true ↔
      a.dataProtoId < b.dataProtoId ∨ a.dataProtoId = b.dataProtoId ∧ a.deviceId < b.deviceId := by
  unfold before
  by_cases same : a.dataProtoId = b.dataProtoId
  · have irreflexive : ¬ b.dataProtoId < b.dataProtoId := Int32.lt_irrefl
    simp only [same, ne_eq, not_true_eq_false, if_false, decide_eq_true_eq, irreflexive, true_and,
      false_or]
  · simp only [same, ne_eq, not_false_eq_true, if_true, decide_eq_true_eq, false_and, or_false]

/-- `a` does not come after `b`. -/
def Device.NotAfter (a b : Device) : Prop :=
  a.dataProtoId < b.dataProtoId ∨ a.dataProtoId = b.dataProtoId ∧ a.deviceId ≤ b.deviceId

theorem Device.notAfter_iff (a b : Device) : a.NotAfter b ↔ b.before a = false := by
  rw [← Bool.not_eq_true, before_iff, not_or, not_and, NotAfter, Int32.not_lt]
  constructor
  · rintro (less | ⟨same, names⟩)
    · exact ⟨Int32.le_of_lt less, fun equal => absurd (equal ▸ less) Int32.lt_irrefl⟩
    · exact ⟨same ▸ Int32.le_refl _, fun _ => List.not_lt.mpr names⟩
  · rintro ⟨le, names⟩
    by_cases same : a.dataProtoId = b.dataProtoId
    · exact Or.inr ⟨same, List.not_lt.mp (names same.symm)⟩
    · exact Or.inl (Int32.lt_of_le_of_ne le same)

/-- Only devices that agree on both are equivalent. -/
theorem Device.incomparable {a b : Device} (ab : ¬ a.before b = true) (ba : ¬ b.before a = true) :
    a.dataProtoId = b.dataProtoId ∧ a.deviceId = b.deviceId := by
  rw [Bool.not_eq_true, ← notAfter_iff] at ab ba
  rcases ab with less | ⟨same, names⟩
  · rcases ba with greater | ⟨same, _⟩
    · exact absurd (Int32.lt_trans less greater) Int32.lt_irrefl
    · exact absurd (same ▸ less) Int32.lt_irrefl
  · rcases ba with greater | ⟨_, names'⟩
    · exact absurd (same ▸ greater) Int32.lt_irrefl
    · exact ⟨same.symm, List.le_antisymm names' names⟩

theorem before_strictWeak (devices : List Device) :
    IsStrictWeakOrder ℕ fun i j => memberBefore devices i j = true where
  irrefl i less := by
    rcases (Device.before_iff _ _).mp less with proto | ⟨_, names⟩
    · exact Int32.lt_irrefl proto
    · exact List.lt_irrefl _ names
  trans i j k ij jk := by
    refine (Device.before_iff _ _).mpr ?_
    rcases (Device.before_iff _ _).mp ij with proto | ⟨same, names⟩
    · rcases (Device.before_iff _ _).mp jk with proto' | ⟨same', _⟩
      · exact Or.inl (Int32.lt_trans proto proto')
      · exact Or.inl (same' ▸ proto)
    · rcases (Device.before_iff _ _).mp jk with proto' | ⟨same', names'⟩
      · exact Or.inl (same ▸ proto')
      · exact Or.inr ⟨same.trans same', List.lt_trans names names'⟩
  incomp_trans i j k ij jk := by
    obtain ⟨proto, name⟩ := Device.incomparable ij.1 ij.2
    obtain ⟨proto', name'⟩ := Device.incomparable jk.1 jk.2
    have notLess : ∀ {a b : Device}, a.dataProtoId = b.dataProtoId → a.deviceId = b.deviceId →
        ¬ a.before b = true := by
      intro a b same names less
      rcases (Device.before_iff _ _).mp less with less | ⟨_, less⟩
      · exact absurd (same ▸ less) Int32.lt_irrefl
      · exact absurd (names ▸ less) (List.lt_irrefl _)
    exact ⟨notLess (proto.trans proto') (name.trans name'),
      notLess (proto.trans proto').symm (name.trans name').symm⟩

/-! ### `rebuildIndexes` -/

section Rebuilt

variable (sorter : Sorter ℕ) (devices : List Device)

theorem groupDevices_arranged :
    Arranged (fun i => (deviceAt devices i).place i) (List.range devices.length)
      (groupDevices devices) := arrange_arranged _ _

theorem rebuildIndexes_ranked :
    Ranked sorter devices (groupDevices devices).groups
      ((rebuildIndexes sorter devices).devices, (rebuildIndexes sorter devices).groups) :=
  rankGroups_ranked sorter devices _
    ((groupDevices_arranged devices).perm.nodup_iff.mpr List.nodup_range)

theorem groups_rebuildIndexes : (rebuildIndexes sorter devices).groups =
    (groupDevices devices).groups.map (sortMembers sorter devices) :=
  (rebuildIndexes_ranked sorter devices).sorted

/-- Routing changes no device otherwise. -/
theorem unrouted_rebuildIndexes :
    (rebuildIndexes sorter devices).devices.map Device.unrouted = devices.map Device.unrouted :=
  (rebuildIndexes_ranked sorter devices).kept

theorem length_rebuildIndexes : (rebuildIndexes sorter devices).devices.length = devices.length := by
  have lengths := congrArg List.length (unrouted_rebuildIndexes sorter devices)
  rwa [List.length_map, List.length_map] at lengths

/-- The sorted groups are arranged as the unsorted ones were. -/
theorem rebuildIndexes_arranged :
    Arranged (fun i => (deviceAt (rebuildIndexes sorter devices).devices i).place i)
      (List.range (rebuildIndexes sorter devices).devices.length)
      ⟨(rebuildIndexes sorter devices).groups, (rebuildIndexes sorter devices).groupByIpPort⟩ := by
  have places : (fun i => (deviceAt (rebuildIndexes sorter devices).devices i).place i) =
      fun i => (deviceAt devices i).place i := by
    funext i
    show (deviceAt (rebuildIndexes sorter devices).devices i).unrouted.place i = _
    rw [deviceAt_unrouted (unrouted_rebuildIndexes sorter devices)]
    rfl
  rw [places, length_rebuildIndexes, groups_rebuildIndexes]
  exact (groupDevices_arranged devices).permuted _ fun members => sorter.perm _ members

/-- **A member carries the routing of its rank.** -/
theorem member_routed {gi : ℕ} {group : PeerGroup}
    (found : (rebuildIndexes sorter devices).groups[gi]? = some group) {k i : ℕ}
    (here : group.members[k]? = some i) :
    (rebuildIndexes sorter devices).devices[i]? =
      devices[i]?.map (Device.route gi (baseProto devices group) k) := by
  rw [groups_rebuildIndexes, List.getElem?_map] at found
  obtain ⟨old, at_gi, rfl⟩ := Option.map_eq_some_iff.mp found
  exact (rebuildIndexes_ranked sorter devices).routed at_gi here

theorem members_sorted {gi : ℕ} {group : PeerGroup}
    (found : (rebuildIndexes sorter devices).groups[gi]? = some group) :
    group.members.Pairwise fun i j =>
      (deviceAt (rebuildIndexes sorter devices).devices i).NotAfter
        (deviceAt (rebuildIndexes sorter devices).devices j) := by
  rw [groups_rebuildIndexes, List.getElem?_map] at found
  obtain ⟨old, _, rfl⟩ := Option.map_eq_some_iff.mp found
  have kept := unrouted_rebuildIndexes sorter devices
  refine (sorter.sorted _ old.members (before_strictWeak devices)).imp fun {i j} ordered => ?_
  rw [Device.notAfter_iff, ← ordered, ← memberBefore_unrouted kept]
  rfl

/-- The device behind a member, and its group pointer. -/
theorem group_of_member {gi : ℕ} {group : PeerGroup}
    (found : (rebuildIndexes sorter devices).groups[gi]? = some group) {i : ℕ}
    (member : i ∈ group.members) {d : Device}
    (device : (rebuildIndexes sorter devices).devices[i]? = some d) : d.group = some gi := by
  obtain ⟨k, here⟩ := List.mem_iff_getElem?.mp member
  rw [member_routed sorter devices found here] at device
  obtain ⟨old, _, rfl⟩ := Option.map_eq_some_iff.mp device
  rfl

/-- A member is the index of a device. -/
theorem member_lt {gi : ℕ} {group : PeerGroup}
    (found : (rebuildIndexes sorter devices).groups[gi]? = some group) {i : ℕ}
    (member : i ∈ group.members) : i < (rebuildIndexes sorter devices).devices.length :=
  List.mem_range.mp ((rebuildIndexes_arranged sorter devices).perm.mem_iff.mp
    (List.mem_flatMap.mpr ⟨group, List.mem_of_getElem? found, member⟩))

theorem members_ne_nil {gi : ℕ} {group : PeerGroup}
    (found : (rebuildIndexes sorter devices).groups[gi]? = some group) : group.members ≠ [] := by
  rcases (rebuildIndexes_arranged sorter devices).labelled group (List.mem_of_getElem? found) with
    shared | ⟨item, only, _⟩
  · exact shared.1
  · rw [only]
    exact List.cons_ne_nil _ _

/-- A device of the result is one of the list, but for its routing. -/
theorem mem_of_unrouted {i : ℕ} {d : Device}
    (device : (rebuildIndexes sorter devices).devices[i]? = some d) :
    ∃ old ∈ devices, old.unrouted = d.unrouted := by
  have kept := congrArg (fun list : List Device => list[i]?) (unrouted_rebuildIndexes sorter devices)
  simp only [List.getElem?_map, device, Option.map_some] at kept
  obtain ⟨old, found, same⟩ := Option.map_eq_some_iff.mp kept.symm
  exact ⟨old, List.mem_of_getElem? found, same⟩

/-- A device of the list is in the result, with its routing. -/
theorem exists_routed {i : ℕ} {old : Device} (found : devices[i]? = some old) :
    ∃ d, (rebuildIndexes sorter devices).devices[i]? = some d ∧ d.unrouted = old.unrouted := by
  have kept := congrArg (fun list : List Device => list[i]?) (unrouted_rebuildIndexes sorter devices)
  simp only [List.getElem?_map, found, Option.map_some] at kept
  exact Option.map_eq_some_iff.mp kept

/-- Every device is a member of exactly one group. -/
theorem existsUnique_group {i : ℕ} {d : Device}
    (device : (rebuildIndexes sorter devices).devices[i]? = some d) :
    ∃! gi : ℕ, ∃ group : PeerGroup, (rebuildIndexes sorter devices).groups[gi]? = some group ∧
      i ∈ group.members := by
  refine (rebuildIndexes_arranged sorter devices).existsUnique List.nodup_range ?_
  exact List.mem_range.mpr (List.getElem?_eq_some_iff.mp device).1

theorem Device.NotAfter.toInt_le {a b : Device} (ordered : a.NotAfter b) :
    a.dataProtoId.toInt ≤ b.dataProtoId.toInt := by
  rcases ordered with less | ⟨same, _⟩
  · exact Int.le_of_lt (Int32.lt_iff_toInt_lt.mp less)
  · exact Int.le_of_eq (congrArg Int32.toInt same)

/-- No member's `data_proto_id` is below the first one's. -/
theorem base_le {gi : ℕ} {group : PeerGroup}
    (found : (rebuildIndexes sorter devices).groups[gi]? = some group) {k i : ℕ}
    (here : group.members[k]? = some i) :
    (deviceAt (rebuildIndexes sorter devices).devices (group.members.headD 0)).dataProtoId.toInt ≤
      (deviceAt (rebuildIndexes sorter devices).devices i).dataProtoId.toInt := by
  have sorted := members_sorted sorter devices found
  cases members : group.members with
  | nil =>
    rw [members] at here
    cases here
  | cons first rest =>
    rw [members] at here sorted
    cases k with
    | zero =>
      cases here
      exact Int.le_refl _
    | succ k => exact ((List.pairwise_cons.mp sorted).1 i (List.mem_of_getElem? here)).toInt_le

/-- **A difference is an `int` exactly if it is less than `2 ^ 31`.** -/
theorem toInt_sub_eq_iff {a b : Int32} (ordered : b.toInt ≤ a.toInt) :
    (a - b).toInt = a.toInt - b.toInt ↔ a.toInt - b.toInt < 2 ^ 31 := by
  constructor
  · intro exact
    rw [← exact]
    exact Int32.toInt_lt _
  · intro fits
    rw [Int32.toInt_sub]
    exact Int.bmod_eq_of_le (by omega) (by omega)

/-- The routing of a member, as it is computed. -/
theorem routing_of_member {gi : ℕ} {group : PeerGroup}
    (found : (rebuildIndexes sorter devices).groups[gi]? = some group) {k i : ℕ}
    (here : group.members[k]? = some i) :
    let d := deviceAt (rebuildIndexes sorter devices).devices i
    let base := deviceAt (rebuildIndexes sorter devices).devices (group.members.headD 0)
    d.isEvent = decide (k ≠ 0) ∧
      d.eventType = (if k = 0 then 0 else d.dataProtoId - base.dataProtoId) ∧
      d.immediateFlush = decide (k = 0 ∧ d.connProto = connCustomData) := by
  intro d base
  have inside := member_lt sorter devices found (List.mem_of_getElem? here)
  have routed := member_routed sorter devices found here
  rw [List.getElem?_eq_getElem inside] at routed
  obtain ⟨old, _, routed⟩ := Option.map_eq_some_iff.mp routed.symm
  have device : d = old.route gi (baseProto devices group) k := by
    rw [routed]
    exact deviceAt_of_getElem? (List.getElem?_eq_getElem inside)
  have first : base.dataProtoId = baseProto devices group :=
    baseProto_unrouted (unrouted_rebuildIndexes sorter devices) group
  refine ⟨?_, ?_, ?_⟩
  · simp only [device, Device.route, Nat.pos_iff_ne_zero]
  · rw [first, device]
    simp only [Device.route, Nat.pos_iff_ne_zero, ite_not]
  · rw [device]
    rfl

/-! ### The grouping as it is meant -/

/-- The routing of rank `k` behind the first member `base`. -/
structure Device.HasRank (d : Device) (k : ℕ) (base : Device) : Prop where
  isEvent : d.isEvent = decide (k ≠ 0)
  eventType : d.eventType.toInt =
    if k = 0 then 0 else d.dataProtoId.toInt - base.dataProtoId.toInt
  immediateFlush : d.immediateFlush = decide (k = 0 ∧ d.connProto = connCustomData)

/-- A member has its rank exactly if the difference of the ids is an `int`. -/
theorem hasRank_iff {gi : ℕ} {group : PeerGroup}
    (found : (rebuildIndexes sorter devices).groups[gi]? = some group) {k i : ℕ}
    (here : group.members[k]? = some i) :
    let d := deviceAt (rebuildIndexes sorter devices).devices i
    let base := deviceAt (rebuildIndexes sorter devices).devices (group.members.headD 0)
    d.HasRank k base ↔ k = 0 ∨ d.dataProtoId.toInt - base.dataProtoId.toInt < 2 ^ 31 := by
  intro d base
  obtain ⟨isEvent, eventType, immediateFlush⟩ := routing_of_member sorter devices found here
  have difference := toInt_sub_eq_iff (base_le sorter devices found here)
  constructor
  · intro ranked
    refine or_iff_not_imp_left.mpr fun later => difference.mp ?_
    have exact := ranked.eventType
    rwa [eventType, if_neg later, if_neg later] at exact
  · intro fits
    refine ⟨isEvent, ?_, immediateFlush⟩
    rw [eventType]
    split
    · rfl
    · rename_i later
      exact difference.mpr (fits.resolve_left later)

/-- **The peer groups partition the devices and rank them**: nothing but the routing of a device has
changed; every device is a member of exactly one group, once, and its group pointer names it; two
devices are in one group exactly when they have the same ip and the same port, not 0; the members of
a group are existing devices, at least one, sorted by `data_proto_id` and then by `device_id`; and
each of them has its rank. -/
structure PeersGrouped (devices : List Device) (db : Config) : Prop where
  kept : db.devices.map Device.unrouted = devices.map Device.unrouted
  grouped : ∀ (i : ℕ) (d : Device), db.devices[i]? = some d →
    ∃ (gi : ℕ) (group : PeerGroup), d.group = some gi ∧ db.groups[gi]? = some group ∧
      group.members.count i = 1 ∧
      ∀ (gj : ℕ) (other : PeerGroup), db.groups[gj]? = some other → i ∈ other.members → gj = gi
  shared : ∀ (i j : ℕ) (d e : Device), db.devices[i]? = some d → db.devices[j]? = some e → i ≠ j →
    (d.group = e.group ↔ d.ip = e.ip ∧ d.devicePort = e.devicePort ∧ d.devicePort ≠ 0)
  members : ∀ (gi : ℕ) (group : PeerGroup), db.groups[gi]? = some group →
    group.members ≠ [] ∧ ∀ i ∈ group.members, i < db.devices.length
  sorted : ∀ (gi : ℕ) (group : PeerGroup), db.groups[gi]? = some group →
    group.members.Pairwise fun i j => (deviceAt db.devices i).NotAfter (deviceAt db.devices j)
  ranked : ∀ (gi : ℕ) (group : PeerGroup), db.groups[gi]? = some group →
    ∀ k i, group.members[k]? = some i →
      (deviceAt db.devices i).HasRank k (deviceAt db.devices (group.members.headD 0))

/-- Two devices of one endpoint, `d` the one with the larger id, differ by an `int`. -/
def Device.Near (d e : Device) : Prop :=
  d.ip = e.ip → d.devicePort = e.devicePort → d.devicePort ≠ 0 →
    d.dataProtoId.toInt - e.dataProtoId.toInt < 2 ^ 31

/-- Being near is not a matter of the routing. -/
theorem Device.near_unrouted {d e d' e' : Device} (first : d'.unrouted = d.unrouted)
    (second : e'.unrouted = e.unrouted) (near : d.Near e) : d'.Near e' := by
  show d'.unrouted.Near e'.unrouted
  rw [first, second]
  exact near

/-- Two devices that share a group. -/
theorem shared_iff {i j : ℕ} {d e : Device}
    (first : (rebuildIndexes sorter devices).devices[i]? = some d)
    (second : (rebuildIndexes sorter devices).devices[j]? = some e) (different : i ≠ j) :
    d.group = e.group ↔ d.ip = e.ip ∧ d.devicePort = e.devicePort ∧ d.devicePort ≠ 0 := by
  have arranged := rebuildIndexes_arranged sorter devices
  obtain ⟨gi, ⟨group, found, member⟩, _⟩ := existsUnique_group sorter devices first
  obtain ⟨gj, ⟨other, elsewhere, inside⟩, _⟩ := existsUnique_group sorter devices second
  rw [group_of_member sorter devices found member first,
    group_of_member sorter devices elsewhere inside second, Option.some.injEq,
    arranged.same_iff found elsewhere member inside different, deviceAt_of_getElem? first,
    deviceAt_of_getElem? second, Device.join_iff]

/-- With near ids every member has its rank. -/
theorem hasRank_of_near (near : ∀ d ∈ devices, ∀ e ∈ devices, d.Near e) {gi : ℕ} {group : PeerGroup}
    (found : (rebuildIndexes sorter devices).groups[gi]? = some group) {k i : ℕ}
    (here : group.members[k]? = some i) :
    (deviceAt (rebuildIndexes sorter devices).devices i).HasRank k
      (deviceAt (rebuildIndexes sorter devices).devices (group.members.headD 0)) := by
  refine (hasRank_iff sorter devices found here).mpr (Or.inr ?_)
  by_cases same : i = group.members.headD 0
  · rw [← same, Int.sub_self]
    decide
  have devicesAt : ∀ {m}, m ∈ group.members → (rebuildIndexes sorter devices).devices[m]? =
      some (deviceAt (rebuildIndexes sorter devices).devices m) := by
    intro m member
    have inside := member_lt sorter devices found member
    rw [List.getElem?_eq_getElem inside, deviceAt_of_getElem? (List.getElem?_eq_getElem inside)]
  have head : group.members.headD 0 ∈ group.members := by
    obtain ⟨first, rest, members⟩ := List.exists_cons_of_ne_nil (members_ne_nil sorter devices found)
    rw [members]
    exact List.mem_cons_self
  have member := List.mem_of_getElem? here
  have device := devicesAt member
  have base := devicesAt head
  have together := (group_of_member sorter devices found member device).trans
    (group_of_member sorter devices found head base).symm
  obtain ⟨ip, port, nonzero⟩ := (shared_iff sorter devices device base same).mp together
  obtain ⟨d, inList, unrouted⟩ := mem_of_unrouted sorter devices device
  obtain ⟨e, alsoInList, unrouted'⟩ := mem_of_unrouted sorter devices base
  exact Device.near_unrouted unrouted.symm unrouted'.symm (near d inList e alsoInList) ip port nonzero

/-- Where every member has its rank, the ids are near: the first member's is the smallest. -/
theorem near_of_grouped (meant : PeersGrouped devices (rebuildIndexes sorter devices)) :
    ∀ d ∈ devices, ∀ e ∈ devices, d.Near e := by
  intro d first e second
  obtain ⟨i, atI⟩ := List.mem_iff_getElem?.mp first
  obtain ⟨j, atJ⟩ := List.mem_iff_getElem?.mp second
  obtain ⟨d', device, unrouted⟩ := exists_routed sorter devices atI
  obtain ⟨e', other, unrouted'⟩ := exists_routed sorter devices atJ
  refine Device.near_unrouted unrouted.symm unrouted'.symm fun ip port nonzero => ?_
  by_cases same : i = j
  · rw [same, other] at device
    cases device
    rw [Int.sub_self]
    decide
  obtain ⟨gi, group, pointer, found, once, _⟩ := meant.grouped i d' device
  obtain ⟨gj, group', pointer', found', once', _⟩ := meant.grouped j e' other
  have together := (meant.shared i j d' e' device other same).mpr ⟨ip, port, nonzero⟩
  rw [pointer, pointer', Option.some.injEq] at together
  rw [together, found', Option.some.injEq] at found
  obtain ⟨k, here⟩ := List.mem_iff_getElem?.mp (List.count_pos_iff.mp (once ▸ Nat.one_pos))
  obtain ⟨l, there⟩ := List.mem_iff_getElem?.mp (List.count_pos_iff.mp (once' ▸ Nat.one_pos))
  rw [← found] at here
  have lowest := base_le sorter devices found' there
  have far := (hasRank_iff sorter devices found' here).mp (meant.ranked gj group' found' k i here)
  rw [deviceAt_of_getElem? other] at lowest
  rw [deviceAt_of_getElem? device] at far
  rcases far with zero | small
  · -- the first member: its id is the smallest one
    have head : group'.members.headD 0 = i := by
      rw [zero] at here
      rw [List.headD_eq_head?_getD, List.head?_eq_getElem?, here, Option.getD_some]
    rw [head, deviceAt_of_getElem? device] at lowest
    omega
  · omega

/-- **The peer groups partition the devices and rank them**, for every list of devices and every way
of sorting equivalent members, exactly when no two devices of one endpoint have ids whose difference
is not an `int`. -/
theorem rebuildIndexes_groups (sorter : Sorter ℕ) (devices : List Device) :
    PeersGrouped devices (rebuildIndexes sorter devices) ↔
      ∀ d ∈ devices, ∀ e ∈ devices, d.Near e := by
  refine ⟨near_of_grouped sorter devices, fun near => ?_⟩
  have arranged := rebuildIndexes_arranged sorter devices
  have nodup := List.nodup_flatMap.mp (arranged.perm.nodup_iff.mpr List.nodup_range)
  refine ⟨unrouted_rebuildIndexes sorter devices, fun i d device => ?_,
    fun i j d e first second different => shared_iff sorter devices first second different,
    fun gi group found => ⟨members_ne_nil sorter devices found,
      fun i member => member_lt sorter devices found member⟩,
    fun gi group found => members_sorted sorter devices found,
    fun gi group found k i here => hasRank_of_near sorter devices near found here⟩
  obtain ⟨gi, ⟨group, found, member⟩, unique⟩ := existsUnique_group sorter devices device
  refine ⟨gi, group, group_of_member sorter devices found member device, found, ?_, ?_⟩
  · exact List.count_eq_one_of_mem (nodup.1 group (List.mem_of_getElem? found)) member
  · exact fun gj other elsewhere inside => unique gj ⟨other, elsewhere, inside⟩

end Rebuilt

/-- A device of the endpoint `10.0.0.7:5000`. -/
def endpointDevice (dataProtoId : Int32) : Device :=
  { Device.blank with ip := "10.0.0.7".toList, devicePort := 5000, dataProtoId := dataProtoId }

/-- The smallest id and 1, in one group: their difference is `2 ^ 31 + 1`. -/
theorem not_grouped_farApart :
    ¬ ∃ sorter : Sorter ℕ, PeersGrouped [endpointDevice (-2147483648), endpointDevice 1]
      (rebuildIndexes sorter [endpointDevice (-2147483648), endpointDevice 1]) := by
  rintro ⟨sorter, meant⟩
  have near := near_of_grouped sorter _ meant (endpointDevice 1)
    (List.mem_cons_of_mem _ (List.mem_singleton_self _)) _ List.mem_cons_self rfl rfl (by decide)
  revert near
  decide

end EtherAdapter
