/-
**One step of a timer queue.**

* `TimerQueue.Sound` — which timers live where: every entry's timer is alive and has the entry's
  time, `_activeTimers` are the timers of `_timers`, and what else is alive is listed.
* `insert_spec`, `cancelInLoop_spec`, `getExpired_spec`, `resetAll_spec`, `rearm_spec` — what each
  operation does to a sound queue; no assertion fails in it.
* **`TimerQueue.step_spec`** — an enabled step of a queue with the invariant `Inv` ends without a
  fault, is one of the `Moves`, and keeps the invariant; or it is a call of `addTimer` that returns
  after its timer has been deleted.

In the middle of `getExpired` and `reset` some timers are alive that no set holds; `Sound` carries
them as its second argument.
-/

import Mathlib.Tactic.ByContra
import EtherAdapter.Model.Timers

namespace EtherAdapter

namespace TimerQueue

variable {q after : TimerQueue} {others : List ℕ} {timer : ℕ} {t : Timer} {entry : TimerEntry}

/-! ### Timers in memory -/

theorem ok_bind {α β : Type} (a : α) (f : α → Except TimerFault β) :
    (Except.ok a >>= f) = f a := rfl

theorem checkThat_of {condition : Prop} [Decidable condition] (holds : condition) :
    checkThat condition = .ok () := if_pos holds

theorem deref_of (here : q.memory timer = some t) : q.deref timer = .ok t := by
  rw [deref, here]

/-- The entry's timer with its sequence number. -/
def idOf (q : TimerQueue) (entry : TimerEntry) : TimerId :=
  ⟨entry.timer, (q.memory entry.timer).elim 0 Timer.sequence⟩

/-- Which timers live where: those of the entries, and the others. -/
structure Sound (q : TimerQueue) (others : List ℕ) : Prop where
  nodup : (others ++ q.timers.map TimerEntry.timer).Nodup
  live : ∀ timer, (∃ t, q.memory timer = some t) ↔
    timer ∈ others ++ q.timers.map TimerEntry.timer
  timed : ∀ entry ∈ q.timers, ∀ t, q.memory entry.timer = some t → t.expiration = entry.time
  fresh : ∀ timer t, q.memory timer = some t → t.sequence ≤ q.numCreated
  unique : ∀ first second t u, q.memory first = some t → q.memory second = some u →
    t.sequence = u.sequence → first = second
  sorted : q.timers.Pairwise TimerEntry.le
  active : q.activeTimers.Perm (q.timers.map q.idOf)

namespace Sound

theorem sizes (sound : q.Sound others) : q.checkSizes = .ok () := by
  refine checkThat_of ?_
  rw [sound.active.length_eq, List.length_map]

theorem perm {others' : List ℕ} (sound : q.Sound others) (same : others.Perm others') :
    q.Sound others' := by
  have places := same.append_right (q.timers.map TimerEntry.timer)
  exact { sound with
    nodup := places.nodup_iff.mp sound.nodup
    live := fun timer => (sound.live timer).trans places.mem_iff }

theorem other_live (sound : q.Sound others) (member : timer ∈ others) :
    ∃ t, q.memory timer = some t :=
  (sound.live timer).mpr (List.mem_append_left _ member)

theorem entry_live (sound : q.Sound others) (member : entry ∈ q.timers) :
    ∃ t, q.memory entry.timer = some t ∧ t.expiration = entry.time := by
  obtain ⟨t, here⟩ := (sound.live entry.timer).mpr
    (List.mem_append_right _ (List.mem_map_of_mem member))
  exact ⟨t, here, sound.timed entry member t here⟩

end Sound

/-- What is stored at the address of an entry decides its sequence number. -/
theorem idOf_eq (here : q.memory entry.timer = some t) : q.idOf entry = ⟨entry.timer, t.sequence⟩ := by
  rw [idOf, here]
  rfl

theorem map_idOf_congr {q' : TimerQueue} {entries : List TimerEntry}
    (same : ∀ entry ∈ entries, (q'.memory entry.timer).map Timer.sequence =
      (q.memory entry.timer).map Timer.sequence) :
    entries.map q'.idOf = entries.map q.idOf := by
  have number : ∀ found : Option Timer,
      found.elim 0 Timer.sequence = (found.map Timer.sequence).getD 0 := by
    intro found
    cases found <;> rfl
  refine List.map_congr_left fun entry member => ?_
  rw [idOf, idOf, number, number, same entry member]

/-! ### Changes of the memory -/

theorem memory_delete (q : TimerQueue) (timer other : ℕ) :
    (q.delete timer).memory other = if other = timer then none else q.memory other :=
  Function.update_apply _ _ _ _

theorem memory_store (q : TimerQueue) (timer other : ℕ) (t : Timer) :
    (q.store timer t).memory other = if other = timer then some t else q.memory other :=
  Function.update_apply _ _ _ _

/-- No entry points to one of the others. -/
theorem Sound.entry_ne (sound : q.Sound (timer :: others)) (member : entry ∈ q.timers) :
    entry.timer ≠ timer := by
  intro same
  have absent := (List.nodup_cons.mp sound.nodup).1
  exact absent (List.mem_append_right _ (same ▸ List.mem_map_of_mem member))

/-- A timer that no entry points to is deleted. -/
theorem Sound.delete (sound : q.Sound (timer :: others)) : (q.delete timer).Sound others := by
  have found : ∀ other u, (q.delete timer).memory other = some u →
      other ≠ timer ∧ q.memory other = some u := by
    intro other u here
    rw [memory_delete] at here
    exact Option.ite_none_left_eq_some.mp here
  obtain ⟨absent, nodup⟩ := List.nodup_cons.mp sound.nodup
  refine ⟨nodup, fun other => ?_, fun entry member t here => ?_, fun other t here => ?_,
    fun first second t u here there => ?_, sound.sorted, ?_⟩
  · have before := sound.live other
    rw [List.cons_append, List.mem_cons] at before
    constructor
    · rintro ⟨u, here⟩
      obtain ⟨ne, here⟩ := found other u here
      exact (before.mp ⟨u, here⟩).resolve_left ne
    · intro member
      have ne : other ≠ timer := fun same => absent (same ▸ member)
      rw [memory_delete, if_neg ne]
      exact before.mpr (Or.inr member)
  · exact sound.timed entry member t (found _ t here).2
  · exact sound.fresh other t (found _ t here).2
  · exact sound.unique first second t u (found _ t here).2 (found _ u there).2
  · have same : q.timers.map (q.delete timer).idOf = q.timers.map q.idOf :=
      map_idOf_congr fun entry member => by rw [memory_delete, if_neg (sound.entry_ne member)]
    exact same ▸ sound.active

/-- A timer that no entry points to gets another expiration. -/
theorem Sound.restart (sound : q.Sound (timer :: others)) (here : q.memory timer = some t)
    (expiration : ℤ) :
    (q.store timer { t with expiration := expiration }).Sound (timer :: others) := by
  have found : ∀ other u, (q.store timer { t with expiration := expiration }).memory other = some u →
      ∃ v, q.memory other = some v ∧ v.sequence = u.sequence := by
    intro other u there
    rw [memory_store] at there
    split at there
    · rename_i same
      cases there
      exact ⟨t, same ▸ here, rfl⟩
    · exact ⟨u, there, rfl⟩
  refine ⟨sound.nodup, fun other => ?_, fun entry member u there => ?_, fun other u there => ?_,
    fun first second u v there again equal => ?_, sound.sorted, ?_⟩
  · rw [memory_store]
    split
    · rename_i same
      subst same
      exact ⟨fun _ => List.mem_cons_self, fun _ => ⟨_, rfl⟩⟩
    · exact sound.live other
  · rw [memory_store, if_neg (sound.entry_ne member)] at there
    exact sound.timed entry member u there
  · obtain ⟨v, before, same⟩ := found other u there
    exact same ▸ sound.fresh other v before
  · obtain ⟨u', before, same⟩ := found first u there
    obtain ⟨v', before', same'⟩ := found second v again
    exact sound.unique first second u' v' before before' (by rw [same, same', equal])
  · have same : q.timers.map (q.store timer { t with expiration := expiration }).idOf =
        q.timers.map q.idOf :=
      map_idOf_congr fun entry member => by rw [memory_store, if_neg (sound.entry_ne member)]
    exact same ▸ sound.active

/-- A new timer at a free address. -/
theorem Sound.create (sound : q.Sound others) (free : q.memory timer = none) (time : ℤ)
    (interval : Option ℕ) :
    ({ q.store timer ⟨q.numCreated + 1, time, interval⟩ with
      numCreated := q.numCreated + 1 } : TimerQueue).Sound (timer :: others) := by
  have absent : timer ∉ others ++ q.timers.map TimerEntry.timer := by
    intro member
    obtain ⟨t, here⟩ := (sound.live timer).mpr member
    rw [free] at here
    cases here
  have old : ∀ other u, q.memory other = some u → other ≠ timer := by
    rintro other u here rfl
    rw [free] at here
    cases here
  refine ⟨List.nodup_cons.mpr ⟨absent, sound.nodup⟩, fun other => ?_, fun entry member u there => ?_,
    fun other u there => ?_, fun first second u v there again equal => ?_, sound.sorted, ?_⟩
  · show (∃ u, (q.store timer _).memory other = some u) ↔ _
    rw [memory_store, List.cons_append, List.mem_cons]
    split
    · rename_i same
      exact ⟨fun _ => Or.inl same, fun _ => ⟨_, rfl⟩⟩
    · rename_i ne
      rw [or_iff_right ne]
      exact sound.live other
  · obtain ⟨t, here, _⟩ := sound.entry_live member
    change (q.store timer _).memory entry.timer = some u at there
    rw [memory_store, if_neg (old _ t here)] at there
    exact sound.timed entry member u there
  · change (q.store timer _).memory other = some u at there
    rw [memory_store] at there
    split at there
    · cases there
      exact Nat.le_refl _
    · exact Nat.le_succ_of_le (sound.fresh other u there)
  · change (q.store timer _).memory first = some u at there
    change (q.store timer _).memory second = some v at again
    rw [memory_store] at there again
    split at there
    · rename_i same
      split at again
      · rename_i same'
        rw [same, same']
      · cases there
        have less := sound.fresh second v again
        rw [← equal] at less
        exact absurd less (Nat.not_succ_le_self _)
    · split at again
      · cases again
        have less := sound.fresh first u there
        rw [equal] at less
        exact absurd less (Nat.not_succ_le_self _)
      · exact sound.unique first second u v there again equal
  · have same : q.timers.map ({ q.store timer ⟨q.numCreated + 1, time, interval⟩ with
        numCreated := q.numCreated + 1 } : TimerQueue).idOf = q.timers.map q.idOf :=
      map_idOf_congr fun entry member => by
        obtain ⟨t, here, _⟩ := sound.entry_live member
        show ((q.store timer _).memory entry.timer).map _ = _
        rw [memory_store, if_neg (old _ t here)]
    exact same ▸ sound.active

/-! ### Entries -/

instance : Std.Total TimerEntry.le where
  total a b := by
    unfold TimerEntry.le
    omega

instance : IsTrans TimerEntry TimerEntry.le where
  trans a b c := by
    unfold TimerEntry.le
    omega

/-- Timers change between the entries and the others. -/
theorem Sound.rearrange (sound : q.Sound others) {others' : List ℕ}
    (memory : after.memory = q.memory) (created : after.numCreated = q.numCreated)
    (places : (others' ++ after.timers.map TimerEntry.timer).Perm
      (others ++ q.timers.map TimerEntry.timer))
    (timed : ∀ entry ∈ after.timers, ∀ t, q.memory entry.timer = some t →
      t.expiration = entry.time)
    (sorted : after.timers.Pairwise TimerEntry.le)
    (active : after.activeTimers.Perm (after.timers.map q.idOf)) : after.Sound others' := by
  have ids : after.idOf = q.idOf := by
    funext entry
    rw [idOf, idOf, memory]
  refine ⟨places.nodup_iff.mpr sound.nodup, fun timer => ?_, ?_, ?_, ?_, sorted, ids ▸ active⟩
  · rw [memory]
    exact (sound.live timer).trans places.mem_iff.symm
  · rw [memory]
    exact timed
  · rw [memory, created]
    exact sound.fresh
  · rw [memory]
    exact sound.unique

/-- The rest of the state does not matter. -/
theorem Sound.congr (sound : q.Sound others) (memory : after.memory = q.memory)
    (created : after.numCreated = q.numCreated) (timers : after.timers = q.timers)
    (active : after.activeTimers = q.activeTimers) : after.Sound others := by
  refine sound.rearrange memory created ?_ ?_ ?_ ?_
  · rw [timers]
  · rw [timers]
    exact sound.timed
  · rw [timers]
    exact sound.sorted
  · rw [timers, active]
    exact sound.active

/-- The state after an insertion. -/
def inserted (q : TimerQueue) (timer : ℕ) (t : Timer) : TimerQueue :=
  { q with
    timers := q.timers.orderedInsert TimerEntry.le ⟨t.expiration, timer⟩
    activeTimers := ⟨timer, t.sequence⟩ :: q.activeTimers }

theorem Sound.inserted (sound : q.Sound (timer :: others)) (here : q.memory timer = some t) :
    (q.inserted timer t).Sound others := by
  have perm := List.perm_orderedInsert TimerEntry.le (⟨t.expiration, timer⟩ : TimerEntry) q.timers
  refine sound.rearrange rfl rfl ?_ ?_ (List.Pairwise.orderedInsert _ _ sound.sorted) ?_
  · exact ((perm.map TimerEntry.timer).append_left others).trans List.perm_middle
  · intro entry member u there
    rcases (List.mem_orderedInsert TimerEntry.le).mp member with rfl | member
    · rw [here] at there
      cases there
      rfl
    · exact sound.timed entry member u there
  · have added := (perm.map q.idOf).symm
    rw [List.map_cons, idOf_eq here] at added
    exact (sound.active.cons _).trans added

theorem insert_spec (sound : q.Sound (timer :: others)) (here : q.memory timer = some t) :
    q.insert timer = .ok (q.inserted timer t, q.isEarliest t.expiration) := by
  have absent : (⟨t.expiration, timer⟩ : TimerEntry) ∉ q.timers :=
    fun member => sound.entry_ne member rfl
  have inactive : (⟨timer, t.sequence⟩ : TimerId) ∉ q.activeTimers := by
    intro member
    obtain ⟨entry, listed, same⟩ := List.mem_map.mp (sound.active.mem_iff.mp member)
    exact sound.entry_ne listed (congrArg TimerId.timer same)
  rw [insert, sound.sizes, ok_bind, deref_of here, ok_bind]
  simp only
  rw [checkThat_of absent, ok_bind, checkThat_of inactive, ok_bind]
  have sizes := (sound.inserted here).sizes
  unfold TimerQueue.inserted at sizes
  rw [sizes]
  rfl

/-! ### Cancelling -/

/-- The state after an active timer is cancelled. -/
def cancelled (q : TimerQueue) (entry : TimerEntry) : TimerQueue :=
  { q.delete entry.timer with
    timers := q.timers.erase entry, activeTimers := q.activeTimers.erase (q.idOf entry) }

theorem Sound.cancelled (sound : q.Sound others) (member : entry ∈ q.timers) :
    (q.cancelled entry).Sound others := by
  -- first the timer leaves the entries, then it is deleted
  have perm := List.perm_cons_erase member
  have detached : ({ q with
      timers := q.timers.erase entry
      activeTimers := q.activeTimers.erase (q.idOf entry) } : TimerQueue).Sound
        (entry.timer :: others) := by
    refine sound.rearrange rfl rfl ?_ ?_ (sound.sorted.sublist List.erase_sublist) ?_
    · have places := ((perm.map TimerEntry.timer).append_left others).symm
      exact List.perm_middle.symm.trans places
    · exact fun other listed => sound.timed other (List.mem_of_mem_erase listed)
    · have rest := (sound.active.trans (perm.map q.idOf)).erase (q.idOf entry)
      rwa [List.map_cons, List.erase_cons_head] at rest
  exact detached.delete

/-- Which timers are active. -/
theorem Sound.mem_active (sound : q.Sound others) {id : TimerId} :
    id ∈ q.activeTimers ↔
      ∃ t, q.memory id.timer = some t ∧ t.sequence = id.sequence ∧
        ⟨t.expiration, id.timer⟩ ∈ q.timers := by
  rw [sound.active.mem_iff, List.mem_map]
  constructor
  · rintro ⟨entry, member, rfl⟩
    obtain ⟨t, here, time⟩ := sound.entry_live member
    refine ⟨t, here, ?_, ?_⟩
    · rw [idOf_eq here]
    · rw [time]
      exact member
  · rintro ⟨t, here, number, member⟩
    refine ⟨_, member, ?_⟩
    rw [idOf_eq here, number]

/-- What `cancelInLoop` does: an active timer is deleted; an expired one is marked. -/
theorem cancelInLoop_spec (sound : q.Sound others) (id : TimerId) :
    (∃ entry ∈ q.timers, q.idOf entry = id ∧ q.cancelInLoop id = .ok (q.cancelled entry)) ∨
      (id ∉ q.activeTimers ∧ q.calling.isSome = true ∧
        q.cancelInLoop id = .ok { q with cancelingTimers := q.cancelingTimers.insert id }) ∨
      (id ∉ q.activeTimers ∧ q.calling = none ∧ q.cancelInLoop id = .ok q) := by
  by_cases active : id ∈ q.activeTimers
  · obtain ⟨t, here, number, member⟩ := sound.mem_active.mp active
    have same : q.idOf ⟨t.expiration, id.timer⟩ = id := by rw [idOf_eq here, number]
    refine Or.inl ⟨_, member, same, ?_⟩
    rw [cancelInLoop, sound.sizes, ok_bind, if_pos active, deref_of here, ok_bind]
    simp only
    rw [checkThat_of member, cancelled, same]
    rfl
  · refine Or.inr ?_
    cases calling : q.calling with
    | some batch =>
      refine Or.inl ⟨active, rfl, ?_⟩
      rw [cancelInLoop, sound.sizes, ok_bind, if_neg active, calling]
      rfl
    | none =>
      refine Or.inr ⟨active, rfl, ?_⟩
      rw [cancelInLoop, sound.sizes, ok_bind, if_neg active, calling]
      rfl

/-! ### Expired timers -/

/-- The entries of a sorted list that are due come first. -/
theorem takeWhile_due {entries : List TimerEntry} (sorted : entries.Pairwise TimerEntry.le)
    (now : ℤ) :
    entries.takeWhile (·.time ≤ now) = entries.filter (·.time ≤ now) ∧
      ∀ entry ∈ entries.dropWhile (·.time ≤ now), now < entry.time := by
  induction entries with
  | nil => exact ⟨rfl, nofun⟩
  | cons first rest ih =>
    obtain ⟨before, sorted⟩ := List.pairwise_cons.mp sorted
    by_cases due : first.time ≤ now
    · rw [List.takeWhile_cons_of_pos (by simpa using due), List.filter_cons_of_pos (by simpa using due),
        List.dropWhile_cons_of_pos (by simpa using due)]
      exact ⟨by rw [(ih sorted).1], (ih sorted).2⟩
    · have later : ∀ entry ∈ first :: rest, now < entry.time := by
        intro entry member
        rcases List.mem_cons.mp member with rfl | member
        · omega
        · have order := before entry member
          unfold TimerEntry.le at order
          omega
      rw [List.takeWhile_cons_of_neg (by simpa using due), List.dropWhile_cons_of_neg
        (by simpa using due)]
      refine ⟨(List.filter_eq_nil_iff.mpr fun entry member => ?_).symm, later⟩
      have after := later entry member
      simpa using after

theorem eraseActive_spec {entries rest : List TimerEntry} {active : List TimerId}
    (live : ∀ entry ∈ entries, ∃ t, q.memory entry.timer = some t)
    (listed : active.Perm (entries.map q.idOf ++ rest.map q.idOf)) :
    ∃ left, q.eraseActive entries active = .ok left ∧ left.Perm (rest.map q.idOf) := by
  induction entries generalizing active with
  | nil => exact ⟨active, rfl, listed⟩
  | cons entry entries ih =>
    obtain ⟨t, here⟩ := live entry List.mem_cons_self
    have id := idOf_eq here
    rw [List.map_cons, List.cons_append, id] at listed
    have member : (⟨entry.timer, t.sequence⟩ : TimerId) ∈ active :=
      listed.mem_iff.mpr List.mem_cons_self
    have less := listed.erase ⟨entry.timer, t.sequence⟩
    rw [List.erase_cons_head] at less
    obtain ⟨left, done, perm⟩ := ih (fun other later => live other (List.mem_cons_of_mem _ later)) less
    refine ⟨left, ?_, perm⟩
    rw [eraseActive, deref_of here, ok_bind]
    simp only
    rw [checkThat_of member, ok_bind, done]

/-- What `getExpired` does: the timers that are due leave the entries, and wait to be run. -/
theorem getExpired_spec (sound : q.Sound others) (now : ℤ) :
    ∃ left, q.getExpired now = .ok
        { q with
          timers := q.timers.dropWhile (·.time ≤ now), activeTimers := left
          calling := some ⟨q.timers.filter (·.time ≤ now), q.timers.filter (·.time ≤ now), now⟩
          cancelingTimers := [] } ∧
      ({ q with timers := q.timers.dropWhile (·.time ≤ now), activeTimers := left } : TimerQueue).Sound
        ((q.timers.filter (·.time ≤ now)).map TimerEntry.timer ++ others) := by
  have split : q.timers.takeWhile (·.time ≤ now) ++ q.timers.dropWhile (·.time ≤ now) = q.timers :=
    List.takeWhile_append_dropWhile
  obtain ⟨due, _⟩ := takeWhile_due sound.sorted now
  have active := sound.active
  rw [← split, List.map_append] at active
  obtain ⟨left, erased, perm⟩ := eraseActive_spec (fun entry member => by
    obtain ⟨t, here, _⟩ := sound.entry_live ((List.takeWhile_sublist _).subset member)
    exact ⟨t, here⟩) active
  have after : ({ q with
      timers := q.timers.dropWhile (·.time ≤ now), activeTimers := left } : TimerQueue).Sound
        ((q.timers.filter (·.time ≤ now)).map TimerEntry.timer ++ others) := by
    refine sound.rearrange rfl rfl ?_ ?_ (sound.sorted.sublist (List.dropWhile_sublist _)) perm
    · have places : (q.timers.map TimerEntry.timer) =
          (q.timers.takeWhile (·.time ≤ now)).map TimerEntry.timer ++
            (q.timers.dropWhile (·.time ≤ now)).map TimerEntry.timer := by
        rw [← List.map_append, split]
      rw [places, ← due, ← List.append_assoc]
      exact List.perm_append_comm.append_right _
    · exact fun entry member => sound.timed entry ((List.dropWhile_sublist _).subset member)
  refine ⟨left, ?_, after⟩
  rw [getExpired, sound.sizes, ok_bind]
  simp only
  rw [erased, ok_bind]
  have sizes := after.sizes
  rw [sizes, ok_bind, due]
  rfl

/-! ### Putting timers back -/

/-- What the end of `handleInLoop` leaves alone: no timer comes into being, and none changes its
sequence number or its interval. -/
structure Follows (q after : TimerQueue) : Prop where
  created : after.numCreated = q.numCreated
  adding : after.adding = q.adding
  calling : after.calling = q.calling
  canceling : after.cancelingTimers = q.cancelingTimers
  fired : after.fired = q.fired
  descends : ∀ timer t, after.memory timer = some t →
    ∃ u, q.memory timer = some u ∧ u.sequence = t.sequence ∧ u.interval = t.interval

theorem Follows.refl (q : TimerQueue) : Follows q q :=
  ⟨rfl, rfl, rfl, rfl, rfl, fun _ t here => ⟨t, here, rfl, rfl⟩⟩

theorem Follows.trans {middle : TimerQueue} (first : Follows q middle)
    (second : Follows middle after) : Follows q after := by
  refine ⟨second.created.trans first.created, second.adding.trans first.adding,
    second.calling.trans first.calling, second.canceling.trans first.canceling,
    second.fired.trans first.fired, fun timer t here => ?_⟩
  obtain ⟨u, there, number, interval⟩ := second.descends timer t here
  obtain ⟨v, before, number', interval'⟩ := first.descends timer u there
  exact ⟨v, before, number'.trans number, interval'.trans interval⟩

/-- A timer is as before, or due anew. -/
def Renewed (q : TimerQueue) (now : ℤ) (after : TimerQueue) : Prop :=
  ∀ timer t, after.memory timer = some t → q.memory timer = some t ∨ now ≤ t.expiration

/-- The timer goes on: it repeats, and it has not been cancelled. -/
def GoesOn (q : TimerQueue) (timer : ℕ) (t : Timer) : Prop :=
  t.interval ≠ none ∧ (⟨timer, t.sequence⟩ : TimerId) ∉ q.cancelingTimers

/-- One expired timer is put back or deleted. -/
theorem resetOne_spec (sound : q.Sound (entry.timer :: others)) (now : ℤ) :
    ∃ after, q.resetOne entry now = .ok after ∧ after.Sound others ∧ Follows q after ∧
      Renewed q now after ∧
      ∀ t, q.memory entry.timer = some t → ¬ q.GoesOn entry.timer t →
        after.memory entry.timer = none := by
  obtain ⟨t, here⟩ := sound.other_live List.mem_cons_self
  have deleted : Follows q (q.delete entry.timer) := by
    refine ⟨rfl, rfl, rfl, rfl, rfl, fun timer u there => ?_⟩
    rw [memory_delete] at there
    exact ⟨u, (Option.ite_none_left_eq_some.mp there).2, rfl, rfl⟩
  have kept : Renewed q now (q.delete entry.timer) := by
    intro timer u there
    rw [memory_delete] at there
    exact Or.inl (Option.ite_none_left_eq_some.mp there).2
  have gone : (q.delete entry.timer).memory entry.timer = none := by
    rw [memory_delete, if_pos rfl]
  obtain ⟨number, time, interval⟩ := t
  rw [resetOne, deref_of here, ok_bind]
  cases interval with
  | none => exact ⟨_, rfl, sound.delete, deleted, kept, fun _ _ _ => gone⟩
  | some delta =>
    simp only
    by_cases cancelled : (⟨entry.timer, number⟩ : TimerId) ∈ q.cancelingTimers
    · rw [if_pos cancelled]
      exact ⟨_, rfl, sound.delete, deleted, kept, fun _ _ _ => gone⟩
    · rw [if_neg cancelled]
      have stored : (q.store entry.timer ⟨number, now + delta, some delta⟩).memory entry.timer =
          some ⟨number, now + delta, some delta⟩ := by
        rw [memory_store, if_pos rfl]
      have restarted := sound.restart here (now + delta)
      rw [insert_spec restarted stored, ok_bind]
      refine ⟨_, rfl, restarted.inserted stored, ⟨rfl, rfl, rfl, rfl, rfl, fun timer u there => ?_⟩,
        fun timer u there => ?_, fun u there stops => ?_⟩
      · change (q.store entry.timer _).memory timer = some u at there
        rw [memory_store] at there
        split at there
        · rename_i same
          cases there
          exact ⟨⟨number, time, some delta⟩, same ▸ here, rfl, rfl⟩
        · exact ⟨u, there, rfl, rfl⟩
      · change (q.store entry.timer _).memory timer = some u at there
        rw [memory_store] at there
        split at there
        · cases there
          exact Or.inr (Int.le_add_of_nonneg_right (Int.natCast_nonneg delta))
        · exact Or.inl there
      · rw [here] at there
        cases there
        exact absurd ⟨Option.some_ne_none _, cancelled⟩ stops

theorem resetAll_spec {entries : List TimerEntry}
    (sound : q.Sound (entries.map TimerEntry.timer ++ others)) (now : ℤ) :
    ∃ after, q.resetAll entries now = .ok after ∧ after.Sound others ∧ Follows q after ∧
      Renewed q now after ∧
      ∀ entry ∈ entries, ∀ t, q.memory entry.timer = some t → ¬ q.GoesOn entry.timer t →
        after.memory entry.timer = none := by
  induction entries generalizing q with
  | nil => exact ⟨q, rfl, sound, Follows.refl q, fun _ _ here => Or.inl here, nofun⟩
  | cons entry entries ih =>
    obtain ⟨middle, first, sound', follows, renewed, gone⟩ := resetOne_spec sound now
    obtain ⟨after, rest, sound'', follows', renewed', gone'⟩ := ih sound'
    refine ⟨after, ?_, sound'', follows.trans follows', ?_, ?_⟩
    · rw [resetAll, first, ok_bind, rest]
    · intro timer t here
      rcases renewed' timer t here with same | late
      · exact renewed timer t same
      · exact Or.inr late
    · intro other member t here stops
      cases still : after.memory other.timer with
      | none => rfl
      | some u =>
        obtain ⟨v, before, number, interval⟩ := follows'.descends _ u still
        rcases List.mem_cons.mp member with rfl | member
        · rw [gone t here stops] at before
          cases before
        · obtain ⟨w, here', number', interval'⟩ := follows.descends _ v before
          rw [here] at here'
          cases here'
          have stops' : ¬ middle.GoesOn other.timer v := by
            unfold GoesOn at stops ⊢
            rwa [follows.canceling, ← number', ← interval']
          rw [gone' other member v before stops'] at still
          cases still

/-- The descriptor is set for the first entry. -/
theorem rearm_spec (sound : q.Sound others) (clock : ℤ) :
    (q.timers = [] ∧ q.rearm clock = .ok q) ∨
      ∃ first rest, q.timers = first :: rest ∧
        ((0 < first.time ∧ q.rearm clock = .ok (q.resetTimerfd first.time clock)) ∨
          (first.time ≤ 0 ∧ q.rearm clock = .ok q)) := by
  cases timers : q.timers with
  | nil => exact Or.inl ⟨rfl, by rw [rearm, timers]⟩
  | cons first rest =>
    obtain ⟨t, here, time⟩ := sound.entry_live (timers ▸ List.mem_cons_self : first ∈ q.timers)
    refine Or.inr ⟨first, rest, rfl, ?_⟩
    rw [rearm, timers]
    simp only
    rw [deref_of here, ok_bind, time]
    by_cases valid : 0 < first.time
    · exact Or.inl ⟨valid, if_pos valid⟩
    · exact Or.inr ⟨by omega, if_neg valid⟩

/-! ### Steps -/

/-- The timers of the `handleInLoop` that is going on. -/
def expiredTimers (q : TimerQueue) : List ℕ :=
  match q.calling with
  | some batch => batch.expired.map TimerEntry.timer
  | none => []

/-- The state after a timer is added; the descriptor is set if it is the first. -/
def added (q : TimerQueue) (timer : ℕ) (t : Timer) (clock : ℤ) : TimerQueue :=
  if q.isEarliest t.expiration then (q.inserted timer t).resetTimerfd t.expiration clock
  else q.inserted timer t

/-- The timer of an id has not been deleted. -/
def Alive (q : TimerQueue) (id : TimerId) : Prop :=
  ∃ t, q.memory id.timer = some t ∧ t.sequence = id.sequence

/-- The state after a timer is created. -/
def created (q : TimerQueue) (timer : ℕ) (time : ℤ) (interval : Option ℕ) : TimerQueue :=
  { q.store timer ⟨q.numCreated + 1, time, interval⟩ with
    numCreated := q.numCreated + 1
    adding := timer :: q.adding
    returning := ⟨timer, q.numCreated + 1⟩ :: q.returning }

/-- What a step can do. -/
inductive Moves (q : TimerQueue) : TimerEvent → TimerQueue → Prop where
  | addTimer (timer : ℕ) (time : ℤ) (interval : Option ℕ) (free : q.memory timer = none) :
      Moves q (.addTimer timer time interval) (q.created timer time interval)
  | addTimerInLoop {timer : ℕ} {t : Timer} {clock : ℤ} (waits : timer ∈ q.adding)
      (here : q.memory timer = some t) :
      Moves q (.addTimerInLoop timer clock)
        ({ q with adding := q.adding.erase timer }.added timer t clock)
  | returned (id : TimerId) :
      Moves q (.returnId id) { q with returning := q.returning.erase id }
  | cancelled {entry : TimerEntry} (member : entry ∈ q.timers) :
      Moves q (.cancelInLoop (q.idOf entry)) (q.cancelled entry)
  | marked {id : TimerId} (inactive : id ∉ q.activeTimers) (calling : q.calling.isSome = true) :
      Moves q (.cancelInLoop id) { q with cancelingTimers := q.cancelingTimers.insert id }
  | ignored {id : TimerId} (inactive : id ∉ q.activeTimers) (idle : q.calling = none) :
      Moves q (.cancelInLoop id) q
  | expire : Moves q .expire { q with armed := none, readable := true }
  | getExpired {now : ℤ} {left : List TimerId} (idle : q.calling = none) (readable : q.readable = true) :
      Moves q (.getExpired now)
        { q with
          timers := q.timers.dropWhile (·.time ≤ now), activeTimers := left
          calling := some ⟨q.timers.filter (·.time ≤ now), q.timers.filter (·.time ≤ now), now⟩
          cancelingTimers := [] }
  | run {expired rest : List TimerEntry} {entry : TimerEntry} {now : ℤ} {t : Timer}
      (calling : q.calling = some ⟨expired, entry :: rest, now⟩)
      (here : q.memory entry.timer = some t) (time : t.expiration = entry.time) :
      Moves q .run
        { q with
          calling := some ⟨expired, rest, now⟩
          fired := q.fired ++ [⟨t.sequence, t.interval.isSome, entry.time, now⟩] }
  | reset {batch : ExpiredTimers} {middle after : TimerQueue} {clock : ℤ} (calling : q.calling = some batch)
      (done : batch.waiting = []) (follows : Follows { q with calling := none } middle)
      (renewed : Renewed q batch.now middle)
      (gone : ∀ entry ∈ batch.expired, ∀ t, q.memory entry.timer = some t →
        ¬ q.GoesOn entry.timer t → middle.memory entry.timer = none)
      (sound : middle.Sound middle.adding) (rearmed : middle.rearm clock = .ok after) :
      Moves q (.reset clock) after

/-- **What holds between the steps.** -/
structure Inv (q : TimerQueue) : Prop where
  sound : q.Sound (q.adding ++ q.expiredTimers)
  ran : ∀ batch ∈ q.calling, ∃ ran, batch.expired = ran ++ batch.waiting
  timed : ∀ batch ∈ q.calling, ∀ entry ∈ batch.expired, entry.time ≤ batch.now ∧
    ∀ t, q.memory entry.timer = some t → t.expiration = entry.time

theorem mem_expiredTimers {batch : ExpiredTimers} (calling : batch ∈ q.calling)
    (member : entry ∈ batch.expired) : entry.timer ∈ q.expiredTimers := by
  rw [expiredTimers, Option.mem_def.mp calling]
  exact List.mem_map_of_mem member

theorem expiredTimers_congr (calling : after.calling = q.calling) :
    after.expiredTimers = q.expiredTimers := by
  rw [expiredTimers, expiredTimers, calling]

/-- The timers of the batch do not change while other timers do. -/
theorem Inv.of_memory (inv : q.Inv) (sound : after.Sound (after.adding ++ q.expiredTimers))
    (calling : after.calling = q.calling)
    (memory : ∀ timer ∈ q.expiredTimers, after.memory timer = q.memory timer) : after.Inv := by
  refine ⟨by rw [expiredTimers_congr calling]; exact sound, by rw [calling]; exact inv.ran, ?_⟩
  rw [calling]
  intro batch going entry member
  obtain ⟨due, timed⟩ := inv.timed batch going entry member
  refine ⟨due, ?_⟩
  rw [memory _ (mem_expiredTimers going member)]
  exact timed

theorem Inv.expired_live (inv : q.Inv) (listed : timer ∈ q.expiredTimers) :
    ∃ t, q.memory timer = some t :=
  inv.sound.other_live (List.mem_append_right _ listed)

/-- The timers of the batch are not at a free address. -/
theorem Inv.expired_ne_free (inv : q.Inv) {other : ℕ} (listed : other ∈ q.expiredTimers)
    (free : q.memory timer = none) : other ≠ timer := by
  rintro rfl
  obtain ⟨t, here⟩ := inv.expired_live listed
  rw [free] at here
  cases here

/-- No entry points to a timer of the batch. -/
theorem Inv.expired_ne_entry (inv : q.Inv) {other : ℕ} (listed : other ∈ q.expiredTimers)
    (member : entry ∈ q.timers) : other ≠ entry.timer := by
  rintro rfl
  have disjoint := (List.nodup_append.mp inv.sound.nodup).2.2
  exact disjoint _ (List.mem_append_right _ listed) _ (List.mem_map_of_mem member) rfl

theorem Inv.addTimer (inv : q.Inv) (free : q.memory timer = none) (time : ℤ)
    (interval : Option ℕ) : (q.created timer time interval).Inv := by
  refine inv.of_memory ((inv.sound.create free time interval).congr rfl rfl rfl rfl) rfl ?_
  intro other listed
  show (q.store timer _).memory other = q.memory other
  rw [memory_store, if_neg (inv.expired_ne_free listed free)]

theorem added_spec (sound : q.Sound (timer :: others)) (here : q.memory timer = some t)
    (clock : ℤ) :
    q.addTimerInLoop timer clock = .ok (q.added timer t clock) ∧
      (q.added timer t clock).Sound others := by
  have sound' := sound.inserted here
  have stays : (q.inserted timer t).memory timer = some t := here
  rw [addTimerInLoop, insert_spec sound here, ok_bind, added]
  simp only
  by_cases first : q.isEarliest t.expiration = true
  · rw [if_pos first, if_pos first, deref_of stays]
    exact ⟨rfl, sound'.congr rfl rfl rfl rfl⟩
  · rw [if_neg first, if_neg first]
    exact ⟨rfl, sound'⟩

@[simp] theorem memory_added (q : TimerQueue) (timer : ℕ) (t : Timer) (clock : ℤ) :
    (q.added timer t clock).memory = q.memory := by
  unfold added
  split <;> rfl

@[simp] theorem calling_added (q : TimerQueue) (timer : ℕ) (t : Timer) (clock : ℤ) :
    (q.added timer t clock).calling = q.calling := by
  unfold added
  split <;> rfl

@[simp] theorem adding_added (q : TimerQueue) (timer : ℕ) (t : Timer) (clock : ℤ) :
    (q.added timer t clock).adding = q.adding := by
  unfold added
  split <;> rfl

@[simp] theorem fired_added (q : TimerQueue) (timer : ℕ) (t : Timer) (clock : ℤ) :
    (q.added timer t clock).fired = q.fired := by
  unfold added
  split <;> rfl

@[simp] theorem canceling_added (q : TimerQueue) (timer : ℕ) (t : Timer) (clock : ℤ) :
    (q.added timer t clock).cancelingTimers = q.cancelingTimers := by
  unfold added
  split <;> rfl

@[simp] theorem created_added (q : TimerQueue) (timer : ℕ) (t : Timer) (clock : ℤ) :
    (q.added timer t clock).numCreated = q.numCreated := by
  unfold added
  split <;> rfl

theorem step_addTimerInLoop (inv : q.Inv) (waits : timer ∈ q.adding) (clock : ℤ) :
    ∃ after, q.step (.addTimerInLoop timer clock) = .ok after ∧
      Moves q (.addTimerInLoop timer clock) after ∧ after.Inv := by
  obtain ⟨t, here⟩ := inv.sound.other_live (List.mem_append_left _ waits)
  have sound : ({ q with adding := q.adding.erase timer } : TimerQueue).Sound
      (timer :: (q.adding.erase timer ++ q.expiredTimers)) := by
    refine (inv.sound.perm ?_).congr rfl rfl rfl rfl
    exact (List.perm_cons_erase waits).append_right q.expiredTimers
  obtain ⟨done, sound'⟩ := added_spec sound here clock
  refine ⟨_, done, .addTimerInLoop waits here, inv.of_memory ?_ (calling_added _ _ _ _) ?_⟩
  · rw [adding_added]
    exact sound'
  · intro other _
    rw [memory_added]

theorem step_cancelInLoop (inv : q.Inv) (id : TimerId) :
    ∃ after, q.step (.cancelInLoop id) = .ok after ∧ Moves q (.cancelInLoop id) after ∧
      after.Inv := by
  rcases cancelInLoop_spec inv.sound id with
    ⟨entry, member, rfl, done⟩ | ⟨inactive, calling, done⟩ | ⟨inactive, idle, done⟩
  · refine ⟨_, done, .cancelled member, inv.of_memory (inv.sound.cancelled member) rfl ?_⟩
    intro other listed
    show (q.delete entry.timer).memory other = q.memory other
    rw [memory_delete, if_neg (inv.expired_ne_entry listed member)]
  · exact ⟨_, done, .marked inactive calling,
      inv.of_memory (inv.sound.congr rfl rfl rfl rfl) rfl fun _ _ => rfl⟩
  · exact ⟨_, done, .ignored inactive idle, inv⟩

theorem step_getExpired (inv : q.Inv) (idle : q.calling = none) (readable : q.readable = true)
    (now : ℤ) :
    ∃ after, q.step (.getExpired now) = .ok after ∧ Moves q (.getExpired now) after ∧
      after.Inv := by
  have sound := inv.sound
  rw [expiredTimers, idle, List.append_nil] at sound
  obtain ⟨left, done, sound'⟩ := getExpired_spec sound now
  refine ⟨_, done, .getExpired idle readable, ?_, ?_, ?_⟩
  · exact (sound'.perm List.perm_append_comm).congr rfl rfl rfl rfl
  · rintro batch calling
    cases calling
    exact ⟨[], rfl⟩
  · rintro batch calling entry member
    cases calling
    obtain ⟨member, due⟩ := List.mem_filter.mp member
    refine ⟨of_decide_eq_true due, fun t here => sound.timed entry member t here⟩

theorem step_run (inv : q.Inv) {batch : ExpiredTimers} (calling : batch ∈ q.calling)
    (more : batch.waiting ≠ []) :
    ∃ after, q.step .run = .ok after ∧ Moves q .run after ∧ after.Inv := by
  obtain ⟨expired, waiting, now⟩ := batch
  obtain ⟨entry, rest, rfl⟩ := List.exists_cons_of_ne_nil more
  obtain ⟨ran, split⟩ := inv.ran _ calling
  simp only at split
  have member : entry ∈ expired := by
    rw [split]
    exact List.mem_append_right _ List.mem_cons_self
  obtain ⟨t, here⟩ := inv.expired_live (mem_expiredTimers calling member)
  have time := (inv.timed _ calling entry member).2 t here
  have going := Option.mem_def.mp calling
  refine ⟨_, ?_, .run going here time, ?_, ?_, ?_⟩
  · simp only [step, going, run]
    rw [deref_of here]
    rfl
  · have sound := inv.sound
    rw [expiredTimers, going] at sound
    exact sound.congr rfl rfl rfl rfl
  · rintro batch calling'
    cases calling'
    refine ⟨ran ++ [entry], ?_⟩
    rw [List.append_assoc, List.singleton_append]
    exact split
  · rintro batch calling'
    cases calling'
    have timed := inv.timed _ calling
    exact timed

theorem step_reset (inv : q.Inv) {batch : ExpiredTimers} (calling : batch ∈ q.calling)
    (done : batch.waiting = []) (clock : ℤ) :
    ∃ after, q.step (.reset clock) = .ok after ∧ Moves q (.reset clock) after ∧ after.Inv := by
  have going := Option.mem_def.mp calling
  have sound : ({ q with calling := none } : TimerQueue).Sound
      (batch.expired.map TimerEntry.timer ++ q.adding) := by
    have sound := inv.sound
    rw [expiredTimers, going] at sound
    exact (sound.perm List.perm_append_comm).congr rfl rfl rfl rfl
  obtain ⟨middle, all, sound', follows, renewed, gone⟩ := resetAll_spec sound batch.now
  have sound'' : middle.Sound middle.adding := by
    rw [follows.adding]
    exact sound'
  have idle : middle.calling = none := follows.calling
  have result : ∃ after, middle.rearm clock = .ok after ∧ after.Inv := by
    have still : middle.Inv := by
      refine ⟨?_, by rw [idle]; nofun, by rw [idle]; nofun⟩
      rw [expiredTimers, idle, List.append_nil]
      exact sound''
    rcases rearm_spec sound'' clock with ⟨_, same⟩ | ⟨first, rest, _, ⟨_, set⟩ | ⟨_, same⟩⟩
    · exact ⟨_, same, still⟩
    · exact ⟨_, set, still.of_memory (still.sound.congr rfl rfl rfl rfl) rfl fun _ _ => rfl⟩
    · exact ⟨_, same, still⟩
  obtain ⟨after, rearmed, inv'⟩ := result
  refine ⟨after, ?_, Moves.reset going done follows renewed gone sound'' rearmed, inv'⟩
  simp only [step, going, reset]
  rw [all, ok_bind, rearmed]

theorem returnId_of_alive {id : TimerId} (alive : q.Alive id) :
    q.returnId id = .ok { q with returning := q.returning.erase id } := by
  obtain ⟨t, here, number⟩ := alive
  rw [returnId, deref_of here, ok_bind, if_pos number]
  rfl

theorem returnId_of_deleted {id : TimerId} (deleted : ¬ q.Alive id) :
    q.returnId id = .error .dangling := by
  unfold returnId deref
  cases here : q.memory id.timer with
  | none => rfl
  | some t =>
    have number : t.sequence ≠ id.sequence := fun same => deleted ⟨t, here, same⟩
    simp only
    rw [ok_bind, if_neg number]
    rfl

/-- **Every step that can come ends without a fault**, and is one of the moves; unless a call of
`addTimer` returns too late. -/
theorem step_spec (inv : q.Inv) {event : TimerEvent} (enabled : q.Enabled event) :
    (∃ after, q.step event = .ok after ∧ Moves q event after ∧ after.Inv) ∨
      ∃ id, event = .returnId id ∧ ¬ q.Alive id ∧ q.step event = .error .dangling := by
  cases event with
  | addTimer timer time interval =>
    exact Or.inl ⟨_, rfl, .addTimer timer time interval enabled, inv.addTimer enabled time interval⟩
  | addTimerInLoop timer clock => exact Or.inl (step_addTimerInLoop inv enabled clock)
  | returnId id =>
    by_cases alive : q.Alive id
    · exact Or.inl ⟨_, returnId_of_alive alive, .returned id,
        inv.of_memory (inv.sound.congr rfl rfl rfl rfl) rfl fun _ _ => rfl⟩
    · exact Or.inr ⟨id, rfl, alive, returnId_of_deleted alive⟩
  | cancelInLoop id => exact Or.inl (step_cancelInLoop inv id)
  | expire =>
    exact Or.inl ⟨_, rfl, .expire,
      inv.of_memory (inv.sound.congr rfl rfl rfl rfl) rfl fun _ _ => rfl⟩
  | getExpired now => exact Or.inl (step_getExpired inv enabled.1 enabled.2 now)
  | run =>
    obtain ⟨batch, calling, more⟩ := enabled
    exact Or.inl (step_run inv calling more)
  | reset clock =>
    obtain ⟨batch, calling, done⟩ := enabled
    exact Or.inl (step_reset inv calling done clock)

/-- On the loop thread a call of `addTimer` returns in time. -/
theorem addTimer_spec (inv : q.Inv) (free : q.memory timer = none) (time : ℤ)
    (interval : Option ℕ) (clock : ℤ) : ∃ after, q.addTimer timer time interval clock = .ok after := by
  have inv' := inv.addTimer free time interval
  have waits : timer ∈ (q.created timer time interval).adding := List.mem_cons_self
  obtain ⟨added, done, moves, _⟩ := step_addTimerInLoop inv' waits clock
  have stays : added.memory timer = some ⟨q.numCreated + 1, time, interval⟩ := by
    cases moves with
    | addTimerInLoop waits here =>
      rw [memory_added]
      show (q.store timer _).memory timer = _
      rw [memory_store, if_pos rfl]
  have alive : added.Alive ⟨timer, q.numCreated + 1⟩ := ⟨_, stays, rfl⟩
  refine ⟨{ added with returning := added.returning.erase ⟨timer, q.numCreated + 1⟩ }, ?_⟩
  show ((q.created timer time interval).step (.addTimerInLoop timer clock) >>= fun added =>
    added.returnId ⟨timer, q.numCreated + 1⟩) = _
  rw [done, ok_bind, returnId_of_alive alive]

end TimerQueue

end EtherAdapter
