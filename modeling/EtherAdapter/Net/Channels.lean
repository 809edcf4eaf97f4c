/-
**The poller, the kernel and the channels agree.**

* `EPollPoller.Sound` — for every channel: the entry of `_channels` and that of the interest list are
  those its index stands for, with the events it asks for now. Nothing else is in either.
* `updateChannel_spec`, `removeChannel_spec`, `fillActiveChannels_spec` — what each operation does;
  no assertion fails in it, and no `epoll_ctl`.
* **`registry_sound`** — in every run, whatever channels come, change and go, in handlers too.
* **`reports_dispatched`** — the channels that `epoll_wait` reports are dispatched, each of them once
  and with the bits reported for it, whatever the handlers do to other channels.

A channel that asks for nothing is watched all the same after a `disableAll` with nothing to disable:
its index was `kNew` or `kDeleted`, and `updateChannel` adds it.
-/

import Mathlib.Data.List.Nodup
import Mathlib.Tactic.ByContra
import EtherAdapter.Runs.Basic
import EtherAdapter.Model.Channels

namespace EtherAdapter

open Runs

namespace EPollPoller

variable {p after : EPollPoller} {address fd : ℕ} {c : PolledChannel} {event : PollerEvent}

/-! ### One channel -/

theorem ok_bind {α β : Type} (a : α) (f : α → Except PollerFault β) :
    (Except.ok a >>= f) = f a := rfl

theorem require_of {condition : Prop} [Decidable condition] (holds : condition) :
    require condition = .ok () := if_pos holds

theorem deref_of (here : p.memory address = some c) : p.deref address = .ok c := by
  rw [deref, here]

theorem memory_store (p : EPollPoller) (address other : ℕ) (c : PolledChannel) :
    (p.store address c).memory other = if other = address then some c else p.memory other :=
  Function.update_apply _ _ _ _

/-- The entry of `_channels` that belongs to a channel. -/
def entryOf (address : ℕ) (c : PolledChannel) : Option ℕ :=
  if c.channel.index = .kNew then none else some address

/-- The entry of the interest list that belongs to a channel. -/
def watchOf (address : ℕ) (c : PolledChannel) : Option Interest :=
  if c.channel.index = .kAdded then some (c.interest address) else none

/-- A channel in order by itself. -/
structure InOrder (c : PolledChannel) : Prop where
  quiet : c.channel.index ≠ .kAdded → c.channel.isNoneEvent = true
  added : c.addedToLoop = true ↔ c.channel.index ≠ .kNew

structure Sound (p : EPollPoller) : Prop where
  owned : ∀ address c, p.memory address = some c → p.owner c.fd = some address
  alive : ∀ fd address, p.owner fd = some address → ∃ c, p.memory address = some c ∧ c.fd = fd
  entry : ∀ address c, p.memory address = some c → p.channels c.fd = entryOf address c
  watch : ∀ address c, p.memory address = some c → p.interest c.fd = watchOf address c
  order : ∀ address c, p.memory address = some c → InOrder c
  free : ∀ fd, p.owner fd = none → p.channels fd = none ∧ p.interest fd = none

theorem Sound.fd_ne (sound : p.Sound) {other : ℕ} {d : PolledChannel} (apart : other ≠ address)
    (here : p.memory address = some c) (there : p.memory other = some d) : d.fd ≠ c.fd := by
  intro same
  have owner := sound.owned _ _ there
  rw [same, sound.owned _ _ here] at owner
  exact apart (Option.some.inj owner).symm

/-- A channel with its entries put in the place of an earlier one. -/
def replaced (p : EPollPoller) (address : ℕ) (c : PolledChannel) : EPollPoller :=
  { p.store address c with
    channels := Function.update p.channels c.fd (entryOf address c)
    interest := Function.update p.interest c.fd (watchOf address c) }

/-- **One channel changes**, and its entries with it. -/
theorem Sound.replaced (sound : p.Sound) (here : p.memory address = some c) (c' : PolledChannel)
    (same : c'.fd = c.fd) (order : InOrder c') : (p.replaced address c').Sound := by
  have cases : ∀ other d, (p.store address c').memory other = some d →
      (other = address ∧ d = c') ∨ (p.memory other = some d ∧ d.fd ≠ c'.fd) := by
    intro other d there
    rw [memory_store] at there
    split at there
    · rename_i equal
      exact Or.inl ⟨equal, (Option.some.inj there).symm⟩
    · rename_i apart
      rw [same]
      exact Or.inr ⟨there, sound.fd_ne apart here there⟩
  refine ⟨fun other d there => ?_, fun fd other found => ?_, fun other d there => ?_,
    fun other d there => ?_, fun other d there => ?_, fun fd none => ?_⟩
  · rcases cases other d there with ⟨rfl, rfl⟩ | ⟨old, _⟩
    · rw [same]
      exact sound.owned _ _ here
    · exact sound.owned _ _ old
  · obtain ⟨d, there, place⟩ := sound.alive fd other found
    by_cases equal : other = address
    · subst equal
      rw [here] at there
      cases there
      exact ⟨c', (memory_store _ _ _ _).trans (if_pos rfl), same.trans place⟩
    · exact ⟨d, (memory_store _ _ _ _).trans ((if_neg equal).trans there), place⟩
  · rcases cases other d there with ⟨rfl, rfl⟩ | ⟨old, apart⟩
    · exact Function.update_self _ _ _
    · exact (Function.update_of_ne apart _ _).trans (sound.entry _ _ old)
  · rcases cases other d there with ⟨rfl, rfl⟩ | ⟨old, apart⟩
    · exact Function.update_self _ _ _
    · exact (Function.update_of_ne apart _ _).trans (sound.watch _ _ old)
  · rcases cases other d there with ⟨rfl, rfl⟩ | ⟨old, _⟩
    · exact order
    · exact sound.order _ _ old
  · have apart : fd ≠ c'.fd := by
      rintro rfl
      rw [same] at none
      exact Option.some_ne_none _ ((sound.owned _ _ here).symm.trans none)
    obtain ⟨unlisted, unwatched⟩ := sound.free fd none
    exact ⟨(Function.update_of_ne apart _ _).trans unlisted,
      (Function.update_of_ne apart _ _).trans unwatched⟩

theorem isSome_watch (sound : p.Sound) (here : p.memory address = some c) :
    (p.interest c.fd).isSome = decide (c.channel.index = .kAdded) := by
  rw [sound.watch _ _ here, watchOf]
  split
  · rename_i added
    rw [decide_eq_true added]
    rfl
  · rename_i added
    rw [decide_eq_false added]
    rfl

/-! ### The operations -/

theorem update_registered (channel : Channel) : channel.update.index ≠ .kNew := by
  unfold Channel.update
  split
  · split
    · exact PollIndex.noConfusion
    · rename_i added _
      rw [added]
      exact PollIndex.noConfusion
  · exact PollIndex.noConfusion
  · exact PollIndex.noConfusion

/-- What asks for something is watched. -/
theorem update_quiet {channel : Channel} (apart : channel.update.index ≠ .kAdded) :
    channel.update.isNoneEvent = true := by
  unfold Channel.update at apart ⊢
  split at apart
  · rename_i added
    split at apart
    · rename_i none
      rw [if_pos none]
      exact none
    · exact absurd added apart
  · exact absurd rfl apart
  · exact absurd rfl apart

/-- **`updateChannel`** registers the channel and tells `epoll` what it asks for. -/
theorem updateChannel_spec (here : p.memory address = some c)
    (entry : p.channels c.fd = entryOf address c)
    (watched : (p.interest c.fd).isSome = decide (c.channel.index = .kAdded)) :
    p.updateChannel address = .ok (p.replaced address { c with channel := c.channel.update }) := by
  have listed : entryOf address { c with channel := c.channel.update } = some address :=
    if_neg (update_registered c.channel)
  rw [updateChannel, deref_of here, ok_bind, replaced, listed]
  by_cases new : c.channel.index = .kNew
  · have absent : p.channels c.fd = none := by rw [entry, entryOf, if_pos new]
    have unwatched : p.interest c.fd = none := by
      rw [new] at watched
      exact Option.isNone_iff_eq_none.mp (Option.isSome_eq_false_iff.mp watched)
    have watch : watchOf address { c with channel := c.channel.update } =
        some (c.interest address) := by
      simp only [watchOf, Channel.update, new]
      rfl
    simp only [new, require_of absent, ok_bind, epollCtl, store, unwatched, watch]
  have present : p.channels c.fd = some address := by rw [entry, entryOf, if_neg new]
  have some : p.channels c.fd ≠ none := by
    rw [present]
    exact Option.some_ne_none _
  have kept : Function.update p.channels c.fd (Option.some address) = p.channels := by
    rw [← present, Function.update_eq_self]
  cases index : c.channel.index with
  | kNew => exact absurd index new
  | kDeleted =>
    have unwatched : p.interest c.fd = none := by
      rw [index] at watched
      exact Option.isNone_iff_eq_none.mp (Option.isSome_eq_false_iff.mp watched)
    have watch : watchOf address { c with channel := c.channel.update } =
        Option.some (c.interest address) := by
      simp only [watchOf, Channel.update, index]
      rfl
    simp only [require_of some, require_of present, ok_bind, epollCtl, store, unwatched, watch, kept]
  | kAdded =>
    rw [index] at watched
    obtain ⟨old, watches⟩ := Option.isSome_iff_exists.mp watched
    simp only [require_of some, require_of present, ok_bind]
    by_cases none : c.channel.isNoneEvent = true
    · have watch : watchOf address { c with channel := c.channel.update } = Option.none := by
        simp only [watchOf, Channel.update, index, if_pos none]
        rfl
      simp only [if_pos none, epollCtl, store, watches, watch, kept]
    · have watch : watchOf address { c with channel := c.channel.update } =
          Option.some (c.interest address) := by
        simp only [watchOf, Channel.update, index, if_neg none]
        rfl
      simp only [if_neg none, epollCtl, store, watches, watch, kept]

/-- **`removeChannel`** takes the channel out of both maps. -/
theorem removeChannel_spec (here : p.memory address = some c)
    (entry : p.channels c.fd = entryOf address c) (registered : c.channel.index ≠ .kNew)
    (watched : (p.interest c.fd).isSome = decide (c.channel.index = .kAdded))
    (quiet : c.channel.isNoneEvent = true) :
    p.removeChannel address = .ok (p.replaced address { c with channel := c.channel.remove }) := by
  have present : p.channels c.fd = some address := by rw [entry, entryOf, if_neg registered]
  have some : p.channels c.fd ≠ none := by
    rw [present]
    exact Option.some_ne_none _
  have index : c.channel.index = .kAdded ∨ c.channel.index = .kDeleted := by
    cases index : c.channel.index with
    | kNew => exact absurd index registered
    | kAdded => exact Or.inl rfl
    | kDeleted => exact Or.inr rfl
  rw [removeChannel, deref_of here, ok_bind, require_of some, ok_bind, require_of present, ok_bind,
    require_of quiet, ok_bind, require_of index, ok_bind]
  have unlisted : entryOf address { c with channel := c.channel.remove } = none := rfl
  have unheard : watchOf address { c with channel := c.channel.remove } = none := rfl
  rw [replaced, unlisted, unheard]
  by_cases added : c.channel.index = .kAdded
  · rw [decide_eq_true added] at watched
    obtain ⟨old, watches⟩ := Option.isSome_iff_exists.mp watched
    simp only [if_pos added, epollCtl, store, watches]
  · rw [decide_eq_false added] at watched
    have unwatched : p.interest c.fd = none :=
      Option.isNone_iff_eq_none.mp (Option.isSome_eq_false_iff.mp watched)
    have kept : Function.update p.interest c.fd none = p.interest := by
      rw [← unwatched, Function.update_eq_self]
    simp only [if_neg added, store, kept]
    rfl

/-- The channel that a report is for. -/
def addressOf (p : EPollPoller) (fd : ℕ) : ℕ := (p.interest fd).elim 0 Interest.ptr

/-- A descriptor in the interest list belongs to a channel that is in the loop. -/
theorem Sound.of_interest (sound : p.Sound) (watched : p.interest fd ≠ none) :
    ∃ c, p.memory (p.addressOf fd) = some c ∧ c.fd = fd ∧ c.channel.index = .kAdded := by
  cases owner : p.owner fd with
  | none => exact absurd (sound.free fd owner).2 watched
  | some address =>
    obtain ⟨c, here, rfl⟩ := sound.alive fd address owner
    have watch := sound.watch address c here
    by_cases added : c.channel.index = .kAdded
    · rw [watchOf, if_pos added] at watch
      have place : p.addressOf c.fd = address := by
        rw [addressOf, watch]
        rfl
      exact ⟨c, by rw [place, here], rfl, added⟩
    · rw [watchOf, if_neg added] at watch
      exact absurd watch watched

/-- A report is noted in the channel. -/
theorem Sound.mark (sound : p.Sound) (here : p.memory address = some c) (revents : Revents) :
    (p.store address { c with revents }).Sound := by
  have listed : Function.update p.channels c.fd (entryOf address { c with revents }) = p.channels := by
    rw [show entryOf address { c with revents } = p.channels c.fd from (sound.entry _ _ here).symm,
      Function.update_eq_self]
  have watched : Function.update p.interest c.fd (watchOf address { c with revents }) =
      p.interest := by
    rw [show watchOf address { c with revents } = p.interest c.fd from (sound.watch _ _ here).symm,
      Function.update_eq_self]
  have same : p.replaced address { c with revents } = p.store address { c with revents } := by
    rw [EPollPoller.replaced]
    simp only [listed, watched]
    rfl
  rw [← same]
  exact sound.replaced here { c with revents } rfl ⟨(sound.order _ _ here).quiet, (sound.order _ _ here).added⟩

/-- What `fillActiveChannels` leaves: only the `_revents` of the reported channels have changed. -/
structure Filled (p : EPollPoller) (reports : List Report) (after : EPollPoller) : Prop where
  sound : after.Sound
  frame : after = { p with memory := after.memory }
  marked : ∀ report ∈ reports, ∃ c, after.memory (p.addressOf report.fd) = some c ∧
    c.addedToLoop = true ∧ c.revents = report.revents
  others : ∀ address, (∀ report ∈ reports, address ≠ p.addressOf report.fd) →
    after.memory address = p.memory address

/-- Different descriptors belong to different channels. -/
theorem Sound.addressOf_ne (sound : p.Sound) {other : ℕ} (watched : p.interest fd ≠ none)
    (watched' : p.interest other ≠ none) (apart : fd ≠ other) :
    p.addressOf fd ≠ p.addressOf other := by
  intro same
  obtain ⟨c, here, own, _⟩ := sound.of_interest watched
  obtain ⟨d, there, own', _⟩ := sound.of_interest watched'
  rw [same, there] at here
  cases here
  exact apart (own.symm.trans own')

theorem fillActiveChannels_spec {reports : List Report} (sound : p.Sound)
    (watched : ∀ report ∈ reports, p.interest report.fd ≠ none)
    (nodup : (reports.map Report.fd).Nodup) :
    ∃ after, p.fillActiveChannels reports =
        .ok (after, reports.map fun report => p.addressOf report.fd) ∧ Filled p reports after := by
  induction reports generalizing p with
  | nil => exact ⟨p, rfl, sound, rfl, nofun, fun _ _ => rfl⟩
  | cons report reports ih =>
    rw [List.map_cons, List.nodup_cons] at nodup
    have own := watched report List.mem_cons_self
    obtain ⟨c, here, place, added⟩ := sound.of_interest own
    have registered : c.channel.index ≠ .kNew := by rw [added]; decide
    have present : p.channels c.fd = some (p.addressOf report.fd) := by
      rw [sound.entry _ _ here, entryOf, if_neg registered]
    have some : p.channels c.fd ≠ none := by
      rw [present]
      exact Option.some_ne_none _
    obtain ⟨after, filled, sound', frame, marked, others⟩ :=
      ih (sound.mark here report.revents)
        (fun other member => watched other (List.mem_cons_of_mem _ member)) nodup.2
    -- the later reports are for other channels
    have apart : ∀ other ∈ reports, p.addressOf report.fd ≠ p.addressOf other.fd := by
      intro other member
      refine sound.addressOf_ne own (watched other (List.mem_cons_of_mem _ member)) fun same => ?_
      exact nodup.1 (same ▸ List.mem_map_of_mem member)
    refine ⟨after, ?_, sound', ?_, fun other member => ?_, fun address absent => ?_⟩
    · rw [fillActiveChannels]
      show (p.deref (p.addressOf report.fd) >>= _) = _
      rw [deref_of here, ok_bind, require_of some, ok_bind]
      show (require (p.channels c.fd = Option.some (p.addressOf report.fd)) >>= _) = _
      rw [require_of present, ok_bind]
      exact congrArg (· >>= _) filled
    · rw [frame]
      rfl
    · rcases List.mem_cons.mp member with rfl | later
      · refine ⟨{ c with revents := other.revents }, ?_, ?_, rfl⟩
        · rw [others _ apart, memory_store, if_pos rfl]
        · exact (sound.order _ _ here).added.mpr registered
      · exact marked other later
    · rw [others address fun other member => absent other (List.mem_cons_of_mem _ member),
        memory_store, if_neg (absent report List.mem_cons_self)]

/-! ### Steps -/

structure Inv (p : EPollPoller) : Prop where
  sound : p.Sound
  nodup : p.waiting.Nodup
  subset : ∀ address ∈ p.waiting, address ∈ p.activeChannels
  live : ∀ address ∈ p.waiting, ∃ c, p.memory address = some c ∧ c.addedToLoop = true
  current : ∀ address ∈ p.current, address ∉ p.waiting
  idle : p.eventHandling = false → p.waiting = [] ∧ p.current = none

/-- What a call on a channel leaves alone. -/
structure Steady (p after : EPollPoller) : Prop where
  handling : after.eventHandling = p.eventHandling
  active : after.activeChannels = p.activeChannels
  current : after.current = p.current
  waiting : after.waiting = p.waiting
  dispatched : after.dispatched = p.dispatched
  channels : ∀ address ∈ p.waiting, ∀ c, p.memory address = some c →
    ∃ c', after.memory address = some c' ∧ c'.revents = c.revents ∧
      (c.addedToLoop = true → c'.addedToLoop = true)

theorem Inv.steady (inv : p.Inv) (sound : after.Sound) (steady : Steady p after) : after.Inv := by
  obtain ⟨handling, active, current, waiting, _, channels⟩ := steady
  refine ⟨sound, ?_, ?_, ?_, ?_, ?_⟩
  · rw [waiting]
    exact inv.nodup
  · rw [waiting, active]
    exact inv.subset
  · rw [waiting]
    intro address member
    obtain ⟨c, here, added⟩ := inv.live address member
    obtain ⟨c', there, _, still⟩ := channels address member c here
    exact ⟨c', there, still added⟩
  · rw [current, waiting]
    exact inv.current
  · rw [handling, waiting, current]
    exact inv.idle

end EPollPoller

/-- A call on a channel, not a step of the loop. -/
def PollerEvent.isCall : PollerEvent → Bool
  | .create _ _ | .call _ _ | .remove _ | .destroy _ => true
  | .poll _ | .dispatch | .finish => false

namespace EPollPoller

variable {p after : EPollPoller} {address fd : ℕ} {c : PolledChannel} {event : PollerEvent}

/-- What a step can do. -/
inductive Moves (p : EPollPoller) : PollerEvent → EPollPoller → Prop where
  | steady {event : PollerEvent} {after : EPollPoller} (call : event.isCall = true)
      (steady : Steady p after) : Moves p event after
  | poll {reports : List Report} {after : EPollPoller} (handling : after.eventHandling = true)
      (waiting : after.waiting = reports.map fun report => p.addressOf report.fd)
      (dispatched : after.dispatched = p.dispatched)
      (marked : ∀ report ∈ reports, ∃ c, after.memory (p.addressOf report.fd) = some c ∧
        c.revents = report.revents) : Moves p (.poll reports) after
  | dispatch {address : ℕ} {rest : List ℕ} {c : PolledChannel} (waits : p.waiting = address :: rest)
      (here : p.memory address = some c) :
      Moves p .dispatch { p with
        current := some address, waiting := rest
        dispatched := p.dispatched ++ [(address, c.revents)] }
  | finish : Moves p .finish { p with current := none, eventHandling := false }

/-- A channel comes. -/
theorem Sound.create (sound : p.Sound) (free : p.memory address = none) (fresh : p.owner fd = none) :
    ({ p.store address { fd } with owner := Function.update p.owner fd (some address) } :
      EPollPoller).Sound := by
  have cases : ∀ other d, (p.store address { fd }).memory other = some d →
      (other = address ∧ d = { fd }) ∨ (p.memory other = some d ∧ d.fd ≠ fd) := by
    intro other d there
    rw [memory_store] at there
    split at there
    · rename_i equal
      exact Or.inl ⟨equal, (Option.some.inj there).symm⟩
    · refine Or.inr ⟨there, fun same => ?_⟩
      have owner := sound.owned _ _ there
      rw [same, fresh] at owner
      cases owner
  obtain ⟨unlisted, unwatched⟩ := sound.free fd fresh
  refine ⟨fun other d there => ?_, fun place other found => ?_, fun other d there => ?_,
    fun other d there => ?_, fun other d there => ?_, fun place none => ?_⟩
  · rcases cases other d there with ⟨rfl, rfl⟩ | ⟨old, apart⟩
    · exact Function.update_self _ _ _
    · exact (Function.update_of_ne apart _ _).trans (sound.owned _ _ old)
  · change Function.update p.owner fd (some address) place = some other at found
    rw [Function.update_apply] at found
    split at found
    · rename_i equal
      cases found
      exact ⟨{ fd }, by rw [memory_store, if_pos rfl], equal.symm⟩
    · obtain ⟨d, there, own⟩ := sound.alive place other found
      have apart : other ≠ address := by
        rintro rfl
        rw [free] at there
        cases there
      exact ⟨d, by rw [memory_store, if_neg apart, there], own⟩
  · rcases cases other d there with ⟨rfl, rfl⟩ | ⟨old, _⟩
    · exact unlisted
    · exact sound.entry _ _ old
  · rcases cases other d there with ⟨rfl, rfl⟩ | ⟨old, _⟩
    · exact unwatched
    · exact sound.watch _ _ old
  · rcases cases other d there with ⟨rfl, rfl⟩ | ⟨old, _⟩
    · exact ⟨fun _ => rfl, ⟨nofun, fun new => absurd rfl new⟩⟩
    · exact sound.order _ _ old
  · change Function.update p.owner fd (some address) place = Option.none at none
    rw [Function.update_apply] at none
    split at none
    · cases none
    · exact sound.free place none

/-- A channel that is not in the loop goes. -/
theorem Sound.destroy (sound : p.Sound) (here : p.memory address = some c)
    (outside : c.channel.index = .kNew) :
    ({ p with
      memory := Function.update p.memory address none
      owner := Function.update p.owner c.fd none } : EPollPoller).Sound := by
  have cases : ∀ other d, Function.update p.memory address none other = some d →
      p.memory other = some d ∧ d.fd ≠ c.fd := by
    intro other d there
    rw [Function.update_apply] at there
    obtain ⟨apart, there⟩ := Option.ite_none_left_eq_some.mp there
    exact ⟨there, sound.fd_ne apart here there⟩
  refine ⟨fun other d there => ?_, fun place other found => ?_, fun other d there => ?_,
    fun other d there => ?_, fun other d there => ?_, fun place none => ?_⟩
  · obtain ⟨old, apart⟩ := cases other d there
    exact (Function.update_of_ne apart _ _).trans (sound.owned _ _ old)
  · change Function.update p.owner c.fd none place = some other at found
    rw [Function.update_apply] at found
    obtain ⟨apart, found⟩ := Option.ite_none_left_eq_some.mp found
    obtain ⟨d, there, own⟩ := sound.alive place other found
    refine ⟨d, ?_, own⟩
    show Function.update p.memory address none other = some d
    rw [Function.update_of_ne, there]
    rintro rfl
    rw [here] at there
    cases there
    exact apart own.symm
  · exact sound.entry _ _ (cases other d there).1
  · exact sound.watch _ _ (cases other d there).1
  · exact sound.order _ _ (cases other d there).1
  · change Function.update p.owner c.fd Option.none place = Option.none at none
    rw [Function.update_apply] at none
    split at none
    · rename_i equal
      rw [equal]
      show p.channels c.fd = Option.none ∧ p.interest c.fd = Option.none
      rw [sound.entry _ _ here, sound.watch _ _ here, entryOf, watchOf, if_pos outside,
        if_neg (by rw [outside]; decide)]
      exact ⟨rfl, rfl⟩
    · exact sound.free place none

theorem step_create (inv : p.Inv) (free : p.memory address = none) (fresh : p.owner fd = none) :
    ∃ after, p.step (.create address fd) = .ok after ∧ after.Inv ∧
      Moves p (.create address fd) after := by
  have steady : Steady p { p.store address { fd } with
      owner := Function.update p.owner fd (some address) } := by
    refine ⟨rfl, rfl, rfl, rfl, rfl, fun other member d there => ⟨d, ?_, rfl, id⟩⟩
    show (p.store address { fd }).memory other = some d
    rw [memory_store, if_neg, there]
    rintro rfl
    rw [free] at there
    cases there
  exact ⟨_, rfl, inv.steady (inv.sound.create free fresh) steady, .steady rfl steady⟩

theorem replaced_store (p : EPollPoller) (address : ℕ) (before c : PolledChannel) :
    (p.store address before).replaced address c = p.replaced address c := by
  simp only [EPollPoller.replaced, store, Function.update_idem]

/-- A channel that is still in the loop if it waits. -/
theorem steady_replaced (here : p.memory address = some c) {c' : PolledChannel}
    (kept : address ∈ p.waiting → c'.revents = c.revents ∧ c'.addedToLoop = true) :
    Steady p (p.replaced address c') := by
  refine ⟨rfl, rfl, rfl, rfl, rfl, fun other member d there => ?_⟩
  by_cases equal : other = address
  · subst equal
    rw [here] at there
    cases there
    exact ⟨c', (memory_store _ _ _ _).trans (if_pos rfl), (kept member).1, fun _ => (kept member).2⟩
  · exact ⟨d, (memory_store _ _ _ _).trans ((if_neg equal).trans there), rfl, id⟩

theorem step_call (inv : p.Inv) (here : p.memory address = some c) (call : ChannelCall) :
    ∃ after, p.step (.call address call) = .ok after ∧ after.Inv ∧
      Moves p (.call address call) after := by
  have index : (call.change c.channel).index = c.channel.index := by cases call <;> rfl
  let asks : PolledChannel := { c with channel := call.change c.channel, addedToLoop := true }
  have stored : (p.store address asks).memory address = some asks := by rw [memory_store, if_pos rfl]
  have entry : (p.store address asks).channels asks.fd = entryOf address asks := by
    show p.channels c.fd = entryOf address asks
    rw [inv.sound.entry _ _ here, entryOf, entryOf, index]
  have watched : ((p.store address asks).interest asks.fd).isSome =
      decide (asks.channel.index = .kAdded) := by
    show (p.interest c.fd).isSome = decide ((call.change c.channel).index = .kAdded)
    rw [isSome_watch inv.sound here, index]
  have done := updateChannel_spec stored entry watched
  rw [replaced_store] at done
  have sound := inv.sound.replaced here { asks with channel := asks.channel.update } rfl
    ⟨update_quiet, fun _ => update_registered _, fun _ => rfl⟩
  have steady : Steady p (p.replaced address { asks with channel := asks.channel.update }) :=
    steady_replaced here fun _ => ⟨rfl, rfl⟩
  refine ⟨_, ?_, inv.steady sound steady, .steady rfl steady⟩
  rw [step, deref_of here, ok_bind]
  exact done

theorem step_remove (inv : p.Inv) (here : p.memory address = some c)
    (quiet : c.channel.isNoneEvent = true) (added : c.addedToLoop = true)
    (apart : p.eventHandling = true → p.current = some address ∨ address ∉ p.activeChannels) :
    ∃ after, p.step (.remove address) = .ok after ∧ after.Inv ∧ Moves p (.remove address) after := by
  have registered := (inv.sound.order _ _ here).added.mp added
  have stored : (p.store address { c with addedToLoop := false }).memory address =
      some { c with addedToLoop := false } := by rw [memory_store, if_pos rfl]
  have entry : p.channels c.fd = entryOf address c := inv.sound.entry _ _ here
  have watched : (p.interest c.fd).isSome = decide (c.channel.index = .kAdded) :=
    isSome_watch inv.sound here
  have done := removeChannel_spec stored entry registered watched quiet
  rw [replaced_store] at done
  -- it does not wait: it is the current one, or not active
  have absent : address ∉ p.waiting := by
    intro waits
    cases handling : p.eventHandling with
    | false =>
      rw [(inv.idle handling).1] at waits
      cases waits
    | true =>
      rcases apart handling with current | inactive
      · exact inv.current address current waits
      · exact inactive (inv.subset address waits)
  have sound := inv.sound.replaced here
    { c with addedToLoop := false, channel := c.channel.remove } rfl
    ⟨fun _ => quiet, nofun, fun new => absurd rfl new⟩
  have steady : Steady p (p.replaced address
      { c with addedToLoop := false, channel := c.channel.remove }) :=
    steady_replaced here fun waits => absurd waits absent
  refine ⟨_, ?_, inv.steady sound steady, .steady rfl steady⟩
  rw [step, deref_of here, ok_bind, require_of quiet, ok_bind, require_of apart, ok_bind]
  exact done

theorem step_destroy (inv : p.Inv) (here : p.memory address = some c)
    (outside : c.addedToLoop = false) (apart : p.eventHandling = true → p.current ≠ some address) :
    ∃ after, p.step (.destroy address) = .ok after ∧ after.Inv ∧ Moves p (.destroy address) after := by
  have index : c.channel.index = .kNew := by
    by_contra registered
    rw [(inv.sound.order _ _ here).added.mpr registered] at outside
    cases outside
  have unlisted : p.hasChannel address c.fd = false := by
    rw [hasChannel, inv.sound.entry _ _ here, entryOf, if_pos index]
    rfl
  have steady : Steady p { p with
      memory := Function.update p.memory address none
      owner := Function.update p.owner c.fd none } := by
    refine ⟨rfl, rfl, rfl, rfl, rfl, fun other member d there => ⟨d, ?_, rfl, id⟩⟩
    show Function.update p.memory address none other = some d
    rw [Function.update_of_ne, there]
    rintro rfl
    obtain ⟨e, live, added⟩ := inv.live other member
    rw [here] at live
    cases live
    rw [outside] at added
    cases added
  refine ⟨_, ?_, inv.steady (inv.sound.destroy here index) steady, .steady rfl steady⟩
  rw [step, deref_of here, ok_bind, require_of apart, ok_bind, require_of outside, ok_bind,
    require_of unlisted, ok_bind]
  rfl

theorem step_poll (inv : p.Inv) (idle : p.eventHandling = false) {reports : List Report}
    (nodup : (reports.map Report.fd).Nodup)
    (watched : ∀ report ∈ reports, p.interest report.fd ≠ none) :
    ∃ after, p.step (.poll reports) = .ok after ∧ after.Inv ∧ Moves p (.poll reports) after := by
  obtain ⟨filled, done, sound, frame, marked, others⟩ :=
    fillActiveChannels_spec inv.sound watched nodup
  have current : filled.current = none := by
    rw [frame]
    exact (inv.idle idle).2
  have distinct : (reports.map fun report => p.addressOf report.fd).Nodup := by
    refine List.Nodup.map_on ?_ (List.Nodup.of_map _ nodup)
    intro a first b second same
    by_contra apart
    have fds : a.fd ≠ b.fd := fun equal => apart (List.inj_on_of_nodup_map nodup first second equal)
    exact inv.sound.addressOf_ne (watched a first) (watched b second) fds same
  refine ⟨_, by rw [step, poll, done, ok_bind]; rfl, ?_, ?_⟩
  · refine ⟨⟨sound.owned, sound.alive, sound.entry, sound.watch, sound.order, sound.free⟩, distinct,
      fun _ member => member, fun address member => ?_, ?_, nofun⟩
    · obtain ⟨report, listed, rfl⟩ := List.mem_map.mp member
      obtain ⟨c, here, added, _⟩ := marked report listed
      exact ⟨c, here, added⟩
    · show ∀ address ∈ filled.current, _
      rw [current]
      nofun
  · refine .poll rfl rfl ?_ fun report member => ?_
    · show filled.dispatched = p.dispatched
      rw [frame]
    · obtain ⟨c, here, _, revents⟩ := marked report member
      exact ⟨c, here, revents⟩

theorem step_dispatch (inv : p.Inv) (handling : p.eventHandling = true) (some : p.waiting ≠ []) :
    ∃ after, p.step .dispatch = .ok after ∧ after.Inv ∧ Moves p .dispatch after := by
  obtain ⟨address, rest, waits⟩ := List.exists_cons_of_ne_nil some
  obtain ⟨c, here, _⟩ := inv.live address (by rw [waits]; exact List.mem_cons_self)
  have nodup := inv.nodup
  rw [waits, List.nodup_cons] at nodup
  have later : ∀ other ∈ rest, other ∈ p.waiting := by
    intro other member
    rw [waits]
    exact List.mem_cons_of_mem _ member
  refine ⟨_, ?_, ?_, .dispatch waits here⟩
  · rw [step, waits]
    show (p.deref address >>= _) = _
    rw [deref_of here, ok_bind]
    rfl
  · refine ⟨⟨inv.sound.owned, inv.sound.alive, inv.sound.entry, inv.sound.watch, inv.sound.order,
      inv.sound.free⟩, nodup.2, fun other member => inv.subset other (later other member),
      fun other member => inv.live other (later other member), ?_, fun idle => ?_⟩
    · intro other current
      rw [← Option.some.inj current]
      exact nodup.1
    · exact absurd (handling.symm.trans idle) (by decide)

/-- **An enabled step ends without a fault.** -/
theorem step_spec (inv : p.Inv) (enabled : p.Enabled event) :
    ∃ after, p.step event = .ok after ∧ after.Inv ∧ Moves p event after := by
  cases event with
  | create address fd => exact step_create inv enabled.1 enabled.2
  | call address call =>
    obtain ⟨c, here⟩ := Option.ne_none_iff_exists'.mp enabled
    exact step_call inv here call
  | remove address =>
    obtain ⟨⟨c, here, quiet, added⟩, apart⟩ := enabled
    exact step_remove inv here quiet added apart
  | destroy address =>
    obtain ⟨⟨c, here, outside⟩, apart⟩ := enabled
    exact step_destroy inv here outside apart
  | poll reports =>
    obtain ⟨idle, _, nodup, reported⟩ := enabled
    refine step_poll inv idle nodup fun report member => ?_
    obtain ⟨interest, watched, _⟩ := reported report member
    rw [watched]
    exact Option.some_ne_none _
  | dispatch => exact step_dispatch inv enabled.1 enabled.2
  | finish =>
    refine ⟨_, rfl, ?_, .finish⟩
    exact ⟨⟨inv.sound.owned, inv.sound.alive, inv.sound.entry, inv.sound.watch, inv.sound.order,
      inv.sound.free⟩, inv.nodup, inv.subset, inv.live, nofun, fun _ => ⟨enabled.2, rfl⟩⟩

theorem moves_of_next (inv : p.Inv) (enabled : p.Enabled event) (moved : p.next event = some after) :
    Moves p event after ∧ after.Inv := by
  obtain ⟨result, done, inv', moves⟩ := step_spec inv enabled
  rw [next, done] at moved
  cases moved
  exact ⟨moves, inv'⟩

theorem sound_init : ({} : EPollPoller).Sound where
  owned _ _ here := absurd here (Option.some_ne_none _).symm
  alive _ _ owner := absurd owner (Option.some_ne_none _).symm
  entry _ _ here := absurd here (Option.some_ne_none _).symm
  watch _ _ here := absurd here (Option.some_ne_none _).symm
  order _ _ here := absurd here (Option.some_ne_none _).symm
  free _ _ := ⟨rfl, rfl⟩

theorem inv_init : ({} : EPollPoller).Inv where
  sound := sound_init
  nodup := List.nodup_nil
  subset _ member := absurd member List.not_mem_nil
  live _ member := absurd member List.not_mem_nil
  current _ member := absurd member (Option.some_ne_none _).symm
  idle _ := ⟨rfl, rfl⟩

theorem inv_of_reach (reached : Reach next Enabled {} p) : p.Inv :=
  reached.invariant inv_init fun _ _ _ inv enabled moved => (moves_of_next inv enabled moved).2

instance (p : EPollPoller) : (event : PollerEvent) → Decidable (p.Enabled event)
  | .create address fd => inferInstanceAs (Decidable (p.memory address = none ∧ p.owner fd = none))
  | .call address _ => inferInstanceAs (Decidable (p.memory address ≠ none))
  | .remove address =>
    inferInstanceAs (Decidable ((∃ c ∈ p.memory address, c.channel.isNoneEvent = true ∧
      c.addedToLoop = true) ∧
      (p.eventHandling = true → p.current = some address ∨ address ∉ p.activeChannels)))
  | .destroy address =>
    inferInstanceAs (Decidable ((∃ c ∈ p.memory address, c.addedToLoop = false) ∧
      (p.eventHandling = true → p.current ≠ some address)))
  | .poll reports =>
    inferInstanceAs (Decidable (p.eventHandling = false ∧ reports.length ≤ p.eventsSize ∧
      (reports.map Report.fd).Nodup ∧ ∀ report ∈ reports, ∃ interest ∈ p.interest report.fd,
        interest.Reports report.revents))
  | .dispatch => inferInstanceAs (Decidable (p.eventHandling = true ∧ p.waiting ≠ []))
  | .finish => inferInstanceAs (Decidable (p.eventHandling = true ∧ p.waiting = []))

end EPollPoller

/-- **The poller, the kernel and the channels agree**, in every run. The next step does not fail;
`_channels` holds the channels that are in the loop; the interest list holds those that were added,
with the events they ask for now; and a channel that asks for something is watched for it. -/
theorem registry_sound {p : EPollPoller} (reached : Reach EPollPoller.next EPollPoller.Enabled {} p) :
    (∀ event, p.Enabled event → ∃ after, p.step event = .ok after) ∧
    (∀ fd address, p.channels fd = some address ↔
      ∃ c, p.memory address = some c ∧ c.fd = fd ∧ c.addedToLoop = true) ∧
    (∀ fd interest, p.interest fd = some interest ↔ ∃ address c, p.memory address = some c ∧
      c.fd = fd ∧ c.channel.index = .kAdded ∧ interest = c.interest address) ∧
    ∀ address c, p.memory address = some c → c.channel.reading = true ∨ c.channel.writing = true →
      p.interest c.fd = some (c.interest address) := by
  have inv := EPollPoller.inv_of_reach reached
  have sound := inv.sound
  refine ⟨fun event enabled => ?_, fun fd address => ⟨fun listed => ?_, ?_⟩,
    fun fd interest => ⟨fun watched => ?_, ?_⟩, fun address c here asks => ?_⟩
  · obtain ⟨after, done, _⟩ := EPollPoller.step_spec inv enabled
    exact ⟨after, done⟩
  · cases owner : p.owner fd with
    | none =>
      rw [(sound.free fd owner).1] at listed
      cases listed
    | some other =>
      obtain ⟨c, here, rfl⟩ := sound.alive fd other owner
      rw [sound.entry _ _ here, EPollPoller.entryOf] at listed
      obtain ⟨registered, same⟩ := Option.ite_none_left_eq_some.mp listed
      cases same
      exact ⟨c, here, rfl, (sound.order _ _ here).added.mpr registered⟩
  · rintro ⟨c, here, rfl, added⟩
    rw [sound.entry _ _ here, EPollPoller.entryOf,
      if_neg ((sound.order _ _ here).added.mp added)]
  · obtain ⟨c, here, rfl, added⟩ := sound.of_interest (by rw [watched]; exact Option.some_ne_none _)
    rw [sound.watch _ _ here, EPollPoller.watchOf, if_pos added] at watched
    exact ⟨_, c, here, rfl, added, (Option.some.inj watched).symm⟩
  · rintro ⟨address, c, here, rfl, added, rfl⟩
    rw [sound.watch _ _ here, EPollPoller.watchOf, if_pos added]
  · rw [sound.watch _ _ here, EPollPoller.watchOf, if_pos]
    by_contra apart
    have quiet := (sound.order _ _ here).quiet apart
    rw [Channel.isNoneEvent, Bool.and_eq_true, Bool.not_eq_true', Bool.not_eq_true'] at quiet
    rcases asks with reads | writes
    · rw [quiet.1] at reads
      cases reads
    · rw [quiet.2] at writes
      cases writes

/-- Two channels that ask for something, and one that asks for nothing and is watched. -/
def threeChannels : List PollerEvent :=
  [.create 100 5, .call 100 .enableReading, .create 200 6, .call 200 .enableReading,
    .call 200 .enableWriting, .create 300 7, .call 300 .disableAll]

theorem registry_sound_sample :
    ∃ p, play EPollPoller.next EPollPoller.Enabled {} threeChannels = some p ∧
      p.interest 6 = some ⟨true, true, 200⟩ ∧ p.interest 7 = some ⟨false, false, 300⟩ ∧
      (∀ event, p.Enabled event → ∃ after, p.step event = .ok after) ∧
      ∀ address c, p.memory address = some c → c.channel.reading = true ∨ c.channel.writing = true →
        p.interest c.fd = some (c.interest address) := by
  have shape : (play EPollPoller.next EPollPoller.Enabled {} threeChannels).map
      (fun p => (p.interest 6, p.interest 7)) =
        some (some ⟨true, true, 200⟩, some ⟨false, false, 300⟩) := by decide +kernel
  obtain ⟨p, done, shape⟩ := Option.map_eq_some_iff.mp shape
  rw [Prod.mk.injEq] at shape
  obtain ⟨goes, _, _, asked⟩ := registry_sound (Reach.of_play .start done)
  exact ⟨p, done, shape.1, shape.2, goes, asked⟩

/-! ### Dispatches -/

namespace EPollPoller

variable {p after : EPollPoller} {event : PollerEvent}

/-- The dispatches that the reports ask for. -/
def expected (p : EPollPoller) (reports : List Report) : List (ℕ × Revents) :=
  reports.map fun report => (p.addressOf report.fd, report.revents)

/-- A part of the reports has been dispatched. -/
structure Dispatching (start : EPollPoller) (reports : List Report) (p : EPollPoller) : Prop where
  inv : p.Inv
  handling : p.eventHandling = true
  split : ∃ gone rest, start.expected reports = gone ++ rest ∧
    p.dispatched = start.dispatched ++ gone ∧ p.waiting = rest.map Prod.fst ∧
    ∀ entry ∈ rest, ∃ c, p.memory entry.1 = some c ∧ c.revents = entry.2

/-- Up to the end of the loop over the active channels. -/
def InLoop (p : EPollPoller) (event : PollerEvent) : Prop := p.Enabled event ∧ event ≠ .finish

instance (p : EPollPoller) (event : PollerEvent) : Decidable (p.InLoop event) :=
  inferInstanceAs (Decidable (_ ∧ _))

theorem Dispatching.move {start : EPollPoller} {reports : List Report}
    (dispatching : Dispatching start reports p) (meets : p.InLoop event)
    (moved : p.next event = some after) : Dispatching start reports after := by
  obtain ⟨inv, handling, gone, rest, split, dispatched, waiting, noted⟩ := dispatching
  obtain ⟨moves, inv'⟩ := moves_of_next inv meets.1 moved
  cases moves with
  | steady _ steady =>
    refine ⟨inv', steady.handling.trans handling, gone, rest, split,
      steady.dispatched.trans dispatched, steady.waiting.trans waiting, fun entry member => ?_⟩
    obtain ⟨c, here, revents⟩ := noted entry member
    have waits : entry.1 ∈ p.waiting := by
      rw [waiting]
      exact List.mem_map_of_mem member
    obtain ⟨c', there, same, _⟩ := steady.channels entry.1 waits c here
    exact ⟨c', there, same.trans revents⟩
  | poll => exact absurd (handling.symm.trans meets.1.1) (by decide)
  | @dispatch address others c waits here =>
    cases rest with
    | nil =>
      rw [waiting] at waits
      cases waits
    | cons entry rest =>
      rw [waiting, List.map_cons, List.cons.injEq] at waits
      obtain ⟨d, there, revents⟩ := noted entry List.mem_cons_self
      rw [waits.1, here] at there
      cases there
      refine ⟨inv', handling, gone ++ [entry], rest, ?_, ?_, waits.2.symm, fun other member => ?_⟩
      · rw [split, List.append_assoc, List.singleton_append]
      · show p.dispatched ++ [(address, c.revents)] = _
        rw [dispatched, List.append_assoc, revents, ← waits.1]
      · exact noted other (List.mem_cons_of_mem _ member)
  | finish => exact absurd rfl meets.2

end EPollPoller

/-- **What `epoll_wait` reports is dispatched**, each channel once, in the order of the reports and
with the bits reported for it. The handlers may meanwhile change, remove and destroy channels. -/
theorem reports_dispatched {p first last : EPollPoller} {reports : List EPollPoller.Report}
    (reached : Reach EPollPoller.next EPollPoller.Enabled {} p) (enabled : p.Enabled (.poll reports))
    (polled : p.next (.poll reports) = some first)
    (handled : Reach EPollPoller.next EPollPoller.InLoop first last)
    (ready : last.Enabled .finish) :
    last.dispatched = p.dispatched ++ p.expected reports ∧
      ∀ report ∈ reports, ∃ c, p.memory (p.addressOf report.fd) = some c ∧ c.fd = report.fd ∧
        (c.interest (p.addressOf report.fd)).Reports report.revents := by
  have inv := EPollPoller.inv_of_reach reached
  obtain ⟨moves, inv'⟩ := EPollPoller.moves_of_next inv enabled polled
  refine ⟨?_, fun report member => ?_⟩
  · have begun : EPollPoller.Dispatching p reports first := by
      cases moves with
      | steady call => cases call
      | poll handling waiting dispatched marked =>
        refine ⟨inv', handling, [], p.expected reports, rfl, ?_, ?_, fun entry member => ?_⟩
        · rw [dispatched, List.append_nil]
        · rw [waiting, EPollPoller.expected, List.map_map]
          rfl
        · obtain ⟨report, listed, rfl⟩ := List.mem_map.mp member
          exact marked report listed
    have finished := handled.invariant begun fun _ _ _ dispatching meets moved =>
      dispatching.move meets moved
    obtain ⟨gone, rest, split, dispatched, waiting, _⟩ := finished.split
    rw [ready.2] at waiting
    have none : rest = [] := List.map_eq_nil_iff.mp waiting.symm
    rw [none, List.append_nil] at split
    rw [dispatched, split]
  · obtain ⟨interest, watched, reports⟩ := enabled.2.2.2 report member
    obtain ⟨c, here, own, added⟩ := inv.sound.of_interest
      (by rw [watched]; exact Option.some_ne_none _)
    refine ⟨c, here, own, ?_⟩
    have watch := inv.sound.watch _ _ here
    rw [own, EPollPoller.watchOf, if_pos added, watched] at watch
    rw [← Option.some.inj watch]
    exact reports

/-- The handler of the first channel takes the third one out and destroys it, and stops the second
one from reading. -/
def meddlingHandlers : List PollerEvent :=
  [.dispatch, .call 300 .disableAll, .remove 300, .destroy 300, .call 200 .disableReading, .dispatch]

theorem reports_dispatched_sample :
    ∃ p first last, play EPollPoller.next EPollPoller.Enabled {} threeChannels = some p ∧
      p.next (.poll [⟨5, { pollIn := true }⟩, ⟨6, { pollIn := true, pollOut := true }⟩]) =
        some first ∧
      play EPollPoller.next EPollPoller.InLoop first meddlingHandlers = some last ∧
      last.dispatched =
        [(100, { pollIn := true }), (200, { pollIn := true, pollOut := true })] := by
  have shape : ((play EPollPoller.next EPollPoller.Enabled {} threeChannels).bind fun p =>
      (p.next (.poll [⟨5, { pollIn := true }⟩, ⟨6, { pollIn := true, pollOut := true }⟩])).bind
        fun first => (play EPollPoller.next EPollPoller.InLoop first meddlingHandlers).map fun last =>
          (decide (p.Enabled (.poll [⟨5, { pollIn := true }⟩,
            ⟨6, { pollIn := true, pollOut := true }⟩])), decide (last.Enabled .finish), p.dispatched,
            p.addressOf 5, p.addressOf 6)) = some (true, true, [], 100, 200) := by decide +kernel
  obtain ⟨p, done, shape⟩ := Option.bind_eq_some_iff.mp shape
  obtain ⟨first, polled, shape⟩ := Option.bind_eq_some_iff.mp shape
  obtain ⟨last, handled, shape⟩ := Option.map_eq_some_iff.mp shape
  simp only [Prod.mk.injEq, decide_eq_true_eq] at shape
  obtain ⟨enabled, ready, before, five, six⟩ := shape
  have all := (reports_dispatched (Reach.of_play .start done) enabled polled
    (Reach.of_play .start handled) ready).1
  rw [before, EPollPoller.expected, List.map_cons, List.map_cons, five, six] at all
  exact ⟨p, first, last, done, polled, handled, all⟩

end EtherAdapter
