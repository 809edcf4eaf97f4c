/-
**The channels of an event loop and `epoll`** (`EPollPoller.cpp`, `Poller.cpp`, `Channel.cpp`; the
loop over the active channels in `EventLoop.cpp`).

A channel is an object in memory, known by its address. The poller keeps a map from descriptors to
channels, the kernel keeps the interest list, and the channel itself its events and its index; the
three have to agree. A handler can change, remove and destroy channels while the active ones are
dispatched.

* `EPollPoller.updateChannel`, `removeChannel`, `fillActiveChannels` — the operations; they end early
  with a `PollerFault`: an assertion that fails, a channel that has been destroyed, or an
  `epoll_ctl` that fails (for `EPOLL_CTL_DEL` the source logs it and goes on).
* `EPollPoller.step` — one call on a channel, or one step of the loop.

One channel is what `Model.Connection` has; the wakeup channel is one of them. Callbacks, `_tie` and
log lines are left out, and so is a failing `epoll_wait`, which is like one without reports.
-/

import EtherAdapter.Model.Connection

namespace EtherAdapter

inductive PollerFault where
  | assertion
  | dangling
  | epollCtl
deriving DecidableEq, Repr

/-- `struct epoll_event`, as it is passed to `epoll_ctl`. -/
structure Interest where
  reading : Bool
  writing : Bool
  /-- `data.ptr`. -/
  ptr : ℕ
deriving DecidableEq, Repr

/-- What the kernel may report: what it was asked for, errors and hang-ups. -/
def Interest.Reports (interest : Interest) (revents : Revents) : Prop :=
  (revents.pollIn = true → interest.reading = true) ∧
    (revents.pollPri = true → interest.reading = true) ∧
    (revents.pollOut = true → interest.writing = true) ∧
    revents.pollRdhup = false ∧ revents.pollNval = false

instance (interest : Interest) (revents : Revents) : Decidable (interest.Reports revents) :=
  inferInstanceAs (Decidable (_ ∧ _))

inductive EpollOp where
  | add
  | mod
  | del
deriving DecidableEq, Repr

/-- A `Channel` object. -/
structure PolledChannel where
  fd : ℕ
  channel : Channel := {}
  revents : Revents := {}
  addedToLoop : Bool := false
deriving DecidableEq, Repr

/-- What `epoll` is to be told of a channel. -/
def PolledChannel.interest (c : PolledChannel) (address : ℕ) : Interest :=
  ⟨c.channel.reading, c.channel.writing, address⟩

def kInitEventListSize : ℕ := 16

structure EPollPoller where
  memory : ℕ → Option PolledChannel := fun _ => none
  /-- `_channels`, by descriptor. -/
  channels : ℕ → Option ℕ := fun _ => none
  /-- The interest list of the kernel, by descriptor. -/
  interest : ℕ → Option Interest := fun _ => none
  /-- The channel that was made for a descriptor. -/
  owner : ℕ → Option ℕ := fun _ => none
  /-- `_events.size()`. -/
  eventsSize : ℕ := kInitEventListSize
  /-- `_eventHandling`, `_activeChannels` and `_currentActiveChannel` of the loop. -/
  eventHandling : Bool := false
  activeChannels : List ℕ := []
  current : Option ℕ := none
  /-- The active channels that the loop has still to dispatch. -/
  waiting : List ℕ := []
  /-- The dispatches so far. -/
  dispatched : List (ℕ × Revents) := []

namespace EPollPoller

def require (condition : Prop) [Decidable condition] : Except PollerFault Unit :=
  if condition then .ok () else .error .assertion

def deref (p : EPollPoller) (address : ℕ) : Except PollerFault PolledChannel :=
  match p.memory address with
  | some c => .ok c
  | none => .error .dangling

def store (p : EPollPoller) (address : ℕ) (c : PolledChannel) : EPollPoller :=
  { p with memory := Function.update p.memory address (some c) }

/-- `epoll_ctl`: `EEXIST` and `ENOENT` are its errors. -/
def epollCtl (p : EPollPoller) (op : EpollOp) (fd : ℕ) (event : Interest) :
    Except PollerFault EPollPoller :=
  match op, p.interest fd with
  | .add, none | .mod, some _ =>
    .ok { p with interest := Function.update p.interest fd (some event) }
  | .del, some _ => .ok { p with interest := Function.update p.interest fd none }
  | .add, some _ | .mod, none | .del, none => .error .epollCtl

/-- `Poller::hasChannel`. -/
def hasChannel (p : EPollPoller) (address fd : ℕ) : Bool := p.channels fd = some address

/-- `EPollPoller::updateChannel`. The index it sets is that of `Channel.update`. -/
def updateChannel (p : EPollPoller) (address : ℕ) : Except PollerFault EPollPoller := do
  let c ← p.deref address
  let updated := p.store address { c with channel := c.channel.update }
  match c.channel.index with
  | .kNew =>
    require (p.channels c.fd = none)
    { updated with channels := Function.update p.channels c.fd (some address) }.epollCtl .add c.fd
      (c.interest address)
  | .kDeleted =>
    require (p.channels c.fd ≠ none)
    require (p.channels c.fd = some address)
    updated.epollCtl .add c.fd (c.interest address)
  | .kAdded =>
    require (p.channels c.fd ≠ none)
    require (p.channels c.fd = some address)
    updated.epollCtl (if c.channel.isNoneEvent then .del else .mod) c.fd (c.interest address)

/-- `EPollPoller::removeChannel`. -/
def removeChannel (p : EPollPoller) (address : ℕ) : Except PollerFault EPollPoller := do
  let c ← p.deref address
  require (p.channels c.fd ≠ none)
  require (p.channels c.fd = some address)
  require (c.channel.isNoneEvent = true)
  require (c.channel.index = .kAdded ∨ c.channel.index = .kDeleted)
  let removed := { p.store address { c with channel := c.channel.remove } with
    channels := Function.update p.channels c.fd none }
  if c.channel.index = .kAdded then removed.epollCtl .del c.fd (c.interest address)
  else return removed

/-- A descriptor that `epoll_wait` reports. -/
structure Report where
  fd : ℕ
  revents : Revents
deriving DecidableEq, Repr

/-- `fillActiveChannels`: the channels of the reports, with their `_revents` set. -/
def fillActiveChannels (p : EPollPoller) : List Report → Except PollerFault (EPollPoller × List ℕ)
  | [] => .ok (p, [])
  | report :: rest => do
    -- `data.ptr` is what the kernel was told for this descriptor
    let ptr := (p.interest report.fd).elim 0 Interest.ptr
    let c ← p.deref ptr
    require (p.channels c.fd ≠ none)
    require (p.channels c.fd = some ptr)
    let (after, active) ← (p.store ptr { c with revents := report.revents }).fillActiveChannels rest
    return (after, ptr :: active)

/-- `EPollPoller::poll`, and the lines of `loop()` before the dispatches. -/
def poll (p : EPollPoller) (reports : List Report) : Except PollerFault EPollPoller := do
  let (after, active) ← p.fillActiveChannels reports
  return { after with
    eventsSize := if reports.length = p.eventsSize then p.eventsSize * 2 else p.eventsSize
    eventHandling := true
    activeChannels := active
    waiting := active }

end EPollPoller

/-! ### Steps -/

/-- The calls that change the events of a channel. -/
inductive ChannelCall where
  | enableReading
  | disableReading
  | enableWriting
  | disableWriting
  | disableAll
deriving DecidableEq, Repr

def ChannelCall.change (channel : Channel) : ChannelCall → Channel
  | .enableReading => { channel with reading := true }
  | .disableReading => { channel with reading := false }
  | .enableWriting => { channel with writing := true }
  | .disableWriting => { channel with writing := false }
  | .disableAll => { channel with reading := false, writing := false }

inductive PollerEvent where
  /-- `Channel::Channel`, for a descriptor. -/
  | create (address fd : ℕ)
  | call (address : ℕ) (call : ChannelCall)
  /-- `Channel::remove`. -/
  | remove (address : ℕ)
  /-- `Channel::~Channel`. -/
  | destroy (address : ℕ)
  /-- `epoll_wait` returns. -/
  | poll (reports : List EPollPoller.Report)
  /-- The next active channel is dispatched. -/
  | dispatch
  /-- All active channels have been dispatched. -/
  | finish
deriving DecidableEq, Repr

namespace EPollPoller

/-- The step can come next. A channel has its descriptor for itself; it is removed by its owner when
it asks for nothing any more, and not while it waits for its dispatch; it is destroyed when it is
not in the loop, and not by its own handler. -/
def Enabled (p : EPollPoller) : PollerEvent → Prop
  | .create address fd => p.memory address = none ∧ p.owner fd = none
  | .call address _ => p.memory address ≠ none
  | .remove address =>
    (∃ c ∈ p.memory address, c.channel.isNoneEvent = true ∧ c.addedToLoop = true) ∧
      (p.eventHandling = true → p.current = some address ∨ address ∉ p.activeChannels)
  | .destroy address =>
    (∃ c ∈ p.memory address, c.addedToLoop = false) ∧
      (p.eventHandling = true → p.current ≠ some address)
  | .poll reports =>
    p.eventHandling = false ∧ reports.length ≤ p.eventsSize ∧ (reports.map Report.fd).Nodup ∧
      ∀ report ∈ reports, ∃ interest ∈ p.interest report.fd, interest.Reports report.revents
  | .dispatch => p.eventHandling = true ∧ p.waiting ≠ []
  | .finish => p.eventHandling = true ∧ p.waiting = []

def step (p : EPollPoller) : PollerEvent → Except PollerFault EPollPoller
  | .create address fd =>
    .ok { p.store address { fd } with owner := Function.update p.owner fd (some address) }
  | .call address call => do
    let c ← p.deref address
    (p.store address { c with channel := call.change c.channel, addedToLoop := true }).updateChannel
      address
  | .remove address => do
    let c ← p.deref address
    require (c.channel.isNoneEvent = true)
    require (p.eventHandling = true → p.current = some address ∨ address ∉ p.activeChannels)
    (p.store address { c with addedToLoop := false }).removeChannel address
  | .destroy address => do
    let c ← p.deref address
    -- `_eventHandling` of the channel is set while its handler runs
    require (p.eventHandling = true → p.current ≠ some address)
    require (c.addedToLoop = false)
    require (p.hasChannel address c.fd = false)
    return { p with
      memory := Function.update p.memory address none, owner := Function.update p.owner c.fd none }
  | .poll reports => p.poll reports
  | .dispatch =>
    match p.waiting with
    | [] => .ok p
    | address :: rest => do
      let c ← p.deref address
      return { p with
        current := some address, waiting := rest
        dispatched := p.dispatched ++ [(address, c.revents)] }
  | .finish => .ok { p with current := none, eventHandling := false }

/-- One step that ends without a fault. -/
def next (p : EPollPoller) (event : PollerEvent) : Option EPollPoller :=
  match p.step event with
  | .ok after => some after
  | .error _ => none

end EPollPoller

end EtherAdapter
