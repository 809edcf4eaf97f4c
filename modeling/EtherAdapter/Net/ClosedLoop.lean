/-
**The poller and a device, closed into a loop.**

The poller writes requests to its link and does not wait for answers; the device reads twelve bytes
at a time, whatever the pieces, and its answers come in over the ingest port. Either side may lose
the link between two requests or inside one.

* `Carries` — the bytes under way on the links are whole requests and, on a closed link, the
  beginning of one more.
* `PollingLoop.Inv` — the requests answered and those under way are requests of the thread, in
  their order.
* **`polls_answered`** — in every run, no request is answered twice or out of order, and the rows
  the adapter decodes from what was pushed are the registers of the answers, one row for each,
  however the bytes are cut.
-/

import Mathlib.Data.List.ModifyLast
import EtherAdapter.Codec.PlainResponses
import EtherAdapter.Net.Polling
import EtherAdapter.Model.ModbusSim

namespace EtherAdapter

open Runs

/-! ### Requests under way -/

/-- The bytes of a link: whole requests, and part of one where the link was closed. -/
structure HoldsRequests (bytes : Bytes) (closed : Bool) (whole : List Bytes) (part : Bytes) :
    Prop where
  bytes_eq : bytes = whole.flatten ++ part
  twelve : ∀ request ∈ whole, request.length = 12
  short : part.length < 12
  broken : closed = false → part = []

/-- The links hold these requests; `got` has been read from the first one. -/
inductive Carries : Bytes → List PollLink → List Bytes → Prop where
  | nil : Carries [] [] []
  | cons {got : Bytes} {link : PollLink} {links : List PollLink} {whole later : List Bytes}
      {part : Bytes} (holds : HoldsRequests (got ++ link.unread) link.closed whole part)
      (others : Carries [] links later) : Carries got (link :: links) (whole ++ later)

/-- A request is written as far as it goes; where it does not go out whole the link is closed. -/
structure Writes (new : List Bytes) (went : ℕ) (closes : Bool) (completed : List Bytes) : Prop where
  twelve : ∀ request ∈ completed, request.length = 12
  sublist : completed.Sublist new
  ends : ∃ part : Bytes, new.flatten.take went = completed.flatten ++ part ∧ part.length < 12 ∧
    (closes = false → part = [])

theorem HoldsRequests.write {bytes : Bytes} {closed : Bool} {whole : List Bytes} {part : Bytes}
    (holds : HoldsRequests bytes closed whole part) {new : List Bytes} {went : ℕ} {closes : Bool}
    {completed : List Bytes} (writes : Writes new went closes completed)
    (opens : closed = false ∨ new = []) :
    ∃ part, HoldsRequests (bytes ++ new.flatten.take went) (closed || closes) (whole ++ completed)
      part := by
  obtain ⟨rest, written, short, broken⟩ := writes.ends
  rcases opens with opened | rfl
  · refine ⟨rest, ?_, ?_, short, fun stays => broken (Bool.or_eq_false_iff.mp stays).2⟩
    · rw [holds.bytes_eq, holds.broken opened, written, List.flatten_append, List.append_nil,
        List.append_assoc]
    · intro request member
      rcases List.mem_append.mp member with earlier | now
      · exact holds.twelve request earlier
      · exact writes.twelve request now
  · have none : completed = [] := List.sublist_nil.mp writes.sublist
    refine ⟨part, ?_, ?_, holds.short, fun stays => holds.broken (Bool.or_eq_false_iff.mp stays).1⟩
    · rw [holds.bytes_eq, none, List.flatten_nil, List.take_nil, List.append_nil, List.append_nil]
    · rw [none, List.append_nil]
      exact holds.twelve

namespace Carries

variable {got : Bytes} {links : List PollLink} {waiting : List Bytes} {link : PollLink}

/-- A new link holds nothing. -/
theorem concat (carries : Carries got links waiting) (number : ℕ) :
    Carries got (links ++ [{ number := number }]) waiting := by
  induction carries with
  | nil =>
    have empty : HoldsRequests ([] ++ ({ number := number } : PollLink).unread) false [] [] :=
      ⟨rfl, nofun, Nat.succ_pos _, fun _ => rfl⟩
    exact .cons empty .nil
  | cons holds _ ih => exact .cons holds ih

/-- The poller writes to its link, the last one. -/
theorem write {older : List PollLink} (carries : Carries got (older ++ [link]) waiting)
    {new : List Bytes} {went : ℕ} {closes : Bool} {completed : List Bytes}
    (writes : Writes new went closes completed) (opens : link.closed = false ∨ new = []) :
    Carries got (older ++ [{ link with
      unread := link.unread ++ new.flatten.take went, closed := link.closed || closes }])
      (waiting ++ completed) := by
  induction older generalizing got waiting with
  | nil =>
    rw [List.nil_append] at carries ⊢
    cases carries with
    | cons holds others =>
      cases others
      obtain ⟨part, held⟩ := holds.write writes opens
      rw [List.append_nil, ← List.append_nil (_ ++ completed)]
      rw [List.append_assoc] at held
      exact .cons held .nil
  | cons first older ih =>
    rw [List.cons_append] at carries ⊢
    cases carries with
    | cons holds others =>
      rw [List.append_assoc]
      exact .cons holds (ih others)

/-- `recv` moves bytes from the link to the request. -/
theorem receive (carries : Carries got (link :: links) waiting) (n : ℕ) :
    Carries (got ++ link.unread.take n) ({ link with unread := link.unread.drop n } :: links)
      waiting := by
  cases carries with
  | cons holds others =>
    rw [← List.take_append_drop n link.unread, ← List.append_assoc] at holds
    exact .cons holds others

/-- **Twelve bytes are a request.** -/
theorem taken (carries : Carries got (link :: links) waiting) (full : got.length = 12) :
    ∃ later, waiting = got :: later ∧ Carries [] (link :: links) later := by
  cases carries with
  | @cons _ _ _ whole later part holds others =>
    obtain ⟨bytes_eq, twelve, short, broken⟩ := holds
    cases whole with
    | nil =>
      have size := congrArg List.length bytes_eq
      rw [List.flatten_nil, List.nil_append, List.length_append] at size
      omega
    | cons request whole =>
      have length := twelve request (List.mem_cons_self ..)
      rw [List.flatten_cons, List.append_assoc] at bytes_eq
      obtain ⟨rfl, rest⟩ := List.append_inj bytes_eq (full.trans length.symm)
      refine ⟨whole ++ later, rfl, .cons ⟨?_, ?_, short, broken⟩ others⟩
      · rw [List.nil_append]
        exact rest
      · exact fun other member => twelve other (List.mem_cons_of_mem _ member)

/-- The device leaves a link, with what is on it. -/
theorem tail (carries : Carries got links waiting) :
    ∃ later, Carries [] links.tail later ∧ later.Sublist waiting := by
  cases carries with
  | nil => exact ⟨[], .nil, List.Sublist.refl _⟩
  | cons _ others => exact ⟨_, others, List.sublist_append_right _ _⟩

end Carries

/-! ### The thread and its link -/

/-- What the thread does to its link: `new` are the requests it builds, `completed` those that go
out whole. Without a link there is nothing to write to. -/
structure ThreadStep (thread after : DeviceThread) (went : ℕ) (new completed : List Bytes) :
    Prop where
  requests : after.requests = thread.requests ++ new
  writes : Writes new went (!after.connected) completed
  links : (after.conns = thread.conns ∧
      (thread.connected = true ∨ new = [] ∧ after.connected = false)) ∨
    (thread.connected = false ∧ after.conns = thread.conns + 1)

theorem Writes.nothing (went : ℕ) (closes : Bool) : Writes [] went closes [] :=
  ⟨nofun, List.Sublist.refl _, [], List.take_nil, Nat.succ_pos _, fun _ => rfl⟩

theorem Writes.all {request : Bytes} (twelve : request.length = 12) (closes : Bool) :
    Writes [request] 12 closes [request] := by
  refine ⟨List.forall_mem_singleton.mpr twelve, List.Sublist.refl _, [], ?_, Nat.succ_pos _,
    fun _ => rfl⟩
  rw [List.append_nil, List.flatten_singleton, List.take_of_length_le (Nat.le_of_eq twelve)]

theorem Writes.some (request : Bytes) {went : ℕ} (short : went < 12) : Writes [request] went true [] := by
  refine ⟨nofun, List.nil_sublist _, request.take went, ?_, ?_, nofun⟩
  · rw [List.flatten_singleton, List.flatten_nil, List.nil_append]
  · rw [List.length_take]
    omega

namespace DeviceThread

variable (thread : DeviceThread)

theorem drainIncoming_frame (received : List Int) :
    (thread.drainIncoming received).requests = thread.requests ∧
      (thread.drainIncoming received).conns = thread.conns := by
  induction received generalizing thread with
  | nil => exact ⟨rfl, rfl⟩
  | cons n later ih =>
    rw [drainIncoming]
    split
    · exact ⟨rfl, rfl⟩
    · exact ih _

theorem link_requests : thread.link.requests = thread.requests := by
  rw [link]
  split
  · rfl
  · rfl

/-- A link is there, or it is new. -/
theorem link_conns : (thread.link.conns = thread.conns ∧ thread.connected = true) ∨
    (thread.connected = false ∧ thread.link.conns = thread.conns + 1) := by
  rw [link]
  split
  · rename_i up
    exact Or.inl ⟨rfl, up⟩
  · rename_i down
    exact Or.inr ⟨Bool.not_eq_true _ ▸ down, rfl⟩

/-- **What a pass does to the link.** -/
theorem threadStep_pass {outcome : PollPass} {went : ℕ} (all : outcome.sentLen = 12 → went = 12)
    (some : outcome.sentLen ≠ 12 → went < 12) :
    ∃ new completed, ThreadStep thread (thread.pass outcome) went new completed := by
  have linked : ∀ conns, conns = thread.link.conns → ∀ idle : Prop,
      (conns = thread.conns ∧ (thread.connected = true ∨ idle)) ∨
        (thread.connected = false ∧ conns = thread.conns + 1) := by
    intro conns same idle
    rcases thread.link_conns with ⟨kept, up⟩ | ⟨down, more⟩
    · exact Or.inl ⟨same.trans kept, Or.inl up⟩
    · exact Or.inr ⟨down, same.trans more⟩
  let request := (buildRequest thread.link.session.tid thread.link.session.dev.desc.spec).1
  have built : thread.link.build.requests = thread.requests ++ [request] := by
    rw [← thread.link_requests]
    rfl
  have twelve : request.length = 12 := rfl
  rw [pass]
  split
  · rename_i fails
    exact ⟨[], [], (List.append_nil _).symm, .nothing _ _, Or.inl ⟨rfl, Or.inr ⟨rfl, fails.1⟩⟩⟩
  split
  · refine ⟨[], [], ?_, .nothing _ _, linked _ rfl _⟩
    rw [List.append_nil]
    exact thread.link_requests
  simp only
  split
  · rename_i failed
    exact ⟨[request], [], built, .some request (some failed), linked _ rfl _⟩
  · rename_i sent
    obtain ⟨requests, conns⟩ := drainIncoming_frame
      { thread.link.build with sent := thread.link.build.sent + 1 } outcome.received
    rw [all (Decidable.not_not.mp sent)]
    exact ⟨[request], [request], requests.trans built, .all twelve _, linked _ conns _⟩

theorem threadStep_stop :
    ThreadStep thread { thread with running := false, connected := false } 0 [] [] :=
  ⟨(List.append_nil _).symm, .nothing _ _, Or.inl ⟨rfl, Or.inr ⟨rfl, rfl⟩⟩⟩

end DeviceThread

/-! ### Pushes -/

/-- A push sends the whole response, or nothing of it. -/
def PushAttempt.Whole (attempt : PushAttempt) (resp : Bytes) : Prop :=
  attempt.taken = 0 ∨ resp.length ≤ attempt.taken

instance (attempt : PushAttempt) (resp : Bytes) : Decidable (attempt.Whole resp) :=
  inferInstanceAs (Decidable (_ ∨ _))

namespace ModbusSim

/-- What pushes do: the bytes of the response are out, or there are none more than before. -/
structure Pushes (sim : ModbusSim) (resp : Bytes) (result : ModbusSim × Bool) : Prop where
  pc : result.1.pc = sim.pc
  got : result.1.got = sim.got
  served : result.1.served = sim.served
  links : result.1.pushOpen = true → result.1.pushLinks ≠ []
  bytes : result.1.pushLinks.flatten =
    sim.pushLinks.flatten ++ if result.2 = true then resp else []

variable {sim : ModbusSim} {resp : Bytes} {attempt : PushAttempt}

theorem flatten_modifyLast {links : List Bytes} (some : links ≠ []) (bytes : Bytes) :
    (links.modifyLast (· ++ bytes)).flatten = links.flatten ++ bytes ∧
      links.modifyLast (· ++ bytes) ≠ [] := by
  rcases List.eq_nil_or_concat links with rfl | ⟨older, last, rfl⟩
  · exact absurd rfl some
  · rw [List.concat_eq_append, List.modifyLast_concat, List.flatten_append, List.flatten_append,
      List.flatten_singleton, List.flatten_singleton, List.append_assoc]
    exact ⟨rfl, List.append_ne_nil_of_right_ne_nil _ (List.cons_ne_nil _ _)⟩

theorem sendAll_spec (some : sim.pushLinks ≠ []) {taken : ℕ}
    (whole : taken = 0 ∨ resp.length ≤ taken) : Pushes sim resp (sim.sendAll resp taken) := by
  obtain ⟨flat, more⟩ := flatten_modifyLast some (resp.take taken)
  refine ⟨rfl, rfl, rfl, fun _ => more, flat.trans (congrArg _ ?_)⟩
  show resp.take taken = if decide (resp.length ≤ taken) = true then resp else []
  by_cases all : resp.length ≤ taken
  · rw [if_pos (decide_eq_true all), List.take_of_length_le all]
  · rw [if_neg fun said => all (of_decide_eq_true said), whole.resolve_right all, List.take_zero]

theorem ensurePush_spec (links : sim.pushOpen = true → sim.pushLinks ≠ []) (connects : Bool) :
    Pushes sim [] (sim.ensurePush connects, false) := by
  have same : sim.pushLinks.flatten =
      sim.pushLinks.flatten ++ if false = true then [] else [] := by
    rw [ite_self, List.append_nil]
  rw [ensurePush]
  split
  · exact ⟨rfl, rfl, rfl, links, same⟩
  split
  · refine ⟨rfl, rfl, rfl, fun _ => ?_, ?_⟩
    · exact List.append_ne_nil_of_right_ne_nil _ (List.cons_ne_nil _ _)
    · show (sim.pushLinks ++ [[]]).flatten = _
      rw [List.flatten_append, List.flatten_singleton, ite_self]
  · exact ⟨rfl, rfl, rfl, links, same⟩

/-- One thing after the other: the second one's outcome is the whole's. -/
theorem Pushes.trans {middle : ModbusSim} {any : Bytes} {result : ModbusSim × Bool}
    (first : Pushes sim any (middle, false)) (second : Pushes middle resp result) :
    Pushes sim resp result := by
  refine ⟨second.pc.trans first.pc, second.got.trans first.got, second.served.trans first.served,
    second.links, second.bytes.trans ?_⟩
  have before := first.bytes
  rw [if_neg Bool.false_ne_true, List.append_nil] at before
  rw [← before]

/-- **One push.** -/
theorem push_spec (links : sim.pushOpen = true → sim.pushLinks ≠ []) (whole : attempt.Whole resp) :
    Pushes sim resp (sim.push resp attempt) := by
  have ensured := ensurePush_spec links attempt.connects
  rw [push]
  split
  · rename_i up
    exact ensured.trans (sendAll_spec (ensured.links up) whole)
  · refine ensured.trans ⟨rfl, rfl, rfl, ensured.links, ?_⟩
    rw [if_neg Bool.false_ne_true, List.append_nil]

/-- **A push, and once more.** -/
theorem pushTwice_spec (links : sim.pushOpen = true → sim.pushLinks ≠ []) {first second : PushAttempt}
    (whole : first.Whole resp) (whole' : second.Whole resp) :
    Pushes sim resp (sim.pushTwice resp first second) := by
  have pushes := push_spec links whole
  rw [pushTwice]
  split
  · rename_i pushed done
    rw [done] at pushes
    exact pushes
  · rename_i pushed done
    rw [done] at pushes
    have closed : Pushes sim resp ({ pushed with pushOpen := false }, false) :=
      ⟨pushes.pc, pushes.got, pushes.served, nofun, pushes.bytes⟩
    exact closed.trans (push_spec nofun whole')

end ModbusSim

/-! ### The loop -/

namespace PollingLoop

/-- `sendAll` says 12 exactly if the request went out whole, and a response goes out whole or not
at all. -/
def Clean (s : PollingLoop) : PollingEvent → Prop
  | .poll outcome went => (outcome.sentLen = 12 → went = 12) ∧ (outcome.sentLen ≠ 12 → went < 12)
  | .respond first second =>
    first.Whole (s.options.respond s.sim.served s.sim.got) ∧
      second.Whole (s.options.respond s.sim.served s.sim.got)
  | _ => True

instance (s : PollingLoop) : (event : PollingEvent) → Decidable (s.Clean event)
  | .poll _ _ | .respond _ _ => inferInstanceAs (Decidable (_ ∧ _))
  | .stop | .accept | .receive _ | .hangUp => isTrue trivial

/-- The thread's link is the last one, and open while the thread is connected. -/
structure Linked (thread : DeviceThread) (links : List PollLink) : Prop where
  split : ∃ (older : List PollLink) (last : Option PollLink), links = older ++ last.toList ∧
    (∀ link ∈ older, link.number < thread.conns) ∧
    ∀ link ∈ last, link.number = thread.conns ∧ (thread.connected = true → link.closed = false)

/-- The loop between two steps of the device, or inside one. -/
structure Core (options : SimOptions) (spec : FrameSpec) (s : PollingLoop) : Prop where
  options_eq : s.options = options
  counted : s.thread.Counted spec
  linked : Linked s.thread s.links
  carries : ∃ waiting, Carries s.sim.got s.links waiting ∧
    (s.answered ++ waiting).Sublist s.thread.requests
  served : s.sim.served = s.answered.length
  count : s.sim.served ≤ options.count
  push : s.sim.pushOpen = true → s.sim.pushLinks ≠ []
  pushed : s.sim.pushLinks.flatten =
    s.answered.zipIdx.flatMap fun item => options.respond item.2 item.1

/-- **The loop in order.** -/
structure Inv (options : SimOptions) (spec : FrameSpec) (s : PollingLoop) : Prop
    extends Core options spec s where
  fresh : s.sim.pc ≠ .receiving → s.sim.got = []
  busy : s.sim.pc ≠ .done → s.sim.served < options.count

variable {options : SimOptions} {spec : FrameSpec} {s : PollingLoop}

theorem inv_start (session : Session) (fresh : session.tid = 1) :
    (start options session).Inv options session.dev.desc.spec where
  options_eq := rfl
  counted := .start fresh
  linked := ⟨[], none, rfl, nofun, nofun⟩
  carries := ⟨[], .nil, List.nil_sublist _⟩
  fresh := fun _ => rfl
  served := rfl
  busy := by
    show (if 0 < options.count then SimPc.accepting else .done) ≠ .done → 0 < options.count
    split
    · rename_i some
      exact fun _ => some
    · exact fun open_ => absurd rfl open_
  count := Nat.zero_le _
  push := nofun
  pushed := rfl

/-- The last link before the thread writes to it: its own one, or a new one. -/
theorem opened {links : List PollLink} {thread after : DeviceThread} {went : ℕ}
    {new completed : List Bytes} (linked : Linked thread links)
    (step : ThreadStep thread after went new completed) {got : Bytes} {waiting : List Bytes}
    (carries : Carries got links waiting) :
    ∃ (older : List PollLink) (last : Option PollLink),
      (if thread.conns < after.conns then links ++ [{ number := after.conns }] else links) =
        older ++ last.toList ∧
      Carries got (older ++ last.toList) waiting ∧
      (∀ link ∈ older, link.number < after.conns) ∧
      ∀ link ∈ last, link.number = after.conns ∧ (link.closed = false ∨ new = []) ∧
        (after.connected = true → link.closed = false) := by
  obtain ⟨older, last, rfl, before, current⟩ := linked.split
  rcases step.links with ⟨same, up⟩ | ⟨down, more⟩
  · rw [if_neg (by omega)]
    refine ⟨older, last, rfl, carries, fun link member => ?_, fun link member => ?_⟩
    · rw [same]
      exact before link member
    · obtain ⟨number, opens⟩ := current link member
      refine ⟨number.trans same.symm, ?_⟩
      rcases up with up | ⟨none, down⟩
      · exact ⟨Or.inl (opens up), fun _ => opens up⟩
      · exact ⟨Or.inr none, fun up => absurd (down.symm.trans up) Bool.false_ne_true⟩
  · rw [if_pos (by omega)]
    refine ⟨older ++ last.toList, some { number := after.conns }, rfl, carries.concat _,
      fun link member => ?_, ?_⟩
    · rcases List.mem_append.mp member with old | now
      · have := before link old
        omega
      · have := (current link (Option.mem_toList.mp now)).1
        omega
    · rintro link ⟨⟩
      exact ⟨rfl, Or.inl rfl, fun _ => rfl⟩

/-- **A step of the thread keeps the loop in order.** -/
theorem Inv.afterThread (inv : s.Inv options spec) {after : DeviceThread} {went : ℕ}
    {new completed : List Bytes} (step : ThreadStep s.thread after went new completed)
    (counted : after.Counted spec) : (s.afterThread after went).Inv options spec := by
  obtain ⟨waiting, carries, sublist⟩ := inv.carries
  obtain ⟨older, last, split, carries, before, current⟩ := opened inv.linked step carries
  have request : after.requests.drop s.thread.requests.length = new := by
    rw [step.requests, List.drop_left]
  have apart : older.map (PollLink.written after.conns (new.flatten.take went) (!after.connected)) =
      older := by
    refine (List.map_congr_left fun link member => ?_).trans (List.map_id _)
    rw [PollLink.written, if_neg (Nat.ne_of_lt (before link member))]
    rfl
  have links : (s.afterThread after went).links = older ++ (last.map (PollLink.written after.conns
      (new.flatten.take went) (!after.connected))).toList := by
    show List.map _ (if s.thread.conns < after.conns then _ else _) = _
    rw [split, request, List.map_append, apart]
    cases last with
    | none => rfl
    | some link => rfl
  have more : (s.answered ++ (waiting ++ completed)).Sublist after.requests := by
    rw [step.requests, ← List.append_assoc]
    exact sublist.append step.writes.sublist
  have fewer : (s.answered ++ waiting).Sublist after.requests := by
    rw [step.requests]
    exact sublist.trans (List.sublist_append_left _ _)
  refine ⟨⟨inv.options_eq, counted, ⟨older, _, links, before, ?_⟩, ?_, inv.served, inv.count,
    inv.push, inv.pushed⟩, inv.fresh, inv.busy⟩
  · intro link member
    obtain ⟨link, here, rfl⟩ := Option.mem_map.mp member
    obtain ⟨number, _, opens⟩ := current link here
    rw [PollLink.written, if_pos number]
    refine ⟨number, fun up => ?_⟩
    show (link.closed || !after.connected) = false
    have connected : after.connected = true := up
    rw [opens connected, connected]
    rfl
  · rw [links]
    cases last with
    | none => exact ⟨waiting, carries, fewer⟩
    | some link =>
      obtain ⟨number, opens, _⟩ := current link rfl
      refine ⟨waiting ++ completed, ?_, more⟩
      rw [Option.map_some, PollLink.written, if_pos number]
      exact carries.write step.writes opens

theorem Linked.tail {thread : DeviceThread} {links : List PollLink} (linked : Linked thread links) :
    Linked thread links.tail := by
  obtain ⟨older, last, rfl, before, current⟩ := linked.split
  cases older with
  | nil =>
    refine ⟨[], none, ?_, nofun, nofun⟩
    cases last with
    | none => rfl
    | some link => rfl
  | cons first older =>
    exact ⟨older, last, rfl, fun link member => before link (List.mem_cons_of_mem _ member), current⟩

/-- **The device leaves a link.** -/
theorem Core.leave (core : s.Core options spec) : s.leave.Inv options spec := by
  obtain ⟨waiting, carries, sublist⟩ := core.carries
  obtain ⟨later, carries, fewer⟩ := carries.tail
  have kept : (s.answered ++ later).Sublist s.thread.requests :=
    ((List.Sublist.refl _).append fewer).trans sublist
  refine ⟨⟨core.options_eq, core.counted, core.linked.tail, ⟨later, carries, kept⟩, core.served,
    core.count, core.push, core.pushed⟩, fun _ => rfl, ?_⟩
  show (if s.sim.served < s.options.count then SimPc.accepting else .done) ≠ .done → _
  rw [core.options_eq]
  split
  · rename_i some
    exact fun _ => some
  · exact fun working => absurd rfl working

/-- **The device answers a request**, or gives up on the link. -/
theorem Inv.respond (inv : s.Inv options spec) (full : s.sim.got.length = 12)
    (here : s.sim.pc = .receiving) {first second : PushAttempt}
    (clean : s.Clean (.respond first second)) : (s.respond first second).Inv options spec := by
  have pushes := ModbusSim.pushTwice_spec inv.push clean.1 clean.2
  obtain ⟨waiting, carries, sublist⟩ := inv.carries
  have more : s.sim.served < options.count := inv.busy (by rw [here]; nofun)
  rw [PollingLoop.respond]
  split
  · rename_i sim failed
    rw [failed] at pushes
    refine Core.leave ⟨inv.options_eq, inv.counted, inv.linked, ⟨waiting, ?_, sublist⟩,
      pushes.served.trans inv.served, ?_, pushes.links, ?_⟩
    · show Carries sim.got _ _
      rw [show sim.got = s.sim.got from pushes.got]
      exact carries
    · show sim.served ≤ options.count
      rw [show sim.served = s.sim.served from pushes.served]
      exact inv.count
    · refine pushes.bytes.trans ?_
      rw [if_neg Bool.false_ne_true, List.append_nil]
      exact inv.pushed
  · rename_i sim done
    rw [done] at pushes
    have served : sim.served = s.answered.length := pushes.served.trans inv.served
    have pushed : sim.pushLinks.flatten = (s.answered ++ [s.sim.got]).zipIdx.flatMap fun item =>
        options.respond item.2 item.1 := by
      refine pushes.bytes.trans ?_
      rw [if_pos rfl, inv.pushed, List.zipIdx_append, List.flatMap_append, inv.options_eq, inv.served,
        Nat.zero_add]
      exact congrArg _ (List.append_nil _).symm
    obtain ⟨later, rest, left⟩ : ∃ later, waiting = s.sim.got :: later ∧ Carries [] s.links later := by
      cases links : s.links with
      | nil =>
        rw [links] at carries
        generalize s.sim.got = got at carries full
        cases carries
        cases full
      | cons link others =>
        rw [links] at carries
        exact carries.taken full
    rw [rest] at sublist
    have core : Core options spec { s with
        sim := { sim with served := sim.served + 1, got := [] }
        answered := s.answered ++ [s.sim.got] } := by
      refine ⟨inv.options_eq, inv.counted, inv.linked, ⟨later, left, ?_⟩, ?_, ?_, pushes.links, pushed⟩
      · rw [List.append_assoc]
        exact sublist
      · show sim.served + 1 = (s.answered ++ [s.sim.got]).length
        rw [served, List.length_append, List.length_singleton]
      · show sim.served + 1 ≤ options.count
        rw [show sim.served = s.sim.served from pushes.served]
        exact more
    simp only
    split
    · rename_i again
      exact ⟨core, fun _ => rfl, fun _ => by rw [← inv.options_eq]; exact again⟩
    · exact core.leave

/-- **Every step keeps the loop in order.** -/
theorem Inv.next (inv : s.Inv options spec) {event : PollingEvent} (clean : s.Clean event)
    {after : PollingLoop} (moved : s.next event = some after) : after.Inv options spec := by
  cases event with
  | poll outcome went =>
    obtain ⟨thread, passed, rfl⟩ := Option.map_eq_some_iff.mp moved
    have counted := inv.counted.next passed
    obtain ⟨_, ⟨⟩⟩ := Option.ite_none_right_eq_some.mp passed
    obtain ⟨new, completed, step⟩ := s.thread.threadStep_pass clean.1 clean.2
    exact inv.afterThread step counted
  | stop =>
    have stopped : s.thread.next .stop = some { s.thread with running := false, connected := false } :=
      rfl
    have counted := inv.counted.next stopped
    cases moved
    exact inv.afterThread s.thread.threadStep_stop counted
  | accept =>
    obtain ⟨here, ⟨⟩⟩ := Option.ite_none_right_eq_some.mp moved
    have busy := inv.busy (by rw [here.1]; nofun)
    exact ⟨⟨inv.options_eq, inv.counted, inv.linked, inv.carries, inv.served, inv.count, inv.push,
      inv.pushed⟩, fun elsewhere => absurd rfl elsewhere, fun _ => busy⟩
  | receive n =>
    rw [PollingLoop.next] at moved
    split at moved
    · cases moved
    rename_i link others links
    obtain ⟨here, ⟨⟩⟩ := Option.ite_none_right_eq_some.mp moved
    obtain ⟨waiting, carries, sublist⟩ := inv.carries
    obtain ⟨older, last, split, before, current⟩ := inv.linked.split
    rw [links] at carries split
    refine ⟨⟨inv.options_eq, inv.counted, ?_, ⟨waiting, carries.receive n, sublist⟩, inv.served,
      inv.count, inv.push, inv.pushed⟩, fun elsewhere => absurd here.1 elsewhere, inv.busy⟩
    cases older with
    | nil =>
      cases last with
      | none => cases split
      | some last =>
        cases split
        refine ⟨[], some _, rfl, nofun, ?_⟩
        rintro _ ⟨⟩
        exact current link rfl
    | cons first older =>
      cases split
      refine ⟨{ link with unread := link.unread.drop n } :: older, last, rfl, ?_, current⟩
      rintro other member
      rcases List.mem_cons.mp member with rfl | member
      · exact before link (List.mem_cons_self ..)
      · exact before other (List.mem_cons_of_mem _ member)
  | hangUp =>
    obtain ⟨_, ⟨⟩⟩ := Option.ite_none_right_eq_some.mp moved
    exact inv.toCore.leave
  | respond first second =>
    obtain ⟨here, ⟨⟩⟩ := Option.ite_none_right_eq_some.mp moved
    exact inv.respond here.2 here.1 clean

end PollingLoop

/-! ### Responses, read back -/

theorem toNat_get16 (high low : UInt8) : (get16 high low).toNat = high.toNat * 256 + low.toNat := by
  have bound := high.toNat_lt
  have small := low.toNat_lt
  have shifted : (high.toUInt16 <<< 8).toNat = high.toNat <<< 8 := by
    rw [UInt16.toNat_shiftLeft, UInt8.toNat_toUInt16]
    show high.toNat <<< 8 % 65536 = _
    rw [Nat.shiftLeft_eq]
    omega
  rw [get16, UInt16.toNat_or, shifted, UInt8.toNat_toUInt16,
    ← Nat.shiftLeft_add_eq_or_of_lt (by omega), Nat.shiftLeft_eq]

theorem put16_ofNat {n : ℕ} (small : n < 65536) :
    put16 (UInt16.ofNat n) = [UInt8.ofNat (n / 256), UInt8.ofNat (n % 256)] := by
  have value : (UInt16.ofNat n).toNat = n := UInt16.toNat_ofNat_of_lt' small
  have high : (UInt16.ofNat n >>> 8).toUInt8.toNat = n / 256 := by
    rw [UInt16.toNat_toUInt8, UInt16.toNat_shiftRight, value, Nat.shiftRight_eq_div_pow]
    show n / 256 % 256 = _
    omega
  have low : (UInt16.ofNat n &&& 0xFF).toUInt8.toNat = n % 256 := by
    rw [UInt16.toNat_toUInt8, UInt16.toNat_and, value]
    exact (congrArg (· % 2 ^ 8) (Nat.and_two_pow_sub_one_eq_mod n 8)).trans (Nat.mod_mod _ _)
  rw [put16, ← high, ← low, UInt8.ofNat_toNat, UInt8.ofNat_toNat]

theorem SimOptions.length_registers (options : SimOptions) (k count : ℕ) :
    (options.registers k count).length = 2 * count := by
  rw [registers, List.length_flatMap]
  show (List.map (fun _ => 2) (List.range count)).sum = _
  rw [List.map_const', List.length_range, List.sum_replicate_nat, Nat.mul_comm]

/-- The registers that the device answers with, for the configured read. -/
def FrameSpec.simRegisters (spec : FrameSpec) : ℕ := SimOptions.registerCount spec.addrNum.toNat

/-- The device is configured as the simulator runs: its header, and registers enough for the field
table; without a length in the header, exactly enough. -/
structure SimFits (options : SimOptions) (spec : FrameSpec) : Prop where
  mode : options.mode = spec.frameType
  request : spec.RequestFits
  exact : spec.Exact
  enough : spec.payloadMin.toNat ≤ 2 * spec.simRegisters
  filled : spec.frameType = 0 ∨ spec.frameType = 2 →
    spec.payloadMin.toNat = 2 * spec.simRegisters

theorem simRegisters_le (spec : FrameSpec) : spec.simRegisters ≤ 64 := by
  rw [FrameSpec.simRegisters, SimOptions.registerCount]
  split
  · rename_i few
    exact few.2
  · decide

section

variable {options : SimOptions} {dev : DevicePtr}

/-- **The response to a request of the device**: its header, and the registers. -/
theorem respond_buildRequest (fits : SimFits options dev.desc.spec)
    (asked : 0 < dev.desc.spec.addrNum) (k : ℕ) (tid : UInt16) :
    ∃ (id : UInt16) (unit code : UInt8), options.respond k (buildRequest tid dev.desc.spec).1 =
      options.header id unit code (dev.desc.spec.simRegisters * 2) ++
        options.registers k dev.desc.spec.simRegisters := by
  have count := requestedRegisters_buildRequest tid (Int.le_of_lt asked) fits.request.registerCount
  have read : (get16 (byteAt (buildRequest tid dev.desc.spec).1 10)
      (byteAt (buildRequest tid dev.desc.spec).1 11)).toNat = dev.desc.spec.addrNum.toNat := by
    rw [toNat_get16, ← count]
    rfl
  rw [SimOptions.respond, read]
  exact ⟨_, _, _, rfl⟩

/-- A response with an MBAP prefix is one on the wire. -/
theorem header_mbap (mode : options.mode = dev.desc.spec.frameType)
    (header : dev.desc.spec.frameType = 7 ∨ dev.desc.spec.frameType = 9) (id : UInt16)
    (unit code : UInt8) {count : ℕ} (small : count ≤ 64) {registers : Bytes}
    (length : registers.length = 2 * count) :
    options.header id unit code (count * 2) ++ registers =
      ({ tid := ((id >>> 8).toUInt8, (id &&& 0xFF).toUInt8), unit, funCode := code,
         byteCount := UInt8.ofNat (count * 2), registers } : MbapResponse).bytes dev.desc.spec := by
  rw [SimOptions.header, mode, MbapResponse.bytes, MbapResponse.body, mbapBytes]
  rcases header with seven | nine
  · have size : (([unit] : Bytes) ++ registers).length = 1 + count * 2 := by
      rw [List.length_append, length, List.length_singleton]
      omega
    simp only [seven, if_neg (show ¬ (7 : Int) = 9 by decide), if_true]
    rw [put16_ofNat (by omega), size]
    rfl
  · have size : ([unit, code, UInt8.ofNat (count * 2)] ++ registers).length = 3 + count * 2 := by
      rw [List.length_append, length]
      show 3 + 2 * count = _
      omega
    simp only [nine, if_true]
    rw [put16_ofNat (by omega), size]
    rfl

/-- **The slicer takes the response to a request as one frame**, with the row of its registers. -/
theorem modbusStep_respond (fits : SimFits options dev.desc.spec)
    (accepted : dev.desc.pollable = true) (k : ℕ) (tid : UInt16) :
    modbusStep dev (options.respond k (buildRequest tid dev.desc.spec).1) =
      some (response dev (options.respond k (buildRequest tid dev.desc.spec).1).length
        (dev.desc.spec.fields.map (fieldCell dev.desc.modbusBigEndian
          (options.registers k dev.desc.spec.simRegisters)))) := by
  obtain ⟨id, unit, code, same⟩ :=
    respond_buildRequest fits (DeviceDesc.addrNum_pos accepted) k tid
  have few := simRegisters_le dev.desc.spec
  have length := options.length_registers k dev.desc.spec.simRegisters
  have enough := fits.enough
  have lengths : dev.desc.spec.isModbusHeaderLen = true := (of_decide_eq_true accepted).2.2.2
  rw [same]
  by_cases mbap : dev.desc.spec.frameType = 7 ∨ dev.desc.spec.frameType = 9
  · have hdr := FrameSpec.hdr_of mbap
    rw [header_mbap fits.mode mbap id unit code few length]
    refine MbapResponse.modbusStep_bytes fits.exact mbap ?_ ?_
    · rw [length]
      exact enough
    · rw [MbapResponse.bytes_length mbap, length]
      unfold kMaxFrame
      omega
  · have plain : dev.desc.spec.frameType = 0 ∨ dev.desc.spec.frameType = 2 := by
      have four := of_decide_eq_true lengths
      omega
    have hdr : (options.header id unit code (dev.desc.spec.simRegisters * 2)).length =
        dev.desc.spec.hdr := by
      rw [SimOptions.header, fits.mode, FrameSpec.hdr]
      rcases plain with zero | two
      · rw [zero]
        rfl
      · rw [two]
        rfl
    have size : (options.header id unit code (dev.desc.spec.simRegisters * 2) ++
        options.registers k dev.desc.spec.simRegisters).length = dev.desc.spec.fixedTotal := by
      rw [List.length_append, hdr, length, ← fits.filled plain]
      rfl
    rw [modbusStep_plain fits.exact plain (Nat.le_of_eq size.symm), List.drop_left' hdr, size]

end

/-- **The polls and their answers**, in every run of the poller and the device, whatever becomes of
the links. The requests that were answered are requests of the poller in their order, none of them
twice. What was pushed, however it is cut, is decoded into one row for each answer, that of the
registers served. -/
theorem polls_answered {devices : List DevicePtr} {session : Session}
    (opened : session ∈ startPoller devices) {options : SimOptions}
    (fits : SimFits options session.dev.desc.spec) {s : PollingLoop}
    (run : Reach PollingLoop.next PollingLoop.Clean (.start options session) s)
    {chunks : List (Bytes × Int)} (cut : chunkBytes chunks = s.sim.pushLinks.flatten) :
    s.answered.Sublist s.thread.requests ∧ s.sim.served = s.answered.length ∧
      s.sim.served ≤ options.count ∧
      ((feedModbusAll session.dev {} chunks).2.map fun row => (row.dev, some row.cells)) =
        ((List.range s.sim.served).map fun k => (session.dev,
          decodePayload session.dev.desc.spec session.dev.desc.modbusBigEndian
            (options.registers k session.dev.desc.spec.simRegisters)
            (2 * session.dev.desc.spec.simRegisters))) ∧
      (feedModbusAll session.dev {} chunks).1.buf = [] ∧
      (feedModbusAll session.dev {} chunks).1.resyncs = 0 ∧
      (feedModbusAll session.dev {} chunks).1.badFrames = 0 := by
  obtain ⟨dev, kept, rfl⟩ := List.mem_map.mp opened
  have accepted : dev.desc.pollable = true := (List.mem_filter.mp kept).2
  change SimFits options dev.desc.spec at fits
  have inv : s.Inv options dev.desc.spec := run.invariant (PollingLoop.inv_start { dev } rfl)
    fun _ _ _ before clean moved => before.next clean moved
  obtain ⟨waiting, _, sublist⟩ := inv.carries
  have answered : s.answered.Sublist s.thread.requests :=
    (List.sublist_append_left _ _).trans sublist
  have steps : ∀ item ∈ s.answered.zipIdx, modbusStep dev (options.respond item.2 item.1) =
      some (response dev (options.respond item.2 item.1).length
        (dev.desc.spec.fields.map (fieldCell dev.desc.modbusBigEndian
          (options.registers item.2 dev.desc.spec.simRegisters)))) := by
    rintro ⟨request, k⟩ member
    have built : request ∈ s.thread.requests :=
      answered.subset (List.mem_of_getElem? (List.mem_zipIdx_iff_getElem?.mp member))
    obtain ⟨i, found⟩ := List.mem_iff_getElem?.mp built
    obtain ⟨tid, rfl, _⟩ := inv.counted.requests i request found
    exact modbusStep_respond fits accepted k tid
  have sliceable : dev.desc.Sliceable := by
    by_cases mbap : dev.desc.spec.frameType = 7 ∨ dev.desc.spec.frameType = 9
    · exact sliceable_of_mbap fits.exact mbap
    · have four := of_decide_eq_true (of_decide_eq_true accepted).2.2.2
      have plain : dev.desc.spec.frameType = 0 ∨ dev.desc.spec.frameType = 2 := by omega
      refine sliceable_of_plain fits.exact plain ?_
      have few := simRegisters_le dev.desc.spec
      rw [FrameSpec.fixedTotal, fits.filled plain]
      unfold FrameSpec.hdr kMaxFrame
      omega
  obtain ⟨rows, buf, _, resyncs, bad⟩ := feedModbus_responses fits.exact.payloadMin_pos sliceable
    s.answered.zipIdx _ _ steps (cut.trans inv.pushed)
  refine ⟨answered, inv.served, inv.count, rows.trans ?_, buf, resyncs, bad⟩
  rw [inv.served, List.range_eq_range', ← List.zipIdx_map_snd 0 s.answered, List.map_map]
  refine List.map_congr_left fun item _ => ?_
  rw [Function.comp, fits.exact.decodePayload fits.enough]

/-- A request that breaks off, one on a new link that comes in two pieces, and one more behind it.
The second answer goes over a new push link. -/
def pollingEvents : List PollingEvent :=
  [.poll { sentLen := 3 } 3, .poll {} 12, .accept, .receive 3, .hangUp, .accept, .receive 5,
    .poll {} 12, .receive 7, .respond ⟨true, 2⟩ ⟨true, 0⟩, .receive 12,
    .respond ⟨true, 0⟩ ⟨true, 2⟩]

theorem simFits_polled : SimFits { mode := 0 } (polledDevice 7).desc.spec where
  mode := rfl
  request := ⟨by decide, by decide, by decide, by decide⟩
  exact := ⟨List.cons_ne_nil _ _, rfl⟩
  enough := by decide
  filled := fun _ => rfl

theorem polls_answered_sample :
    ∃ s, play PollingLoop.next PollingLoop.Clean
        (.start { mode := 0 } { dev := polledDevice 7 }) pollingEvents = some s ∧
      s.thread.requests.length = 3 ∧ s.answered.length = 2 ∧
      s.answered.Sublist s.thread.requests ∧
      ((feedModbusAll (polledDevice 7) {} [([3], 1), ([232, 3], 2), ([233], 3)]).2.map fun row =>
        (row.dev, some row.cells)) =
        [(polledDevice 7, some [{ v := 1000 }]), (polledDevice 7, some [{ v := 1001 }])] := by
  have shape : (play PollingLoop.next PollingLoop.Clean
      (.start { mode := 0 } { dev := polledDevice 7 }) pollingEvents).map (fun s =>
        (s.thread.requests.length, s.answered.length, s.sim.pushLinks)) =
      some (3, 2, [[3, 232], [3, 233]]) := by decide +kernel
  obtain ⟨s, done, shape⟩ := Option.map_eq_some_iff.mp shape
  rw [Prod.mk.injEq, Prod.mk.injEq] at shape
  have opened : { dev := polledDevice 7 } ∈ startPoller [polledDevice 7] := by decide +kernel
  obtain ⟨sublist, served, _, rows, _⟩ := polls_answered opened simFits_polled
    (Reach.of_play .start done)
    (show chunkBytes [([3], 1), ([232, 3], 2), ([233], 3)] = s.sim.pushLinks.flatten by
      rw [shape.2.2]; rfl)
  refine ⟨s, done, shape.1, shape.2.1, sublist, rows.trans ?_⟩
  rw [served, shape.2.1]
  decide +kernel

end EtherAdapter
