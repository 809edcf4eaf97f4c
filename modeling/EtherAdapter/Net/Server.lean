/-
**The connections of a server.**

* `Booked` — a connection's own books: the server lists it until `removeConnectionInLoop` has run.
  Every step keeps them in order (`moved_next`), permitted or not.
* `TcpServer.Registered` — `_connections` holds the listed connections under their names.
* **`server_registry`** — in every run, with any number of connections and any interleaving: names
  are unique, `_connections` is exactly the connections that have not been removed, each of them is
  erased once (`assert(n == 1)` holds), the loops get connections in turn, and every connection
  follows the order of callbacks.
-/

import Mathlib.Logic.Function.Iterate
import EtherAdapter.Model.Server
import EtherAdapter.Net.Callbacks
import EtherAdapter.Writer.Literals

namespace EtherAdapter

open Runs

namespace TcpConnection

/-! ### A connection's books -/

/-- The server's books about a connection. -/
structure Booked (conn : TcpConnection) : Prop where
  under : conn.removing ≤ conn.removals
  direct : conn.sameLoop = true → conn.removing = 0
  listed : conn.listed = true ↔ conn.removals = conn.removing

/-- What steps do to the books. -/
structure Moved (conn after : TcpConnection) : Prop where
  booked : conn.Booked → after.Booked
  more : conn.Booked → conn.erasures ≤ after.erasures

/-- The entries of the books. -/
def books (conn : TcpConnection) : ℕ × ℕ × Bool × Bool :=
  (conn.removals, conn.removing, conn.listed, conn.sameLoop)

variable {conn after : TcpConnection} {app : App}

theorem Moved.refl (conn : TcpConnection) : Moved conn conn := ⟨id, fun _ => Nat.le_refl _⟩

theorem Moved.trans {last : TcpConnection} (first : Moved conn after) (second : Moved after last) :
    Moved conn last :=
  ⟨fun booked => second.booked (first.booked booked),
    fun booked => (first.more booked).trans (second.more (first.booked booked))⟩

theorem Moved.of_books (same : after.books = conn.books) : Moved conn after := by
  obtain ⟨removals, removing, listed, sameLoop⟩ :
      after.removals = conn.removals ∧ after.removing = conn.removing ∧
        after.listed = conn.listed ∧ after.sameLoop = conn.sameLoop := by
    simpa only [books, Prod.mk.injEq] using same
  refine ⟨fun booked => ⟨?_, ?_, ?_⟩, fun _ => ?_⟩
  · rw [removals, removing]
    exact booked.under
  · rw [sameLoop, removing]
    exact booked.direct
  · rw [listed, removals, removing]
    exact booked.listed
  · rw [erasures, erasures, removals, removing]

theorem Moved.ite {condition : Prop} [Decidable condition] (moved : Moved conn after) :
    Moved conn (if condition then after else conn) := by
  split
  · exact moved
  · exact Moved.refl conn

theorem books_sendInLoop (conn : TcpConnection) (message : Bytes) (len : Int)
    (result : WriteResult) : (conn.sendInLoop message len result).books = conn.books := by
  rw [sendInLoop]
  simp only
  generalize (if conn.channel.writing = false ∧ conn.outputBuffer = [] then
    result.taken len else 0) = nwrote
  split
  · rfl
  split
  · rfl
  split
  · rfl
  split
  · rfl
  · rfl

theorem books_shutdownInLoop (conn : TcpConnection) : conn.shutdownInLoop.books = conn.books := by
  rw [shutdownInLoop]
  split
  · rfl
  · rfl

theorem books_act (conn : TcpConnection) (action : Action) :
    (conn.act action).books = conn.books := by
  cases action with
  | send message result =>
    rw [act, send]
    split
    · exact books_sendInLoop conn message _ result
    · rfl
  | shutdown =>
    rw [act, shutdown]
    split
    · exact books_shutdownInLoop _
    · rfl
  | forceClose =>
    rw [act, forceClose]
    split
    · rfl
    · rfl
  | retrieve len => rfl

theorem books_foldl (actions : List Action) (conn : TcpConnection) :
    (actions.foldl act conn).books = conn.books := by
  induction actions generalizing conn with
  | nil => rfl
  | cons action actions ih => exact (ih _).trans (books_act conn action)

theorem books_deliver (app : App) (conn : TcpConnection) (callback : Callback) :
    (conn.deliver app callback).books = conn.books :=
  books_foldl _ _

theorem moved_removeConnection (conn : TcpConnection) : Moved conn conn.removeConnection := by
  rw [removeConnection]
  split
  · rename_i same
    refine ⟨fun booked => ⟨?_, fun _ => booked.direct same, ?_⟩, fun booked => ?_⟩
    · have under := booked.under
      show conn.removing ≤ conn.removals + 1
      omega
    · have none := booked.direct same
      show false = true ↔ conn.removals + 1 = conn.removing
      rw [none]
      exact ⟨nofun, nofun⟩
    · show conn.removals - conn.removing ≤ conn.removals + 1 - conn.removing
      omega
  · rename_i apart
    refine ⟨fun booked => ⟨?_, fun same => absurd same apart, ?_⟩, fun booked => ?_⟩
    · have under := booked.under
      show conn.removing + 1 ≤ conn.removals + 1
      omega
    · show conn.listed = true ↔ conn.removals + 1 = conn.removing + 1
      rw [booked.listed]
      omega
    · show conn.removals - conn.removing ≤ conn.removals + 1 - (conn.removing + 1)
      omega

theorem moved_handleClose (app : App) (conn : TcpConnection) : Moved conn (conn.handleClose app) := by
  have down : (conn.takeDown.connectionCallback app).books = conn.books :=
    books_deliver app conn.takeDown _
  exact (Moved.of_books down).trans (moved_removeConnection _)

theorem moved_handleError (app : App) (conn : TcpConnection) : Moved conn (conn.handleError app) := by
  rw [handleError]
  split
  · exact moved_handleClose app conn
  · exact Moved.refl conn

theorem moved_handleRead (app : App) (conn : TcpConnection) (recv : Option Bytes) :
    Moved conn (conn.handleRead app recv) := by
  unfold handleRead
  split
  · exact moved_handleClose app conn
  · exact Moved.of_books (books_deliver app _ _)
  · exact moved_handleError app conn

theorem books_drained (conn : TcpConnection) : conn.drained.books = conn.books := by
  unfold drained
  simp only
  split
  · exact books_shutdownInLoop _
  · rfl

theorem moved_handleWrite (conn : TcpConnection) (result : WriteResult) :
    Moved conn (conn.handleWrite result) := by
  unfold handleWrite
  split
  · simp only
    split
    · split
      · exact Moved.of_books (books_drained _)
      · exact Moved.of_books rfl
    · exact Moved.refl conn
  · exact Moved.refl conn

theorem moved_handleEventWithGuard (app : App) (conn : TcpConnection) (revents : Revents)
    (recv : Option Bytes) (result : WriteResult) :
    Moved conn (conn.handleEventWithGuard app revents recv result) := by
  refine Moved.trans ?_ (Moved.ite (moved_handleWrite _ result))
  refine Moved.trans ?_ (Moved.ite (moved_handleRead app _ recv))
  refine Moved.trans ?_ (Moved.ite (moved_handleError app _))
  exact Moved.ite (moved_handleClose app conn)

theorem moved_runFunctor (app : App) (conn : TcpConnection) (functor : Functor) :
    Moved conn (runFunctor app conn functor) := by
  cases functor with
  | connectEstablished => exact Moved.of_books (books_deliver app conn.bringUp _)
  | forceCloseInLoop =>
    show Moved conn (conn.forceCloseInLoop app)
    rw [forceCloseInLoop]
    split
    · exact moved_handleClose app conn
    · exact Moved.refl conn
  | connectDestroyed =>
    show Moved conn (conn.connectDestroyed app)
    rw [connectDestroyed]
    split
    · exact Moved.of_books (books_deliver app conn.takeDown _)
    · exact Moved.of_books rfl

/-- **Every step keeps the books**, while the server is there. -/
theorem moved_next {event : Event} (serving : event ≠ .destroyServer)
    (moved : conn.next app event = some after) : Moved conn after := by
  have handled := handle_of_next moved
  cases event with
  | dispatch revents recv result =>
    obtain ⟨_, ⟨⟩⟩ := Option.ite_none_right_eq_some.mp handled
    exact moved_handleEventWithGuard app conn revents recv result
  | runPending =>
    rw [handle] at handled
    split at handled
    · cases handled
    · rename_i functor rest _
      cases handled
      have popped : Moved conn { conn with pending := rest } := .of_books rfl
      exact popped.trans (moved_runFunctor app _ functor)
  | call action =>
    cases handled
    exact Moved.of_books (books_act conn action)
  | runRemoval =>
    obtain ⟨some, ⟨⟩⟩ := Option.ite_none_right_eq_some.mp handled
    refine ⟨fun booked => ⟨?_, fun same => ?_, ?_⟩, fun booked => ?_⟩
    · have under := booked.under
      show conn.removing - 1 ≤ conn.removals
      omega
    · have none := booked.direct same
      omega
    · have under := booked.under
      show false = true ↔ conn.removals = conn.removing - 1
      refine ⟨fun wrong => Bool.noConfusion wrong, fun same => ?_⟩
      omega
    · show conn.removals - conn.removing ≤ conn.removals - (conn.removing - 1)
      omega
  | destroyServer => exact absurd rfl serving

theorem booked_newConnection (app : App) (sameLoop : Bool) :
    (newConnection app sameLoop).Booked ∧ (newConnection app sameLoop).removals = 0 := by
  rw [newConnection]
  split
  · have same : (connectEstablished app { sameLoop := sameLoop }).books =
        ({ sameLoop := sameLoop } : TcpConnection).books := books_deliver app _ _
    have fresh : Booked { sameLoop := sameLoop } := ⟨Nat.le_refl _, fun _ => rfl, fun _ => rfl, fun _ => rfl⟩
    exact ⟨(Moved.of_books same).booked fresh, congrArg Prod.fst same⟩
  · exact ⟨⟨Nat.le_refl _, fun _ => rfl, fun _ => rfl, fun _ => rfl⟩, rfl⟩

theorem Booked.listed_iff (booked : conn.Booked) : conn.listed = true ↔ conn.erasures = 0 := by
  have under := booked.under
  rw [booked.listed, erasures]
  omega

end TcpConnection

/-! ### The registry -/

namespace TcpServer

/-- The name of a new connection fits its buffer, and the step of a connection is one that keeps its
callbacks in order. -/
def Permitted (server : TcpServer) : ServerEvent → Prop
  | .accept => server.ipPort.length + (decimal server.nextConnId).length ≤ 61
  | .step i event => ∀ served ∈ server.all[i]?, served.conn.Permitted event

instance (server : TcpServer) : (event : ServerEvent) → Decidable (server.Permitted event)
  | .accept => inferInstanceAs (Decidable (_ ≤ _))
  | .step i event =>
    inferInstanceAs (Decidable (∀ served ∈ server.all[i]?, served.conn.Permitted event))

/-- The name of the `i`-th connection. -/
def nameAt (server : TcpServer) (i : ℕ) : Bytes :=
  server.name ++ (45 :: server.ipPort ++ 35 :: decimal (i + 1))

theorem nameAt_inj (server : TcpServer) {i j : ℕ} (same : server.nameAt i = server.nameAt j) :
    i = j := by
  have digits : decimal (i + 1) = decimal (j + 1) :=
    (List.cons.inj (List.append_cancel_left (List.append_cancel_left same))).2
  have value := congrArg (digitsValue 10) digits
  rw [digitsValue_decimal, digitsValue_decimal] at value
  omega

/-- **The server and its connections agree.** -/
structure Registered (threads : ℕ) (server : TcpServer) : Prop where
  counted : server.nextConnId = server.all.length + 1
  named : ∀ (i : ℕ) served, server.all[i]? = some served → served.name = server.nameAt i
  sound : ∀ (i : ℕ) served, server.all[i]? = some served → served.conn.Sound ∧ served.conn.Booked
  map : ∀ name (i : ℕ), server.connections name = some i ↔ ∃ served, server.all[i]? = some served ∧
    served.name = name ∧ served.conn.listed = true
  erased : ∀ n ∈ server.erased, n = 1
  loops : server.pool.loops = threads
  turn : 0 < threads → server.pool.next = server.all.length % threads
  dealt : ∀ (i : ℕ) served, server.all[i]? = some served →
    served.loop = if threads = 0 then none else some (i % threads)

variable {threads : ℕ} {server : TcpServer} {apps : ℕ → App}

/-- Loops are handed out in turn. -/
theorem getNextLoop_spec {pool : LoopPool} {n : ℕ} (loops : pool.loops = threads)
    (turn : 0 < threads → pool.next = n % threads) :
    pool.getNextLoop.1 = (if threads = 0 then none else some (n % threads)) ∧
      pool.getNextLoop.2.loops = threads ∧
      (0 < threads → pool.getNextLoop.2.next = (n + 1) % threads) := by
  rw [LoopPool.getNextLoop, loops]
  by_cases none : threads = 0
  · rw [if_pos none, if_pos none]
    exact ⟨rfl, loops, fun some => absurd none (Nat.ne_of_gt some)⟩
  · have positive := Nat.pos_of_ne_zero none
    have small := Nat.mod_lt n positive
    rw [if_neg none, if_neg none, turn positive]
    refine ⟨rfl, rfl, fun _ => ?_⟩
    show (if threads ≤ n % threads + 1 then 0 else n % threads + 1) = _
    rw [← Nat.mod_add_mod]
    split
    · rename_i last
      have whole : n % threads + 1 = threads := by omega
      rw [whole, Nat.mod_self]
    · rename_i further
      exact (Nat.mod_eq_of_lt (Nat.lt_of_not_le further)).symm

theorem connName_eq (counted : server.nextConnId = server.all.length + 1)
    (fits : server.Permitted .accept) : server.connName = server.nameAt server.all.length := by
  have length : (45 :: server.ipPort ++ 35 :: decimal server.nextConnId).length ≤ 63 := by
    have short : server.ipPort.length + (decimal server.nextConnId).length ≤ 61 := fits
    rw [List.length_append, List.length_cons, List.length_cons]
    omega
  rw [connName, idText, List.take_of_length_le length, counted]
  rfl

/-- Connections so far, and one more. -/
theorem all_concat {all : List ServedConnection} {last served : ServedConnection} {i : ℕ}
    (found : (all ++ [last])[i]? = some served) :
    all[i]? = some served ∨ (i = all.length ∧ served = last) := by
  rcases Nat.lt_trichotomy i all.length with before | here | after
  · rw [List.getElem?_append_left before] at found
    exact Or.inl found
  · rw [here, List.getElem?_concat_length] at found
    exact Or.inr ⟨here, (Option.some.inj found).symm⟩
  · rw [List.getElem?_eq_none (by rw [List.length_append, List.length_singleton]; omega)] at found
    cases found

/-- **A new connection.** -/
theorem Registered.accept (reg : server.Registered threads) (fits : server.Permitted .accept) :
    (server.newConnection apps).Registered threads := by
  have name := connName_eq reg.counted fits
  obtain ⟨loop, loops, turn⟩ := getNextLoop_spec reg.loops reg.turn
  obtain ⟨booked, none⟩ := TcpConnection.booked_newConnection (apps server.all.length)
    server.pool.getNextLoop.1.isNone
  have listed : (TcpConnection.newConnection (apps server.all.length)
      server.pool.getNextLoop.1.isNone).listed = true := by
    have under := booked.under
    rw [booked.listed_iff, TcpConnection.erasures, none, Nat.zero_sub]
  have short : ∀ {i served}, server.all[i]? = some served → i < server.all.length := fun found =>
    (List.getElem?_eq_some_iff.mp found).1
  refine ⟨?_, ?_, ?_, ?_, reg.erased, loops, ?_, ?_⟩
  · show server.nextConnId + 1 = (server.all ++ [_]).length + 1
    rw [reg.counted, List.length_append, List.length_singleton]
  · intro i served found
    rcases all_concat found with earlier | ⟨rfl, rfl⟩
    · exact reg.named i served earlier
    · exact name
  · intro i served found
    rcases all_concat found with earlier | ⟨rfl, rfl⟩
    · exact reg.sound i served earlier
    · exact ⟨TcpConnection.sound_newConnection _ _, booked⟩
  · intro other i
    show Function.update server.connections server.connName (some server.all.length) other = some i ↔
      ∃ served, (server.all ++ [_])[i]? = some served ∧ _
    rw [Function.update_apply]
    split
    · rename_i here
      constructor
      · rintro ⟨⟩
        exact ⟨_, List.getElem?_concat_length, here.symm, listed⟩
      · rintro ⟨served, found, same, _⟩
        rcases all_concat found with earlier | ⟨rfl, _⟩
        · have number := server.nameAt_inj ((reg.named i served earlier).symm.trans
            (same.trans (here.trans name)))
          have before := short earlier
          omega
        · rfl
    · rename_i elsewhere
      rw [reg.map]
      constructor
      · rintro ⟨served, found, rest⟩
        refine ⟨served, ?_, rest⟩
        rw [List.getElem?_append_left (short found)]
        exact found
      · rintro ⟨served, found, same, rest⟩
        rcases all_concat found with earlier | ⟨_, rfl⟩
        · exact ⟨served, earlier, same, rest⟩
        · exact absurd same.symm elsewhere
  · intro some
    refine (turn some).trans ?_
    show _ = (server.all ++ [_]).length % threads
    rw [List.length_append, List.length_singleton]
  · intro i served found
    rcases all_concat found with earlier | ⟨rfl, rfl⟩
    · exact reg.dealt i served earlier
    · exact loop

/-- Every connection but one is as before. -/
theorem all_set {all : List ServedConnection} {i j : ℕ} {changed served : ServedConnection}
    (found : (all.set i changed)[j]? = some served) :
    (j = i ∧ served = changed ∧ i < all.length) ∨ (j ≠ i ∧ all[j]? = some served) := by
  rw [List.getElem?_set] at found
  split at found
  · rename_i same
    obtain ⟨inside, ⟨⟩⟩ := Option.ite_none_right_eq_some.mp found
    exact Or.inl ⟨same.symm, rfl, inside⟩
  · rename_i apart
    exact Or.inr ⟨Ne.symm apart, found⟩

variable {i : ℕ} {served : ServedConnection} {conn : TcpConnection}

/-- The map after a step of a connection, if it has lost no other entry than that connection's. -/
theorem Registered.map_set (reg : server.Registered threads) (here : server.all[i]? = some served)
    (kept : conn.listed = true → served.conn.listed = true) {connections : Bytes → Option ℕ}
    (lost : ∀ name j, connections name = some j ↔
      server.connections name = some j ∧ (j = i → conn.listed = true)) (name : Bytes) (j : ℕ) :
    connections name = some j ↔
      ∃ other, (server.all.set i { served with conn })[j]? = some other ∧ other.name = name ∧
        other.conn.listed = true := by
  have inside : i < server.all.length := (List.getElem?_eq_some_iff.mp here).1
  rw [lost, reg.map]
  constructor
  · rintro ⟨⟨other, found, same, listed⟩, stays⟩
    by_cases at_ : j = i
    · subst at_
      rw [here] at found
      cases found
      exact ⟨_, List.getElem?_set_self inside, same, stays rfl⟩
    · refine ⟨other, ?_, same, listed⟩
      rw [List.getElem?_set_ne (Ne.symm at_)]
      exact found
  · rintro ⟨other, found, same, listed⟩
    rcases all_set found with ⟨rfl, rfl, _⟩ | ⟨apart, found⟩
    · exact ⟨⟨served, here, same, kept listed⟩, fun _ => listed⟩
    · exact ⟨⟨other, found, same, listed⟩, fun same => absurd same apart⟩

/-- The other books of the server, after a step of a connection. -/
theorem Registered.of_set (reg : server.Registered threads) (here : server.all[i]? = some served)
    (sound : conn.Sound) (booked : conn.Booked) {after : TcpServer}
    (all : after.all = server.all.set i { served with conn })
    (rest : after.name = server.name ∧ after.ipPort = server.ipPort ∧ after.pool = server.pool ∧
      after.nextConnId = server.nextConnId)
    (erased : ∀ n ∈ after.erased, n = 1)
    (map : ∀ name j, after.connections name = some j ↔
      ∃ other, (server.all.set i { served with conn })[j]? = some other ∧ other.name = name ∧
        other.conn.listed = true) : after.Registered threads := by
  obtain ⟨name, ipPort, pool, nextConnId⟩ := rest
  have length : after.all.length = server.all.length := by
    rw [all, List.length_set]
  have nameAt : ∀ j, after.nameAt j = server.nameAt j := by
    intro j
    rw [TcpServer.nameAt, TcpServer.nameAt, name, ipPort]
  have lifted : ∀ {holds : ℕ → ServedConnection → Prop},
      (∀ j other, server.all[j]? = some other → holds j other) →
      (holds i served → holds i { served with conn }) →
      ∀ j other, after.all[j]? = some other → holds j other := by
    intro holds before changed j other found
    rw [all] at found
    rcases all_set found with ⟨rfl, rfl, _⟩ | ⟨_, found⟩
    · exact changed (before j served here)
    · exact before j other found
  refine ⟨?_, lifted (fun j other found => ?_) id, lifted reg.sound fun _ => ⟨sound, booked⟩, ?_, erased,
    ?_, ?_, lifted reg.dealt id⟩
  · rw [nextConnId, length, reg.counted]
  · rw [nameAt]
    exact reg.named j other found
  · rw [all]
    exact map
  · rw [pool]
    exact reg.loops
  · rw [pool, length]
    exact reg.turn

/-- **A step of a connection.** -/
theorem Registered.step (reg : server.Registered threads) {event : TcpConnection.Event}
    (permitted : server.Permitted (.step i event)) {after : TcpServer}
    (moved : server.next apps (.step i event) = some after) : after.Registered threads := by
  rw [next] at moved
  split at moved
  · cases moved
  rename_i served here
  obtain ⟨serving, moved⟩ := Option.ite_none_left_eq_some.mp moved
  obtain ⟨conn, stepped, rfl⟩ := Option.map_eq_some_iff.mp moved
  obtain ⟨before, books⟩ := reg.sound i served here
  have sound : conn.Sound := before.next (permitted served here) stepped
  have steps := TcpConnection.moved_next serving stepped
  have booked := steps.booked books
  have grows := steps.more books
  have once : conn.erasures ≤ 1 := (Nat.sub_le _ _).trans sound.orderly.removals
  have was := books.listed_iff
  have is := booked.listed_iff
  have found : served.conn.listed = true → server.connections served.name = some i := fun listed =>
    (reg.map _ _).mpr ⟨served, here, rfl, listed⟩
  have owner : ∀ name, server.connections name = some i → served.conn.listed = true := by
    intro name mapped
    obtain ⟨other, there, _, listed⟩ := (reg.map name i).mp mapped
    rw [here] at there
    cases there
    exact listed
  by_cases erases : conn.erasures - served.conn.erasures = 0
  · have same : conn.listed = true ↔ served.conn.listed = true := by
      rw [was, is]
      omega
    rw [erases]
    refine reg.of_set here sound booked rfl ⟨rfl, rfl, rfl, rfl⟩ reg.erased
      (reg.map_set here same.mp fun name j => ⟨fun mapped => ⟨mapped, ?_⟩, And.left⟩)
    rintro rfl
    exact same.mpr (owner name mapped)
  · have one : conn.erasures - served.conn.erasures = 1 := by omega
    have listed : served.conn.listed = true := was.mpr (by omega)
    have gone : ¬ conn.listed = true := fun stays => by
      have := is.mp stays
      omega
    rw [one, Function.iterate_one]
    refine reg.of_set here sound booked rfl ⟨rfl, rfl, rfl, rfl⟩ ?_
      (reg.map_set here (fun stays => absurd stays gone) fun name j => ?_)
    · refine List.forall_mem_append.mpr ⟨reg.erased, List.forall_mem_singleton.mpr ?_⟩
      exact if_pos (by rw [found listed]; rfl)
    · show Function.update server.connections served.name none name = some j ↔ _
      rw [Function.update_apply]
      split
      · rename_i same
        refine ⟨nofun, fun both => absurd (both.2 ?_) gone⟩
        have there := both.1
        rw [same, found listed] at there
        exact (Option.some.inj there).symm
      · rename_i apart
        refine ⟨fun mapped => ⟨mapped, ?_⟩, And.left⟩
        rintro rfl
        obtain ⟨other, there, same, _⟩ := (reg.map name j).mp mapped
        rw [here] at there
        cases there
        exact absurd same.symm apart

end TcpServer

/-- A server that has been started, with that many threads. -/
def TcpServer.start (name ipPort : Bytes) (threads : ℕ) : TcpServer where
  name
  ipPort
  pool := { loops := threads }

/-- **The registry of a server**, in every run with any number of connections. Each removal finds
its connection; names are unique; `_connections` holds the connections that were not removed, under
their names; the loops get connections in turn; and each connection's callbacks come in order. -/
theorem server_registry {apps : ℕ → App} {name ipPort : Bytes} {threads : ℕ} {server : TcpServer}
    (run : Reach (TcpServer.next apps) TcpServer.Permitted (.start name ipPort threads) server) :
    (∀ n ∈ server.erased, n = 1) ∧
      (∀ (i j : ℕ) (c d : ServedConnection), server.all[i]? = some c → server.all[j]? = some d →
        c.name = d.name → i = j) ∧
      (∀ (key : Bytes) (i : ℕ), server.connections key = some i ↔
        ∃ c, server.all[i]? = some c ∧ c.name = key ∧ c.conn.listed = true) ∧
      ∀ (i : ℕ) (c : ServedConnection), server.all[i]? = some c →
        c.loop = (if threads = 0 then none else some (i % threads)) ∧ Protocol c.conn.trace := by
  have begun : (TcpServer.start name ipPort threads).Registered threads := by
    have empty : ∀ (i : ℕ) (c : ServedConnection),
        ([] : List ServedConnection)[i]? = some c → False := by
      intro i c found
      rw [List.getElem?_nil] at found
      cases found
    refine ⟨rfl, fun i c found => (empty i c found).elim, fun i c found => (empty i c found).elim,
      fun key i => ⟨fun mapped => absurd mapped.symm (Option.some_ne_none i), ?_⟩,
      fun n member => absurd member List.not_mem_nil, rfl, fun _ => (Nat.zero_mod _).symm,
      fun i c found => (empty i c found).elim⟩
    rintro ⟨c, found, _⟩
    exact (empty i c found).elim
  have reg : server.Registered threads := by
    refine run.invariant begun fun before event after reg permitted moved => ?_
    cases event with
    | accept =>
      cases moved
      exact reg.accept permitted
    | step i event => exact reg.step permitted moved
  refine ⟨reg.erased, fun i j c d first second same => ?_, reg.map, fun i c found => ?_⟩
  · rw [reg.named i c first, reg.named j d second] at same
    exact server.nameAt_inj same
  · exact ⟨reg.dealt i c found, (reg.sound i c found).1.orderly.protocol⟩

/-- Three connections on two loops; the second is closed by its peer and removed. -/
def threeConnections : List ServerEvent :=
  [.accept, .accept, .step 1 .runPending, .step 0 .runPending,
    .step 1 (.dispatch { pollIn := true } (some []) (.wrote 0)), .accept, .step 1 .runRemoval,
    .step 2 .runPending]

theorem server_registry_sample :
    ∃ server, play (TcpServer.next fun _ _ => []) TcpServer.Permitted (.start [115] [58, 53] 2)
        threeConnections = some server ∧
      server.all.map ServedConnection.loop = [some 0, some 1, some 0] ∧
      server.connections [115, 45, 58, 53, 35, 50] = none ∧
      server.connections [115, 45, 58, 53, 35, 51] = some 2 ∧ server.erased = [1] ∧
      ∀ (i : ℕ) (c : ServedConnection), server.all[i]? = some c → Protocol c.conn.trace := by
  have shape : (play (TcpServer.next fun _ _ => []) TcpServer.Permitted (.start [115] [58, 53] 2)
      threeConnections).map (fun server => (server.all.map ServedConnection.loop,
        server.connections [115, 45, 58, 53, 35, 50], server.connections [115, 45, 58, 53, 35, 51],
        server.erased)) = some ([some 0, some 1, some 0], none, some 2, [1]) := by decide +kernel
  obtain ⟨server, done, shape⟩ := Option.map_eq_some_iff.mp shape
  rw [Prod.mk.injEq, Prod.mk.injEq, Prod.mk.injEq] at shape
  obtain ⟨_, _, _, order⟩ := server_registry (Reach.of_play .start done)
  exact ⟨server, done, shape.1, shape.2.1, shape.2.2.1, shape.2.2.2,
    fun i c found => (order i c found).2⟩

end EtherAdapter
