/-
**What an http connection keeps of the bytes it receives.**

The cap is compared behind the append, and a refused request stays where it is: the bytes that follow
a 413 are appended to it, as long as the peer sends any.

* `assemble_of_pastCap` — past the cap, a message only appends.
* **`run_buffers`** — as long as nothing arrives on a connection that is past the cap, its buffer
  holds at most the cap and one message; and a connection that is past it can be sent any amount
  more.
-/

import EtherAdapter.Http.Once

namespace EtherAdapter

/-! ### One message -/

namespace ConnState

variable {st : ConnState}

/-- A message adds its bytes at most. -/
theorem length_assemble_le (st : ConnState) (data : Bytes) :
    (st.assemble data).1.buf.length ≤ st.buf.length + data.length := by
  have appended : (st.buf ++ data).length ≤ st.buf.length + data.length :=
    Nat.le_of_eq List.length_append
  unfold assemble
  simp only
  split
  · exact appended
  split
  · exact appended
  split
  · exact appended
  split
  · exact appended
  split
  · exact appended
  · rw [List.length_drop]
    exact Nat.le_trans (Nat.sub_le _ _) appended

/-- **Past the cap, a message only appends.** -/
theorem assemble_of_pastCap (past : kMaxRequest < st.buf.length) (data : Bytes) :
    (st.assemble data).1 = { st with buf := st.buf ++ data } := by
  have longer : kMaxRequest < (st.buf ++ data).length := by
    rw [List.length_append]
    omega
  unfold assemble
  simp only [if_pos longer]

end ConnState

namespace HttpIngest

/-! ### Whole runs -/

/-- Messages of the connection have at most `c` bytes. -/
def Event.AtMost (conn c : ℕ) (event : Event) : Prop :=
  ∀ data timeUs, event = .message conn data timeUs → data.length ≤ c

section Buffering

variable (db : Config) (httpPort : UInt16) (peers : ℕ → Peer) (server : HttpIngest) (conn : ℕ)

/-- No bytes arrive on the connection while its buffer is past the cap. -/
def NeverPastCap (events : List Event) : Prop :=
  ∀ before data timeUs after, events = before ++ .message conn data timeUs :: after →
    data = [] ∨ (stateAfter db httpPort peers server conn before).buf.length ≤ kMaxRequest

variable {db httpPort peers server conn}

theorem length_stateAfter_le {c : ℕ} {events : List Event}
    (alive : ∀ event ∈ events, event.Keeps conn) (small : ∀ event ∈ events, event.AtMost conn c)
    (never : NeverPastCap db httpPort peers server conn events) :
    (stateAfter db httpPort peers server conn events).buf.length ≤ kMaxRequest + c := by
  induction events using List.reverseRecOn with
  | nil =>
    rw [stateAfter_nil]
    exact Nat.zero_le _
  | append_singleton events event ih =>
    have front : NeverPastCap db httpPort peers server conn events := by
      intro before data timeUs after split
      refine never before data timeUs (after ++ [event]) ?_
      rw [split, List.append_assoc, List.cons_append]
    have earlier := ih (fun event member => alive event (List.mem_append_left _ member))
      (fun event member => small event (List.mem_append_left _ member)) front
    have here : event ∈ events ++ [event] := List.mem_append_right _ List.mem_cons_self
    rcases (alive event here).cases with other | ⟨data, timeUs, rfl⟩
    · rw [stateAfter_concat_other other]
      exact earlier
    · rw [stateAfter_concat_message]
      split
      · exact earlier
      · rename_i bytes
        have cap := (never events data timeUs [] rfl).resolve_left bytes
        have size := small _ here data timeUs rfl
        have added := ConnState.length_assemble_le
          (stateAfter db httpPort peers server conn events) data
        omega

/-- Past the cap, single bytes add up. -/
theorem length_stateAfter_bytes {events : List Event}
    (past : kMaxRequest < (stateAfter db httpPort peers server conn events).buf.length) (n : ℕ) :
    (stateAfter db httpPort peers server conn
        (events ++ List.replicate n (.message conn [0] 0))).buf.length =
      (stateAfter db httpPort peers server conn events).buf.length + n := by
  induction n with
  | zero => rw [List.replicate_zero, List.append_nil, Nat.add_zero]
  | succ n ih =>
    rw [List.replicate_succ', ← List.append_assoc, stateAfter_concat_message,
      if_neg (List.cons_ne_nil _ _), ConnState.assemble_of_pastCap (by omega)]
    simp only [List.length_append, List.length_singleton, ih]
    omega

end Buffering

/-- **The buffer of a connection**, whatever its messages of at most `c` bytes hold and whatever
happens on other connections: within the cap and one message as long as nothing arrives past the
cap; and once past the cap, there are bytes to follow that break this bound. -/
theorem run_buffers (db : Config) (httpPort : UInt16) (peers : ℕ → Peer) (server : HttpIngest)
    (conn c : ℕ) (positive : 0 < c) {events : List Event}
    (alive : ∀ event ∈ events, event.Keeps conn) (small : ∀ event ∈ events, event.AtMost conn c) :
    (NeverPastCap db httpPort peers server conn events → ∀ front, front <+: events →
        (stateAfter db httpPort peers server conn front).buf.length ≤ kMaxRequest + c) ∧
      (kMaxRequest < (stateAfter db httpPort peers server conn events).buf.length →
        ∃ more, (∀ event ∈ more, event.Keeps conn ∧ event.AtMost conn c) ∧
          kMaxRequest + c <
            (stateAfter db httpPort peers server conn (events ++ more)).buf.length) := by
  constructor
  · rintro never front ⟨later, rfl⟩
    refine length_stateAfter_le (fun event member => alive event (List.mem_append_left _ member))
      (fun event member => small event (List.mem_append_left _ member)) ?_
    intro before data timeUs after split
    refine never before data timeUs (after ++ later) ?_
    rw [split, List.append_assoc, List.cons_append]
  · intro past
    refine ⟨List.replicate c (.message conn [0] 0), fun event member => ?_, ?_⟩
    · rw [List.eq_of_mem_replicate member]
      refine ⟨⟨nofun, nofun⟩, fun data timeUs same => ?_⟩
      cases same
      exact positive
    · rw [length_stateAfter_bytes past]
      omega

/-! ### A peer that goes on -/

/-- A text without the first byte of another one does not hold it. -/
theorem findText_of_not_mem {first : UInt8} {needle text : Bytes} (missing : first ∉ text) :
    findText (first :: needle) text = none := by
  induction text with
  | nil => rfl
  | cons c text ih =>
    rw [List.mem_cons, not_or] at missing
    rw [findText, ih missing.2, if_neg]
    · rfl
    · intro same
      rw [List.length_cons, List.take_succ_cons] at same
      exact missing.1 (List.cons.inj same).1.symm

/-- Zeros are no header, and are kept. -/
theorem assemble_zeros (m n : ℕ) :
    (ConnState.assemble ⟨List.replicate m 0, false, 0⟩ (List.replicate n 0)).1 =
      ⟨List.replicate (m + n) 0, false, 0⟩ := by
  have none : findText headerEnd (List.replicate (m + n) 0) = none := by
    refine findText_of_not_mem fun member => ?_
    cases List.eq_of_mem_replicate member
  unfold ConnState.assemble
  simp only [List.replicate_append_replicate, Bool.false_eq_true, if_false, none]
  split
  · rfl
  · rfl

/-- Messages of 64 KiB. -/
def zeroMessages (n : ℕ) : List Event := List.replicate n (.message 1 (List.replicate 65536 0) 0)

theorem stateAfter_zeroMessages (n : ℕ) :
    stateAfter gateDb 8080 gatePeers {} 1 (zeroMessages n) =
      ⟨List.replicate (n * 65536) 0, false, 0⟩ := by
  induction n with
  | zero => exact stateAfter_nil
  | succ n ih =>
    have bytes : (List.replicate 65536 0 : Bytes) ≠ [] :=
      List.ne_nil_of_length_pos (by rw [List.length_replicate]; exact Nat.succ_pos _)
    rw [zeroMessages, List.replicate_succ', stateAfter_concat_message, if_neg bytes]
    rw [zeroMessages] at ih
    rw [ih, assemble_zeros, Nat.succ_mul]

/-- **Eighteen messages of 64 KiB are kept in full**: more than the cap and one message. -/
theorem run_buffers_grows :
    kMaxRequest + 65536 <
      (stateAfter gateDb 8080 gatePeers {} 1 (zeroMessages 18)).buf.length := by
  rw [stateAfter_zeroMessages, List.length_replicate]
  decide

/-- Sixteen of them reach the cap and no further. -/
theorem run_buffers_sixteen :
    (stateAfter gateDb 8080 gatePeers {} 1 (zeroMessages 16)).buf.length ≤
      kMaxRequest + 65536 := by
  have each : ∀ event ∈ zeroMessages 16,
      event = .message 1 (List.replicate 65536 0) 0 := fun event => List.eq_of_mem_replicate
  refine (run_buffers gateDb 8080 gatePeers {} 1 65536 (Nat.succ_pos _) ?_ ?_).1 ?_ _
    (List.prefix_refl (zeroMessages 16))
  · intro event member
    rw [each event member]
    exact ⟨nofun, nofun⟩
  · intro event member data timeUs same
    rw [each event member] at same
    cases same
    exact Nat.le_of_eq List.length_replicate
  · intro before data timeUs after split
    obtain ⟨total, front, _⟩ := List.append_eq_replicate_iff.mp split.symm
    rw [List.length_cons] at total
    have zeros : before = zeroMessages before.length := front
    rw [zeros, stateAfter_zeroMessages, List.length_replicate]
    refine Or.inr ?_
    unfold kMaxRequest
    omega

end HttpIngest

end EtherAdapter
