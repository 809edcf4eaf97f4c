/-
**The backlog of a modbus stream.**

`feedModbus` drops what it has sliced and cuts the rest down to 256 KiB, on every way out of its
loop but one: a response without an MBAP prefix that is configured longer than a frame may be
returns at once, with everything received so far still pending.

* `DeviceDesc.Oversized` — the devices of that way out.
* `feedChunks_oversized` — such a device keeps every byte it is ever sent.
* **`feedModbus_backlog`** — the backlog stays within 256 KiB over a whole run exactly when the
  device is none of them, or no more than that has been received at all.
-/

import Mathlib.Data.List.Induction
import EtherAdapter.Model.Modbus

namespace EtherAdapter

open Slicing

/-- **A configured response that cannot be a frame**: a layout the slicer starts on, no MBAP prefix,
and header and fields longer than `kMaxFrame`. -/
structure DeviceDesc.Oversized (device : DeviceDesc) : Prop where
  layout : device.hasLayout = true
  fixed : device.spec.hasMbap = false
  long : kMaxFrame < device.spec.fixedTotal

/-- A device is sliced, drops what it receives, or is oversized. -/
theorem DeviceDesc.sliceable_or (device : DeviceDesc) :
    device.Sliceable ∨ device.hasLayout = false ∨ device.Oversized := by
  by_cases layout : device.hasLayout = true
  · obtain ⟨fields, header, nonzero⟩ := of_decide_eq_true layout
    have positive : 0 < device.spec.payloadMin.toNat :=
      Nat.pos_of_ne_zero fun zero => nonzero (UInt32.toNat_inj.mp zero)
    by_cases fits : device.spec.hasMbap = true ∨ device.spec.fixedTotal ≤ kMaxFrame
    · exact Or.inl ⟨fields, header, positive, fits⟩
    · rw [not_or, Bool.not_eq_true, Nat.not_le] at fits
      exact Or.inr (Or.inr ⟨layout, fits.1, fits.2⟩)
  · exact Or.inr (Or.inl (Bool.eq_false_iff.mpr layout))

theorem DeviceDesc.Oversized.not_sliceable {device : DeviceDesc} (oversized : device.Oversized) :
    ¬ device.Sliceable := by
  intro sliceable
  rcases sliceable.fits with mbap | fits
  · rw [oversized.fixed] at mbap
    cases mbap
  · exact absurd oversized.long (Nat.not_lt.mpr fits)

variable {dev : DevicePtr}

/-! ### One call -/

/-- A call keeps the bound, unless the device is oversized. -/
theorem length_feedModbus_le (fits : ¬ dev.desc.Oversized) {st : DeviceStream}
    (bound : st.buf.length ≤ kMaxPending) (data : Bytes) (recvMs : Int) :
    (feedModbus dev st data recvMs).1.buf.length ≤ kMaxPending := by
  rcases dev.desc.sliceable_or with sliceable | layout | oversized
  · rw [feedModbus_eq sliceable.payloadMin_pos sliceable]
    have rest := modbusRest_length_lt sliceable.payloadMin_pos sliceable (st.buf ++ data)
    exact Nat.le_trans (Nat.le_of_lt rest) (by decide)
  · have idle : ¬ dev.desc.Sliceable := by
      intro sliceable
      refine absurd layout (Bool.not_eq_false _ ▸ decide_eq_true ⟨sliceable.fields,
        sliceable.header, fun zero => ?_⟩)
      have positive := sliceable.payloadMin_pos
      rw [zero] at positive
      exact Nat.lt_irrefl _ positive
    rw [(feedModbus_idle idle st data recvMs).2, layout, if_neg Bool.false_ne_true]
    exact bound
  · exact absurd oversized fits

/-- A call keeps everything, if it is. -/
theorem feedModbus_oversized (oversized : dev.desc.Oversized) (st : DeviceStream) (data : Bytes)
    (recvMs : Int) : (feedModbus dev st data recvMs).1.buf = st.buf ++ data := by
  rw [(feedModbus_idle oversized.not_sliceable st data recvMs).2, if_pos oversized.layout]

/-! ### Whole runs -/

theorem length_feedChunks_le (fits : ¬ dev.desc.Oversized) (chunks : List (Bytes × Int)) :
    (feedChunks (feedModbus dev) {} chunks).1.buf.length ≤ kMaxPending := by
  induction chunks using List.reverseRecOn with
  | nil => exact Nat.zero_le _
  | append_singleton chunks chunk ih =>
    obtain ⟨data, recvMs⟩ := chunk
    rw [feedChunks_concat]
    exact length_feedModbus_le fits ih data recvMs

/-- **An oversized device keeps every byte.** -/
theorem feedChunks_oversized (oversized : dev.desc.Oversized) (chunks : List (Bytes × Int)) :
    (feedChunks (feedModbus dev) {} chunks).1.buf = chunkBytes chunks := by
  induction chunks using List.reverseRecOn with
  | nil => rfl
  | append_singleton chunks chunk ih =>
    obtain ⟨data, recvMs⟩ := chunk
    rw [feedChunks_concat]
    simp only
    rw [feedModbus_oversized oversized, ih, chunkBytes, chunkBytes, List.map_append,
      List.flatten_append, List.map_singleton, List.flatten_singleton]

theorem length_chunkBytes_le {front chunks : List (Bytes × Int)} (early : front <+: chunks) :
    (chunkBytes front).length ≤ (chunkBytes chunks).length := by
  obtain ⟨later, rfl⟩ := early
  rw [chunkBytes, chunkBytes, List.map_append, List.flatten_append, List.length_append]
  exact Nat.le_add_right _ _

/-- **The backlog after every call of a run** is within 256 KiB exactly when the device is not
oversized, or the run brings no more bytes than that. -/
theorem feedModbus_backlog (dev : DevicePtr) (chunks : List (Bytes × Int)) :
    (∀ front, front <+: chunks →
        (feedChunks (feedModbus dev) {} front).1.buf.length ≤ kMaxPending) ↔
      ¬ dev.desc.Oversized ∨ (chunkBytes chunks).length ≤ kMaxPending := by
  constructor
  · intro bounded
    by_cases oversized : dev.desc.Oversized
    · have last := bounded chunks (List.prefix_refl chunks)
      rw [feedChunks_oversized oversized] at last
      exact Or.inr last
    · exact Or.inl oversized
  · intro condition front early
    by_cases oversized : dev.desc.Oversized
    · rw [feedChunks_oversized oversized]
      exact Nat.le_trans (length_chunkBytes_le early) (condition.resolve_left (not_not_intro oversized))
    · exact length_feedChunks_le oversized front

/-! ### A register far out -/

/-- A modbus device without a response header, whose one field lies at byte 65536. -/
def farRegister : DeviceDesc where
  connProto := connModbus
  spec := { payloadMin := 65537, fields := [{ kind := .bool, size := 1, byteOffset := 65536 }] }

theorem farRegister_oversized : farRegister.Oversized where
  layout := by decide
  fixed := by decide
  long := by decide

/-- **One byte more than 256 KiB stays pending.** -/
theorem feedModbus_backlog_grows :
    (feedModbus ⟨0, farRegister⟩ {} (List.replicate (kMaxPending + 1) 0) 0).1.buf.length =
      kMaxPending + 1 := by
  rw [feedModbus_oversized farRegister_oversized, List.nil_append, List.length_replicate]

end EtherAdapter
