/-
**Byte memory: copying into it, reading from it, and numbers in it.**

* `writeAt`, `readAt` — `memcpy` into a buffer and out of it; what is written is read back
  (`readAt_writeAt`), and what lies elsewhere is not touched (`readAt_writeAt_of_disjoint`).
* `writeEach` — entries of one size, one behind the other; `writeEach_eq` makes it one copy.
* `slide` — a copy inside one buffer, element by element; **`slide_eq`** — towards the front it
  copies what was there, also where the two places overlap.
* **`readAt_writeAll`** — copies to disjoint regions: each region holds what was copied to it.
* `leNat`, `leInt` — bytes as a little-endian number, unsigned or in two's complement;
  **`leInt_leBytes`** — the low bytes of a word read back as the word, brought into their range.
-/

import Mathlib.Data.Nat.Digits.Defs
import Mathlib.Algebra.Order.Ring.Int

namespace Memory

section Copies

variable {α : Type*}

/-! ### Copies -/

def writeAt (data : List α) (off : ℕ) (items : List α) : List α :=
  data.take off ++ items ++ data.drop (off + items.length)

def readAt (data : List α) (off size : ℕ) : List α := (data.drop off).take size

theorem length_writeAt {data : List α} {off : ℕ} {items : List α}
    (fits : off + items.length ≤ data.length) : (writeAt data off items).length = data.length := by
  rw [writeAt, List.length_append, List.length_append, List.length_take, List.length_drop]
  omega

theorem getElem?_readAt (data : List α) (off size i : ℕ) :
    (readAt data off size)[i]? = if i < size then data[off + i]? else none := by
  rw [readAt, List.getElem?_take, List.getElem?_drop]

theorem getElem?_writeAt {data : List α} {off : ℕ} {items : List α}
    (fits : off + items.length ≤ data.length) (i : ℕ) :
    (writeAt data off items)[i]? =
      if off ≤ i ∧ i < off + items.length then items[i - off]? else data[i]? := by
  have front : (data.take off).length = off := by
    rw [List.length_take]
    omega
  rw [writeAt]
  by_cases before : i < off
  · rw [List.append_assoc, List.getElem?_append_left (by omega), List.getElem?_take_of_lt before,
      if_neg (by omega)]
  by_cases inside : i < off + items.length
  · rw [List.getElem?_append_left (by rw [List.length_append]; omega),
      List.getElem?_append_right (by omega), front, if_pos ⟨Nat.le_of_not_lt before, inside⟩]
  · rw [List.getElem?_append_right (by rw [List.length_append]; omega), List.getElem?_drop,
      List.length_append, front, if_neg (by omega)]
    congr 1
    omega

/-- What is written is read back. -/
theorem readAt_writeAt {data : List α} {off : ℕ} {items : List α}
    (fits : off + items.length ≤ data.length) :
    readAt (writeAt data off items) off items.length = items := by
  refine List.ext_getElem? fun i => ?_
  rw [getElem?_readAt, getElem?_writeAt fits]
  by_cases inside : i < items.length
  · rw [if_pos inside, if_pos (by omega), Nat.add_sub_cancel_left]
  · rw [if_neg inside, List.getElem?_eq_none (Nat.le_of_not_lt inside)]

/-- What lies elsewhere is not touched. -/
theorem readAt_writeAt_of_disjoint {data : List α} {off : ℕ} {items : List α}
    (fits : off + items.length ≤ data.length) {start size : ℕ}
    (apart : start + size ≤ off ∨ off + items.length ≤ start) :
    readAt (writeAt data off items) start size = readAt data start size := by
  refine List.ext_getElem? fun i => ?_
  rw [getElem?_readAt, getElem?_readAt, getElem?_writeAt fits]
  by_cases inside : i < size
  · rw [if_pos inside, if_pos inside, if_neg (by omega)]
  · rw [if_neg inside, if_neg inside]

/-- Two copies, one behind the other, are one. -/
theorem writeAt_writeAt {data : List α} {off : ℕ} {first second : List α}
    (fits : off + first.length + second.length ≤ data.length) :
    writeAt (writeAt data off first) (off + first.length) second =
      writeAt data off (first ++ second) := by
  have one : off + first.length ≤ data.length := by omega
  have two : off + first.length + second.length ≤ (writeAt data off first).length := by
    rwa [length_writeAt one]
  have both : off + (first ++ second).length ≤ data.length := by
    rw [List.length_append]
    omega
  refine List.ext_getElem? fun i => ?_
  rw [getElem?_writeAt two, getElem?_writeAt one, getElem?_writeAt both, List.length_append]
  by_cases inSecond : off + first.length ≤ i ∧ i < off + first.length + second.length
  · rw [if_pos inSecond, if_pos (by omega), List.getElem?_append_right (by omega)]
    congr 1
    omega
  by_cases inFirst : off ≤ i ∧ i < off + first.length
  · rw [if_neg inSecond, if_pos inFirst, if_pos (by omega), List.getElem?_append_left (by omega)]
  · rw [if_neg inSecond, if_neg inFirst, if_neg (by omega)]

/-! ### Entries of one size -/

/-- Entries one behind the other, from `base` on, each copied on its own. -/
def writeEach (size : ℕ) : List α → ℕ → List (List α) → List α
  | data, _, [] => data
  | data, base, entry :: entries => writeEach size (writeAt data base entry) (base + size) entries

theorem length_flatten_of_forall {entries : List (List α)} {size : ℕ}
    (sized : ∀ entry ∈ entries, entry.length = size) :
    entries.flatten.length = entries.length * size := by
  induction entries with
  | nil => exact (Nat.zero_mul size).symm
  | cons entry entries ih =>
    rw [List.flatten_cons, List.length_append, sized entry List.mem_cons_self,
      ih fun other member => sized other (List.mem_cons_of_mem _ member), List.length_cons,
      Nat.succ_mul, Nat.add_comm]

theorem writeAt_nil (data : List α) (off : ℕ) : writeAt data off [] = data := by
  rw [writeAt, List.append_nil, List.length_nil, Nat.add_zero, List.take_append_drop]

/-- The entries make one copy. -/
theorem writeEach_eq {size : ℕ} (entries : List (List α)) {data : List α} {base : ℕ}
    (sized : ∀ entry ∈ entries, entry.length = size)
    (fits : base + entries.length * size ≤ data.length) :
    writeEach size data base entries = writeAt data base entries.flatten := by
  induction entries generalizing data base with
  | nil => rw [writeEach, List.flatten_nil, writeAt_nil]
  | cons entry entries ih =>
    have here := sized entry List.mem_cons_self
    have later : ∀ other ∈ entries, other.length = size := fun other member =>
      sized other (List.mem_cons_of_mem _ member)
    have rest := length_flatten_of_forall later
    rw [List.length_cons, Nat.succ_mul] at fits
    have room : base + entry.length ≤ data.length := by omega
    rw [writeEach, ih later (by rw [length_writeAt room]; omega), List.flatten_cons, ← here,
      writeAt_writeAt (by omega)]

/-- An entry inside the entries. -/
theorem readAt_flatten {entries : List (List α)} {size : ℕ}
    (sized : ∀ entry ∈ entries, entry.length = size) {r : ℕ} {entry : List α}
    (found : entries[r]? = some entry) : readAt entries.flatten (r * size) size = entry := by
  induction entries generalizing r with
  | nil => cases found
  | cons first entries ih =>
    have here := sized first List.mem_cons_self
    have later : ∀ other ∈ entries, other.length = size := fun other member =>
      sized other (List.mem_cons_of_mem _ member)
    cases r with
    | zero =>
      cases found
      rw [readAt, Nat.zero_mul, List.drop_zero, List.flatten_cons, ← here, List.take_left]
    | succ r =>
      have rest := ih later found
      rw [readAt] at rest ⊢
      have skip : (first ++ entries.flatten).drop size = entries.flatten := by
        rw [← here, List.drop_left]
      rw [List.flatten_cons, Nat.succ_mul, Nat.add_comm, ← List.drop_drop, skip]
      exact rest

/-- Reading inside a region that was read as a whole. -/
theorem readAt_readAt (data : List α) (base length off size : ℕ) (inside : off + size ≤ length) :
    readAt (readAt data base length) off size = readAt data (base + off) size := by
  refine List.ext_getElem? fun i => ?_
  rw [getElem?_readAt, getElem?_readAt, getElem?_readAt]
  by_cases within : i < size
  · rw [if_pos within, if_pos within, if_pos (by omega), Nat.add_assoc]
  · rw [if_neg within, if_neg within]

/-- Two reads, one behind the other, are one. -/
theorem readAt_add (data : List α) (off first second : ℕ) :
    readAt data off (first + second) = readAt data off first ++ readAt data (off + first) second := by
  rw [readAt, readAt, readAt, List.take_add, List.drop_drop]

theorem drop_readAt (data : List α) (off size skip : ℕ) :
    (readAt data off size).drop skip = readAt data (off + skip) (size - skip) := by
  rw [readAt, readAt, List.drop_take, List.drop_drop]

theorem take_readAt (data : List α) (off : ℕ) {size few : ℕ} (fewer : few ≤ size) :
    (readAt data off size).take few = readAt data off few := by
  rw [readAt, readAt, List.take_take, Nat.min_eq_left fewer]

theorem length_readAt {data : List α} {off size : ℕ} (inside : off + size ≤ data.length) :
    (readAt data off size).length = size := by
  rw [readAt, List.length_take, List.length_drop]
  omega

/-! ### Copies inside one buffer -/


/-- `std::copy` inside a buffer: one element after the other, from the front. -/
def slide : List α → ℕ → ℕ → ℕ → List α
  | data, _, _, 0 => data
  | data, src, dst, n + 1 =>
    match data[src]? with
    | none => data
    | some item => slide (data.set dst item) (src + 1) (dst + 1) n

theorem getElem?_slide {n : ℕ} {data : List α} {src dst : ℕ} (inside : src + n ≤ data.length)
    (down : dst ≤ src) (i : ℕ) :
    (slide data src dst n)[i]? =
      if dst ≤ i ∧ i < dst + n then data[src + (i - dst)]? else data[i]? := by
  induction n generalizing data src dst with
  | zero => rw [slide, if_neg (by omega)]
  | succ n ih =>
    have bound : src < data.length := by omega
    obtain ⟨item, found⟩ : ∃ item, data[src]? = some item :=
      ⟨_, List.getElem?_eq_getElem bound⟩
    have rest := @ih (data.set dst item) (src + 1) (dst + 1)
      (by rw [List.length_set]; omega) (by omega)
    rw [slide, found]
    simp only
    rw [rest]
    by_cases first : i = dst
    · rw [first, if_neg (by omega), if_pos (by omega), List.getElem?_set_self (by omega),
        Nat.sub_self, Nat.add_zero, found]
    by_cases later : dst + 1 ≤ i ∧ i < dst + 1 + n
    · -- what is read next has not been written yet
      rw [if_pos later, if_pos (by omega), List.getElem?_set_ne (by omega)]
      congr 1
      omega
    · rw [if_neg later, if_neg (by omega), List.getElem?_set_ne (by omega)]

/-- **A copy towards the front** leaves at its place what was there to be copied, overlap or not. -/
theorem slide_eq {data : List α} {src dst n : ℕ} (inside : src + n ≤ data.length)
    (down : dst ≤ src) : slide data src dst n = writeAt data dst (readAt data src n) := by
  have size := length_readAt inside
  refine List.ext_getElem? fun i => ?_
  rw [getElem?_slide inside down, getElem?_writeAt (by omega), size, getElem?_readAt]
  by_cases copied : dst ≤ i ∧ i < dst + n
  · rw [if_pos copied, if_pos copied, if_pos (by omega)]
  · rw [if_neg copied, if_neg copied]

/-! ### Disjoint regions -/

/-- Copies one after the other, each to its own place. -/
def writeAll (data : List α) (regions : List (ℕ × List α)) : List α :=
  regions.foldl (fun data region => writeAt data region.1 region.2) data

def Apart (a b : ℕ × List α) : Prop := a.1 + a.2.length ≤ b.1 ∨ b.1 + b.2.length ≤ a.1

theorem readAt_writeAll_of_apart {regions : List (ℕ × List α)} {data : List α}
    (fits : ∀ region ∈ regions, region.1 + region.2.length ≤ data.length) {start size : ℕ}
    (apart : ∀ region ∈ regions, start + size ≤ region.1 ∨ region.1 + region.2.length ≤ start) :
    readAt (writeAll data regions) start size = readAt data start size := by
  induction regions generalizing data with
  | nil => rfl
  | cons first regions ih =>
    have here := fits first List.mem_cons_self
    show readAt (writeAll (writeAt data first.1 first.2) regions) start size = _
    rw [ih (fun region member => ?_) fun region member =>
      apart region (List.mem_cons_of_mem _ member)]
    · exact readAt_writeAt_of_disjoint here (apart first List.mem_cons_self)
    · rw [length_writeAt here]
      exact fits region (List.mem_cons_of_mem _ member)

/-- **Disjoint regions hold what was copied to them.** -/
theorem readAt_writeAll {regions : List (ℕ × List α)} {data : List α}
    (fits : ∀ region ∈ regions, region.1 + region.2.length ≤ data.length)
    (apart : regions.Pairwise Apart) {region : ℕ × List α} (member : region ∈ regions) :
    readAt (writeAll data regions) region.1 region.2.length = region.2 := by
  induction regions generalizing data with
  | nil => cases member
  | cons first regions ih =>
    have here := fits first List.mem_cons_self
    have room : ∀ other ∈ regions,
        other.1 + other.2.length ≤ (writeAt data first.1 first.2).length := fun other inside => by
      rw [length_writeAt here]
      exact fits other (List.mem_cons_of_mem _ inside)
    obtain ⟨ahead, rest⟩ := List.pairwise_cons.mp apart
    show readAt (writeAll (writeAt data first.1 first.2) regions) _ _ = _
    rcases List.mem_cons.mp member with rfl | later
    · rw [readAt_writeAll_of_apart room ahead, readAt_writeAt here]
    · exact ih room rest later

theorem length_writeAll {regions : List (ℕ × List α)} {data : List α}
    (fits : ∀ region ∈ regions, region.1 + region.2.length ≤ data.length) :
    (writeAll data regions).length = data.length := by
  induction regions generalizing data with
  | nil => rfl
  | cons first regions ih =>
    have here := fits first List.mem_cons_self
    show (writeAll (writeAt data first.1 first.2) regions).length = _
    rw [ih fun region member => ?_, length_writeAt here]
    rw [length_writeAt here]
    exact fits region (List.mem_cons_of_mem _ member)

end Copies

/-! ### Numbers -/

/-- Bytes as a little-endian number. -/
def leNat (bytes : List UInt8) : ℕ := Nat.ofDigits 256 (bytes.map UInt8.toNat)

/-- Bytes as a little-endian number in two's complement. -/
def leInt (bytes : List UInt8) : ℤ :=
  if 2 * leNat bytes < 256 ^ bytes.length then leNat bytes
  else leNat bytes - 256 ^ bytes.length

/-- The low bytes of a word. -/
def leBytes (size : ℕ) (v : BitVec 64) : List UInt8 :=
  (List.range size).map fun i => UInt8.ofBitVec ((v >>> (8 * i)).setWidth 8)

theorem length_leBytes (size : ℕ) (v : BitVec 64) : (leBytes size v).length = size := by
  rw [leBytes, List.length_map, List.length_range]

theorem leNat_append (a b : List UInt8) : leNat (a ++ b) = leNat a + 256 ^ a.length * leNat b := by
  rw [leNat, List.map_append, Nat.ofDigits_append, List.length_map]
  rfl

theorem leNat_singleton (byte : UInt8) : leNat [byte] = byte.toNat := Nat.ofDigits_singleton

theorem leNat_lt (bytes : List UInt8) : leNat bytes < 256 ^ bytes.length := by
  have digits : ∀ x ∈ bytes.map UInt8.toNat, x < 256 := by
    intro x member
    obtain ⟨byte, _, rfl⟩ := List.mem_map.mp member
    exact byte.toNat_lt
  have bound := Nat.ofDigits_lt_base_pow_length (by decide) digits
  rwa [List.length_map] at bound

theorem leNat_leBytes (size : ℕ) (v : BitVec 64) : leNat (leBytes size v) = v.toNat % 256 ^ size := by
  induction size with
  | zero => rw [Nat.pow_zero, Nat.mod_one]; rfl
  | succ size ih =>
    have last : leBytes (size + 1) v =
        leBytes size v ++ [UInt8.ofBitVec ((v >>> (8 * size)).setWidth 8)] := by
      rw [leBytes, List.range_succ, List.map_append]
      rfl
    have byte : leNat [UInt8.ofBitVec ((v >>> (8 * size)).setWidth 8)] =
        v.toNat / 256 ^ size % 256 := by
      have power : (256 : ℕ) ^ size = 2 ^ (8 * size) := by rw [Nat.pow_mul]
      rw [leNat, List.map_singleton, Nat.ofDigits_singleton, UInt8.toNat_ofBitVec,
        BitVec.toNat_setWidth, BitVec.toNat_ushiftRight, Nat.shiftRight_eq_div_pow, power]
    rw [last, leNat_append, ih, length_leBytes, byte, Nat.pow_succ, Nat.mod_mul]

/-- The low bytes of a word, in two's complement: the word, reduced to their range. -/
theorem leInt_leBytes {size : ℕ} (most : size ≤ 8) (v : BitVec 64) :
    leInt (leBytes size v) = v.toInt.bmod (256 ^ size) := by
  have power : (256 : ℕ) ^ size ∣ 2 ^ 64 := by
    rw [show 256 = 2 ^ 8 by rfl, ← Nat.pow_mul]
    exact Nat.pow_dvd_pow 2 (by omega)
  rw [BitVec.toInt_eq_toNat_bmod, Int.bmod_bmod_of_dvd power, Int.bmod_def, leInt, leNat_leBytes,
    length_leBytes]
  have cast : ((v.toNat : ℤ) % ((256 ^ size : ℕ) : ℤ)) = ((v.toNat % 256 ^ size : ℕ) : ℤ) :=
    (Int.natCast_emod _ _).symm
  have whole : (256 : ℤ) ^ size = ((256 ^ size : ℕ) : ℤ) := (Nat.cast_pow 256 size).symm
  rw [cast, whole]
  generalize 256 ^ size = top
  generalize v.toNat % top = low
  split
  · rw [if_pos (by omega)]
  · rw [if_neg (by omega)]

end Memory
