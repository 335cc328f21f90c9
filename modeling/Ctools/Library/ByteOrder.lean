import Mathlib

/-!
# Numbers as bytes in either order

`byteOf x k` is byte `k` of a number, from the least significant.  A number below `256 ^ n` is
determined by its first `n` bytes (`eq_of_byteOf`), and bytes shifted to different places and
joined by or are found again at these places (`byteOf_joinBytes`).

A `ByteOrder n` says which byte of a number the byte at an offset is; `lsbFirst` and `msbFirst`
are the two in use.  Reading takes bytes, by offset, to a number and writing a number to bytes:
each is the inverse of the other (`read_write`, `write_read`), and exchanging the bytes of the
number exchanges the two orders (`read_msbFirst`, `write_msbFirst`, `exchange_exchange`).
`store` writes bytes into a block of memory.
-/

set_option autoImplicit false

namespace Ctools.Library

/-! ## The bytes of a number -/

/-- Byte `k` of a number, from the least significant. -/
def byteOf (x k : ℕ) : ℕ := (x >>> (8 * k)) % 256

/-- A byte has eight bits. -/
theorem byteOf_lt (x k : ℕ) : byteOf x k < 256 := Nat.mod_lt _ (by decide)

/-- The bits of a byte are those of the number. -/
theorem testBit_byteOf (x k i : ℕ) :
    (byteOf x k).testBit i = (decide (i < 8) && x.testBit (8 * k + i)) := by
  rw [byteOf, show 256 = 2 ^ 8 from rfl, Nat.testBit_mod_two_pow, Nat.testBit_shiftRight]

/-- A number below `256 ^ n` is determined by its first `n` bytes. -/
theorem eq_of_byteOf {n x y : ℕ} (hx : x < 256 ^ n) (hy : y < 256 ^ n)
    (hbytes : ∀ k < n, byteOf x k = byteOf y k) : x = y := by
  rw [show 256 = 2 ^ 8 from rfl, ← pow_mul] at hx hy
  apply Nat.eq_of_testBit_eq
  intro i
  by_cases hi : i < 8 * n
  · have hbit := congrArg (fun b => b.testBit (i % 8)) (hbytes (i / 8) (by omega))
    simp only [testBit_byteOf, show i % 8 < 8 by omega, decide_true, Bool.true_and] at hbit
    rwa [Nat.div_add_mod] at hbit
  · have hpow : 2 ^ (8 * n) ≤ 2 ^ i := Nat.pow_le_pow_right (by decide) (not_lt.mp hi)
    rw [Nat.testBit_lt_two_pow (hx.trans_le hpow), Nat.testBit_lt_two_pow (hy.trans_le hpow)]

/-- A number modulo a power of two has the bytes of the number. -/
theorem byteOf_mod {x k w : ℕ} (hk : 8 * k + 8 ≤ w) : byteOf (x % 2 ^ w) k = byteOf x k := by
  apply Nat.eq_of_testBit_eq
  intro i
  rw [testBit_byteOf, testBit_byteOf, Nat.testBit_mod_two_pow]
  by_cases hi : i < 8
  · rw [decide_eq_true (show 8 * k + i < w by omega), Bool.true_and]
  · rw [decide_eq_false hi, Bool.false_and, Bool.false_and]

/-- The bytes of an or are the ors of the bytes. -/
theorem byteOf_or (x y k : ℕ) : byteOf (x ||| y) k = byteOf x k ||| byteOf y k := by
  apply Nat.eq_of_testBit_eq
  intro i
  rw [Nat.testBit_or, testBit_byteOf, testBit_byteOf, testBit_byteOf, Nat.testBit_or,
    Bool.and_or_distrib_left]

/-- A byte shifted to place `j` is there, and nowhere else. -/
theorem byteOf_shiftLeft {b : ℕ} (hb : b < 256) (j k : ℕ) :
    byteOf (b <<< (8 * j)) k = if j = k then b else 0 := by
  apply Nat.eq_of_testBit_eq
  intro i
  rw [testBit_byteOf, Nat.testBit_shiftLeft]
  have hhigh : ∀ i, 8 ≤ i → b.testBit i = false := fun i hi =>
    Nat.testBit_lt_two_pow (hb.trans_le (Nat.pow_le_pow_right (show 0 < 2 by decide) hi))
  split
  · rename_i hjk
    rw [hjk, Nat.add_sub_cancel_left, decide_eq_true (show 8 * k + i ≥ 8 * k by omega),
      Bool.true_and]
    by_cases hi : i < 8
    · rw [decide_eq_true hi, Bool.true_and]
    · rw [hhigh i (not_lt.mp hi), Bool.and_false]
  · rename_i hjk
    rw [Nat.zero_testBit]
    by_cases hi : i < 8
    · by_cases hle : 8 * j ≤ 8 * k + i
      · rw [hhigh _ (by omega), Bool.and_false, Bool.and_false]
      · rw [decide_eq_false (show ¬ 8 * k + i ≥ 8 * j by omega), Bool.false_and, Bool.and_false]
    · rw [decide_eq_false hi, Bool.false_and]

/-- Masking a number at one place keeps the byte there. -/
theorem and_mask_eq (x k : ℕ) : x &&& (255 <<< (8 * k)) = byteOf x k <<< (8 * k) := by
  apply Nat.eq_of_testBit_eq
  intro i
  rw [Nat.testBit_and, Nat.testBit_shiftLeft, Nat.testBit_shiftLeft, testBit_byteOf,
    show 255 = 2 ^ 8 - 1 from rfl, Nat.testBit_two_pow_sub_one]
  by_cases hi : 8 * k ≤ i
  · rw [show 8 * k + (i - 8 * k) = i by omega, decide_eq_true (show i ≥ 8 * k from hi),
      Bool.true_and, Bool.true_and, Bool.and_comm]
  · rw [decide_eq_false (show ¬ i ≥ 8 * k from hi), Bool.false_and, Bool.false_and, Bool.and_false]

/-- The or of bytes, each shifted to its place. -/
def joinBytes : List (ℕ × ℕ) → ℕ
  | [] => 0
  | (byte, place) :: rest => byte <<< (8 * place) ||| joinBytes rest

/-- A place that no byte was shifted to is zero. -/
theorem byteOf_joinBytes_eq_zero {l : List (ℕ × ℕ)} (hbytes : ∀ e ∈ l, e.1 < 256) {k : ℕ}
    (hk : ∀ e ∈ l, e.2 ≠ k) : byteOf (joinBytes l) k = 0 := by
  induction l with
  | nil => simp [joinBytes, byteOf]
  | cons e l ih =>
    rw [joinBytes, byteOf_or, byteOf_shiftLeft (hbytes e List.mem_cons_self),
      if_neg (hk e List.mem_cons_self),
      ih (fun e he => hbytes e (List.mem_cons_of_mem _ he))
        (fun e he => hk e (List.mem_cons_of_mem _ he)), Nat.or_zero]

/-- **Joined bytes are found again**, if no two have the same place. -/
theorem byteOf_joinBytes {l : List (ℕ × ℕ)} (hbytes : ∀ e ∈ l, e.1 < 256)
    (hplaces : (l.map Prod.snd).Nodup) {b k : ℕ} (hmem : (b, k) ∈ l) :
    byteOf (joinBytes l) k = b := by
  induction l with
  | nil => cases hmem
  | cons e l ih =>
    rw [List.map_cons, List.nodup_cons] at hplaces
    have hrest : ∀ e ∈ l, e.1 < 256 := fun e he => hbytes e (List.mem_cons_of_mem _ he)
    rw [joinBytes, byteOf_or, byteOf_shiftLeft (hbytes e List.mem_cons_self)]
    rcases List.mem_cons.mp hmem with rfl | hin
    · have hfree : ∀ e ∈ l, e.2 ≠ k := fun e he hek =>
        hplaces.1 (List.mem_map.mpr ⟨e, he, hek⟩)
      rw [if_pos rfl, byteOf_joinBytes_eq_zero hrest hfree, Nat.or_zero]
    · have hne : e.2 ≠ k := fun hek => hplaces.1 (List.mem_map.mpr ⟨(b, k), hin, hek.symm⟩)
      rw [if_neg hne, ih hrest hplaces.2 hin, Nat.zero_or]

/-- A byte shifted to a place within `w` bits is below `2 ^ w`. -/
theorem shiftLeft_byte_lt {b k w : ℕ} (hb : b < 256) (hk : 8 * k + 8 ≤ w) :
    b <<< (8 * k) < 2 ^ w := by
  calc b <<< (8 * k) = b * 2 ^ (8 * k) := Nat.shiftLeft_eq _ _
    _ < 2 ^ 8 * 2 ^ (8 * k) := Nat.mul_lt_mul_of_pos_right hb (Nat.two_pow_pos _)
    _ = 2 ^ (8 + 8 * k) := (pow_add _ _ _).symm
    _ ≤ 2 ^ w := Nat.pow_le_pow_right (by decide) (by omega)

/-- Bytes joined at the first `n` places make a number of `n` bytes. -/
theorem joinBytes_lt {l : List (ℕ × ℕ)} {n : ℕ} (hl : ∀ e ∈ l, e.1 < 256 ∧ e.2 < n) :
    joinBytes l < 256 ^ n := by
  rw [show 256 = 2 ^ 8 from rfl, ← pow_mul]
  induction l with
  | nil => exact Nat.two_pow_pos _
  | cons e l ih =>
    obtain ⟨hbyte, hplace⟩ := hl e List.mem_cons_self
    exact Nat.or_lt_two_pow (shiftLeft_byte_lt hbyte (by omega))
      (ih fun e he => hl e (List.mem_cons_of_mem _ he))

/-! ## The two orders -/

/-- An order of `n` bytes: the byte at offset `k` is byte `place k` of the number. -/
structure ByteOrder (n : ℕ) where
  place : ℕ → ℕ
  place_lt : ∀ k < n, place k < n
  place_place : ∀ k < n, place (place k) = k

/-- The least significant byte comes first. -/
def lsbFirst (n : ℕ) : ByteOrder n := ⟨fun k => k, fun _ hk => hk, fun _ _ => rfl⟩

/-- The most significant byte comes first. -/
def msbFirst (n : ℕ) : ByteOrder n :=
  ⟨fun k => n - 1 - k, fun _ _ => by omega, fun _ _ => by omega⟩

namespace ByteOrder

variable {n : ℕ} (order : ByteOrder n)

/-- The number whose byte at each offset is given. -/
def read (bytes : ℕ → ℕ) : ℕ :=
  joinBytes ((List.range n).map fun k => (bytes k, order.place k))

/-- The byte of a number at an offset. -/
def write (x k : ℕ) : ℕ := byteOf x (order.place k)

variable {bytes : ℕ → ℕ}

/-- Only the first `n` bytes matter. -/
theorem read_congr {bytes bytes' : ℕ → ℕ} (h : ∀ k < n, bytes k = bytes' k) :
    order.read bytes = order.read bytes' := by
  rw [read, read, List.map_congr_left fun k hk => by rw [h k (List.mem_range.mp hk)]]

/-- `n` bytes give a number of `n` bytes. -/
theorem read_lt (hbytes : ∀ k < n, bytes k < 256) : order.read bytes < 256 ^ n := by
  apply joinBytes_lt
  intro e he
  obtain ⟨k, hk, rfl⟩ := List.mem_map.mp he
  exact ⟨hbytes k (List.mem_range.mp hk), order.place_lt k (List.mem_range.mp hk)⟩

/-- What is read has each byte at its place. -/
theorem byteOf_read (hbytes : ∀ k < n, bytes k < 256) {k : ℕ} (hk : k < n) :
    byteOf (order.read bytes) k = bytes (order.place k) := by
  refine byteOf_joinBytes ?_ ?_ (List.mem_map.mpr ⟨order.place k, ?_, ?_⟩)
  · intro e he
    obtain ⟨j, hj, rfl⟩ := List.mem_map.mp he
    exact hbytes j (List.mem_range.mp hj)
  · rw [List.map_map]
    refine List.Nodup.map_on (fun i hi j hj hij => ?_) List.nodup_range
    rw [← order.place_place i (List.mem_range.mp hi), ← order.place_place j (List.mem_range.mp hj)]
    exact congrArg order.place hij
  · exact List.mem_range.mpr (order.place_lt k hk)
  · rw [order.place_place k hk]

/-- **Reading what was written** gives the number, modulo `256 ^ n`. -/
theorem read_write (x : ℕ) : order.read (order.write x) = x % 256 ^ n := by
  refine eq_of_byteOf (order.read_lt fun _ _ => byteOf_lt _ _) (Nat.mod_lt _ (by positivity)) ?_
  intro k hk
  have hread : byteOf (order.read (order.write x)) k = order.write x (order.place k) :=
    order.byteOf_read (fun _ _ => byteOf_lt _ _) hk
  rw [hread, write, order.place_place k hk, show 256 = 2 ^ 8 from rfl, ← pow_mul,
    byteOf_mod (by omega)]

/-- **Writing what was read** gives the bytes. -/
theorem write_read (hbytes : ∀ k < n, bytes k < 256) {k : ℕ} (hk : k < n) :
    order.write (order.read bytes) k = bytes k := by
  rw [write, order.byteOf_read hbytes (order.place_lt k hk), order.place_place k hk]

end ByteOrder

/-- A number of `n` bytes with its bytes in the opposite order. -/
def exchange (n x : ℕ) : ℕ := (lsbFirst n).read ((msbFirst n).write x)

/-- The bytes in the other order are as many. -/
theorem exchange_lt (n x : ℕ) : exchange n x < 256 ^ n :=
  (lsbFirst n).read_lt fun _ _ => byteOf_lt _ _

/-- Byte `k` comes from the other end. -/
theorem byteOf_exchange {n k : ℕ} (x : ℕ) (hk : k < n) :
    byteOf (exchange n x) k = byteOf x (n - 1 - k) :=
  (lsbFirst n).byteOf_read (fun _ _ => byteOf_lt _ _) hk

/-- Reading in one order is exchanging what is read in the other. -/
theorem read_msbFirst {n : ℕ} {bytes : ℕ → ℕ} (hbytes : ∀ k < n, bytes k < 256) :
    (msbFirst n).read bytes = exchange n ((lsbFirst n).read bytes) := by
  refine eq_of_byteOf ((msbFirst n).read_lt hbytes) (exchange_lt n _) ?_
  intro k hk
  rw [(msbFirst n).byteOf_read hbytes hk, byteOf_exchange _ hk,
    (lsbFirst n).byteOf_read hbytes (by omega)]
  rfl

/-- Writing in one order is writing the exchanged number in the other. -/
theorem write_msbFirst {n k : ℕ} (x : ℕ) (hk : k < n) :
    (msbFirst n).write x k = (lsbFirst n).write (exchange n x) k :=
  (byteOf_exchange x hk).symm

/-- Exchanged twice, a number of `n` bytes is itself. -/
theorem exchange_exchange {n x : ℕ} (hx : x < 256 ^ n) : exchange n (exchange n x) = x := by
  refine eq_of_byteOf (exchange_lt n _) hx ?_
  intro k hk
  rw [byteOf_exchange _ hk, byteOf_exchange _ (by omega), show n - 1 - (n - 1 - k) = k by omega]

/-! ## Bytes in memory -/

variable {β : Type}

/-- The memory after bytes, by offset, were written from `p` on. -/
def store (memory : List β) (p n : ℕ) (bytes : ℕ → β) : List β :=
  (List.range n).foldl (fun memory k => memory.set (p + k) (bytes k)) memory

/-- The last byte is stored last. -/
theorem store_succ (memory : List β) (p n : ℕ) (bytes : ℕ → β) :
    store memory p (n + 1) bytes = (store memory p n bytes).set (p + n) (bytes n) := by
  simp [store, List.range_succ]

/-- The memory stays as long as it is. -/
@[simp] theorem length_store (memory : List β) (p n : ℕ) (bytes : ℕ → β) :
    (store memory p n bytes).length = memory.length := by
  induction n with
  | zero => rfl
  | succ n ih => rw [store_succ, List.length_set, ih]

/-- The bytes written are there. -/
theorem getElem?_store_inside {memory : List β} {p n k : ℕ} {bytes : ℕ → β} (hk : k < n)
    (hroom : p + n ≤ memory.length) : (store memory p n bytes)[p + k]? = some (bytes k) := by
  induction n with
  | zero => omega
  | succ n ih =>
    rw [store_succ]
    by_cases hlast : k = n
    · rw [hlast, List.getElem?_set_self (by rw [length_store]; omega)]
    · rw [List.getElem?_set_ne (by omega), ih (by omega) (by omega)]

/-- The other bytes stay. -/
theorem getElem?_store_outside {memory : List β} {p n i : ℕ} {bytes : ℕ → β}
    (hi : i < p ∨ p + n ≤ i) : (store memory p n bytes)[i]? = memory[i]? := by
  induction n with
  | zero => rfl
  | succ n ih => rw [store_succ, List.getElem?_set_ne (by omega), ih (by omega)]

/-- Only the first `n` bytes matter. -/
theorem store_congr (memory : List β) {p n : ℕ} {bytes bytes' : ℕ → β}
    (h : ∀ k < n, bytes k = bytes' k) : store memory p n bytes = store memory p n bytes' := by
  induction n with
  | zero => rfl
  | succ n ih => rw [store_succ, store_succ, ih fun k hk => h k (by omega), h n (by omega)]

end Ctools.Library
