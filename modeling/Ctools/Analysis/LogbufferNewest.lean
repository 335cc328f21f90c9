import Ctools.Library.Ring
import Ctools.Program.Logbuffer

/-!
# The log buffer keeps the newest bytes

The block of a log buffer of `m` bytes, read round the ring from `tail` on, is
a window of `m` bytes on a stream: first the block's contents at the start,
then all the bytes ever put.  Every put moves the window on by its own bytes
(`puts_step`), also when it wraps, lands on the end, or is longer than the
block.  `roundFlag` says whether the window has moved past the initial
contents, which is what a read needs to know to return the last
`min m total` bytes put.
-/

set_option autoImplicit false

namespace Ctools.Analysis

open Ctools.Library Ctools.Program

/-- After the bytes `put`, a log of `m` bytes with initial contents `init`. -/
structure LogHolds (m : ℕ) (init put : List UInt8) (obj : Logbuffer) : Prop where
  size_eq : obj.memSize.toNat = m
  length_mem : obj.mem.length = m
  length_init : init.length = m
  tail_lt : obj.tail.toNat < m ∨ (m = 0 ∧ obj.tail.toNat = 0)
  window : ringRead obj.mem obj.tail.toNat m = slide init put
  filling : obj.roundFlag = 0 → obj.tail.toNat = put.length ∧ put.length ≤ m
  filled : obj.roundFlag ≠ 0 → m ≤ put.length

variable {m : ℕ} {init put : List UInt8} {obj : Logbuffer}

/-- A length that is not negative is the same number as `uint32_t`. -/
theorem toNat_toUInt32_of_nonneg {n : Int32} {k : ℕ} (h : n.toInt = k) : n.toUInt32.toNat = k := by
  have hle : 0 ≤ n := by
    rw [Int32.le_iff_toInt_le, h]
    exact Int.natCast_nonneg k
  rw [Int32.toNat_toUInt32_of_le hle, ← Int32.toNat_toInt, h, Int.toNat_natCast]

/-- A size below `2 ^ 31` is the same number as `int`. -/
theorem toInt_toInt32_of_lt {n : UInt32} (h : n.toNat < 2 ^ 31) : n.toInt32.toInt = n.toNat := by
  rw [← Int32.toInt_toBitVec, UInt32.toBitVec_toInt32, BitVec.toInt_eq_toNat_of_lt]
  · rfl
  · rw [UInt32.toNat_toBitVec]
    omega

/-- A fresh log holds nothing. -/
theorem logHolds_init {size : Int32} {mem : List UInt8} (hsize : size.toInt = m)
    (hmem : mem.length = m) : LogHolds m mem [] (logbufferInit mem size).2 where
  size_eq := toNat_toUInt32_of_nonneg hsize
  length_mem := hmem
  length_init := hmem
  tail_lt := by
    simp only [logbufferInit, UInt32.toNat_zero, and_true]
    omega
  window := by
    simp only [logbufferInit, UInt32.toNat_zero, ringRead_start, slide_nil]
    exact List.take_of_length_le hmem.le
  filling := fun _ => by simp [logbufferInit]
  filled := fun h => absurd rfl h

/-- The copies store the whole of the data round the ring: the strict `>`
sends a put that ends exactly at the end of the block through the split copy,
whose second part is then empty.
SOURCE: logbuffer.c:38-46 -/
theorem logbufferCopy_stores (hlog : LogHolds m init put obj) {cells : List UInt8} {len : Int32}
    (hcells : cells.length = len.toUInt32.toNat) (hle : cells.length ≤ m) :
    ∃ mem, logbufferCopy obj cells len = some mem ∧
      RingWritten obj.mem mem obj.tail.toNat cells := by
  have htail := hlog.tail_lt
  have hlen := hlog.length_mem
  have hroom : (obj.memSize - obj.tail).toNat = m - obj.tail.toNat := by
    have := obj.memSize.toNat_lt
    have := hlog.size_eq
    rw [UInt32.toNat_sub, hlog.size_eq]
    omega
  have hall : cells.take len.toUInt32.toNat = cells := List.take_of_length_le hcells.le
  unfold logbufferCopy
  by_cases hone : obj.memSize - obj.tail > len.toUInt32
  · have hcopy := ringWritten_copy obj.mem cells obj.tail.toNat len.toUInt32.toNat
      (by rw [gt_iff_lt, UInt32.lt_iff_toNat_lt, hroom] at hone; omega)
      hcells.ge
    rw [hall] at hcopy
    simpa only [if_pos hone] using hcopy
  · have hshort := hone
    rw [gt_iff_lt, UInt32.lt_iff_toNat_lt, hroom] at hshort
    have hrest : (len.toUInt32 - (obj.memSize - obj.tail)).toNat =
        len.toUInt32.toNat - (m - obj.tail.toNat) := by
      have := len.toUInt32.toNat_lt
      rw [UInt32.toNat_sub, hroom]
      omega
    obtain ⟨mem₁, mem, hcopy₁, hcopy, hw⟩ := ringWritten_splitCopy obj.mem cells
      obj.tail.toNat len.toUInt32.toNat (by omega) (by omega) (by omega) hcells.ge
    rw [hlen] at hcopy₁ hcopy
    rw [hall] at hw
    exact ⟨mem, by simp [hone, hroom, hrest, hcopy₁, hcopy], hw⟩

/-- Storing `cells` and advancing `tail` over them moves the window on, by
`data` if these are its last bytes.
SOURCE: logbuffer.c:47-51 -/
theorem logHolds_advance (hlog : LogHolds m init put obj) (hm : m < 2 ^ 31)
    {mem cells data : List UInt8} {len : Int32} (hcells : cells.length = len.toUInt32.toNat)
    (hle : cells.length ≤ m) (hw : RingWritten obj.mem mem obj.tail.toNat cells)
    (hdata : data.length = cells.length ∨ m = cells.length ∧ m ≤ data.length)
    (hslide : slide (slide init put) cells = slide (slide init put) data) :
    LogHolds m init (put ++ data) (logbufferAdvance { obj with mem := mem } len) := by
  have htail := hlog.tail_lt
  have hlen := hlog.length_mem
  have hsum : (obj.tail + len.toUInt32).toNat = obj.tail.toNat + cells.length := by
    rw [UInt32.toNat_add, ← hcells]
    omega
  have hwindow : ringRead mem (wrap m (obj.tail.toNat + cells.length)) m =
      slide init (put ++ data) := by
    rw [← slide_slide, ← hslide, ← hlog.window]
    rcases htail with hpos | ⟨hzero, -⟩
    · have hover := ringRead_overwrite obj.mem (by omega) (by omega) hw
      rwa [hlen] at hover
    · have hnil : cells = [] := List.eq_nil_of_length_eq_zero (by omega)
      simp [hzero, hnil]
  unfold logbufferAdvance
  by_cases hturn : obj.tail + len.toUInt32 ≥ obj.memSize
  · simp only [if_pos hturn]
    rw [ge_iff_le, UInt32.le_iff_toNat_le, hsum, hlog.size_eq] at hturn
    have htl : (obj.tail + len.toUInt32 - obj.memSize).toNat =
        wrap m (obj.tail.toNat + cells.length) := by
      have := obj.memSize.toNat_lt
      rw [UInt32.toNat_sub, hsum, hlog.size_eq, wrap, if_neg (by omega)]
      omega
    refine ⟨hlog.size_eq, hw.length_eq.trans hlen, hlog.length_init, ?_, ?_, ?_, ?_⟩
    · simp only [htl, wrap]
      split_ifs <;> omega
    · simp only [htl]
      exact hwindow
    · intro h
      exact absurd h (show (1 : Int32) ≠ 0 by decide)
    · intro _
      rw [List.length_append]
      by_cases hflag : obj.roundFlag = 0
      · have := (hlog.filling hflag).1
        omega
      · have := hlog.filled hflag
        omega
  · simp only [if_neg hturn]
    rw [ge_iff_le, UInt32.le_iff_toNat_le, hsum, hlog.size_eq] at hturn
    have hlt : obj.tail.toNat + cells.length < m := by omega
    refine ⟨hlog.size_eq, hw.length_eq.trans hlen, hlog.length_init, ?_, ?_, ?_, ?_⟩
    · simp only [hsum]
      exact Or.inl hlt
    · simp only [hsum]
      rw [← wrap_of_lt hlt]
      exact hwindow
    · intro hflag
      have := (hlog.filling hflag).1
      simp only [hsum, List.length_append]
      omega
    · intro hflag
      have := hlog.filled hflag
      rw [List.length_append]
      omega

/-- **One put** moves the window on by its bytes.
SOURCE: logbuffer.c:28-53 -/
theorem puts_step (hlog : LogHolds m init put obj) (hm : m < 2 ^ 31) (arg : Put) :
    ∃ n obj', logbufferPuts obj arg.data arg.length = some (n, obj') ∧
      LogHolds m init (put ++ arg.data) obj' := by
  have hlen : arg.length.toUInt32.toNat = arg.data.length := toNat_toUInt32_of_nonneg arg.length_eq
  by_cases htrim : arg.length.toUInt32 > obj.memSize
  · -- longer than the block: only the last `m` bytes are stored, and they fill it
    have hlong := htrim
    rw [gt_iff_lt, UInt32.lt_iff_toNat_lt, hlen, hlog.size_eq] at hlong
    have hskip : (arg.length.toUInt32 - obj.memSize).toNat = arg.data.length - m := by
      have := arg.length.toUInt32.toNat_lt
      rw [UInt32.toNat_sub, hlen, hlog.size_eq]
      omega
    have hdrop : (arg.data.drop (arg.data.length - m)).length = m := by
      rw [List.length_drop]
      omega
    have hcells : (arg.data.drop (arg.data.length - m)).length =
        obj.memSize.toInt32.toUInt32.toNat := by
      rw [hdrop, UInt32.toUInt32_toInt32, hlog.size_eq]
    obtain ⟨mem, hcopy, hw⟩ := logbufferCopy_stores hlog hcells hdrop.le
    have hslide : slide (slide init put) (arg.data.drop (arg.data.length - m)) =
        slide (slide init put) arg.data :=
      slide_rtake hlong.le (by rw [length_slide, hlog.length_init])
    refine ⟨obj.memSize.toInt32, _, ?_, logHolds_advance hlog hm hcells hdrop.le hw
      (Or.inr ⟨hdrop.symm, hlong.le⟩) hslide⟩
    simp [logbufferPuts, logbufferTrim, htrim, hskip, hcopy]
  · have hshort := htrim
    rw [gt_iff_lt, UInt32.lt_iff_toNat_lt, hlen, hlog.size_eq, not_lt] at hshort
    obtain ⟨mem, hcopy, hw⟩ := logbufferCopy_stores hlog hlen.symm hshort
    refine ⟨arg.length, _, ?_, logHolds_advance hlog hm hlen.symm hshort hw (Or.inl rfl) rfl⟩
    simp [logbufferPuts, logbufferTrim, htrim, hcopy]

/-- Any sequence of puts moves the window on by all their bytes. -/
theorem puts_run (hlog : LogHolds m init put obj) (hm : m < 2 ^ 31) (args : List Put) :
    ∃ h obj', logbufferMachine.exec obj args = some (h, obj') ∧
      LogHolds m init (put ++ args.flatMap Put.data) obj' := by
  induction args generalizing put obj with
  | nil => exact ⟨[], obj, rfl, by simpa using hlog⟩
  | cons arg args ih =>
    obtain ⟨n, obj₁, hstep, hlog₁⟩ := puts_step hlog hm arg
    obtain ⟨h, obj', hexec, hlog'⟩ := ih hlog₁
    refine ⟨_, obj', Machine.exec_cons (m := logbufferMachine) hstep hexec, ?_⟩
    simpa [List.append_assoc] using hlog'

/-! ## Reading -/

/-- Until the flag is set, the log is the first `tail` bytes of the block. -/
theorem take_tail_of_filling (hlog : LogHolds m init put obj) (hflag : obj.roundFlag = 0) :
    obj.mem.take obj.tail.toNat = put := by
  obtain ⟨htail, hle⟩ := hlog.filling hflag
  have hlen := hlog.length_mem
  have hwindow := hlog.window
  rw [slide_of_le_length (by rw [hlog.length_init]; exact hle), ringRead,
    List.take_of_length_le (by simp; omega)] at hwindow
  refine (List.append_inj hwindow ?_).2
  rw [List.length_drop, List.length_drop, hlog.length_init]
  omega

/-- Until the flag is set, the newest bytes are all that were put. -/
theorem rtake_of_filling (hlog : LogHolds m init put obj) (hflag : obj.roundFlag = 0) :
    put.rtake m = put := by
  obtain ⟨-, hle⟩ := hlog.filling hflag
  simp [List.rtake, Nat.sub_eq_zero_of_le hle]

/-- Once the flag is set, the log is the block from `tail` on and then its
first `tail` bytes. -/
theorem drop_append_take_of_filled (hlog : LogHolds m init put obj) (hflag : obj.roundFlag ≠ 0) :
    obj.mem.drop obj.tail.toNat ++ obj.mem.take obj.tail.toNat = put.rtake m := by
  have htail := hlog.tail_lt
  have hlen := hlog.length_mem
  have hwindow := hlog.window
  rw [slide_of_length_le (by rw [hlog.length_init]; exact hlog.filled hflag), hlog.length_init,
    ringRead, List.take_of_length_le (by simp; omega)] at hwindow
  exact hwindow

/-- The result of a read: the smaller of the block's size and the bytes put. -/
theorem count_eq (hlog : LogHolds m init put obj) (hm : m < 2 ^ 31) :
    (if obj.roundFlag ≠ 0 then obj.memSize.toInt32 else obj.tail.toInt32).toInt =
      (min m put.length : ℕ) := by
  have htail := hlog.tail_lt
  split_ifs with hflag
  · rw [toInt_toInt32_of_lt (by rw [hlog.size_eq]; omega), hlog.size_eq,
      Nat.min_eq_left (hlog.filled hflag)]
  · obtain ⟨hput, hle⟩ := hlog.filling (not_not.mp hflag)
    rw [toInt_toInt32_of_lt (by omega), hput, Nat.min_eq_right hle]

/-- The room from `tail` to the end of the block. -/
theorem toNat_memSize_sub_tail (hlog : LogHolds m init put obj) :
    (obj.memSize - obj.tail).toNat = m - obj.tail.toNat := by
  have htail := hlog.tail_lt
  have := obj.memSize.toNat_lt
  have := hlog.size_eq
  rw [UInt32.toNat_sub, hlog.size_eq]
  omega

/-- `logbuffer_gets` into a block that has room for them returns the count and
writes the newest bytes to the block's start.
SOURCE: logbuffer.c:55-68 -/
theorem gets_eq (hlog : LogHolds m init put obj) (hm : m < 2 ^ 31) {buf : List UInt8}
    (hbuf : min m put.length ≤ buf.length) (bufSize : Int32) :
    ∃ n, logbufferGets obj buf bufSize =
        some (n, put.rtake m ++ buf.drop (min m put.length), obj) ∧
      n.toInt = (min m put.length : ℕ) := by
  have htail := hlog.tail_lt
  have hlen := hlog.length_mem
  have hcount := count_eq hlog hm
  by_cases hflag : obj.roundFlag ≠ 0
  · rw [if_pos hflag] at hcount
    refine ⟨_, ?_, hcount⟩
    have hfull : min m put.length = m := Nat.min_eq_left (hlog.filled hflag)
    have hfirst := memcpy_to_start buf obj.mem obj.tail.toNat (m - obj.tail.toNat)
      (by omega) (by omega)
    rw [List.take_of_length_le (by simp; omega)] at hfirst
    have hsecond := memcpy_behind (obj.mem.drop obj.tail.toNat)
      (buf.drop (m - obj.tail.toNat)) obj.mem 0 obj.tail.toNat (by simp; omega) (by omega)
    rw [List.length_drop, hlen, List.drop_zero, List.drop_drop, ← List.append_assoc,
      drop_append_take_of_filled hlog hflag] at hsecond
    have hend : m - obj.tail.toNat + obj.tail.toNat = m := by omega
    simp [logbufferGets, hflag, toNat_memSize_sub_tail hlog, hfirst, hsecond, hend, hfull]
  · rw [if_neg hflag] at hcount
    refine ⟨_, ?_, hcount⟩
    have hzero := not_not.mp hflag
    obtain ⟨hput, hle⟩ := hlog.filling hzero
    have hcopy := memcpy_to_start buf obj.mem 0 obj.tail.toNat (by omega) (by omega)
    rw [List.drop_zero, take_tail_of_filling hlog hzero, hput] at hcopy
    simp [logbufferGets, hzero, hcopy, rtake_of_filling hlog hzero, hput, Nat.min_eq_right hle]

/-- `logbuffer_gets_to_fd` returns the count and, when every `write` is whole,
emits the newest bytes.
SOURCE: logbuffer.c:70-81 -/
theorem getsToFd_eq (hlog : LogHolds m init put obj) (hm : m < 2 ^ 31) {written : ℕ → ℕ → ℕ}
    (hwhole : ∀ k n, written k n = n) :
    ∃ n, logbufferGetsToFd obj written = some (n, put.rtake m, obj) ∧
      n.toInt = (min m put.length : ℕ) := by
  have htail := hlog.tail_lt
  have hlen := hlog.length_mem
  have hcount := count_eq hlog hm
  by_cases hflag : obj.roundFlag ≠ 0
  · rw [if_pos hflag] at hcount
    refine ⟨_, ?_, hcount⟩
    have holder : readCells obj.mem obj.tail.toNat (m - obj.tail.toNat) =
        some (obj.mem.drop obj.tail.toNat) := by
      rw [readCells_of_le (by omega), List.take_of_length_le (by simp; omega)]
    have hnewer : readCells obj.mem 0 obj.tail.toNat = some (obj.mem.take obj.tail.toNat) :=
      readCells_of_le (by omega)
    have hwhole₀ : emit (obj.mem.drop obj.tail.toNat) (obj.mem.drop obj.tail.toNat).length =
        obj.mem.drop obj.tail.toNat := List.take_length
    have hwhole₁ : emit (obj.mem.take obj.tail.toNat) (obj.mem.take obj.tail.toNat).length =
        obj.mem.take obj.tail.toNat := List.take_length
    simp only [logbufferGetsToFd, if_pos hflag, toNat_memSize_sub_tail hlog, holder, hnewer, hwhole,
      Option.bind_eq_bind, Option.bind_some, Option.pure_def, hwhole₀, hwhole₁,
      drop_append_take_of_filled hlog hflag]
  · rw [if_neg hflag] at hcount
    refine ⟨_, ?_, hcount⟩
    have hzero := not_not.mp hflag
    have hread : readCells obj.mem 0 obj.tail.toNat = some put := by
      rw [readCells_of_le (by omega), List.drop_zero, take_tail_of_filling hlog hzero]
    simp [logbufferGetsToFd, hzero, hread, hwhole, emit, rtake_of_filling hlog hzero]

end Ctools.Analysis

open Ctools.Library Ctools.Program in
/-- **The log buffer keeps exactly the newest bytes.**  After any sequence of
puts into a log of `size` bytes, `logbuffer_gets` into a block of at least that
many returns the smaller of `size` and the number of bytes put, and writes that
many bytes, the last ones put, in order; `logbuffer_gets_to_fd` returns the same
number and emits the same bytes when every `write` writes its whole range.
Neither changes the log.
SOURCE: logbuffer.c:14-81 -/
theorem Ctools.Analysis.logbuffer_keeps_newest (size : Int32) (hsize : 0 ≤ size.toInt)
    (mem : List UInt8) (hmem : (mem.length : ℤ) = size.toInt) (puts : List Put) :
    ∃ h obj, logbufferMachine.exec (logbufferInit mem size).2 puts = some (h, obj) ∧
      (∀ (buf : List UInt8) (bufSize : Int32), size.toInt ≤ buf.length →
        ∃ n, logbufferGets obj buf bufSize = some (n, (puts.flatMap Put.data).rtake mem.length ++
            buf.drop (min mem.length (puts.flatMap Put.data).length), obj) ∧
          n.toInt = (min mem.length (puts.flatMap Put.data).length : ℕ)) ∧
      ∀ written : ℕ → ℕ → ℕ, (∀ k n, written k n = n) →
        ∃ n, logbufferGetsToFd obj written =
            some (n, (puts.flatMap Put.data).rtake mem.length, obj) ∧
          n.toInt = (min mem.length (puts.flatMap Put.data).length : ℕ) := by
  have hm : mem.length < 2 ^ 31 := by
    have := size.toInt_lt
    omega
  obtain ⟨h, obj, hexec, hlog⟩ := puts_run (logHolds_init hmem.symm rfl) hm puts
  rw [List.nil_append] at hlog
  refine ⟨h, obj, hexec, fun buf bufSize hbuf => ?_, fun written hwhole => ?_⟩
  · exact gets_eq hlog hm (by omega) bufSize
  · exact getsToFd_eq hlog hm hwhole

open Ctools.Library Ctools.Program in
/-- Three bytes kept of the five put into a log of three, the second put
longer than the block. -/
theorem Ctools.Analysis.logbuffer_keeps_newest_three :
    ∃ h obj, logbufferMachine.exec (logbufferInit [0, 0, 0] 3).2
        [⟨[1], 1, by decide⟩, ⟨[2, 3, 4, 5], 4, by decide⟩] = some (h, obj) ∧
      (∀ (buf : List UInt8) (bufSize : Int32), (3 : Int32).toInt ≤ buf.length →
        ∃ n, logbufferGets obj buf bufSize = some (n, [3, 4, 5] ++ buf.drop 3, obj) ∧
          n.toInt = (3 : ℕ)) ∧
      ∀ written : ℕ → ℕ → ℕ, (∀ k n, written k n = n) →
        ∃ n, logbufferGetsToFd obj written = some (n, [3, 4, 5], obj) ∧ n.toInt = (3 : ℕ) :=
  logbuffer_keeps_newest 3 (by decide) [0, 0, 0] (by decide) _
