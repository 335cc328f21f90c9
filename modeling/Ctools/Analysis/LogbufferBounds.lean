import Ctools.Analysis.LogbufferNewest

/-!
# `logbuffer_gets` and the size of the caller's buffer

A read copies all the bytes the log holds and returns their number
(`toInt_of_gets`), whatever `buf_size` says.  So it stays within the caller's
buffer exactly when the log holds no more than `buf_size` bytes.
-/

set_option autoImplicit false

namespace Ctools.Analysis

open Ctools.Library Ctools.Program

/-- A read of a log that holds `stored`, as a buffer of `bufSize` bytes asks
for it: it returns the number of bytes it has written, no more than `bufSize`,
to the start of `buf`, and they are a contiguous part of the log. -/
def ReadsWithin (stored buf : List UInt8) (bufSize : Int32)
    (result : Option (Int32 × List UInt8 × Logbuffer)) : Prop :=
  ∃ n cells obj, result = some (n, cells ++ buf.drop cells.length, obj) ∧
    cells <:+: stored ∧ n.toInt = cells.length ∧ n.toInt ≤ bufSize.toInt

variable {m : ℕ} {init put : List UInt8} {obj : Logbuffer}

/-- What a read returns is the number of bytes the log holds.
SOURCE: logbuffer.c:62, logbuffer.c:66 -/
theorem toInt_of_gets (hlog : LogHolds m init put obj) (hm : m < 2 ^ 31) {buf buf' : List UInt8}
    {bufSize n : Int32} {obj' : Logbuffer}
    (hgets : logbufferGets obj buf bufSize = some (n, buf', obj')) :
    n.toInt = (min m put.length : ℕ) := by
  have hcount := count_eq hlog hm
  unfold logbufferGets at hgets
  by_cases hflag : obj.roundFlag ≠ 0
  · rw [if_pos hflag] at hcount
    simp only [if_pos hflag, Option.bind_eq_bind, Option.bind_eq_some_iff] at hgets
    obtain ⟨first, -, second, -, hresult⟩ := hgets
    cases hresult
    exact hcount
  · rw [if_neg hflag] at hcount
    simp only [if_neg hflag, Option.bind_eq_bind, Option.bind_eq_some_iff] at hgets
    obtain ⟨first, -, hresult⟩ := hgets
    cases hresult
    exact hcount

/-- A read into a buffer stays within it exactly when the log holds no more
than the buffer's size.
SOURCE: logbuffer.c:55-68 -/
theorem gets_within_iff (hlog : LogHolds m init put obj) (hm : m < 2 ^ 31) {buf : List UInt8}
    {bufSize : Int32} (hbuf : bufSize.toInt ≤ buf.length) :
    ReadsWithin (put.rtake m) buf bufSize (logbufferGets obj buf bufSize) ↔
      (min m put.length : ℕ) ≤ bufSize.toInt := by
  constructor
  · rintro ⟨n, cells, obj', hgets, -, -, hle⟩
    rw [← toInt_of_gets hlog hm hgets]
    exact hle
  · intro hfits
    obtain ⟨n, hgets, hn⟩ := gets_eq hlog hm (show min m put.length ≤ buf.length by omega) bufSize
    have hlen : (put.rtake m).length = min m put.length := by
      rw [List.rtake, List.length_drop]
      omega
    refine ⟨n, put.rtake m, obj, ?_, List.infix_rfl, ?_, ?_⟩
    · rw [hgets, hlen]
    · rw [hn, hlen]
    · rw [hn]
      exact hfits

end Ctools.Analysis

open Ctools.Program in
/-- **When a read stays within the caller's buffer.**  After any sequence of
puts, `logbuffer_gets` into a buffer of `buf_size` bytes writes only there,
returns the number of bytes written and has written a contiguous part of the
log, if and only if the log holds at most `buf_size` bytes: the smaller of its
size and the number of bytes put.
SOURCE: logbuffer.c:28-68 -/
theorem Ctools.Analysis.logbuffer_gets_within_iff (size : Int32) (hsize : 0 ≤ size.toInt)
    (mem : List UInt8) (hmem : (mem.length : ℤ) = size.toInt) (puts : List Put)
    (buf : List UInt8) (bufSize : Int32) (hbuf : bufSize.toInt ≤ buf.length) :
    ∃ h obj, logbufferMachine.exec (logbufferInit mem size).2 puts = some (h, obj) ∧
      (ReadsWithin ((puts.flatMap Put.data).rtake mem.length) buf bufSize
          (logbufferGets obj buf bufSize) ↔
        (min mem.length (puts.flatMap Put.data).length : ℕ) ≤ bufSize.toInt) := by
  have hm : mem.length < 2 ^ 31 := by
    have := size.toInt_lt
    omega
  obtain ⟨h, obj, hexec, hlog⟩ := puts_run (logHolds_init hmem.symm rfl) hm puts
  rw [List.nil_append] at hlog
  exact ⟨h, obj, hexec, gets_within_iff hlog hm hbuf⟩

open Ctools.Program in
/-- Three bytes in a log of four, read into a buffer of three. -/
theorem Ctools.Analysis.logbuffer_gets_within_iff_three :
    ∃ h obj, logbufferMachine.exec (logbufferInit [0, 0, 0, 0] 4).2 [⟨[1, 2, 3], 3, by decide⟩] =
        some (h, obj) ∧
      (ReadsWithin [1, 2, 3] [7, 8, 9] 3 (logbufferGets obj [7, 8, 9] 3) ↔
        ((3 : ℕ) : ℤ) ≤ (3 : Int32).toInt) :=
  logbuffer_gets_within_iff 4 (by decide) [0, 0, 0, 0] (by decide) [⟨[1, 2, 3], 3, by decide⟩]
    [7, 8, 9] 3 (by decide)

open Ctools.Program in
/-- The same log read into a buffer of one byte: the copy leaves it, and where
the block goes on behind the buffer, the next two bytes are overwritten. -/
theorem Ctools.Analysis.logbuffer_gets_exceeds :
    ∃ h obj, logbufferMachine.exec (logbufferInit [0, 0, 0, 0] 4).2 [⟨[1, 2, 3], 3, by decide⟩] =
        some (h, obj) ∧
      logbufferGets obj [7] 1 = none ∧
      logbufferGets obj [7, 8, 9] 1 = some (3, [1, 2, 3], obj) ∧
      ¬ ReadsWithin [1, 2, 3] [7] 1 (logbufferGets obj [7] 1) := by
  have hnone : logbufferGets ⟨[1, 2, 3, 0], 4, 3, 0⟩ [7] 1 = none := by decide
  refine ⟨_, ⟨[1, 2, 3, 0], 4, 3, 0⟩, rfl, hnone, by decide, ?_⟩
  rintro ⟨n, cells, obj, hgets, -⟩
  rw [hnone] at hgets
  cases hgets
