import Mathlib

/-!
# An allocator of numbered places

What an allocator with a free list and a bump cursor is for.  Places are
numbered; those below `next` were handed out at some time, and each of them is
either held (`live`) or given back (`free`, the last one first).  The partition
is a field, so that no other arena can be built.
-/

set_option autoImplicit false

namespace Ctools.Library

/-- The places handed out so far, split into held ones and given back ones. -/
structure Arena where
  next : ℕ
  live : List ℕ
  free : List ℕ
  partition : (live ++ free).Perm (List.range next)

namespace Arena

/-- Nothing was handed out. -/
def start : Arena := ⟨0, [], [], .refl _⟩

/-- Hand out the next place. -/
def bump (a : Arena) (hfree : a.free = []) : Arena :=
  { next := a.next + 1
    live := a.next :: a.live
    free := []
    partition := by
      have hpart := a.partition
      rw [hfree, List.append_nil] at hpart
      rw [List.append_nil, List.range_succ]
      exact (hpart.cons a.next).trans (List.perm_append_singleton a.next _).symm }

/-- Hand out the place that was given back last. -/
def reuse (a : Arena) (i : ℕ) (rest : List ℕ) (hfree : a.free = i :: rest) : Arena :=
  { next := a.next
    live := i :: a.live
    free := rest
    partition := by
      have hpart := a.partition
      rw [hfree] at hpart
      exact List.perm_middle.symm.trans hpart }

/-- Give a held place back. -/
def give (a : Arena) (i : ℕ) (hlive : i ∈ a.live) : Arena :=
  { next := a.next
    live := a.live.erase i
    free := i :: a.free
    partition := by
      refine List.perm_middle.trans (.trans ?_ a.partition)
      exact ((List.perm_cons_erase hlive).symm.append_right a.free) }

variable (a : Arena)

/-- No place is twice held or given back. -/
theorem nodup : (a.live ++ a.free).Nodup := a.partition.nodup_iff.mpr List.nodup_range

/-- No place is held twice. -/
theorem live_nodup : a.live.Nodup := a.nodup.of_append_left

/-- No place is given back twice. -/
theorem free_nodup : a.free.Nodup := a.nodup.of_append_right

/-- A held place was not given back. -/
theorem live_free_disjoint {i j : ℕ} (hi : i ∈ a.live) (hj : j ∈ a.free) : i ≠ j :=
  (List.nodup_append.mp a.nodup).2.2 i hi j hj

/-- A held place was handed out. -/
theorem live_lt {i : ℕ} (hi : i ∈ a.live) : i < a.next :=
  List.mem_range.mp (a.partition.mem_iff.mp (List.mem_append_left _ hi))

/-- Every place handed out is held or given back. -/
theorem length_live_add_free : a.live.length + a.free.length = a.next := by
  have hlen := a.partition.length_eq
  rwa [List.length_append, List.length_range] at hlen

end Arena

end Ctools.Library
