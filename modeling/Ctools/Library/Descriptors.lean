import Mathlib

/-!
# Descriptors and who closes them

A program opens descriptors and closes them; the system keeps the table of those
that are open and may give a number out again once it is closed.  `FdRun calls fds`
says that the calls lead from an empty table to `fds`, that each call that opened a
descriptor gave out a number that was not open, and that each call that closed one
closed one that was open.  So in such a run no descriptor is closed twice, and those
not closed are exactly the ones in the table.
-/

set_option autoImplicit false

namespace Ctools.Library

/-- A call that returned a new descriptor, or a call of `close`. -/
inductive FdCall where
  | opens (fd : ℤ)
  | closes (fd : ℤ)
deriving DecidableEq

/-- The open descriptors after one call. -/
def fdAfter (fds : List ℤ) : FdCall → List ℤ
  | .opens fd => fd :: fds
  | .closes fd => fds.erase fd

/-- The open descriptors after some calls. -/
def fdsAfter (fds : List ℤ) (calls : List FdCall) : List ℤ := calls.foldl fdAfter fds

/-- From an empty table the calls lead to `fds`, opening only what is not open and
closing only what is. -/
inductive FdRun : List FdCall → List ℤ → Prop
  | start : FdRun [] []
  | opened {calls : List FdCall} {fds : List ℤ} {fd : ℤ} (before : FdRun calls fds)
      (fresh : fd ∉ fds) :
      FdRun (calls ++ [.opens fd]) (fd :: fds)
  | closed {calls : List FdCall} {fds : List ℤ} {fd : ℤ} (before : FdRun calls fds)
      (isOpen : fd ∈ fds) :
      FdRun (calls ++ [.closes fd]) (fds.erase fd)

/-- No descriptor is open twice. -/
theorem FdRun.nodup {calls : List FdCall} {fds : List ℤ} (hrun : FdRun calls fds) : fds.Nodup := by
  induction hrun with
  | start => exact List.nodup_nil
  | opened _ fresh ih => exact List.nodup_cons.mpr ⟨fresh, ih⟩
  | closed _ _ ih => exact ih.erase _

/-- What is opened and closed at once leaves the table as it was. -/
theorem FdRun.openedClosed {calls : List FdCall} {fds : List ℤ} (hrun : FdRun calls fds) {fd : ℤ}
    (fresh : fd ∉ fds) : FdRun (calls ++ [.opens fd, .closes fd]) fds := by
  have hclosed := (hrun.opened fresh).closed List.mem_cons_self
  rwa [List.erase_cons_head, List.append_assoc] at hclosed

end Ctools.Library
