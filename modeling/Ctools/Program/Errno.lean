import Mathlib

/-!
# Error numbers

The values of `errno.h` that the modelled functions return.
-/

set_option autoImplicit false

namespace Ctools.Program

/-- `EAGAIN`. -/
def EAGAIN : ℤ := 11

/-- `ENOMEM`. -/
def ENOMEM : ℤ := 12

/-- `EINVAL`. -/
def EINVAL : ℤ := 22

/-- `ETIMEDOUT`. -/
def ETIMEDOUT : ℤ := 110

end Ctools.Program
