import Mathlib.Logic.Basic

/-!
# Constants of `config.rs`
-/

namespace Whusp

/-- The size of a page in bytes, on both architectures. -/
def PAGE_SIZE : Nat := 4096

end Whusp
