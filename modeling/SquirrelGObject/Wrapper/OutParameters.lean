/- SquirrelGObject/Wrapper/OutParameters
   digest: Wrappers that copy engine structs out: what reaches the caller, and what unset memory reaches it. -/

import SquirrelGObject.Engine.Inspect
import SquirrelGObject.Wrapper.Callback

set_option autoImplicit false
set_option relaxedAutoImplicit false

namespace SquirrelGObject.Wrapper

open Engine SQVM

/-- What a call with an out-parameter leaves: the machine, the returned word and the caller's
storage. -/
structure Out (ω : Type) where
  machine : Machine
  result : Int
  storage : ω

section Wrappers

variable (host : Host) (self : SquirrelVm) (m : Machine)

end Wrappers

def Out.seen {ω : Type} (out : Out ω) : Int × ω × List String :=
  (out.result, out.storage, out.machine.log)

section Right

variable (host : Host) (self : SquirrelVm) (m : Machine)

end Right

section Iffs

variable {host : Host} {self : SquirrelVm} {m : Machine}

end Iffs

end SquirrelGObject.Wrapper
