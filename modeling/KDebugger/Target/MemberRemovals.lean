import KDebugger.Target.Removals

namespace KDebugger.Target

open Exec Process

variable {t' : Target} {r r' : Resolving} {i o : ℕ}

end KDebugger.Target
