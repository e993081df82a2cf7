import Mathlib.Tactic.Common
import MonkeyFront.CommandLine.Options

namespace MonkeyFront

variable {α : Type}

/-! ### Documents -/

namespace Config

end Config

open Config (Table)

section Entries

variable {config config' : Table} {table key : String}

end Entries

/-! ### Layers -/

section Resolving

variable {config config' : Table} {a : Arguments}

end Resolving

/-! ### The file of the configuration -/

section Reading

variable {disk : Disk} {a : Arguments} {config : Table}

end Reading

end MonkeyFront
