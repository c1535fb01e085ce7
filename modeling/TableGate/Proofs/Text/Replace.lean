import Mathlib.Data.List.Infix
import TableGate.Proofs.Text.Clean

/-! # Texts with marks that are replaced

A text with marks comes apart into the pieces between them. To replace the mark is to put the pieces together
again with something else between them. -/

namespace TableGate.Text

variable {mark a b : List Char}

/-! ## One mark after the other -/

end TableGate.Text
