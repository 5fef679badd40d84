import LambdaArrow.Table
import LambdaArrow.Text.Basic

/-! The combinations defined so far, each with its compiled body. -/

namespace LambdaArrow

/-- Compiled bodies by name, in the order in which the names were first defined. -/
abbrev Definitions := Table Text Text

end LambdaArrow
