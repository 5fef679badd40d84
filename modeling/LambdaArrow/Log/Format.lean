import LambdaArrow.Log
import LambdaArrow.Text.Plain

/-! How a line of the log is written. It is for the surroundings to choose: whoever keeps the log is handed
    the entry and who speaks. -/

namespace LambdaArrow.Log

/-- The line for an entry, and for who speaks. -/
abbrev Format := Text → Entry → Text

/-- Lines in plain text: the level, as wide as the widest one, who speaks, and the message. Further lines of
    a message are set in. -/
def Format.plain : Format := fun speaker entry =>
  let level := entry.level.name
  Text.plain <|
    '[' :: level ++ List.replicate (5 - level.length) ' ' ++ ' ' :: speaker ++ "] ".toList ++
      Text.hang entry.message ++ ['\n']

end LambdaArrow.Log
