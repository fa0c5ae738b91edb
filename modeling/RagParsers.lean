import RagParsers.PyStr
import RagParsers.Regex
import RagParsers.DocNode
import RagParsers.Sorting
import RagParsers.Caption.Config
import RagParsers.RegexSemantics
import RagParsers.Caption.Parser
import RagParsers.Caption.Plan
import RagParsers.Caption.Output
import RagParsers.Caption.Rerun
import RagParsers.Caption.Congr
import RagParsers.Caption.Recognize
import RagParsers.Caption.Chunk
import RagParsers.Caption.Choice
import RagParsers.Layout.Patterns
import RagParsers.Layout.Parser
import RagParsers.Layout.Forward
import RagParsers.Layout.Grammar
import RagParsers.Layout.Suppress
import RagParsers.Layout.Demote
import RagParsers.Layout.Level
import RagParsers.Layout.Read
import RagParsers.Layout.Deepest
import RagParsers.Layout.Heading
import RagParsers.Commute
