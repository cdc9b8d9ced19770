/-
# Trees in files

A syntax tree may be kept in a file, as JSON in UTF-8.
-/
import TreeDiff.Failure

namespace TreeDiff.Node

/-- The tree that a file holds. -/
def ofFile (files : Files) (p : Path) : Except Failure Node := do
  let content ← (files.read p).mapError fun fault => .unusable fault p
  let text ← (Text.Utf8.decode content).mapError .undecodable
  let json ← (Json.parse text).mapError .ungrammatical
  (ofJson json).mapError .notATree

end TreeDiff.Node
