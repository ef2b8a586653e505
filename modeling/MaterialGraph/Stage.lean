/-!
The two stages of a shader program.
-/

namespace MaterialGraph

inductive Stage
  | vertex | fragment
deriving DecidableEq, Inhabited

namespace Stage

/-- The tag of a stage in file names. -/
def tag : Stage → String
  | vertex => "vert"
  | fragment => "frag"

end Stage

end MaterialGraph
