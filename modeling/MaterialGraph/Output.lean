/-!
The three results that a pass may write, and sets of them kept as bits.
-/

namespace MaterialGraph

inductive Output
  | color | alpha | depth
deriving DecidableEq, Inhabited

namespace Output

/-- In the order in which a pass writes them. -/
def all : List Output :=
  [color, alpha, depth]

def key : Output → String
  | color => "color"
  | alpha => "alpha"
  | depth => "depth"

end Output

structure OutputSet where
  bits : UInt8
deriving DecidableEq, Inhabited

namespace OutputSet

def none : OutputSet :=
  ⟨0⟩

def of : Output → OutputSet
  | .color => ⟨1⟩
  | .alpha => ⟨2⟩
  | .depth => ⟨4⟩

/-- Whether every member of the second set is in the first. -/
def contains (s t : OutputSet) : Bool :=
  s.bits &&& t.bits == t.bits

def isEmpty (s : OutputSet) : Bool :=
  s.bits == 0

def union (s t : OutputSet) : OutputSet :=
  ⟨s.bits ||| t.bits⟩

def ofList (l : List Output) : OutputSet :=
  l.foldl (fun s o => s.union (of o)) none

end OutputSet

end MaterialGraph
