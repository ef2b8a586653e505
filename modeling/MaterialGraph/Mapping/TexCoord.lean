import MaterialGraph.CompileError
import MaterialGraph.Config
import MaterialGraph.Material
import MaterialGraph.Usage

/-!
Texture coordinate registers. Unmodified coordinates of the same channel and
generator are computed once and share a register; modified coordinates have a
register of their own. Registers are numbered in the order of first use.
-/

namespace MaterialGraph

structure TexCoordEntry where
  /-- The coordinate index that the graph refers to. -/
  index : UInt8
  register : UInt8
  /-- The first index with the same register. -/
  canonical : UInt8
deriving DecidableEq, Inhabited

/-- Registers by coordinate index, in ascending order of the indices. -/
structure TexCoordTable where
  entries : List TexCoordEntry
deriving DecidableEq, Inhabited

namespace TexCoordTable

def register? (t : TexCoordTable) (index : UInt8) : Option UInt8 :=
  (t.entries.find? fun e => e.index == index).map (·.register)

def registerCount (t : TexCoordTable) : Nat :=
  (t.entries.map fun e => e.register.toNat + 1).foldl max 0

/-- The canonical index of every register, in the order of first use. -/
def canonicals (t : TexCoordTable) : List UInt8 :=
  t.entries.foldl
    (fun acc e => if acc.contains e.canonical then acc else acc ++ [e.canonical]) []

/-- An index with the register assigned to it and the canonical index of that. -/
structure Assignment where
  index : UInt8
  register : Nat
  canonical : UInt8
deriving DecidableEq, Inhabited

/-- The registers assigned so far; the shared ones by channel and generator. -/
structure Allocation where
  shared : List ((UInt8 × TexCoordGen) × Nat × UInt8) := []
  next : Nat := 0
  assigned : List Assignment := []
deriving DecidableEq, Inhabited

namespace Allocation

def fresh (a : Allocation) (index : UInt8) : Allocation :=
  { a with next := a.next + 1, assigned := a.assigned ++ [⟨index, a.next, index⟩] }

def assign (m : Material) (a : Allocation) (index : UInt8) : Allocation :=
  let stage := m.stage index
  if stage.isIdentity then
    match a.shared.lookup (stage.uv, stage.gen) with
    | some (register, canonical) =>
      { a with assigned := a.assigned ++ [⟨index, register, canonical⟩] }
    | none =>
      { a.fresh index with shared := a.shared ++ [((stage.uv, stage.gen), a.next, index)] }
  else a.fresh index

def ofIndices (m : Material) (indices : List UInt8) : Allocation :=
  indices.foldl (assign m) {}

end Allocation

/-- A register number is a byte, whatever the limit allows. -/
def registerLimit (l : Limits) : Nat :=
  min l.maxTexCoords 255

def ofUsage (u : Usage) (m : Material) (l : Limits) : Except CompileError TexCoordTable :=
  let a := Allocation.ofIndices m (u.indices .texCoord).toList
  if registerLimit l < a.next then .error (.texCoordLimit a.next (registerLimit l))
  else .ok ⟨a.assigned.map fun e => ⟨e.index, UInt8.ofNat e.register, e.canonical⟩⟩

end TexCoordTable

end MaterialGraph
