import MaterialGraph.Cooked.MappingBlock
import MaterialGraph.Output
import MaterialGraph.Pass
import MaterialGraph.Text.Utf8

/-!
Cooked shaders: a backend tag and a count, then per pass its index, its outputs,
its mapping, the lengths of its two texts and the texts, each ended by a null
byte that the length includes. Lengths are 32-bit numbers, lowest byte first.
-/

namespace MaterialGraph

structure CookedPass where
  pass : Pass
  outputs : OutputSet
  mapping : MappingBlock
  vertex : String
  fragment : String
deriving DecidableEq

namespace Cooked

/-- The tag of the backend that takes shader text. -/
def textBackend : UInt8 := 1

def byte (n : Nat) : Outcome UInt8 :=
  if n < 256 then .ok (UInt8.ofNat n) else .error (.report .byteRange)

def lengthBytes (n : Nat) : Outcome (List UInt8) :=
  if n < 0x100000000 then
    .ok [UInt8.ofNat n, UInt8.ofNat (n / 0x100), UInt8.ofNat (n / 0x10000),
      UInt8.ofNat (n / 0x1000000)]
  else .error (.report .byteRange)

def encodePass (p : CookedPass) : Outcome (List UInt8) := do
  let vertex := Text.toBytes p.vertex ++ [0]
  let fragment := Text.toBytes p.fragment ++ [0]
  let index ← byte p.pass.index
  let vertexLength ← lengthBytes vertex.length
  let fragmentLength ← lengthBytes fragment.length
  .ok (index :: p.outputs.bits :: p.mapping.toBytes ++ vertexLength ++ fragmentLength ++
    vertex ++ fragment)

def encode (backend : UInt8) (passes : List CookedPass) : Outcome (List UInt8) := do
  let count ← byte passes.length
  let encoded ← passes.mapM encodePass
  .ok (backend :: count :: encoded.flatten)

/-- The bytes not read yet and how many were read. -/
structure Cursor where
  position : Nat
  rest : List UInt8
deriving DecidableEq, Inhabited

abbrev Reader := StateT Cursor (Except Failure)

def take (n : Nat) : Reader (List UInt8) := fun c =>
  let taken := c.rest.take n
  if taken.length = n then .ok (taken, ⟨c.position + n, c.rest.drop n⟩)
  else .error (.fault (.truncated c.position))

def readByte : Reader UInt8 := do
  return (← take 1).headD 0

def readLength : Reader Nat := do
  return (← take 4).foldr (fun b n => b.toNat + 256 * n) 0

def readText (length : Nat) : Reader String := do
  let bytes ← take length
  if bytes.getLast? = some 0 then
    match Text.ofBytes? bytes.dropLast with
    | some s => return s
    | none => throw (.report .utf8)
  else throw (.fault .unterminatedText)

def readPass : Reader CookedPass := do
  let index ← readByte
  match Pass.ofIndex? index.toNat with
  | none => throw (.fault (.passIndex index))
  | some pass =>
    let outputs ← readByte
    let block ← take MappingBlock.size
    let vertexLength ← readLength
    let fragmentLength ← readLength
    let vertex ← readText vertexLength
    let fragment ← readText fragmentLength
    return ⟨pass, ⟨outputs⟩, .ofBytes block, vertex, fragment⟩

def readPasses : Nat → Reader (List CookedPass)
  | 0 => return []
  | n + 1 => do
    let p ← readPass
    let rest ← readPasses n
    return p :: rest

def decode (bytes : List UInt8) : Outcome (UInt8 × List CookedPass) := do
  let (result, c) ← (do
    let backend ← readByte
    let count ← readByte
    let passes ← readPasses count.toNat
    return (backend, passes) : Reader (UInt8 × List CookedPass)).run ⟨0, bytes⟩
  if c.rest.isEmpty then .ok result
  else .error (.fault (.trailingBytes c.rest.length))

end Cooked

end MaterialGraph
