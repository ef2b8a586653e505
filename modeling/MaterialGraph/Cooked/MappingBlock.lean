import MaterialGraph.Failure
import MaterialGraph.Mapping.Basic

/-!
Mappings in the fixed layout of the backend: arrays of bytes in which unused
entries hold a byte that marks them.
-/

namespace MaterialGraph

/-- Textures and attributes are pairs of a source tag and an index. -/
structure MappingBlock where
  registers : Vector UInt8 6
  textureCounts : Vector UInt8 2
  streamCounts : Vector UInt8 6
  textures : Vector (UInt8 × UInt8) 6
  attributes : Vector (UInt8 × UInt8) 8
deriving DecidableEq

namespace MappingBlock

/-- The byte in unused entries. -/
def unused : UInt8 := 255

def size : Nat := 42

private def pairBytes (p : UInt8 × UInt8) : List UInt8 :=
  [p.1, p.2]

def toBytes (b : MappingBlock) : List UInt8 :=
  b.registers.toList ++ b.textureCounts.toList ++ b.streamCounts.toList ++
    b.textures.toList.flatMap pairBytes ++ b.attributes.toList.flatMap pairBytes

private def slice (bytes : List UInt8) (start n : Nat) : Vector UInt8 n :=
  Vector.ofFn fun i => bytes[start + i.val]?.getD 0

private def pairs (bytes : List UInt8) (start n : Nat) : Vector (UInt8 × UInt8) n :=
  Vector.ofFn fun i =>
    (bytes[start + 2 * i.val]?.getD 0, bytes[start + 2 * i.val + 1]?.getD 0)

/-- The block that as many bytes as a block has make up. -/
def ofBytes (bytes : List UInt8) : MappingBlock :=
  ⟨slice bytes 0 6, slice bytes 6 2, slice bytes 8 6, pairs bytes 14 6, pairs bytes 26 8⟩

private theorem length_flatMap_pairBytes (l : List (UInt8 × UInt8)) :
    (l.flatMap pairBytes).length = 2 * l.length := by
  induction l with
  | nil => rfl
  | cons p l ih =>
    simp only [List.flatMap_cons, List.length_append, ih, pairBytes, List.length_cons,
      List.length_nil]
    omega

theorem length_toBytes (b : MappingBlock) : b.toBytes.length = size := by
  simp only [toBytes, List.length_append, Vector.length_toList, length_flatMap_pairBytes]
  rfl

private theorem flatMap_pairBytes_injective {l l' : List (UInt8 × UInt8)}
    (h : l.flatMap pairBytes = l'.flatMap pairBytes) : l = l' := by
  induction l generalizing l' with
  | nil =>
    cases l' with
    | nil => rfl
    | cons p' l' => simp [pairBytes] at h
  | cons p l ih =>
    cases l' with
    | nil => simp [pairBytes] at h
    | cons p' l' =>
      simp only [List.flatMap_cons, pairBytes, List.cons_append, List.nil_append,
        List.cons.injEq] at h
      obtain ⟨htag, hindex, hrest⟩ := h
      rw [ih hrest, Prod.ext htag hindex]

/-- The arrays have fixed lengths, so their bytes tell them apart. -/
theorem toBytes_injective {b b' : MappingBlock} (h : b.toBytes = b'.toBytes) : b = b' := by
  obtain ⟨h, hattributes⟩ := List.append_inj' h (by simp only [length_flatMap_pairBytes, Vector.length_toList])
  obtain ⟨h, htextures⟩ := List.append_inj' h (by simp only [length_flatMap_pairBytes, Vector.length_toList])
  obtain ⟨h, hstreams⟩ := List.append_inj' h (by simp)
  obtain ⟨hregisters, hcounts⟩ := List.append_inj' h (by simp)
  have hattributes := Vector.toList_inj.1 (flatMap_pairBytes_injective hattributes)
  have htextures := Vector.toList_inj.1 (flatMap_pairBytes_injective htextures)
  have hstreams := Vector.toList_inj.1 hstreams
  have hcounts := Vector.toList_inj.1 hcounts
  have hregisters := Vector.toList_inj.1 hregisters
  cases b
  cases b'
  simp_all

private theorem toList_slice (bytes : List UInt8) {start n : Nat}
    (h : start + n ≤ bytes.length) : (slice bytes start n).toList = (bytes.drop start).take n := by
  refine List.ext_getElem (by simp; omega) fun i hi hi' => ?_
  have hlt : start + i < bytes.length := by simp at hi; omega
  simp [slice, List.getElem?_eq_getElem hlt]

private theorem flatMap_pairs (bytes : List UInt8) {start n : Nat}
    (h : start + 2 * n ≤ bytes.length) :
    (pairs bytes start n).toList.flatMap pairBytes = (bytes.drop start).take (2 * n) := by
  induction n generalizing start with
  | zero => rfl
  | succ n ih =>
    have hlt : start < bytes.length := by omega
    have hlt' : start + 1 < bytes.length := by omega
    have hpairs : (pairs bytes start (n + 1)).toList =
        (bytes[start], bytes[start + 1]) :: (pairs bytes (start + 2) n).toList := by
      have hshift (i : Nat) : start + 2 * (i + 1) = start + 2 + 2 * i := by omega
      simp only [pairs, Vector.toList_ofFn, List.ofFn_succ, Fin.val_succ, hshift]
      simp [List.getElem?_eq_getElem hlt, List.getElem?_eq_getElem hlt']
    rw [hpairs, List.flatMap_cons, ih (by omega), List.drop_eq_getElem_cons hlt,
      List.drop_eq_getElem_cons hlt']
    rfl

/-- As many bytes as a block has make up the block that is written with them. -/
theorem toBytes_ofBytes {bytes : List UInt8} (h : bytes.length = size) :
    (ofBytes bytes).toBytes = bytes := by
  unfold size at h
  rw [toBytes, ofBytes, toList_slice _ (by omega), toList_slice _ (by omega),
    toList_slice _ (by omega), flatMap_pairs _ (by omega), flatMap_pairs _ (by omega)]
  have hjoin (n m : Nat) : bytes.take n ++ (bytes.drop n).take m = bytes.take (n + m) :=
    List.take_add.symm
  simp only [List.drop_zero, hjoin]
  exact List.take_of_length_le (by omega)

theorem ofBytes_toBytes (b : MappingBlock) : ofBytes b.toBytes = b :=
  toBytes_injective (toBytes_ofBytes b.length_toBytes)

def fits (m : Mapping) : Bool :=
  m.textures.length ≤ 6 && m.attributes.length ≤ 8 && m.registers.length ≤ 6

def ofMapping (m : Mapping) : Except Fault MappingBlock :=
  if fits m then
    .ok {
      registers := Vector.ofFn fun i => m.registers[i.val]?.getD unused
      textureCounts := m.textureCounts
      streamCounts := m.streamCounts
      textures := Vector.ofFn fun i =>
        m.textures[i.val]?.elim (unused, unused) fun t => (UInt8.ofNat t.source.tag, t.index)
      attributes := Vector.ofFn fun i =>
        m.attributes[i.val]?.elim (unused, unused) fun a => (UInt8.ofNat a.stream.tag, a.index) }
  else .error (.mappingTooLarge m.textures.length m.attributes.length m.registers.length)

/-- The entries before the first one that is unused. -/
def readTextures : List (UInt8 × UInt8) → Except Fault (List TextureUnit)
  | [] => .ok []
  | (tag, index) :: rest =>
    if tag = unused then .ok []
    else
      match TextureSource.ofTag? tag with
      | none => .error (.textureTag tag)
      | some source => (readTextures rest).map (⟨source, index⟩ :: ·)

def readAttributes : List (UInt8 × UInt8) → Except Fault (List AttributeArray)
  | [] => .ok []
  | (tag, index) :: rest =>
    if tag = unused then .ok []
    else
      match VertexStream.ofTag? tag with
      | none => .error (.streamTag tag)
      | some stream => (readAttributes rest).map (⟨stream, index⟩ :: ·)

def toMapping (b : MappingBlock) : Except Fault Mapping := do
  let textures ← readTextures b.textures.toList
  let attributes ← readAttributes b.attributes.toList
  .ok {
    textures := textures
    attributes := attributes
    textureCounts := b.textureCounts
    streamCounts := b.streamCounts
    registers := b.registers.toList.takeWhile (· != unused) }

end MappingBlock

end MaterialGraph
