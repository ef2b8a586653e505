import MaterialGraph.Body.Accessor
import MaterialGraph.Proofs.Mapping.Assign

/-!
Texts of leaves and the arrays they read. Normals, tangents and vertex colors
are read by number, and the arrays of a stream are numbered in the order in
which the mapping binds them. Main statement: when the number in the text of a
leaf is the number of the array bound for its index.
-/

namespace MaterialGraph

/-- The sources whose texts number the arrays of a stream. -/
inductive NumberedSource
  | normal | tangent | vertexColor
deriving DecidableEq, Inhabited

namespace NumberedSource

def source : NumberedSource → MaterialSource
  | normal => .normal
  | tangent => .tangent
  | vertexColor => .vertexColor

def stream : NumberedSource → VertexStream
  | normal => .normals
  | tangent => .tangents
  | vertexColor => .vertexColor

/-- The text that reads the array of a number. -/
def read (s : NumberedSource) (k : Nat) : String :=
  match s with
  | normal => "normalize(IN(nm" ++ toString k ++ "))"
  | tangent => "IN(tan" ++ toString k ++ ")"
  | vertexColor => "IN(vertexColor" ++ toString k ++ ")"

theorem toString_injective {j k : Nat} (h : toString j = toString k) : j = k := by
  have hdigits : Nat.toDigits 10 j = Nat.toDigits 10 k := by
    simpa [toString, Nat.repr] using congrArg String.toList h
  rw [← Nat.ofDigitChars_ten_toDigits (n := j), hdigits, Nat.ofDigitChars_ten_toDigits]

theorem read_injective {s : NumberedSource} {j k : Nat} (h : s.read j = s.read k) : j = k := by
  apply toString_injective
  cases s <;> exact (String.append_right_inj _).1 ((String.append_left_inj _).1 h)

end NumberedSource

/-- Whether a stream is bound for index 0 without being referred to. -/
def Usage.forces (u : Usage) (v : Variant) : NumberedSource → Bool
  | .normal => u.needsTangentBasis || v.genReflect
  | .tangent => u.needsTangentBasis
  | .vertexColor => false

namespace IndexSet

theorem toList_insert_zero (s : IndexSet) :
    (s.insert 0).toList = if 0 ∈ s then s.toList else 0 :: s.toList := by
  obtain ⟨indices, hascending⟩ := s
  change insertByte 0 indices = if 0 ∈ indices then indices else 0 :: indices
  cases indices with
  | nil => rfl
  | cons i rest =>
    by_cases hi : i = 0
    · simp [insertByte, hi]
    · have hpos : 0 < i := UInt8.pos_iff_ne_zero.2 hi
      have hrest : 0 ∉ rest := fun hmem =>
        UInt8.not_lt_zero ((List.pairwise_cons.1 hascending).1 0 hmem)
      simp [insertByte, hpos, hrest, Ne.symm hi]

theorem idxOf?_of_mem {l : List UInt8} {i : UInt8} (h : i ∈ l) :
    l.idxOf? i = some (l.idxOf i) := by
  cases hi : l.idxOf? i with
  | none => exact absurd h (List.idxOf?_eq_none_iff.1 hi)
  | some k => rw [List.idxOf_eq_getD_idxOf?, hi, Option.getD_some]

/-- No index is before index 0. -/
theorem position?_zero {s : IndexSet} (h : 0 ∈ s) : s.position? 0 = some 0 := by
  obtain ⟨indices, hascending⟩ := s
  change 0 ∈ indices at h
  change indices.idxOf? 0 = some 0
  cases indices with
  | nil => cases h
  | cons i rest =>
    rcases List.mem_cons.1 h with rfl | hrest
    · simp [List.idxOf?_cons]
    · exact absurd ((List.pairwise_cons.1 hascending).1 0 hrest) UInt8.not_lt_zero

end IndexSet

namespace Mapping

/-- The indices that a stream is bound for, in the order of its arrays. -/
def streamIndices (m : Mapping) (stream : VertexStream) : List UInt8 :=
  (m.attributes.filter fun a => a.stream = stream).map AttributeArray.index

/-- The number of the array that is bound for an index of a stream. -/
def position? (m : Mapping) (stream : VertexStream) (i : UInt8) : Option Nat :=
  (m.streamIndices stream).idxOf? i

variable {m b : Mapping} {u : Usage} {pass : Pass} {v : Variant} {l : Limits}
  {material : Material} {t : TexCoordTable} {s : NumberedSource} {i : UInt8}

theorem streamIndices_of_attributes {streams : List (VertexStream × IndexSet)}
    (h : m.attributes = streams.flatMap fun s => s.2.toList.map (AttributeArray.mk s.1))
    (stream : VertexStream) :
    m.streamIndices stream =
      (streams.filter fun s => s.1 = stream).flatMap fun s => s.2.toList := by
  rw [streamIndices, h]
  clear h
  induction streams with
  | nil => rfl
  | cons s rest ih =>
    rw [List.flatMap_cons, List.filter_append, List.map_append, ih, List.filter_cons]
    by_cases hs : s.1 = stream
    · simp [hs, List.filter_map, Function.comp_def]
    · simp [hs, List.filter_map, Function.comp_def]

theorem streamIndices_base (h : base u pass v l = .ok b) (s : NumberedSource) :
    b.streamIndices s.stream =
      (if u.forces v s then (u.indices s.source).insert 0 else u.indices s.source).toList := by
  rw [streamIndices_of_attributes (attributes_base h)]
  cases s
  · simp [Usage.streams, NumberedSource.stream]
    rfl
  · simp [Usage.streams, NumberedSource.stream]
    rfl
  · simp [Usage.streams, NumberedSource.stream]
    rfl

theorem streamIndices_full (h : full b u material l = .ok (m, t)) {stream : VertexStream}
    (hstream : stream ≠ .texCoords) : m.streamIndices stream = b.streamIndices stream := by
  simp [streamIndices, attributes_full h, List.filter_map, Function.comp_def, Ne.symm hstream]

/-- The array of an index comes one later if index 0 is bound only because it is forced. -/
theorem position?_full (hbase : base u pass v l = .ok b) (hfull : full b u material l = .ok (m, t))
    (hi : i ∈ u.indices s.source) :
    m.position? s.stream i = some (if u.forces v s ∧ 0 ∉ u.indices s.source
      then (u.indices s.source).toList.idxOf i + 1 else (u.indices s.source).toList.idxOf i) := by
  have hstream : s.stream ≠ .texCoords := by cases s <;> decide
  have hmem : i ∈ (u.indices s.source).toList := hi
  rw [position?, streamIndices_full hfull hstream, streamIndices_base hbase]
  by_cases hforces : u.forces v s
  · rw [if_pos hforces, IndexSet.toList_insert_zero]
    by_cases hzero : 0 ∈ u.indices s.source
    · simp [hzero, IndexSet.idxOf?_of_mem hmem]
    · have hne : (0 == i) = false := beq_eq_false_iff_ne.2 fun heq => hzero (heq ▸ hi)
      simp [hzero, hforces, List.idxOf?_cons, hne, IndexSet.idxOf?_of_mem hmem]
  · simp [hforces, IndexSet.idxOf?_of_mem hmem]

end Mapping

namespace Accessors

variable {m b : Mapping} {u : Usage} {pass : Pass} {v : Variant} {l : Limits}
  {material : Material} {t : TexCoordTable} {s : NumberedSource} {i : UInt8}

/-- The number in a text is the position among the indices in use. -/
theorem text_numbered (m : Mapping) (t : TexCoordTable) (hi : i ∈ u.indices s.source) :
    (Accessors.mk u m t).text ⟨s.source, i⟩ =
      .ok (s.read ((u.indices s.source).toList.idxOf i)) := by
  generalize hk : (u.indices s.source).toList.idxOf i = k
  have hposition : (u.indices s.source).position? i = some k :=
    hk ▸ IndexSet.idxOf?_of_mem hi
  cases s
  all_goals simp only [text, NumberedSource.source] at hposition ⊢
  all_goals rw [hposition]
  · change Except.ok ("normalize(" ++ ("IN(" ++ ("nm" ++ toString k) ++ ")") ++ ")") =
      .ok ("normalize(IN(nm" ++ toString k ++ "))")
    simp only [String.append_assoc]
    rfl
  · change Except.ok ("IN(" ++ ("tan" ++ toString k) ++ ")") = .ok ("IN(tan" ++ toString k ++ ")")
    simp only [String.append_assoc]
    rfl
  · change Except.ok ("IN(" ++ ("vertexColor" ++ toString k) ++ ")") =
      .ok ("IN(vertexColor" ++ toString k ++ ")")
    simp only [String.append_assoc]
    rfl

/-- A leaf with a numbered text reads the array bound for its index, unless
index 0 is not in use and bound all the same; then it reads the array before. -/
theorem text_reads_position (hbase : Mapping.base u pass v l = .ok b)
    (hfull : Mapping.full b u material l = .ok (m, t)) (hi : i ∈ u.indices s.source) :
    (∃ k, (Accessors.mk u m t).text ⟨s.source, i⟩ = .ok (s.read k)) ∧
      ∀ k, (Accessors.mk u m t).text ⟨s.source, i⟩ = .ok (s.read k) →
        m.position? s.stream i =
            some (if u.forces v s ∧ 0 ∉ u.indices s.source then k + 1 else k) ∧
          (m.position? s.stream i = some k ↔ ¬(u.forces v s ∧ 0 ∉ u.indices s.source)) := by
  have htext := text_numbered m t hi
  refine ⟨⟨_, htext⟩, fun k hk => ?_⟩
  obtain rfl : (u.indices s.source).toList.idxOf i = k :=
    NumberedSource.read_injective (Except.ok.inj (htext.symm.trans hk))
  have hposition := Mapping.position?_full hbase hfull hi
  refine ⟨hposition, ?_⟩
  rw [hposition]
  split <;> simp_all

def normals (indices : List UInt8) : Usage :=
  .ofLeaves (indices.map (Leaf.mk .normal))

/-- The mapping of normals 1 under a reflection, which binds normals 0 as well. -/
def reflected : Mapping where
  attributes := [⟨.vertices, 0⟩, ⟨.normals, 0⟩, ⟨.normals, 1⟩]
  streamCounts := #v[1, 2, 0, 0, 0, 0]

theorem text_reads_position_normals :
    Mapping.base (normals [0, 1]) .default ⟨.default, true⟩ {} = .ok reflected ∧
      reflected.full (normals [0, 1]) {} {} = .ok (reflected, ⟨[]⟩) ∧
      1 ∈ (normals [0, 1]).indices .normal ∧
      (Accessors.mk (normals [0, 1]) reflected ⟨[]⟩).text ⟨.normal, 1⟩ = .ok "normalize(IN(nm1))" ∧
      reflected.position? .normals 1 = some 1 := by
  have hbase : Mapping.base (normals [0, 1]) .default ⟨.default, true⟩ {} = .ok reflected := rfl
  have hfull : reflected.full (normals [0, 1]) {} {} = .ok (reflected, ⟨[]⟩) := rfl
  refine ⟨hbase, hfull, by decide, rfl, ?_⟩
  exact ((text_reads_position (s := .normal) (i := 1) hbase hfull (by decide)).2 1 rfl).2.2
    (by decide)

/-- With normals 0 not in use, the text of normals 1 reads the array bound for normals 0. -/
theorem text_normal_ne_position :
    Mapping.base (normals [1]) .default ⟨.default, true⟩ {} = .ok reflected ∧
      reflected.full (normals [1]) {} {} = .ok (reflected, ⟨[]⟩) ∧
      1 ∈ (normals [1]).indices .normal ∧
      (Accessors.mk (normals [1]) reflected ⟨[]⟩).text ⟨.normal, 1⟩ = .ok "normalize(IN(nm0))" ∧
      reflected.position? .normals 1 = some 1 :=
  ⟨rfl, rfl, by decide, rfl, rfl⟩

end Accessors

end MaterialGraph
