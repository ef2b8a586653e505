import Mathlib.Data.List.Count
import Mathlib.Data.List.Nodup
import MaterialGraph.Proofs.Mapping.Streams

/-!
The units and the counters of a mapping. The textures of a usage come before its
frame buffers, and a counter has the number of arrays of its stream as long as a
byte can hold it; a stream that is bound for every index is counted as empty.
-/

namespace MaterialGraph

theorem VertexStream.tag_injective {s s' : VertexStream} (h : s.tag = s'.tag) : s = s' := by
  cases s <;> cases s' <;> first | rfl | exact absurd h (by decide)

theorem Limits.le_of_check {l : Limits} (h : l.check = .ok ()) {e : String × Nat}
    (he : e ∈ l.named) : e.2 ≤ 254 := by
  unfold check at h
  split at h
  · cases h
  · next hnone =>
    have hentry := List.find?_eq_none.1 hnone e he
    simp only [Bool.or_eq_true, decide_eq_true_eq, not_or] at hentry
    omega

theorem Limits.maxAttribArrays_le {l : Limits} (h : l.check = .ok ()) :
    l.maxAttribArrays ≤ 254 :=
  le_of_check h (e := ("max_attrib_arrays", l.maxAttribArrays)) (by simp [named])

theorem Limits.maxTextures_le {l : Limits} (h : l.check = .ok ()) : l.maxTextures ≤ 254 :=
  le_of_check h (e := ("max_textures", l.maxTextures)) (by simp [named])

/-- There are as many bytes as there are numbers below 256. -/
theorem length_eq_of_forall_mem {l : List UInt8} (hnodup : l.Nodup) (h : ∀ i, i ∈ l) :
    l.length = 256 := by
  have hperm : (l.map UInt8.toNat).Perm (List.range 256) := by
    refine (List.perm_ext_iff_of_nodup (hnodup.map fun _ _ => UInt8.toNat_inj.1)
      List.nodup_range).2 fun n => ?_
    rw [List.mem_map, List.mem_range]
    constructor
    · rintro ⟨i, -, rfl⟩
      exact i.toNat_lt
    · intro hn
      exact ⟨UInt8.ofNat n, h _, UInt8.toNat_ofNat_of_lt' hn⟩
  rw [← List.length_map (f := UInt8.toNat), hperm.length_eq, List.length_range]

/-- A counter in an array of byte counters, after one of them counts one more. -/
theorem toNat_getElem_bump {n : Nat} (counts : Vector UInt8 n) (i j : Fin n) :
    ((counts.set i (counts[i] + 1))[j]).toNat =
      if i = j then (counts[j].toNat + 1) % 256 else counts[j].toNat := by
  by_cases h : i = j
  · subst h
    simp
  · have hne : i.val ≠ j.val := fun heq => h (Fin.ext heq)
    simp only [Fin.getElem_fin, Vector.getElem_set_ne _ _ hne, if_neg h]

namespace Mapping

variable {m b : Mapping} {u : Usage} {pass : Pass} {v : Variant} {l l' : Limits}
  {material : Material} {t : TexCoordTable}

section Textures

theorem textures_pushTextures (m : Mapping) (source : TextureSource) (indices : List UInt8) :
    (m.pushTextures source indices).textures =
      m.textures ++ indices.map (TextureUnit.mk source) := by
  induction indices generalizing m with
  | nil => simp [pushTextures]
  | cons i rest ih =>
    rw [pushTextures, List.foldl_cons, ← pushTextures, ih]
    simp [pushTexture]

theorem textures_pushAttributes (m : Mapping) (stream : VertexStream) (indices : List UInt8) :
    (m.pushAttributes stream indices).textures = m.textures := by
  induction indices generalizing m with
  | nil => rfl
  | cons i rest ih =>
    rw [pushAttributes, List.foldl_cons, ← pushAttributes, ih]
    rfl

theorem textures_pushStreams (streams : List (VertexStream × IndexSet)) (m : Mapping) :
    (streams.foldl (fun m s => m.pushAttributes s.1 s.2.toList) m).textures = m.textures := by
  induction streams generalizing m with
  | nil => rfl
  | cons s rest ih => rw [List.foldl_cons, ih, textures_pushAttributes]

/-- A base mapping has a unit for every texture and every frame buffer. -/
theorem textures_base (h : base u pass v l = .ok b) :
    b.textures = (u.indices .texture).toList.map (TextureUnit.mk .texture) ++
      (u.indices .framebuffer).toList.map (TextureUnit.mk .framebuffer) := by
  obtain ⟨-, -, -, rfl⟩ := base_eq_ok h
  rw [textures_pushStreams, textures_pushTextures, textures_pushTextures]
  rfl

theorem textures_full (h : full b u material l = .ok (m, t)) : m.textures = b.textures := by
  obtain ⟨-, -, rfl⟩ := full_eq_ok h
  exact textures_pushAttributes ..

theorem exists_textureUnit? {source : TextureSource} {index : UInt8}
    (h : ⟨source, index⟩ ∈ m.textures) :
    ∃ unit < m.textures.length, m.textureUnit? source index = some unit := by
  cases hunit : m.textureUnit? source index with
  | none => exact absurd h (List.idxOf?_eq_none_iff.1 hunit)
  | some unit => exact ⟨unit, (List.findIdx?_eq_some_iff_findIdx_eq.1 hunit).1, rfl⟩

end Textures

section Channels

/-- A base mapping has no arrays for texture coordinates. -/
theorem count_texCoords_base (h : base u pass v l = .ok b) (channel : UInt8) :
    b.attributes.count ⟨.texCoords, channel⟩ = 0 := by
  apply List.count_eq_zero.2
  rw [attributes_base h]
  intro hmem
  obtain ⟨s, hs, harray⟩ := List.mem_flatMap.1 hmem
  obtain ⟨index, -, heq⟩ := List.mem_map.1 harray
  have hstreams : ∀ s ∈ u.streams pass v, s.1 ≠ .texCoords := by
    simp [Usage.streams]
  exact hstreams s hs (congrArg AttributeArray.stream heq)

/-- A full mapping adds one array for every channel that a register reads. -/
theorem count_texCoords_full (h : full b u material l = .ok (m, t)) {c : UInt8}
    (hc : c ∈ t.canonicals) :
    m.attributes.count ⟨.texCoords, (material.stage c).uv⟩ =
      b.attributes.count ⟨.texCoords, (material.stage c).uv⟩ + 1 := by
  have hchannel : (material.stage c).uv ∈ channels material t.canonicals :=
    IndexSet.mem_ofList_iff.2 (List.mem_map_of_mem hc)
  have hinjective : Function.Injective (AttributeArray.mk .texCoords) := by
    intro i j hij
    exact congrArg AttributeArray.index hij
  rw [attributes_full h, List.count_append, List.count_map_of_injective _ _ hinjective,
    List.count_eq_one_of_mem (IndexSet.nodup _) hchannel]

end Channels

section Counters

/-- Whether the counters follow the arrays, counting in bytes. -/
def Counted (m : Mapping) : Prop :=
  ∀ stream, m.streamCount stream = (m.streamIndices stream).length % 256

/-- Whether no stream has more arrays than a byte can count. A counter that is at the
largest byte starts again from zero, and the mapping is made all the same. -/
def Countable (m : Mapping) : Prop :=
  ∀ stream, (m.streamIndices stream).length ≤ 255

theorem Counted.streamCount_eq (h : m.Counted) {stream : VertexStream}
    (hm : (m.streamIndices stream).length ≤ 255) :
    m.streamCount stream = (m.streamIndices stream).length := by
  rw [h stream]
  omega

/-- The counter of a stream that is bound for every index has come back to zero. -/
theorem Counted.streamCount_eq_zero (h : m.Counted) {stream : VertexStream}
    (hnodup : (m.streamIndices stream).Nodup) (hall : ∀ i, i ∈ m.streamIndices stream) :
    m.streamCount stream = 0 := by
  rw [h stream, length_eq_of_forall_mem hnodup hall]

theorem Counted.default : (default : Mapping).Counted := by
  intro stream
  cases stream <;> rfl

theorem Counted.pushTextures (h : m.Counted) (source : TextureSource) (indices : List UInt8) :
    (m.pushTextures source indices).Counted := by
  induction indices generalizing m with
  | nil => exact h
  | cons i rest ih => exact ih h

theorem streamIndices_pushAttribute (m : Mapping) (stream other : VertexStream) (index : UInt8) :
    (m.pushAttribute stream index).streamIndices other =
      m.streamIndices other ++ if stream = other then [index] else [] := by
  simp only [streamIndices, pushAttribute, List.filter_append, List.map_append]
  by_cases hother : stream = other <;> simp [hother]

theorem streamCount_pushAttribute (m : Mapping) (stream other : VertexStream) (index : UInt8) :
    (m.pushAttribute stream index).streamCount other =
      if stream = other then (m.streamCount other + 1) % 256 else m.streamCount other := by
  have htag : stream.tag = other.tag ↔ stream = other :=
    ⟨VertexStream.tag_injective, congrArg VertexStream.tag⟩
  have hbump := toNat_getElem_bump m.streamCounts stream.tag other.tag
  simp only [htag] at hbump
  exact hbump

theorem Counted.pushAttribute (h : m.Counted) (stream : VertexStream) (index : UInt8) :
    (m.pushAttribute stream index).Counted := by
  intro other
  have hcount := h other
  rw [streamCount_pushAttribute, streamIndices_pushAttribute]
  by_cases hother : stream = other
  · rw [if_pos hother, if_pos hother, List.length_append, List.length_singleton]
    omega
  · rw [if_neg hother, if_neg hother, List.append_nil]
    exact hcount

theorem Counted.pushAttributes (h : m.Counted) (stream : VertexStream) (indices : List UInt8) :
    (m.pushAttributes stream indices).Counted := by
  induction indices generalizing m with
  | nil => exact h
  | cons i rest ih => exact ih (h.pushAttribute stream i)

theorem Counted.pushStreams (h : m.Counted) (streams : List (VertexStream × IndexSet)) :
    Counted (streams.foldl (fun m s => m.pushAttributes s.1 s.2.toList) m) := by
  induction streams generalizing m with
  | nil => exact h
  | cons s rest ih => exact ih (h.pushAttributes s.1 s.2.toList)

theorem counted_base (h : base u pass v l = .ok b) : b.Counted := by
  obtain ⟨-, -, -, rfl⟩ := base_eq_ok h
  exact ((Counted.default.pushTextures _ _).pushTextures _ _).pushStreams _

theorem counted_full (hbase : base u pass v l = .ok b)
    (hfull : full b u material l' = .ok (m, t)) : m.Counted := by
  obtain ⟨-, -, rfl⟩ := full_eq_ok hfull
  have hcounted : b.Counted := counted_base hbase
  exact Counted.pushAttributes (m := { b with registers := t.canonicals }) hcounted _ _

/-- Arrays that are few enough keep every counter from passing what it can hold. -/
theorem countable_of_length_le (h : m.attributes.length ≤ 255) : m.Countable := by
  intro stream
  have hfilter := List.length_filter_le (fun a : AttributeArray => a.stream = stream) m.attributes
  rw [streamIndices, List.length_map]
  omega

theorem countable_base (hl : l.check = .ok ()) (h : base u pass v l = .ok b) : b.Countable := by
  have hlimit := Limits.maxAttribArrays_le hl
  have hlength := length_attributes_base_le h
  exact countable_of_length_le (by omega)

theorem countable_full (hl : l.check = .ok ()) (h : full b u material l = .ok (m, t)) :
    m.Countable := by
  have hlimit := Limits.maxAttribArrays_le hl
  have hlength := length_attributes_full_le h
  exact countable_of_length_le (by omega)

/-- A stream whose source is used with every index is counted as empty. -/
theorem streamCount_eq_zero (hbase : base u pass v l = .ok b)
    (hfull : full b u material l' = .ok (m, t)) {s : NumberedSource}
    (hall : ∀ i, i ∈ u.indices s.source) : m.streamCount s.stream = 0 := by
  have hstream : s.stream ≠ .texCoords := by cases s <;> decide
  have hindices := (streamIndices_full hfull hstream).trans (streamIndices_base hbase s)
  apply (counted_full hbase hfull).streamCount_eq_zero
  · rw [hindices]
    exact IndexSet.nodup _
  · intro i
    rw [hindices]
    split
    · exact IndexSet.mem_insert.2 (.inr (hall i))
    · exact hall i

end Counters

end Mapping

end MaterialGraph
