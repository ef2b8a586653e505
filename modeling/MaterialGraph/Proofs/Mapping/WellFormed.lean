import Mathlib.Data.List.Nodup
import MaterialGraph.Proofs.Mapping.Counts
import MaterialGraph.Proofs.Mapping.Slots

/-!
Mappings whose slots are told apart and counted. A base mapping is well formed
within the limits it was made for, and a full mapping stays so. Main statement:
both are, for limits that a configuration may give.
-/

namespace MaterialGraph

/-- Textures come before frame buffers, and each kind by ascending index. -/
def TextureUnit.Before (a b : TextureUnit) : Prop :=
  a.source.tag < b.source.tag ∨ a.source = b.source ∧ a.index < b.index

/-- A mapping that keeps within limits, binds nothing twice, and of which the
counters have the numbers of slots that they count. -/
structure Mapping.WellFormed (m : Mapping) (l : Limits) : Prop where
  textures_le : m.textures.length ≤ l.maxTextures
  attributes_le : m.attributes.length ≤ l.maxAttribArrays
  registers_le : m.registers.length ≤ l.maxTexCoords
  textures_nodup : m.textures.Nodup
  attributes_nodup : m.attributes.Nodup
  registers_nodup : m.registers.Nodup
  textureCount_eq : ∀ source,
    m.textureCount source = (m.textures.filter fun t => t.source = source).length
  streamCount_eq : ∀ stream,
    m.streamCount stream = (m.attributes.filter fun a => a.stream = stream).length
  unit_iff : ∀ unit source index,
    m.texture? unit = some ⟨source, index⟩ ↔ m.textureUnit? source index = some unit
  textures_before : m.textures.Pairwise TextureUnit.Before
  first : m.attribute? 0 = some ⟨.vertices, 0⟩

theorem TextureSource.tag_injective {s s' : TextureSource} (h : s.tag = s'.tag) : s = s' := by
  cases s <;> cases s' <;> first | rfl | exact absurd h (by decide)

theorem TextureUnit.Before.ne {a b : TextureUnit} (h : a.Before b) : a ≠ b := by
  rintro rfl
  rcases h with htag | ⟨-, hindex⟩
  · exact Nat.lt_irrefl _ htag
  · exact UInt8.lt_irrefl _ hindex

theorem IndexSet.exists_toList_insert_zero (s : IndexSet) :
    ∃ rest, (s.insert 0).toList = 0 :: rest := by
  obtain ⟨indices, hascending⟩ := s
  change ∃ rest, insertByte 0 indices = 0 :: rest
  cases indices with
  | nil => exact ⟨[], rfl⟩
  | cons i rest =>
    by_cases hi : i = 0
    · exact ⟨rest, by simp [insertByte, hi]⟩
    · have hpos : 0 < i := UInt8.pos_iff_ne_zero.2 hi
      exact ⟨i :: rest, by simp [insertByte, hpos]⟩

namespace Mapping

variable {m b : Mapping} {u : Usage} {pass : Pass} {v : Variant} {l : Limits}
  {material : Material} {t : TexCoordTable}

section Textures

theorem textures_before_base (h : base u pass v l = .ok b) :
    b.textures.Pairwise TextureUnit.Before := by
  have hsame (source : TextureSource) (s : IndexSet) :
      (s.toList.map (TextureUnit.mk source)).Pairwise TextureUnit.Before :=
    List.pairwise_map.2 (s.ascending.imp fun hlt => .inr ⟨rfl, hlt⟩)
  rw [textures_base h]
  refine List.pairwise_append.2 ⟨hsame .texture _, hsame .framebuffer _, ?_⟩
  intro first hfirst second hsecond
  obtain ⟨i, -, rfl⟩ := List.mem_map.1 hfirst
  obtain ⟨j, -, rfl⟩ := List.mem_map.1 hsecond
  exact .inl Nat.zero_lt_one

theorem length_textures_base_le (h : base u pass v l = .ok b) :
    b.textures.length ≤ l.maxTextures := by
  obtain ⟨-, hle, -⟩ := base_eq_ok h
  rw [textures_base h, List.length_append, List.length_map, List.length_map]
  exact hle

/-- With nothing bound twice, a unit is that of what it is bound to. -/
theorem texture?_eq_some_iff (h : m.textures.Nodup) (unit : Nat) (source : TextureSource)
    (index : UInt8) :
    m.texture? unit = some ⟨source, index⟩ ↔ m.textureUnit? source index = some unit := by
  rw [texture?, textureUnit?, List.idxOf?_eq_some_iff, List.getElem?_eq_some_iff]
  constructor
  · rintro ⟨hlt, hget⟩
    refine ⟨hlt, hget, fun k hk hsame => ?_⟩
    have heq : k = unit := h.getElem_inj_iff.1 (hsame.trans hget.symm)
    omega
  · rintro ⟨hlt, hget, -⟩
    exact ⟨hlt, hget⟩

theorem textureCount_pushTexture (m : Mapping) (source other : TextureSource) (index : UInt8) :
    (m.pushTexture source index).textureCount other =
      if source = other then (m.textureCount other + 1) % 256 else m.textureCount other := by
  have htag : source.tag = other.tag ↔ source = other :=
    ⟨TextureSource.tag_injective, congrArg TextureSource.tag⟩
  have hbump := toNat_getElem_bump m.textureCounts source.tag other.tag
  simp only [htag] at hbump
  exact hbump

/-- Whether the counters of textures and frame buffers have the numbers of their units. -/
def UnitsCounted (m : Mapping) : Prop :=
  ∀ source, m.textureCount source = (m.textures.filter fun t => t.source = source).length

/-- As long as a byte can hold the number of units, a counter follows them. -/
theorem UnitsCounted.pushTexture (h : m.UnitsCounted) (source : TextureSource) (index : UInt8)
    (hlength : m.textures.length < 255) : (m.pushTexture source index).UnitsCounted := by
  intro other
  have hcount := h other
  have hle := List.length_filter_le (fun t : TextureUnit => t.source = other) m.textures
  rw [textureCount_pushTexture, Mapping.pushTexture, List.filter_append, List.length_append]
  by_cases hother : source = other
  · rw [if_pos hother, List.filter_singleton, decide_eq_true hother]
    change _ = _ + 1
    omega
  · rw [if_neg hother, List.filter_singleton, decide_eq_false hother]
    exact hcount

theorem UnitsCounted.pushTextures (h : m.UnitsCounted) (source : TextureSource)
    (indices : List UInt8) (hlength : m.textures.length + indices.length ≤ 255) :
    (m.pushTextures source indices).UnitsCounted := by
  induction indices generalizing m with
  | nil => exact h
  | cons i rest ih =>
    rw [List.length_cons] at hlength
    refine ih (h.pushTexture source i (by omega)) ?_
    change (m.textures ++ [_]).length + rest.length ≤ 255
    rw [List.length_append, List.length_singleton]
    omega

theorem UnitsCounted.pushAttributes (h : m.UnitsCounted) (stream : VertexStream)
    (indices : List UInt8) : (m.pushAttributes stream indices).UnitsCounted := by
  induction indices generalizing m with
  | nil => exact h
  | cons i rest ih => exact ih h

theorem UnitsCounted.pushStreams (h : m.UnitsCounted) (streams : List (VertexStream × IndexSet)) :
    UnitsCounted (streams.foldl (fun m s => m.pushAttributes s.1 s.2.toList) m) := by
  induction streams generalizing m with
  | nil => exact h
  | cons s rest ih => exact ih (h.pushAttributes s.1 s.2.toList)

theorem unitsCounted_base (hlimit : l.maxTextures ≤ 254) (h : base u pass v l = .ok b) :
    b.UnitsCounted := by
  obtain ⟨-, hle, -, rfl⟩ := base_eq_ok h
  have hempty : (default : Mapping).UnitsCounted := by
    intro source
    cases source <;> rfl
  change (u.indices .texture).toList.length + (u.indices .framebuffer).toList.length ≤ _ at hle
  have htextures : ((default : Mapping).pushTextures .texture
      (u.indices .texture).toList).UnitsCounted := by
    refine hempty.pushTextures _ _ ?_
    change 0 + _ ≤ _
    omega
  refine (htextures.pushTextures _ _ ?_).pushStreams _
  rw [textures_pushTextures, List.length_append, List.length_map]
  change 0 + _ + _ ≤ _
  omega

end Textures

section Attributes

theorem attributes_nodup_base (h : base u pass v l = .ok b) : b.attributes.Nodup := by
  have hinjective (stream : VertexStream) : Function.Injective (AttributeArray.mk stream) := by
    intro i j hij
    exact congrArg AttributeArray.index hij
  have hstreams : (u.streams pass v).Pairwise fun s s' => s.1 ≠ s'.1 := by
    simp [Usage.streams]
  rw [attributes_base h, List.nodup_flatMap]
  refine ⟨fun s _ => (IndexSet.nodup s.2).map (hinjective s.1), hstreams.imp ?_⟩
  intro s s' hne a ha ha'
  obtain ⟨i, -, rfl⟩ := List.mem_map.1 ha
  obtain ⟨j, -, heq⟩ := List.mem_map.1 ha'
  exact hne (congrArg AttributeArray.stream heq).symm

/-- The channels that the registers read are bound apart from the other streams. -/
theorem attributes_nodup_full (hbase : base u pass v l = .ok b)
    (hfull : full b u material l = .ok (m, t)) : m.attributes.Nodup := by
  have hinjective : Function.Injective (AttributeArray.mk .texCoords) := by
    intro i j hij
    exact congrArg AttributeArray.index hij
  rw [attributes_full hfull, List.nodup_append']
  refine ⟨attributes_nodup_base hbase, (IndexSet.nodup _).map hinjective, ?_⟩
  intro a ha hchannel
  obtain ⟨channel, -, rfl⟩ := List.mem_map.1 hchannel
  exact List.count_eq_zero.1 (count_texCoords_base hbase channel) ha

theorem first_base (h : base u pass v l = .ok b) :
    ∃ rest, b.attributes = ⟨.vertices, 0⟩ :: rest := by
  obtain ⟨rest, hrest⟩ := (u.indices .vertex).exists_toList_insert_zero
  rw [attributes_base h, Usage.streams, List.flatMap_cons, hrest]
  exact ⟨_, rfl⟩

end Attributes

section Registers

theorem registers_pushTextures (m : Mapping) (source : TextureSource) (indices : List UInt8) :
    (m.pushTextures source indices).registers = m.registers := by
  induction indices generalizing m with
  | nil => rfl
  | cons i rest ih => exact ih _

theorem registers_pushStreams (streams : List (VertexStream × IndexSet)) (m : Mapping) :
    (streams.foldl (fun m s => m.pushAttributes s.1 s.2.toList) m).registers = m.registers := by
  induction streams generalizing m with
  | nil => rfl
  | cons s rest ih => rw [List.foldl_cons, ih, registers_pushAttributes]

/-- A base mapping has no registers. -/
theorem registers_base (h : base u pass v l = .ok b) : b.registers = [] := by
  obtain ⟨-, -, -, rfl⟩ := base_eq_ok h
  rw [registers_pushStreams, registers_pushTextures, registers_pushTextures]
  rfl

/-- The registers of a full mapping are those of indices that lead themselves. -/
theorem registers_eq_leaders (h : full b u material l = .ok (m, t)) :
    m.registers = TexCoordTable.leaders material (u.indices .texCoord).toList := by
  obtain ⟨hregisters, htable⟩ := registers_full h
  rw [hregisters, TexCoordTable.canonicals_ofUsage htable]

theorem length_registers_le (h : full b u material l = .ok (m, t)) :
    m.registers.length ≤ l.maxTexCoords := by
  obtain ⟨-, htable⟩ := registers_full h
  rw [registers_eq_leaders h]
  exact Nat.le_trans (TexCoordTable.length_leaders_le_limit htable) (Nat.min_le_left _ _)

end Registers

theorem Counted.streamCount_eq_filter (h : m.Counted) (hm : m.Countable) (stream : VertexStream) :
    m.streamCount stream = (m.attributes.filter fun a => a.stream = stream).length := by
  rw [h.streamCount_eq (hm stream), streamIndices, List.length_map]

/-- The units of a full mapping are those of its base. -/
theorem UnitsCounted.full (hb : b.UnitsCounted) (h : Mapping.full b u material l = .ok (m, t)) :
    m.UnitsCounted := by
  obtain ⟨-, -, rfl⟩ := full_eq_ok h
  exact UnitsCounted.pushAttributes (m := { b with registers := t.canonicals }) hb _ _

theorem wellFormed_base (hl : l.check = .ok ()) (h : base u pass v l = .ok b) :
    b.WellFormed l := by
  have hbefore := textures_before_base h
  have hnodup : b.textures.Nodup := hbefore.imp TextureUnit.Before.ne
  have hregisters : b.registers = [] := registers_base h
  obtain ⟨rest, hfirst⟩ := first_base h
  exact {
    textures_le := length_textures_base_le h
    attributes_le := length_attributes_base_le h
    registers_le := by rw [hregisters]; exact Nat.zero_le _
    textures_nodup := hnodup
    attributes_nodup := attributes_nodup_base h
    registers_nodup := by rw [hregisters]; exact List.nodup_nil
    textureCount_eq := unitsCounted_base (Limits.maxTextures_le hl) h
    streamCount_eq := (counted_base h).streamCount_eq_filter (countable_base hl h)
    unit_iff := texture?_eq_some_iff hnodup
    textures_before := hbefore
    first := by rw [attribute?, hfirst]; rfl }

theorem wellFormed_full (hl : l.check = .ok ()) (hbase : base u pass v l = .ok b)
    (hfull : full b u material l = .ok (m, t)) : m.WellFormed l := by
  have hb : b.WellFormed l := wellFormed_base hl hbase
  have htextures : m.textures = b.textures := textures_full hfull
  obtain ⟨rest, hfirst⟩ := first_base hbase
  exact {
    textures_le := htextures ▸ hb.textures_le
    attributes_le := length_attributes_full_le hfull
    registers_le := length_registers_le hfull
    textures_nodup := htextures ▸ hb.textures_nodup
    attributes_nodup := attributes_nodup_full hbase hfull
    registers_nodup := by
      rw [registers_eq_leaders hfull]
      exact (IndexSet.nodup _).filter _
    textureCount_eq := (unitsCounted_base (Limits.maxTextures_le hl) hbase).full hfull
    streamCount_eq := (counted_full hbase hfull).streamCount_eq_filter (countable_full hl hfull)
    unit_iff := texture?_eq_some_iff (htextures ▸ hb.textures_nodup)
    textures_before := htextures ▸ hb.textures_before
    first := by rw [attribute?, attributes_full hfull, hfirst]; rfl }

/-- Within limits that a configuration may give, what is mapped is well formed, before
a material is known and after. -/
theorem wellFormed_of_checked (hl : l.check = .ok ()) (hbase : base u pass v l = .ok b) :
    b.WellFormed l ∧
      ∀ material m t, full b u material l = .ok (m, t) → m.WellFormed l :=
  ⟨wellFormed_base hl hbase, fun _ _ _ hfull => wellFormed_full hl hbase hfull⟩

/-- Two textures, a frame buffer, streams that a tangent basis and a reflection force,
and three coordinate indices, two of which share a register. -/
def crowded : Usage :=
  .ofLeaves [⟨.texture, 5⟩, ⟨.framebuffer, 0⟩, ⟨.texture, 2⟩, ⟨.normal, 3⟩, ⟨.lightTanVec, 1⟩,
    ⟨.texCoord, 0⟩, ⟨.texCoord, 1⟩, ⟨.texCoord, 2⟩]

def mirrored : Material where
  skinMode := .sprite
  textures := [{}, {}, { uv := 3, gen := .envmap }]

theorem wellFormed_of_checked_crowded :
    ∃ b m t, base crowded .default mirrored.variant {} = .ok b ∧
      full b crowded mirrored {} = .ok (m, t) ∧ b.WellFormed {} ∧ m.WellFormed {} ∧
      m.textures = [⟨.texture, 2⟩, ⟨.texture, 5⟩, ⟨.framebuffer, 0⟩] ∧
      m.attributes = [⟨.vertices, 0⟩, ⟨.normals, 0⟩, ⟨.normals, 3⟩, ⟨.tangents, 0⟩,
        ⟨.spriteSkin, 0⟩, ⟨.texCoords, 0⟩, ⟨.texCoords, 3⟩] ∧
      m.registers = [0, 2] := by
  obtain ⟨b, hbase⟩ : ∃ b, base crowded .default mirrored.variant {} = .ok b := ⟨_, rfl⟩
  obtain ⟨hb, hm⟩ := wellFormed_of_checked rfl hbase
  cases hbase
  exact ⟨_, _, _, rfl, rfl, hb, hm mirrored _ _ rfl, rfl, rfl, rfl⟩

end Mapping

end MaterialGraph
