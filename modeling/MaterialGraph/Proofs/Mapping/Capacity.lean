import MaterialGraph.Proofs.Failure
import MaterialGraph.Proofs.Mapping.Classes
import MaterialGraph.Proofs.Mapping.WellFormed

/-!
What a usage demands of the hardware. The demands are sizes of sets: an index that is
forced and in use counts once, and so does a channel that several coordinate indices
read. Main statement: a usage is mapped exactly if every demand is within its limit, and
otherwise the failure has the first demand that is not.
-/

namespace MaterialGraph

open TexCoordTable (classes)

/-- Limits with room for every index of every source. No configuration gives them. -/
def Limits.ample : Limits where
  maxTextures := 512
  maxAttribArrays := 1536
  maxLights := 256
  maxTexCoords := 256

theorem card_bytes_le (s : Finset UInt8) : s.card ≤ 256 := by
  have hinjective : Function.Injective UInt8.toNat := fun _ _ => UInt8.toNat_inj.1
  have hsubset : s.image UInt8.toNat ⊆ Finset.range 256 := by
    intro n hn
    obtain ⟨i, -, rfl⟩ := Finset.mem_image.1 hn
    exact Finset.mem_range.2 i.toNat_lt
  rw [← Finset.card_image_of_injective s hinjective, ← Finset.card_range 256]
  exact Finset.card_le_card hsubset

namespace IndexSet

theorem card_toFinset (s : IndexSet) : s.toFinset.card = s.size :=
  List.toFinset_card_of_nodup s.nodup

theorem toFinset_insert (s : IndexSet) (i : UInt8) : (s.insert i).toFinset = s.toFinset ∪ {i} := by
  ext j
  rw [mem_toFinset, mem_insert, Finset.mem_union, Finset.mem_singleton, mem_toFinset, or_comm]

theorem toFinset_ofList (l : List UInt8) : (ofList l).toFinset = l.toFinset := by
  ext j
  rw [mem_toFinset, mem_ofList_iff, List.mem_toFinset]

theorem mem_of_max? {s : IndexSet} {i : UInt8} (h : s.max? = some i) : i ∈ s :=
  List.mem_of_getLast? h

/-- The largest member of a set, if it is not below a limit. -/
theorem filter_max?_eq_some_iff {s : IndexSet} {limit : Nat} {i : UInt8} :
    (s.max?.filter fun i => limit ≤ i.toNat) = some i ↔
      IsGreatest {j | j ∈ s} i ∧ limit ≤ i.toNat := by
  rw [Option.filter_eq_some_iff, decide_eq_true_eq]
  refine and_congr_left fun _ => ⟨fun h => ⟨mem_of_max? h, fun j hj => ?_⟩, fun h => ?_⟩
  · obtain ⟨k, hk, hle⟩ := le_max? hj
    rwa [← Option.some.inj (hk.symm.trans h)]
  · obtain ⟨k, hk, hle⟩ := le_max? h.1
    rw [hk, UInt8.le_antisymm (h.2 (mem_of_max? hk)) hle]

theorem filter_max?_eq_none_iff {s : IndexSet} {limit : Nat} :
    (s.max?.filter fun i => limit ≤ i.toNat) = none ↔ ∀ i ∈ s, i.toNat < limit := by
  constructor
  · intro h i hi
    obtain ⟨j, hj, hle⟩ := le_max? hi
    have hle' := UInt8.le_iff_toNat_le.1 hle
    rw [hj, Option.filter_some] at h
    by_contra hnot
    have hbeyond : limit ≤ j.toNat := by omega
    simp [hbeyond] at h
  · intro h
    rw [Option.filter_eq_none_iff]
    intro i hi
    simpa using h i (mem_of_max? hi)

end IndexSet

namespace Usage

variable {u : Usage} {limit : Nat} {i : UInt8}

/-- Whether all lights in use are within a limit. -/
def LightsWithin (u : Usage) (limit : Nat) : Prop :=
  ∀ s : MaterialSource, s.isLight → ∀ i ∈ u.indices s, i.toNat < limit

/-- Whether an index is the greatest of a light source beyond a limit, where the sources
before it are within the limit. -/
def FirstBeyond (u : Usage) (limit : Nat) (i : UInt8) : Prop :=
  ∃ before s after, MaterialSource.lights = before ++ s :: after ∧
    (∀ s' ∈ before, ∀ j ∈ u.indices s', j.toNat < limit) ∧
    IsGreatest {j | j ∈ u.indices s} i ∧ limit ≤ i.toNat

theorem lightBeyond?_eq_none_iff : u.lightBeyond? limit = none ↔ u.LightsWithin limit := by
  simp only [lightBeyond?, List.findSome?_eq_none_iff, IndexSet.filter_max?_eq_none_iff,
    mem_lights_iff]
  rfl

theorem lightBeyond?_eq_some_iff : u.lightBeyond? limit = some i ↔ u.FirstBeyond limit i := by
  simp only [lightBeyond?, List.findSome?_eq_some_iff, IndexSet.filter_max?_eq_none_iff,
    IndexSet.filter_max?_eq_some_iff]
  constructor
  · rintro ⟨before, s, after, hlights, hbeyond, hbefore⟩
    exact ⟨before, s, after, hlights, hbefore, hbeyond⟩
  · rintro ⟨before, s, after, hlights, hbefore, hbeyond⟩
    exact ⟨before, s, after, hlights, hbeyond, hbefore⟩

/-- The texture units that a usage demands. -/
def textureDemand (u : Usage) : Nat :=
  (u.indices .texture).toFinset.card + (u.indices .framebuffer).toFinset.card

/-- The index that is bound under a condition. -/
def forced (condition : Bool) : Finset UInt8 :=
  if condition then {0} else ∅

/-- The indices of a sprite skin, which is bound unless a pass is a preview. -/
def spriteSkins (u : Usage) (pass : Pass) (v : Variant) : Finset UInt8 :=
  if pass ≠ .preview ∧ v.skinMode = .sprite then (u.indices .spriteSkin).toFinset ∪ {0} else ∅

/-- The attribute arrays that a usage demands apart from those of coordinate channels. -/
def attributeDemand (u : Usage) (pass : Pass) (v : Variant) : Nat :=
  ((u.indices .vertex).toFinset ∪ {0}).card +
    ((u.indices .normal).toFinset ∪ forced (u.needsTangentBasis || v.genReflect)).card +
    ((u.indices .tangent).toFinset ∪ forced u.needsTangentBasis).card +
    (u.indices .vertexColor).toFinset.card + (u.spriteSkins pass v).card

/-- The channels that the coordinate indices in use read. -/
def channelDemand (u : Usage) (m : Material) : Nat :=
  ((u.indices .texCoord).toFinset.image fun i => (m.stage i).uv).card

theorem size_forced (condition : Bool) (s : IndexSet) :
    (if condition then s.insert 0 else s).size = (s.toFinset ∪ forced condition).card := by
  cases condition with
  | false => rw [forced, if_neg Bool.false_ne_true, if_neg Bool.false_ne_true, Finset.union_empty,
      IndexSet.card_toFinset]
  | true => rw [forced, if_pos rfl, if_pos rfl, ← IndexSet.toFinset_insert, IndexSet.card_toFinset]

theorem sum_streams (u : Usage) (pass : Pass) (v : Variant) :
    ((u.streams pass v).map fun s => s.2.size).sum = u.attributeDemand pass v := by
  have hnormals := size_forced (u.needsTangentBasis || v.genReflect) (u.indices .normal)
  have htangents := size_forced u.needsTangentBasis (u.indices .tangent)
  have hskins : (if pass != .preview && v.skinMode == .sprite then
      (u.indices .spriteSkin).insert 0 else .empty : IndexSet).size =
        (u.spriteSkins pass v).card := by
    have hiff : (pass != .preview && v.skinMode == .sprite) = true ↔
        pass ≠ .preview ∧ v.skinMode = .sprite := by simp
    simp only [spriteSkins, hiff]
    split
    · rw [← IndexSet.toFinset_insert, IndexSet.card_toFinset]
    · rfl
  have hvertices : ((u.indices .vertex).insert 0).size =
      ((u.indices .vertex).toFinset ∪ {0}).card := by
    rw [← IndexSet.toFinset_insert, IndexSet.card_toFinset]
  rw [attributeDemand, ← hvertices, ← hnormals, ← htangents, ← hskins, IndexSet.card_toFinset]
  change _ + (_ + (_ + (_ + (_ + 0)))) = _
  simp only [Nat.add_zero, Nat.add_assoc]
  rfl

end Usage

namespace Mapping

variable {m b : Mapping} {u : Usage} {pass : Pass} {v : Variant} {material : Material} {l : Limits}
  {t : TexCoordTable} {i : UInt8}

section Base

theorem base_of_lights (h : u.FirstBeyond l.maxLights i) :
    base u pass v l = .error (.lightLimit i l.maxLights) := by
  simp only [base, Usage.lightBeyond?_eq_some_iff.2 h]

variable (hlights : u.LightsWithin l.maxLights)
include hlights

theorem base_of_textures (h : l.maxTextures < u.textureDemand) :
    base u pass v l = .error (.textureLimit u.textureDemand l.maxTextures) := by
  rw [Usage.textureDemand, IndexSet.card_toFinset, IndexSet.card_toFinset] at h ⊢
  simp only [base, Usage.lightBeyond?_eq_none_iff.2 hlights]
  exact if_pos h

variable (htextures : u.textureDemand ≤ l.maxTextures)
include htextures

theorem base_of_attributes (h : l.maxAttribArrays < u.attributeDemand pass v) :
    base u pass v l = .error (.attributeLimit (u.attributeDemand pass v) l.maxAttribArrays) := by
  rw [Usage.textureDemand, IndexSet.card_toFinset, IndexSet.card_toFinset] at htextures
  rw [← Usage.sum_streams] at h ⊢
  simp only [base, Usage.lightBeyond?_eq_none_iff.2 hlights, ← List.sum_eq_foldl_nat]
  exact (if_neg (Nat.not_lt.2 htextures)).trans (if_pos h)

theorem exists_base (h : u.attributeDemand pass v ≤ l.maxAttribArrays) :
    ∃ b, base u pass v l = .ok b := by
  rw [Usage.textureDemand, IndexSet.card_toFinset, IndexSet.card_toFinset] at htextures
  rw [← Usage.sum_streams] at h
  simp only [base, Usage.lightBeyond?_eq_none_iff.2 hlights, ← List.sum_eq_foldl_nat]
  exact ⟨_, (if_neg (Nat.not_lt.2 htextures)).trans (if_neg (Nat.not_lt.2 h))⟩

end Base

section Full

theorem length_attributes_base (h : base u pass v l = .ok b) :
    b.attributes.length = u.attributeDemand pass v := by
  rw [attributes_base h, List.length_flatMap, ← Usage.sum_streams]
  simp only [List.length_map]
  rfl

/-- The canonical indices read the channels that all indices in use read. -/
theorem size_channels (h : TexCoordTable.ofUsage u material l = .ok t) :
    (channels material t.canonicals).size = u.channelDemand material := by
  rw [← IndexSet.card_toFinset, channels, IndexSet.toFinset_ofList,
    TexCoordTable.canonicals_ofUsage h, Usage.channelDemand]
  congr 1
  ext channel
  simp only [List.mem_toFinset, List.mem_map, Finset.mem_image, IndexSet.mem_toFinset]
  constructor
  · rintro ⟨i, hi, rfl⟩
    exact ⟨i, TexCoordTable.mem_of_mem_leaders hi, rfl⟩
  · rintro ⟨i, hi, rfl⟩
    obtain ⟨huv, -⟩ := TexCoordTable.stage_leader material (u.indices .texCoord).toList i
    exact ⟨_, TexCoordTable.leader_mem_leaders hi, huv⟩

theorem full_of_registers
    (h : min l.maxTexCoords 255 < (classes material (u.indices .texCoord)).card) :
    full b u material l = .error (.texCoordLimit (classes material (u.indices .texCoord)).card
      (min l.maxTexCoords 255)) := by
  rw [full, TexCoordTable.ofUsage_eq, if_neg (Nat.not_le.2 h)]
  rfl

variable (hregisters : (classes material (u.indices .texCoord)).card ≤ min l.maxTexCoords 255)
include hregisters

theorem exists_table : ∃ t, TexCoordTable.ofUsage u material l = .ok t := by
  rw [TexCoordTable.ofUsage_eq, if_pos hregisters]
  exact ⟨_, rfl⟩

theorem full_of_channels (hbase : base u pass v l = .ok b)
    (h : l.maxAttribArrays < u.attributeDemand pass v + u.channelDemand material) :
    full b u material l = .error (.attributeLimit
      (u.attributeDemand pass v + u.channelDemand material) l.maxAttribArrays) := by
  obtain ⟨t, ht⟩ := exists_table hregisters
  rw [← length_attributes_base hbase, ← size_channels ht] at h ⊢
  rw [full, ht]
  exact if_pos h

theorem exists_full (hbase : base u pass v l = .ok b)
    (h : u.attributeDemand pass v + u.channelDemand material ≤ l.maxAttribArrays) :
    ∃ m t, full b u material l = .ok (m, t) := by
  obtain ⟨t, ht⟩ := exists_table hregisters
  rw [← length_attributes_base hbase, ← size_channels ht] at h
  rw [full, ht]
  exact ⟨_, t, if_neg (Nat.not_lt.2 h)⟩

end Full

/-- The mapping of a pass, for a variant and then for a material. -/
def mapped (u : Usage) (pass : Pass) (v : Variant) (material : Material) (l : Limits) :
    Except CompileError (Mapping × TexCoordTable) := do
  let b ← base u pass v l
  full b u material l

/-- Whether every demand of a usage is within its limit. -/
structure Fits (u : Usage) (pass : Pass) (v : Variant) (material : Material) (l : Limits) :
    Prop where
  lights : u.LightsWithin l.maxLights
  textures : u.textureDemand ≤ l.maxTextures
  attributes : u.attributeDemand pass v ≤ l.maxAttribArrays
  registers : (classes material (u.indices .texCoord)).card ≤ min l.maxTexCoords 255
  channels : u.attributeDemand pass v + u.channelDemand material ≤ l.maxAttribArrays

/-- Whether a failure has the first demand that is not within its limit. -/
inductive Exceeds (u : Usage) (pass : Pass) (v : Variant) (material : Material) (l : Limits) :
    CompileError → Prop
  | lights {i : UInt8} (h : u.FirstBeyond l.maxLights i) :
      Exceeds u pass v material l (.lightLimit i l.maxLights)
  | textures (hlights : u.LightsWithin l.maxLights) (h : l.maxTextures < u.textureDemand) :
      Exceeds u pass v material l (.textureLimit u.textureDemand l.maxTextures)
  | attributes (hlights : u.LightsWithin l.maxLights)
      (htextures : u.textureDemand ≤ l.maxTextures)
      (h : l.maxAttribArrays < u.attributeDemand pass v) :
      Exceeds u pass v material l (.attributeLimit (u.attributeDemand pass v) l.maxAttribArrays)
  | registers (hlights : u.LightsWithin l.maxLights)
      (htextures : u.textureDemand ≤ l.maxTextures)
      (hattributes : u.attributeDemand pass v ≤ l.maxAttribArrays)
      (h : min l.maxTexCoords 255 < (classes material (u.indices .texCoord)).card) :
      Exceeds u pass v material l (.texCoordLimit
        (classes material (u.indices .texCoord)).card (min l.maxTexCoords 255))
  | channels (hlights : u.LightsWithin l.maxLights)
      (htextures : u.textureDemand ≤ l.maxTextures)
      (hattributes : u.attributeDemand pass v ≤ l.maxAttribArrays)
      (hregisters : (classes material (u.indices .texCoord)).card ≤ min l.maxTexCoords 255)
      (h : l.maxAttribArrays < u.attributeDemand pass v + u.channelDemand material) :
      Exceeds u pass v material l (.attributeLimit
        (u.attributeDemand pass v + u.channelDemand material) l.maxAttribArrays)

theorem fits_or_exceeds (u : Usage) (pass : Pass) (v : Variant) (material : Material)
    (l : Limits) : Fits u pass v material l ∨ ∃ f, Exceeds u pass v material l f := by
  by_cases hlights : u.LightsWithin l.maxLights
  case neg =>
    cases hbeyond : u.lightBeyond? l.maxLights with
    | none => exact absurd (Usage.lightBeyond?_eq_none_iff.1 hbeyond) hlights
    | some i => exact .inr ⟨_, .lights (Usage.lightBeyond?_eq_some_iff.1 hbeyond)⟩
  rcases Nat.lt_or_ge l.maxTextures u.textureDemand with h | htextures
  · exact .inr ⟨_, .textures hlights h⟩
  rcases Nat.lt_or_ge l.maxAttribArrays (u.attributeDemand pass v) with h | hattributes
  · exact .inr ⟨_, .attributes hlights htextures h⟩
  rcases Nat.lt_or_ge (min l.maxTexCoords 255) (classes material (u.indices .texCoord)).card with
    h | hregisters
  · exact .inr ⟨_, .registers hlights htextures hattributes h⟩
  rcases Nat.lt_or_ge l.maxAttribArrays (u.attributeDemand pass v + u.channelDemand material) with
    h | hchannels
  · exact .inr ⟨_, .channels hlights htextures hattributes hregisters h⟩
  · exact .inl ⟨hlights, htextures, hattributes, hregisters, hchannels⟩

theorem mapped_of_base (h : base u pass v l = .ok b) :
    mapped u pass v material l = full b u material l := by
  rw [mapped, h]
  rfl

theorem mapped_of_base_error {f : CompileError} (h : base u pass v l = .error f) :
    mapped u pass v material l = .error f := by
  rw [mapped, h]
  rfl

theorem exists_mapped (h : Fits u pass v material l) :
    ∃ m t, mapped u pass v material l = .ok (m, t) := by
  obtain ⟨b, hbase⟩ := exists_base h.lights h.textures h.attributes
  rw [mapped_of_base hbase]
  exact exists_full h.registers hbase h.channels

section Ample

/-- Without texture coordinates, every usage fits into such limits. -/
theorem fits_ample (h : ∀ i, i ∉ u.indices .texCoord) : Fits u pass v material .ample := by
  have hattributes : u.attributeDemand pass v ≤ 1280 := by
    have hvertices := card_bytes_le ((u.indices .vertex).toFinset ∪ {0})
    have hnormals := card_bytes_le
      ((u.indices .normal).toFinset ∪ Usage.forced (u.needsTangentBasis || v.genReflect))
    have htangents := card_bytes_le
      ((u.indices .tangent).toFinset ∪ Usage.forced u.needsTangentBasis)
    have hcolors := card_bytes_le (u.indices .vertexColor).toFinset
    have hskins := card_bytes_le (u.spriteSkins pass v)
    unfold Usage.attributeDemand
    omega
  have htexCoords : (u.indices .texCoord).toFinset = ∅ :=
    Finset.eq_empty_of_forall_notMem fun i hi => h i (IndexSet.mem_toFinset.1 hi)
  refine ⟨fun s _ i _ => i.toNat_lt, ?textures, ?attributes, ?registers, ?channels⟩
  case textures =>
    have htextures := card_bytes_le (u.indices .texture).toFinset
    have hframebuffers := card_bytes_le (u.indices .framebuffer).toFinset
    change _ ≤ 512
    unfold Usage.textureDemand
    omega
  case attributes =>
    exact Nat.le_trans hattributes (by decide)
  case registers =>
    rw [classes, htexCoords, Finset.image_empty]
    exact Nat.zero_le _
  case channels =>
    rw [Usage.channelDemand, htexCoords, Finset.image_empty]
    exact Nat.le_trans hattributes (by decide)

end Ample

theorem mapped_of_exceeds {f : CompileError} (h : Exceeds u pass v material l f) :
    mapped u pass v material l = .error f := by
  cases h with
  | lights h => exact mapped_of_base_error (base_of_lights h)
  | textures hlights h => exact mapped_of_base_error (base_of_textures hlights h)
  | attributes hlights htextures h =>
    exact mapped_of_base_error (base_of_attributes hlights htextures h)
  | registers hlights htextures hattributes h =>
    obtain ⟨b, hbase⟩ := exists_base hlights htextures hattributes
    rw [mapped_of_base hbase, full_of_registers h]
  | channels hlights htextures hattributes hregisters h =>
    obtain ⟨b, hbase⟩ := exists_base hlights htextures hattributes
    rw [mapped_of_base hbase, full_of_channels hregisters hbase h]

/-- A mapping holds what is demanded, and its counters are exact. -/
theorem exact_of_mapped (hl : ∀ e ∈ l.named, e.2 ≤ 254)
    (h : mapped u pass v material l = .ok (m, t)) :
    m.textures.length = u.textureDemand ∧
      m.attributes.length = u.attributeDemand pass v + u.channelDemand material ∧
      t.registerCount = (classes material (u.indices .texCoord)).card ∧
      (∀ source, m.textureCount source = (m.textures.filter fun x => x.source = source).length) ∧
      ∀ stream, m.streamCount stream = (m.attributes.filter fun a => a.stream = stream).length := by
  have htextures : l.maxTextures ≤ 254 := hl ("max_textures", _) List.mem_cons_self
  have harrays : l.maxAttribArrays ≤ 254 :=
    hl ("max_attrib_arrays", _) (List.mem_cons_of_mem _ List.mem_cons_self)
  obtain ⟨b, hbase, hfull⟩ := Except.bind_eq_ok_iff.1 h
  obtain ⟨-, htable⟩ := registers_full hfull
  have hlength := length_attributes_full_le hfull
  refine ⟨?_, ?_, ?_, (unitsCounted_base htextures hbase).full hfull,
    (counted_full hbase hfull).streamCount_eq_filter (countable_of_length_le (by omega))⟩
  · rw [textures_full hfull, textures_base hbase, List.length_append, List.length_map,
      List.length_map, Usage.textureDemand, IndexSet.card_toFinset, IndexSet.card_toFinset]
    rfl
  · rw [attributes_full hfull, List.length_append, List.length_map, length_attributes_base hbase,
      ← size_channels htable]
    rfl
  · rw [TexCoordTable.registerCount_ofUsage htable, TexCoordTable.canonicals_ofUsage htable,
      TexCoordTable.card_classes]

/-- Within limits that a byte can count, a usage is mapped exactly if it fits. -/
theorem capacity_exact (u : Usage) (pass : Pass) (v : Variant) (material : Material) (l : Limits)
    (hl : ∀ e ∈ l.named, e.2 ≤ 254) :
    ((∃ m t, mapped u pass v material l = .ok (m, t)) ↔ Fits u pass v material l) ∧
      (∀ f, mapped u pass v material l = .error f ↔ Exceeds u pass v material l f) ∧
      ∀ m t, mapped u pass v material l = .ok (m, t) →
        m.textures.length = u.textureDemand ∧
        m.attributes.length = u.attributeDemand pass v + u.channelDemand material ∧
        t.registerCount = (classes material (u.indices .texCoord)).card ∧
        (∀ source,
          m.textureCount source = (m.textures.filter fun x => x.source = source).length) ∧
        ∀ stream,
          m.streamCount stream = (m.attributes.filter fun a => a.stream = stream).length := by
  refine ⟨⟨fun hmapped => ?_, exists_mapped⟩, fun f => ⟨fun hfails => ?_, mapped_of_exceeds⟩,
    fun m t => exact_of_mapped hl⟩
  · obtain ⟨m, t, hmapped⟩ := hmapped
    rcases fits_or_exceeds u pass v material l with hfits | ⟨f, hexceeds⟩
    · exact hfits
    · cases hmapped.symm.trans (mapped_of_exceeds hexceeds)
  · rcases fits_or_exceeds u pass v material l with hfits | ⟨f', hexceeds⟩
    · obtain ⟨m, t, hmapped⟩ := exists_mapped hfits
      cases hmapped.symm.trans hfails
    · cases hfails.symm.trans (mapped_of_exceeds hexceeds)
      exact hexceeds

/-- Seven arrays are enough for the crowded usage, six are not: the tangent basis forces a
normal and a tangent, the third coordinate index reads a channel of its own. -/
theorem capacity_exact_crowded :
    (∃ m t, mapped crowded .default mirrored.variant mirrored { maxAttribArrays := 7 } =
      .ok (m, t) ∧ m.attributes.length = 7 ∧ m.textures.length = 3 ∧ t.registerCount = 2) ∧
    mapped crowded .default mirrored.variant mirrored { maxAttribArrays := 6 } =
      .error (.attributeLimit 7 6) ∧
    mapped crowded .default mirrored.variant mirrored { maxLights := 1 } =
      .error (.lightLimit 1 1) := by
  obtain ⟨hok, -, hexact⟩ := capacity_exact crowded .default mirrored.variant mirrored
    { maxAttribArrays := 7 } (by decide)
  obtain ⟨-, hchannels, -⟩ := capacity_exact crowded .default mirrored.variant mirrored
    { maxAttribArrays := 6 } (by decide)
  obtain ⟨-, hlights, -⟩ := capacity_exact crowded .default mirrored.variant mirrored
    { maxLights := 1 } (by decide)
  have hwithin : crowded.LightsWithin 4 := Usage.lightBeyond?_eq_none_iff.1 (by decide)
  have hbeyond : crowded.FirstBeyond 1 1 := Usage.lightBeyond?_eq_some_iff.1 (by decide)
  obtain ⟨m, t, hmapped⟩ := hok.2 ⟨hwithin, by decide, by decide, by decide, by decide⟩
  obtain ⟨htextures, hattributes, hregisters, -⟩ := hexact m t hmapped
  refine ⟨⟨m, t, hmapped, hattributes, htextures, hregisters⟩, ?_, (hlights _).2 (.lights hbeyond)⟩
  exact (hchannels _).2 (.channels hwithin (by decide) (by decide) (by decide) (by decide))

end Mapping

end MaterialGraph
