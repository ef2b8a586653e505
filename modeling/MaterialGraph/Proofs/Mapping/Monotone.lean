import MaterialGraph.Proofs.Mapping.Capacity

/-!
Usages and limits that are compared. Every demand grows with the usage: what a smaller
usage leads, forces or reads is the trace of what the larger one does. Main statement:
a part of a usage is mapped wherever the usage is, also within looser limits, and limits
have no influence on what a mapping holds.
-/

namespace MaterialGraph

/-- Whether every index that a usage refers to is one that another usage refers to. -/
def Usage.Part (u u' : Usage) : Prop :=
  ∀ s, ∀ i ∈ u.indices s, i ∈ u'.indices s

/-- Whether no limit is above that of other limits. -/
structure Limits.Within (l' l : Limits) : Prop where
  textures : l'.maxTextures ≤ l.maxTextures
  attribArrays : l'.maxAttribArrays ≤ l.maxAttribArrays
  lights : l'.maxLights ≤ l.maxLights
  texCoords : l'.maxTexCoords ≤ l.maxTexCoords

namespace TexCoordTable

variable {m : Material} {s s' : IndexSet}

/-- The class of an index in a set is what the set has of its class in a larger one. -/
theorem classOf_eq_filter (h : s.toFinset ⊆ s'.toFinset) (i : UInt8) :
    classOf m s i = (classOf m s' i).filter (· ∈ s.toFinset) := by
  ext j
  simp only [classOf, Finset.mem_filter]
  constructor
  · rintro ⟨hj, hequivalent⟩
    exact ⟨⟨h hj, hequivalent⟩, hj⟩
  · rintro ⟨⟨-, hequivalent⟩, hj⟩
    exact ⟨hj, hequivalent⟩

theorem card_classes_mono (h : s.toFinset ⊆ s'.toFinset) :
    (classes m s).card ≤ (classes m s').card := by
  let trace (c : Finset UInt8) : Finset UInt8 := c.filter (· ∈ s.toFinset)
  have hclasses : classes m s ⊆ (classes m s').image trace := by
    intro c hc
    obtain ⟨i, hi, rfl⟩ := Finset.mem_image.1 hc
    refine Finset.mem_image.2 ⟨classOf m s' i, Finset.mem_image_of_mem _ (h hi), ?_⟩
    exact (classOf_eq_filter h i).symm
  exact (Finset.card_le_card hclasses).trans Finset.card_image_le

/-- Limits decide whether there is a table, not what it is. -/
theorem ofUsage_unique {u : Usage} {l l' : Limits} {t t' : TexCoordTable}
    (h : ofUsage u m l = .ok t) (h' : ofUsage u m l' = .ok t') : t = t' := by
  have hentries : t.entries = t'.entries := (entries_ofUsage h).trans (entries_ofUsage h').symm
  cases t
  cases t'
  exact congrArg TexCoordTable.mk hentries

end TexCoordTable

namespace Usage

theorem forced_subset {condition condition' : Bool} (himp : condition = true → condition' = true) :
    forced condition ⊆ forced condition' := by
  cases condition with
  | false => exact Finset.empty_subset _
  | true => rw [himp rfl]

variable {u u' : Usage} (h : u.Part u')
include h

theorem Part.subset (s : MaterialSource) : (u.indices s).toFinset ⊆ (u'.indices s).toFinset :=
  fun _ hi => IndexSet.mem_toFinset.2 (h s _ (IndexSet.mem_toFinset.1 hi))

theorem Part.uses {s : MaterialSource} (huses : u.uses s = true) : u'.uses s = true := by
  simp only [Usage.uses, IndexSet.isEmpty, Bool.not_eq_true', List.isEmpty_eq_false_iff_exists_mem]
    at huses ⊢
  obtain ⟨i, hi⟩ := huses
  exact ⟨i, h s i hi⟩

theorem Part.needsTangentBasis (hbasis : u.needsTangentBasis = true) :
    u'.needsTangentBasis = true := by
  rw [Usage.needsTangentBasis, Bool.or_eq_true] at hbasis ⊢
  exact hbasis.imp h.uses h.uses

theorem Part.lightsWithin {limit limit' : Nat} (hle : limit' ≤ limit)
    (hlights : u'.LightsWithin limit') : u.LightsWithin limit :=
  fun s hs i hi => (hlights s hs i (h s i hi)).trans_le hle

theorem Part.textureDemand_le : u.textureDemand ≤ u'.textureDemand :=
  Nat.add_le_add (Finset.card_le_card (h.subset .texture))
    (Finset.card_le_card (h.subset .framebuffer))

theorem Part.spriteSkins_subset (pass : Pass) (v : Variant) :
    u.spriteSkins pass v ⊆ u'.spriteSkins pass v := by
  unfold spriteSkins
  split
  · exact Finset.union_subset_union_left (h.subset .spriteSkin)
  · exact Finset.empty_subset _

theorem Part.attributeDemand_le (pass : Pass) (v : Variant) :
    u.attributeDemand pass v ≤ u'.attributeDemand pass v := by
  have hvertices := Finset.card_le_card
    (Finset.union_subset_union_left (t := {0}) (h.subset .vertex))
  have hreflect : (u.needsTangentBasis || v.genReflect) = true →
      (u'.needsTangentBasis || v.genReflect) = true := by
    rw [Bool.or_eq_true, Bool.or_eq_true]
    exact Or.imp_left h.needsTangentBasis
  have hnormals := Finset.card_le_card
    (Finset.union_subset_union (h.subset .normal) (forced_subset hreflect))
  have htangents := Finset.card_le_card
    (Finset.union_subset_union (h.subset .tangent) (forced_subset h.needsTangentBasis))
  have hcolors := Finset.card_le_card (h.subset .vertexColor)
  have hskins := Finset.card_le_card (h.spriteSkins_subset pass v)
  unfold attributeDemand
  omega

theorem Part.channelDemand_le (m : Material) : u.channelDemand m ≤ u'.channelDemand m :=
  Finset.card_le_card (Finset.image_subset_image (h.subset .texCoord))

end Usage

namespace Mapping

variable {m m' b b' : Mapping} {u u' : Usage} {pass : Pass} {v : Variant} {material : Material}
  {l l' : Limits} {t t' : TexCoordTable}

theorem Fits.mono (h : Fits u' pass v material l') (hu : u.Part u') (hl : l'.Within l) :
    Fits u pass v material l where
  lights := hu.lightsWithin hl.lights h.lights
  textures := hu.textureDemand_le.trans (h.textures.trans hl.textures)
  attributes := (hu.attributeDemand_le pass v).trans (h.attributes.trans hl.attribArrays)
  registers := by
    have hclasses := TexCoordTable.card_classes_mono (m := material) (hu.subset .texCoord)
    exact hclasses.trans (h.registers.trans (min_le_min_right 255 hl.texCoords))
  channels := by
    have hdemand := Nat.add_le_add (hu.attributeDemand_le pass v) (hu.channelDemand_le material)
    exact hdemand.trans (h.channels.trans hl.attribArrays)

theorem fits_of_mapped (h : mapped u pass v material l = .ok (m, t)) :
    Fits u pass v material l := by
  rcases fits_or_exceeds u pass v material l with hfits | ⟨f, hexceeds⟩
  · exact hfits
  · cases h.symm.trans (mapped_of_exceeds hexceeds)

theorem base_unique (h : base u pass v l = .ok b) (h' : base u pass v l' = .ok b') : b = b' := by
  obtain ⟨-, -, -, rfl⟩ := base_eq_ok h
  obtain ⟨-, -, -, rfl⟩ := base_eq_ok h'
  rfl

theorem full_unique (h : full b u material l = .ok (m, t))
    (h' : full b u material l' = .ok (m', t')) : m = m' ∧ t = t' := by
  obtain ⟨htable, -, rfl⟩ := full_eq_ok h
  obtain ⟨htable', -, rfl⟩ := full_eq_ok h'
  cases TexCoordTable.ofUsage_unique htable htable'
  exact ⟨rfl, rfl⟩

/-- What is mapped within some limits is mapped in part within looser ones, and as a whole
to the same slots and registers. -/
theorem mapped_mono (hu : u.Part u') (hl : l'.Within l) (hbase : base u' pass v l' = .ok b')
    (hfull : full b' u' material l' = .ok (m', t')) :
    ∃ b m t, base u pass v l = .ok b ∧ full b u material l = .ok (m, t) ∧
      (u = u' → b = b' ∧ m = m' ∧ t = t') := by
  have hfits : Fits u' pass v material l' := fits_of_mapped ((mapped_of_base hbase).trans hfull)
  obtain ⟨m, t, hmapped⟩ := exists_mapped (hfits.mono hu hl)
  obtain ⟨b, hbase₁, hfull₁⟩ := Except.bind_eq_ok_iff.1 hmapped
  refine ⟨b, m, t, hbase₁, hfull₁, ?_⟩
  rintro rfl
  cases base_unique hbase₁ hbase
  obtain ⟨hm, ht⟩ := full_unique hfull₁ hfull
  exact ⟨rfl, hm, ht⟩

/-- Without the first coordinate index of the crowded usage and without its light, the
second index leads the first register and no tangent basis is forced. -/
def thinned : Usage :=
  .ofLeaves [⟨.texture, 5⟩, ⟨.normal, 3⟩, ⟨.texCoord, 1⟩, ⟨.texCoord, 2⟩]

theorem mapped_mono_thinned :
    (∃ b m t, base thinned .default mirrored.variant {} = .ok b ∧
      full b thinned mirrored {} = .ok (m, t) ∧ m.registers = [1, 2] ∧
      m.attributes = [⟨.vertices, 0⟩, ⟨.normals, 0⟩, ⟨.normals, 3⟩, ⟨.spriteSkin, 0⟩,
        ⟨.texCoords, 0⟩, ⟨.texCoords, 3⟩]) ∧
    ∃ b m t, base crowded .default mirrored.variant { maxAttribArrays := 7 } = .ok b ∧
      full b crowded mirrored { maxAttribArrays := 7 } = .ok (m, t) ∧
      base crowded .default mirrored.variant {} = .ok b ∧
      full b crowded mirrored {} = .ok (m, t) := by
  have hsublist (s : MaterialSource) :
      (thinned.indices s).toList.Sublist (crowded.indices s).toList := by
    cases s <;> decide
  have hpart : thinned.Part crowded := fun s _ hi => (hsublist s).subset hi
  have hwithin : Limits.Within { maxAttribArrays := 7 } {} := by constructor <;> decide
  obtain ⟨b', hbase⟩ : ∃ b, base crowded .default mirrored.variant { maxAttribArrays := 7 } =
    .ok b := ⟨_, rfl⟩
  obtain ⟨m', t', hfull⟩ : ∃ m t, full b' crowded mirrored { maxAttribArrays := 7 } =
      .ok (m, t) := by
    cases hbase
    exact ⟨_, _, rfl⟩
  constructor
  · obtain ⟨b, m, t, hthin, hthinned, -⟩ := mapped_mono hpart hwithin hbase hfull
    refine ⟨b, m, t, hthin, hthinned, ?_⟩
    cases hthin
    cases hthinned
    exact ⟨rfl, rfl⟩
  · obtain ⟨b, m, t, hloose, hloosened, hsame⟩ :=
      mapped_mono (fun _ _ hi => hi) hwithin hbase hfull
    obtain ⟨rfl, rfl, rfl⟩ := hsame rfl
    exact ⟨b, m, t, hbase, hfull, hloose, hloosened⟩

end Mapping

end MaterialGraph
