import MaterialGraph.Cooked.MappingBlock
import MaterialGraph.Proofs.Mapping.Assign

/-!
Reading mapping blocks back. A tag never equals the byte in unused entries, so
textures and attributes come back as they were; the registers hold indices, and
of these the one that looks unused is lost. Main statement: when the block of a
full mapping reads back as that mapping.
-/

namespace MaterialGraph.MappingBlock

variable {m : Mapping} {w : MappingBlock}

/-- An array that is filled up holds the values it was filled from, then padding. -/
theorem toList_ofFn_elim {α β : Type*} {n : Nat} (l : List α) (h : l.length ≤ n) (f : α → β)
    (padding : β) :
    (Vector.ofFn fun i : Fin n => l[i.val]?.elim padding f).toList =
      l.map f ++ List.replicate (n - l.length) padding := by
  refine List.ext_getElem ?_ fun i hi hi' => ?_
  · simp
    omega
  · simp only [Vector.getElem_toList, Vector.getElem_ofFn]
    by_cases hlt : i < l.length
    · rw [List.getElem?_eq_getElem hlt, List.getElem_append_left (by simpa using hlt)]
      simp
    · rw [List.getElem?_eq_none (by omega), List.getElem_append_right (by simpa using hlt)]
      simp

theorem readTextures_filled (l : List TextureUnit) (n : Nat) :
    readTextures (l.map (fun t => (UInt8.ofNat t.source.tag, t.index)) ++
      List.replicate n (unused, unused)) = .ok l := by
  induction l with
  | nil => cases n <;> rfl
  | cons t rest ih =>
    obtain ⟨source, index⟩ := t
    cases source <;> simp [readTextures, ih] <;> rfl

theorem readAttributes_filled (l : List AttributeArray) (n : Nat) :
    readAttributes (l.map (fun a => (UInt8.ofNat a.stream.tag, a.index)) ++
      List.replicate n (unused, unused)) = .ok l := by
  induction l with
  | nil => cases n <;> rfl
  | cons a rest ih =>
    obtain ⟨stream, index⟩ := a
    cases stream <;> simp [readAttributes, ih] <;> rfl

theorem takeWhile_filled (l : List UInt8) (n : Nat) :
    (l ++ List.replicate n unused).takeWhile (· != unused) = l.takeWhile (· != unused) := by
  induction l with
  | nil => cases n <;> rfl
  | cons i rest ih =>
    rw [List.cons_append, List.takeWhile_cons, List.takeWhile_cons, ih]

/-- A mapping is written exactly if it fits. -/
theorem exists_ofMapping_iff : (∃ w, ofMapping m = .ok w) ↔ fits m := by
  unfold ofMapping
  split
  · next hfits => exact iff_of_true ⟨_, rfl⟩ hfits
  · next hfits => exact iff_of_false (fun ⟨_, h⟩ => nomatch h) hfits

/-- A block reads back as its mapping up to the registers that look unused. -/
theorem toMapping_ofMapping (h : ofMapping m = .ok w) :
    w.toMapping = .ok { m with registers := m.registers.takeWhile (· != unused) } := by
  unfold ofMapping at h
  split at h
  · next hfits =>
    simp only [fits, Bool.and_eq_true, decide_eq_true_eq] at hfits
    obtain ⟨⟨htextures, hattributes⟩, hregisters⟩ := hfits
    cases h
    have hregister : ∀ i : Fin 6, m.registers[i.val]?.getD unused =
        m.registers[i.val]?.elim unused id := fun i => by cases m.registers[i.val]? <;> rfl
    simp only [toMapping, hregister, toList_ofFn_elim _ htextures, toList_ofFn_elim _ hattributes,
      toList_ofFn_elim _ hregisters, readTextures_filled, readAttributes_filled, List.map_id,
      takeWhile_filled, bind, Except.bind]
  · cases h

/-- On ascending bytes, stopping at the largest byte leaves it out and nothing else. -/
theorem takeWhile_eq_filter {l : List UInt8} (h : l.Pairwise (· < ·)) :
    l.takeWhile (· != unused) = l.filter (· != unused) := by
  induction l with
  | nil => rfl
  | cons i rest ih =>
    obtain ⟨hhead, hrest⟩ := List.pairwise_cons.1 h
    by_cases hi : i = unused
    · have hnone : rest = [] := List.eq_nil_iff_forall_not_mem.2 fun j hj => by
        have hlt := hhead j hj
        have hle : j ≤ unused := UInt8.le_iff_toNat_le.2 (Nat.le_of_lt_succ j.toNat_lt)
        exact UInt8.lt_irrefl i (UInt8.lt_of_lt_of_le hlt (hi ▸ hle))
      subst hi hnone
      rfl
    · have hkeep : (i != unused) = true := bne_iff_ne.2 hi
      rw [List.takeWhile_cons, if_pos hkeep, List.filter_cons, if_pos hkeep, ih hrest]

variable {b : Mapping} {u : Usage} {material : Material} {l : Limits} {t : TexCoordTable}

/-- The block of a full mapping reads back without the register of the index that
looks unused, and as the mapping itself if no register is computed for that index. -/
theorem toMapping_of_full (hfull : Mapping.full b u material l = .ok (m, t))
    (hblock : ofMapping m = .ok w) :
    w.toMapping = .ok { m with registers := m.registers.filter (· != unused) } ∧
      (w.toMapping = .ok m ↔ ¬(unused ∈ u.indices .texCoord ∧
        ∀ i ∈ u.indices .texCoord, i < unused → ¬material.Shares i unused)) := by
  obtain ⟨hregisters, htable⟩ := Mapping.registers_full hfull
  have hascending := (u.indices .texCoord).ascending
  have hread := toMapping_ofMapping hblock
  have hleaders : m.registers = TexCoordTable.leaders material (u.indices .texCoord).toList := by
    rw [hregisters, TexCoordTable.canonicals_ofUsage htable]
  have hfilter : m.registers.takeWhile (· != unused) = m.registers.filter (· != unused) :=
    takeWhile_eq_filter (hleaders ▸ hascending.filter _)
  have hmem : unused ∈ m.registers ↔ unused ∈ u.indices .texCoord ∧
      ∀ i ∈ u.indices .texCoord, i < unused → ¬material.Shares i unused := by
    rw [hleaders]
    exact TexCoordTable.mem_leaders_iff hascending
  rw [hread, hfilter]
  refine ⟨rfl, ?_⟩
  rw [← hmem, Except.ok.injEq]
  constructor
  · intro heq hunused
    have hkept := congrArg Mapping.registers heq
    have := List.filter_eq_self.1 hkept unused hunused
    simp at this
  · intro hunused
    have hkept : m.registers.filter (· != unused) = m.registers :=
      List.filter_eq_self.2 fun i hi => bne_iff_ne.2 fun heq => hunused (heq ▸ hi)
    rw [hkept]

def coordinates (index : UInt8) : Usage :=
  .ofLeaves [⟨.texCoord, index⟩]

def positions : Mapping where
  attributes := [⟨.vertices, 0⟩]
  streamCounts := #v[1, 0, 0, 0, 0, 0]

/-- The full mapping of a single coordinate index. -/
def coordinateMapping (index : UInt8) : Mapping where
  attributes := [⟨.vertices, 0⟩, ⟨.texCoords, 0⟩]
  streamCounts := #v[1, 0, 0, 1, 0, 0]
  registers := [index]

def coordinateTable (index : UInt8) : TexCoordTable :=
  ⟨[⟨index, 0, index⟩]⟩

def coordinateBlock (index : UInt8) : MappingBlock where
  registers := #v[index, unused, unused, unused, unused, unused]
  textureCounts := #v[0, 0]
  streamCounts := #v[1, 0, 0, 1, 0, 0]
  textures := Vector.replicate 6 (unused, unused)
  attributes := #v[(0, 0), (3, 0), (unused, unused), (unused, unused), (unused, unused),
    (unused, unused), (unused, unused), (unused, unused)]

theorem toMapping_of_full_254 :
    Mapping.base (coordinates 254) .default {} {} = .ok positions ∧
      positions.full (coordinates 254) {} {} = .ok (coordinateMapping 254, coordinateTable 254) ∧
      ofMapping (coordinateMapping 254) = .ok (coordinateBlock 254) ∧
      (coordinateBlock 254).toMapping = .ok (coordinateMapping 254) := by
  have hfull : positions.full (coordinates 254) {} {} =
      .ok (coordinateMapping 254, coordinateTable 254) := rfl
  have hblock : ofMapping (coordinateMapping 254) = .ok (coordinateBlock 254) := rfl
  exact ⟨rfl, hfull, hblock, (toMapping_of_full hfull hblock).2.2 (by decide)⟩

/-- The register of index 255 is lost. -/
theorem toMapping_of_full_255 :
    Mapping.base (coordinates 255) .default {} {} = .ok positions ∧
      positions.full (coordinates 255) {} {} = .ok (coordinateMapping 255, coordinateTable 255) ∧
      ofMapping (coordinateMapping 255) = .ok (coordinateBlock 255) ∧
      (coordinateBlock 255).toMapping = .ok { coordinateMapping 255 with registers := [] } :=
  ⟨rfl, rfl, rfl, rfl⟩

end MaterialGraph.MappingBlock
