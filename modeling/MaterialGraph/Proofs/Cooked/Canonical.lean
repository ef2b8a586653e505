import Mathlib.Data.List.TakeWhile
import Mathlib.Data.Set.List
import MaterialGraph.Proofs.Cooked.MappingBlock
import MaterialGraph.Proofs.Failure

/-!
Mapping blocks of any content. An array is read up to its first entry that is
marked as unused, whatever stands behind that. Main statement: which blocks read
back as a mapping; such a mapping is written as a block that reads back as the
same mapping, and this is the block that was read exactly if there every entry
from the first unused one on is padding.
-/

namespace MaterialGraph

/-- Where tags number a list, a byte names the value whose tag it is. -/
theorem getElem?_toNat_eq_some_iff {α : Type} (all : List α) (tag : α → Nat)
    (hlength : all.length ≤ 256) (hnumber : ∀ n (h : n < all.length), tag all[n] = n)
    (hall : ∀ a, all[tag a]? = some a) {t : UInt8} {a : α} :
    all[t.toNat]? = some a ↔ UInt8.ofNat (tag a) = t := by
  constructor
  · intro h
    obtain ⟨hlt, rfl⟩ := List.getElem?_eq_some_iff.1 h
    rw [hnumber, UInt8.ofNat_toNat]
  · rintro rfl
    obtain ⟨hlt, -⟩ := List.getElem?_eq_some_iff.1 (hall a)
    rw [UInt8.toNat_ofNat', Nat.mod_eq_of_lt (Nat.lt_of_lt_of_le hlt hlength), hall]

theorem TextureSource.ofTag?_eq_some_iff {tag : UInt8} {source : TextureSource} :
    ofTag? tag = some source ↔ UInt8.ofNat source.tag = tag :=
  getElem?_toNat_eq_some_iff all (fun s => s.tag) (by decide) (by decide) fun s => by
    cases s <;> rfl

theorem TextureSource.exists_tag_iff {tag : UInt8} :
    (∃ source : TextureSource, UInt8.ofNat source.tag = tag) ↔ tag ≤ 1 := by
  simp only [← ofTag?_eq_some_iff, ← Option.isSome_iff_exists, UInt8.le_iff_toNat_le]
  rw [ofTag?, isSome_getElem?]
  exact Nat.lt_succ_iff

theorem VertexStream.ofTag?_eq_some_iff {tag : UInt8} {stream : VertexStream} :
    ofTag? tag = some stream ↔ UInt8.ofNat stream.tag = tag :=
  getElem?_toNat_eq_some_iff all (fun s => s.tag) (by decide) (by decide) fun s => by
    cases s <;> rfl

theorem VertexStream.exists_tag_iff {tag : UInt8} :
    (∃ stream : VertexStream, UInt8.ofNat stream.tag = tag) ↔ tag ≤ 5 := by
  simp only [← ofTag?_eq_some_iff, ← Option.isSome_iff_exists, UInt8.le_iff_toNat_le]
  rw [ofTag?, isSome_getElem?]
  exact Nat.lt_succ_iff

namespace MappingBlock

/-- A pair is marked as unused by its tag alone. -/
def isUsed (e : UInt8 × UInt8) : Bool :=
  e.1 != unused

def textureEntry (t : TextureUnit) : UInt8 × UInt8 :=
  (UInt8.ofNat t.source.tag, t.index)

def attributeEntry (a : AttributeArray) : UInt8 × UInt8 :=
  (UInt8.ofNat a.stream.tag, a.index)

section Entries

variable {α : Type} {read : List (UInt8 × UInt8) → Except Fault (List α)}
  {entry : α → UInt8 × UInt8} {l : List (UInt8 × UInt8)} {as : List α}

/-- Whether pairs are read up to the first unused one, each as the value that it is the
entry of. -/
structure ReadsUsed (read : List (UInt8 × UInt8) → Except Fault (List α))
    (entry : α → UInt8 × UInt8) : Prop where
  nil : read [] = .ok []
  stop : ∀ e rest, isUsed e = false → read (e :: rest) = .ok []
  used : ∀ a, isUsed (entry a) = true
  cons : ∀ a rest, read (entry a :: rest) = (read rest).map (a :: ·)
  other : ∀ e rest, isUsed e = true → e ∉ Set.range entry → ∃ f, read (e :: rest) = .error f

theorem ReadsUsed.injective (h : ReadsUsed read entry) : Function.Injective entry := by
  intro a b heq
  have ha := h.cons a []
  rw [heq, h.cons b [], h.nil] at ha
  cases ha
  rfl

/-- What is read are the values of the entries before the first unused one. -/
theorem ReadsUsed.eq_ok_iff (h : ReadsUsed read entry) :
    read l = .ok as ↔ l.takeWhile isUsed = as.map entry := by
  induction l generalizing as with
  | nil =>
    rw [h.nil, List.takeWhile_nil, Except.ok.injEq, eq_comm, eq_comm (a := []),
      List.map_eq_nil_iff]
  | cons e rest ih =>
    cases hused : isUsed e with
    | false =>
      rw [h.stop e rest hused, List.takeWhile_cons_of_neg (by simp [hused]), Except.ok.injEq,
        eq_comm, eq_comm (a := []), List.map_eq_nil_iff]
    | true =>
      rw [List.takeWhile_cons_of_pos hused]
      by_cases hentry : e ∈ Set.range entry
      · obtain ⟨a, rfl⟩ := hentry
        rw [h.cons]
        constructor
        · intro hread
          cases hrest : read rest with
          | error f => rw [hrest] at hread; cases hread
          | ok as' =>
            rw [hrest] at hread
            cases hread
            rw [List.map_cons, ih.1 hrest]
        · intro heq
          cases as with
          | nil => cases heq
          | cons a' as' =>
            obtain ⟨ha, hrest⟩ := List.cons.inj heq
            rw [ih.2 hrest, h.injective ha]
            rfl
      · obtain ⟨f, hf⟩ := h.other e rest hused hentry
        rw [hf]
        refine iff_of_false (fun heq => nomatch heq) fun heq => hentry ?_
        have hmem : e ∈ as.map entry := heq ▸ List.mem_cons_self
        obtain ⟨a, -, ha⟩ := List.mem_map.1 hmem
        exact ⟨a, ha⟩

/-- An array is read exactly if every entry before the first unused one is one of a value. -/
theorem ReadsUsed.exists_iff (h : ReadsUsed read entry) :
    (∃ as, read l = .ok as) ↔ ∀ e ∈ l.takeWhile isUsed, e ∈ Set.range entry := by
  simp only [h.eq_ok_iff, eq_comm (a := l.takeWhile isUsed)]
  exact Set.ext_iff.1 (Set.range_list_map entry) _

end Entries

theorem readsUsed_textures : ReadsUsed readTextures textureEntry where
  nil := rfl
  stop e rest h := by
    rw [isUsed, bne_eq_false_iff_eq] at h
    rw [readTextures, if_pos h]
  used t := by cases t with | mk source index => cases source <;> rfl
  cons t rest := by cases t with | mk source index => cases source <;> rfl
  other e rest h hentry := by
    obtain ⟨tag, index⟩ := e
    rw [readTextures, if_neg (bne_iff_ne.1 h)]
    cases hsource : TextureSource.ofTag? tag with
    | none => exact ⟨_, rfl⟩
    | some source =>
      refine absurd ⟨⟨source, index⟩, ?_⟩ hentry
      rw [textureEntry, TextureSource.ofTag?_eq_some_iff.1 hsource]

theorem readsUsed_attributes : ReadsUsed readAttributes attributeEntry where
  nil := rfl
  stop e rest h := by
    rw [isUsed, bne_eq_false_iff_eq] at h
    rw [readAttributes, if_pos h]
  used a := by cases a with | mk stream index => cases stream <;> rfl
  cons a rest := by cases a with | mk stream index => cases stream <;> rfl
  other e rest h hentry := by
    obtain ⟨tag, index⟩ := e
    rw [readAttributes, if_neg (bne_iff_ne.1 h)]
    cases hstream : VertexStream.ofTag? tag with
    | none => exact ⟨_, rfl⟩
    | some stream =>
      refine absurd ⟨⟨stream, index⟩, ?_⟩ hentry
      rw [attributeEntry, VertexStream.ofTag?_eq_some_iff.1 hstream]

theorem mem_range_textureEntry {e : UInt8 × UInt8} :
    e ∈ Set.range textureEntry ↔ e.1 ≤ 1 := by
  rw [← TextureSource.exists_tag_iff]
  constructor
  · rintro ⟨t, rfl⟩
    exact ⟨t.source, rfl⟩
  · rintro ⟨source, h⟩
    exact ⟨⟨source, e.2⟩, Prod.ext h rfl⟩

theorem mem_range_attributeEntry {e : UInt8 × UInt8} :
    e ∈ Set.range attributeEntry ↔ e.1 ≤ 5 := by
  rw [← VertexStream.exists_tag_iff]
  constructor
  · rintro ⟨a, rfl⟩
    exact ⟨a.stream, rfl⟩
  · rintro ⟨stream, h⟩
    exact ⟨⟨stream, e.2⟩, Prod.ext h rfl⟩

/-- What is kept of a list and then filled up is the list if only padding was cut off. -/
theorem takeWhile_append_replicate_eq_iff {α : Type*} {p : α → Bool} {l : List α} {x : α} :
    l.takeWhile p ++ List.replicate (l.length - (l.takeWhile p).length) x = l ↔
      ∀ a ∈ l.dropWhile p, a = x := by
  have hlength : l.length - (l.takeWhile p).length = (l.dropWhile p).length := by
    have h := congrArg List.length (List.takeWhile_append_dropWhile (p := p) (l := l))
    rw [List.length_append] at h
    omega
  rw [hlength]
  nth_rewrite 3 [← List.takeWhile_append_dropWhile (p := p) (l := l)]
  rw [List.append_cancel_left_eq, eq_comm, List.eq_replicate_iff]
  exact and_iff_right rfl

/-- An array that holds the used entries of another and padding behind is that other one if
nothing but padding stands behind them there. -/
theorem eq_iff_of_takeWhile {α : Type*} {n : Nat} {p : α → Bool} {u v : Vector α n}
    {used : List α} {x : α} (h : v.toList.takeWhile p = used)
    (h' : u.toList = used ++ List.replicate (n - used.length) x) :
    u = v ↔ ∀ a ∈ v.toList.dropWhile p, a = x := by
  rw [← takeWhile_append_replicate_eq_iff, ← Vector.toList_inj, h', h, Vector.length_toList]

variable {w : MappingBlock} {m : Mapping}

/-- A block is read array by array, the registers up to the first unused byte. -/
theorem toMapping_eq_ok_iff : w.toMapping = .ok m ↔
    w.textures.toList.takeWhile isUsed = m.textures.map textureEntry ∧
      w.attributes.toList.takeWhile isUsed = m.attributes.map attributeEntry ∧
      m = { textures := m.textures, attributes := m.attributes, textureCounts := w.textureCounts,
            streamCounts := w.streamCounts,
            registers := w.registers.toList.takeWhile (· != unused) } := by
  simp only [toMapping, Except.bind_eq_ok_iff, Except.ok.injEq, readsUsed_textures.eq_ok_iff,
    readsUsed_attributes.eq_ok_iff]
  constructor
  · rintro ⟨textures, htextures, attributes, hattributes, rfl⟩
    exact ⟨htextures, hattributes, rfl⟩
  · rintro ⟨htextures, hattributes, heq⟩
    exact ⟨_, htextures, _, hattributes, heq.symm⟩

theorem exists_toMapping_iff : (∃ m, w.toMapping = .ok m) ↔
    (∀ e ∈ w.textures.toList.takeWhile isUsed, e.1 ≤ 1) ∧
      ∀ e ∈ w.attributes.toList.takeWhile isUsed, e.1 ≤ 5 := by
  simp only [← mem_range_textureEntry, ← mem_range_attributeEntry, ← readsUsed_textures.exists_iff,
    ← readsUsed_attributes.exists_iff, toMapping, Except.bind_eq_ok_iff, Except.ok.injEq]
  constructor
  · rintro ⟨_, textures, htextures, attributes, hattributes, rfl⟩
    exact ⟨⟨textures, htextures⟩, attributes, hattributes⟩
  · rintro ⟨⟨textures, htextures⟩, attributes, hattributes⟩
    exact ⟨_, textures, htextures, attributes, hattributes, rfl⟩

/-- The arrays of a mapping that was read are no longer than those of its block. -/
theorem fits_of_toMapping (h : w.toMapping = .ok m) : fits m := by
  obtain ⟨htextures, hattributes, heq⟩ := toMapping_eq_ok_iff.1 h
  have hle {α : Type} (p : α → Bool) (l : List α) : (l.takeWhile p).length ≤ l.length :=
    (List.takeWhile_sublist p).length_le
  have htextures := congrArg List.length htextures
  have hattributes := congrArg List.length hattributes
  have hregisters := congrArg (fun m => m.registers.length) heq
  have h₁ := hle isUsed w.textures.toList
  have h₂ := hle isUsed w.attributes.toList
  have h₃ := hle (· != unused) w.registers.toList
  simp only [List.length_map, Vector.length_toList] at *
  simp only [fits, Bool.and_eq_true, decide_eq_true_eq]
  omega

/-- The arrays of a block hold what its mapping has and padding behind. -/
theorem toList_of_ofMapping {w' : MappingBlock} (h : ofMapping m = .ok w') :
    w'.textures.toList =
        m.textures.map textureEntry ++ List.replicate (6 - m.textures.length) (unused, unused) ∧
      w'.attributes.toList = m.attributes.map attributeEntry ++
        List.replicate (8 - m.attributes.length) (unused, unused) ∧
      w'.registers.toList = m.registers ++ List.replicate (6 - m.registers.length) unused ∧
      w'.textureCounts = m.textureCounts ∧ w'.streamCounts = m.streamCounts := by
  unfold ofMapping at h
  split at h
  · next hfits =>
    simp only [fits, Bool.and_eq_true, decide_eq_true_eq] at hfits
    obtain ⟨⟨htextures, hattributes⟩, hregisters⟩ := hfits
    cases h
    have hregister : ∀ i : Fin 6, m.registers[i.val]?.getD unused =
        m.registers[i.val]?.elim unused id := fun i => by cases m.registers[i.val]? <;> rfl
    refine ⟨toList_ofFn_elim _ htextures _ _, toList_ofFn_elim _ hattributes _ _, ?_, rfl, rfl⟩
    simp only [hregister, toList_ofFn_elim _ hregisters, List.map_id]
  · cases h

/-- Whether only padding stands from the first unused entry of each array on. -/
structure Padded (w : MappingBlock) : Prop where
  textures : ∀ e ∈ w.textures.toList.dropWhile isUsed, e = (unused, unused)
  attributes : ∀ e ∈ w.attributes.toList.dropWhile isUsed, e = (unused, unused)
  registers : ∀ i ∈ w.registers.toList.dropWhile (· != unused), i = unused

theorem eq_iff_padded {w' : MappingBlock} (h : w.toMapping = .ok m) (h' : ofMapping m = .ok w') :
    w' = w ↔ w.Padded := by
  obtain ⟨htextures, hattributes, heq⟩ := toMapping_eq_ok_iff.1 h
  obtain ⟨htextures', hattributes', hregisters', hcounts, hstreams⟩ := toList_of_ofMapping h'
  have heqTextures := eq_iff_of_takeWhile (u := w'.textures) htextures (by simpa using htextures')
  have heqAttributes := eq_iff_of_takeWhile (u := w'.attributes) hattributes
    (by simpa using hattributes')
  have heqRegisters := eq_iff_of_takeWhile (congrArg Mapping.registers heq).symm hregisters'
  constructor
  · rintro rfl
    exact ⟨heqTextures.1 rfl, heqAttributes.1 rfl, heqRegisters.1 rfl⟩
  · intro hpadded
    have hcounts' : w'.textureCounts = w.textureCounts :=
      hcounts.trans (congrArg Mapping.textureCounts heq)
    have hstreams' : w'.streamCounts = w.streamCounts :=
      hstreams.trans (congrArg Mapping.streamCounts heq)
    have hfields : w' = ⟨w'.registers, w'.textureCounts, w'.streamCounts, w'.textures,
      w'.attributes⟩ := rfl
    rw [hfields, heqRegisters.2 hpadded.registers, hcounts', hstreams',
      heqTextures.2 hpadded.textures, heqAttributes.2 hpadded.attributes]

/-- Reading and writing a block makes it canonical. A block is read exactly if no tag
before the first unused one is beyond the tags of its array; what is read is written as
a block that reads back the same, and as the very block exactly if that is padded. -/
theorem toMapping_canonical (w : MappingBlock) :
    ((∃ m, w.toMapping = .ok m) ↔
      (∀ e ∈ w.textures.toList.takeWhile isUsed, e.1 ≤ 1) ∧
        ∀ e ∈ w.attributes.toList.takeWhile isUsed, e.1 ≤ 5) ∧
      ∀ m, w.toMapping = .ok m →
        ∃ w', ofMapping m = .ok w' ∧ w'.toMapping = .ok m ∧ (w' = w ↔ w.Padded) := by
  refine ⟨exists_toMapping_iff, fun m h => ?_⟩
  obtain ⟨w', hw'⟩ := exists_ofMapping_iff.2 (fits_of_toMapping h)
  refine ⟨w', hw', ?_, eq_iff_padded h hw'⟩
  have hregisters : m.registers.takeWhile (· != unused) = m.registers := by
    obtain ⟨-, -, heq⟩ := toMapping_eq_ok_iff.1 h
    rw [congrArg Mapping.registers heq, List.takeWhile_idem]
  rw [toMapping_ofMapping hw', hregisters]

/-- A block with a texture behind an unused one, whose index is not unused. -/
def loose : MappingBlock where
  registers := #v[0, 2, unused, unused, unused, unused]
  textureCounts := #v[1, 9]
  streamCounts := #v[3, 0, 0, 0, 0, 0]
  textures := #v[(1, unused), (unused, 3), (7, 0), (unused, unused), (unused, unused),
    (unused, unused)]
  attributes := #v[(5, 0), (unused, unused), (unused, unused), (unused, unused), (unused, unused),
    (unused, unused), (unused, unused), (unused, unused)]

theorem toMapping_canonical_loose :
    ∃ m w', loose.toMapping = .ok m ∧ m.textures = [⟨.framebuffer, 255⟩] ∧
      ofMapping m = .ok w' ∧ w'.toMapping = .ok m ∧ w' ≠ loose := by
  obtain ⟨hexists, hcanonical⟩ := toMapping_canonical loose
  have htextures : loose.textures.toList.takeWhile isUsed = [(1, unused)] := rfl
  have hattributes : loose.attributes.toList.takeWhile isUsed = [(5, 0)] := rfl
  rw [htextures, hattributes, List.forall_mem_singleton, List.forall_mem_singleton] at hexists
  obtain ⟨m, hm⟩ := hexists.2 (by decide)
  obtain ⟨w', hw', hback, hsame⟩ := hcanonical m hm
  have hnot : ¬loose.Padded := fun h => absurd (h.textures (unused, 3) (by decide)) (by decide)
  refine ⟨m, w', hm, ?_, hw', hback, fun heq => hnot (hsame.1 heq)⟩
  cases hm
  rfl

end MappingBlock

end MaterialGraph
