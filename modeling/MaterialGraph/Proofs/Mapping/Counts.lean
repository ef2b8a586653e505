import Mathlib.Data.List.Nodup
import MaterialGraph.Proofs.Mapping.Assign

/-!
Counts of what is numbered. Lights are counted past the highest index in use,
which a base mapping keeps within the limit, and the registers of a table are as
many as its canonical indices.
-/

namespace MaterialGraph

theorem foldl_max_le_iff {l : List Nat} {a n : Nat} :
    l.foldl max a ≤ n ↔ a ≤ n ∧ ∀ x ∈ l, x ≤ n := by
  induction l generalizing a with
  | nil => simp
  | cons x rest ih =>
    rw [List.foldl_cons, ih, Nat.max_le, List.forall_mem_cons]
    exact and_assoc

theorem le_foldl_max {l : List Nat} {a x : Nat} (hx : x ∈ l) : x ≤ l.foldl max a :=
  (foldl_max_le_iff.1 (Nat.le_refl (l.foldl max a))).2 x hx

namespace IndexSet

theorem le_max? {s : IndexSet} {i : UInt8} (h : i ∈ s) : ∃ j, s.max? = some j ∧ i ≤ j := by
  obtain ⟨indices, hascending⟩ := s
  change i ∈ indices at h
  change ∃ j, indices.getLast? = some j ∧ i ≤ j
  rcases List.eq_nil_or_concat indices with rfl | ⟨rest, j, rfl⟩
  · exact absurd h List.not_mem_nil
  · refine ⟨j, by rw [List.concat_eq_append, List.getLast?_concat], ?_⟩
    rw [List.concat_eq_append] at h hascending
    rcases List.mem_append.1 h with hrest | hlast
    · have hlt := (List.pairwise_append.1 hascending).2.2 i hrest j List.mem_cons_self
      exact UInt8.le_of_lt hlt
    · rw [List.mem_singleton.1 hlast]
      exact UInt8.le_refl j

end IndexSet

namespace Usage

variable {u : Usage} {s : MaterialSource} {i : UInt8}

theorem mem_lights_iff : s ∈ MaterialSource.lights ↔ s.isLight := by
  rw [MaterialSource.lights, List.mem_filter]
  exact and_iff_right (MaterialSource.mem_all s)

/-- Every light in use is counted. -/
theorem lt_lightCount (hs : s.isLight) (hi : i ∈ u.indices s) : i.toNat < u.lightCount := by
  obtain ⟨j, hj, hle⟩ := IndexSet.le_max? hi
  have hmem : j.toNat + 1 ∈ (MaterialSource.lights.filterMap fun s => (u.indices s).max?).map
      fun i => i.toNat + 1 :=
    List.mem_map_of_mem (List.mem_filterMap.2 ⟨s, mem_lights_iff.2 hs, hj⟩)
  have hcount : j.toNat + 1 ≤ u.lightCount := le_foldl_max hmem
  have hle' : i.toNat ≤ j.toNat := UInt8.le_iff_toNat_le.1 hle
  omega

/-- Within the limit there are no more lights than it allows. -/
theorem lightCount_le {limit : Nat} (h : u.lightBeyond? limit = none) : u.lightCount ≤ limit := by
  refine foldl_max_le_iff.2 ⟨Nat.zero_le _, fun x hx => ?_⟩
  obtain ⟨j, hj, rfl⟩ := List.mem_map.1 hx
  obtain ⟨s, hs, hmax⟩ := List.mem_filterMap.1 hj
  have hwithin := List.findSome?_eq_none_iff.1 h s hs
  rw [hmax, Option.filter_some] at hwithin
  by_cases hle : limit ≤ j.toNat
  · simp [hle] at hwithin
  · omega

end Usage

namespace TexCoordTable

variable {u : Usage} {m : Material} {limits : Limits} {t : TexCoordTable} {i : UInt8}

theorem length_leaders_le_limit (h : ofUsage u m limits = .ok t) :
    (leaders m (u.indices .texCoord).toList).length ≤ registerLimit limits := by
  have hnext := (Allocation.follows_ofIndices m (u.indices .texCoord).nodup).next
  simp only [ofUsage] at h
  split at h
  · cases h
  · next hle =>
    rw [← hnext]
    exact Nat.le_of_not_lt hle

theorem length_leaders_le (h : ofUsage u m limits = .ok t) :
    (leaders m (u.indices .texCoord).toList).length ≤ 255 :=
  Nat.le_trans (length_leaders_le_limit h) (Nat.min_le_right _ _)

/-- The entry of an index: the register of its leader. -/
def entryOf (m : Material) (indices : List UInt8) (i : UInt8) : TexCoordEntry :=
  ⟨i, UInt8.ofNat ((leaders m indices).idxOf (leader m indices i)), leader m indices i⟩

theorem register_entryOf {indices : List UInt8} (hlength : (leaders m indices).length ≤ 255)
    (hi : i ∈ indices) :
    (entryOf m indices i).register.toNat = (leaders m indices).idxOf (leader m indices i) := by
  have hlt := List.idxOf_lt_length_of_mem (leader_mem_leaders (m := m) hi)
  rw [entryOf, UInt8.toNat_ofNat']
  omega

/-- An index in use has one entry, with the register of its canonical index. -/
theorem entry_of_mem (h : ofUsage u m limits = .ok t) (hi : i ∈ u.indices .texCoord) :
    ∃ e, t.entries.filter (fun e => e.index = i) = [e] ∧ t.register? i = some e.register ∧
      t.canonicals[e.register.toNat]? = some e.canonical ∧
      e.canonical = leader m (u.indices .texCoord).toList i := by
  let indices := (u.indices .texCoord).toList
  have hmem : i ∈ indices := hi
  have hentries : t.entries = indices.map (entryOf m indices) := entries_ofUsage h
  have hfilter : t.entries.filter (fun e => e.index = i) = [entryOf m indices i] := by
    have hcount : indices.count i = 1 := List.count_eq_one_of_mem (IndexSet.nodup _) hmem
    have hindex : (fun e : TexCoordEntry => decide (e.index = i)) ∘ entryOf m indices =
        fun j => decide (j = i) := rfl
    rw [hentries, List.filter_map, hindex, List.filter_eq, hcount]
    rfl
  refine ⟨entryOf m indices i, hfilter, ?_, ?_, rfl⟩
  · have hfind : t.entries.find? (fun e => e.index == i) = some (entryOf m indices i) := by
      have hhead := List.head?_filter (p := fun e : TexCoordEntry => decide (e.index = i))
        (l := t.entries)
      rw [hfilter] at hhead
      exact hhead.symm
    rw [register?, hfind, Option.map_some]
  · rw [canonicals_ofUsage h, register_entryOf (length_leaders_le h) hmem]
    exact List.getElem?_idxOf (leader_mem_leaders hmem)

/-- A table has as many registers as canonical indices. -/
theorem registerCount_ofUsage (h : ofUsage u m limits = .ok t) :
    t.registerCount = t.canonicals.length := by
  let indices := (u.indices .texCoord).toList
  have hentries : t.entries = indices.map (entryOf m indices) := entries_ofUsage h
  have hregister : ∀ i ∈ indices, (entryOf m indices i).register.toNat =
      (leaders m indices).idxOf (leader m indices i) := fun i =>
    register_entryOf (length_leaders_le h)
  rw [registerCount, hentries, canonicals_ofUsage h, List.map_map]
  apply Nat.le_antisymm
  · refine foldl_max_le_iff.2 ⟨Nat.zero_le _, fun x hx => ?_⟩
    obtain ⟨i, hi, rfl⟩ := List.mem_map.1 hx
    rw [Function.comp_apply, hregister i hi]
    exact List.idxOf_lt_length_of_mem (leader_mem_leaders hi)
  · -- The last leader leads itself and has the last register.
    rcases Nat.eq_zero_or_pos (leaders m indices).length with hzero | hpos
    · exact Nat.le_trans (Nat.le_of_eq hzero) (Nat.zero_le _)
    · have hlast : (leaders m indices).length - 1 < (leaders m indices).length := by omega
      let last := (leaders m indices)[(leaders m indices).length - 1]
      have hleader := List.mem_filter.1 (List.getElem_mem hlast)
      have hself : leader m indices last = last := of_decide_eq_true hleader.2
      have hnodup : (leaders m indices).Nodup := (IndexSet.nodup _).filter _
      have hidx : (leaders m indices).idxOf last = (leaders m indices).length - 1 :=
        hnodup.idxOf_getElem _ hlast
      have hmem : (entryOf m indices last).register.toNat + 1 ∈
          indices.map ((fun e : TexCoordEntry => e.register.toNat + 1) ∘ entryOf m indices) :=
        List.mem_map_of_mem hleader.1
      have hle := le_foldl_max (a := 0) hmem
      rw [hregister last hleader.1, hself, hidx] at hle
      change (leaders m indices).length ≤ _
      omega

end TexCoordTable

end MaterialGraph
