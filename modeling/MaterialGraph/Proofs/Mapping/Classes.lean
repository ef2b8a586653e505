import Mathlib.Data.Finset.Card
import Mathlib.Data.Finset.Image
import Mathlib.Order.Bounds.Basic
import MaterialGraph.Proofs.Mapping.Counts

/-!
Coordinate indices that are equivalent. The leaders of the indices in use represent the
classes, one each. Main statement: a table is built exactly if there are registers for
all classes; it then has the classes in the order of their least indices, which are the
canonical ones, and gives one register to each.
-/

namespace MaterialGraph

/-- Whether two indices are equal or compute the same coordinates, both unmodified. -/
def Material.Equivalent (m : Material) (i j : UInt8) : Prop :=
  i = j ∨ m.Shares i j

instance (m : Material) (i j : UInt8) : Decidable (m.Equivalent i j) :=
  inferInstanceAs (Decidable (_ ∨ _))

def IndexSet.toFinset (s : IndexSet) : Finset UInt8 :=
  s.toList.toFinset

theorem IndexSet.mem_toFinset {s : IndexSet} {i : UInt8} : i ∈ s.toFinset ↔ i ∈ s :=
  List.mem_toFinset

namespace TexCoordTable

variable {m : Material} {i j k : UInt8} {l : List UInt8} {s : IndexSet}

theorem equivalent_symm (h : m.Equivalent i j) : m.Equivalent j i :=
  h.imp Eq.symm shares_comm

theorem equivalent_trans (h : m.Equivalent i j) (h' : m.Equivalent j k) : m.Equivalent i k := by
  rcases h with rfl | h
  · exact h'
  · rcases h' with rfl | h'
    · exact .inr h
    · exact .inr (shares_trans h h')

theorem equivalent_leader (m : Material) (l : List UInt8) (i : UInt8) :
    m.Equivalent (leader m l i) i := by
  cases hfind : l.find? fun j => m.Shares j i with
  | none =>
    rw [leader, hfind, Option.getD_none]
    exact .inl rfl
  | some j =>
    have hshares := List.find?_some hfind
    rw [leader, hfind, Option.getD_some]
    exact .inr (of_decide_eq_true hshares)

/-- Indices that share have the same first index to share with. -/
theorem leader_eq_of_shares (hi : i ∈ l) (h : m.Shares i j) : leader m l i = leader m l j := by
  obtain ⟨hidentity, hidentity', hkey⟩ := h
  rw [leader_of_identity hidentity, leader_of_identity hidentity', ← hkey]
  cases hfirst : first? m l ((m.stage i).uv, (m.stage i).gen) with
  | some k => rfl
  | none => exact absurd (List.find?_eq_none.1 hfirst i hi) (by simp [hidentity])

theorem leader_eq_iff (hi : i ∈ l) : leader m l i = leader m l j ↔ m.Equivalent i j := by
  constructor
  · intro h
    exact equivalent_trans (equivalent_symm (equivalent_leader m l i))
      (h ▸ equivalent_leader m l j)
  · rintro (rfl | h)
    · rfl
    · exact leader_eq_of_shares hi h

theorem mem_of_mem_leaders (h : i ∈ leaders m l) : i ∈ l :=
  (List.mem_filter.1 h).1

theorem leader_of_mem_leaders (h : i ∈ leaders m l) : leader m l i = i :=
  of_decide_eq_true (List.mem_filter.1 h).2

/-- The indices of a set that are equivalent to an index. -/
def classOf (m : Material) (s : IndexSet) (i : UInt8) : Finset UInt8 :=
  s.toFinset.filter (m.Equivalent i)

def classes (m : Material) (s : IndexSet) : Finset (Finset UInt8) :=
  s.toFinset.image (classOf m s)

theorem classOf_leader (m : Material) (s : IndexSet) (i : UInt8) :
    classOf m s (leader m s.toList i) = classOf m s i := by
  have hleader := equivalent_leader m s.toList i
  refine Finset.filter_congr fun j _ => ⟨fun h => ?_, fun h => equivalent_trans hleader h⟩
  exact equivalent_trans (equivalent_symm hleader) h

theorem classes_eq (m : Material) (s : IndexSet) :
    classes m s = (leaders m s.toList).toFinset.image (classOf m s) := by
  refine Finset.Subset.antisymm (fun c hc => ?_) (Finset.image_subset_image fun i hi => ?_)
  · obtain ⟨i, hi, rfl⟩ := Finset.mem_image.1 hc
    rw [← classOf_leader]
    exact Finset.mem_image_of_mem _ (List.mem_toFinset.2 (leader_mem_leaders (List.mem_toFinset.1 hi)))
  · exact List.mem_toFinset.2 (mem_of_mem_leaders (List.mem_toFinset.1 hi))

theorem nodup_leaders (m : Material) (s : IndexSet) : (leaders m s.toList).Nodup :=
  s.nodup.filter _

/-- There are as many classes as leaders. -/
theorem card_classes (m : Material) (s : IndexSet) :
    (classes m s).card = (leaders m s.toList).length := by
  have hinjective : Set.InjOn (classOf m s) (leaders m s.toList).toFinset := by
    intro i hi j hj heq
    have hi' := List.mem_toFinset.1 hi
    have hj' := List.mem_toFinset.1 hj
    have hmem : i ∈ classOf m s j := by
      rw [← heq]
      exact Finset.mem_filter.2 ⟨List.mem_toFinset.2 (mem_of_mem_leaders hi'), .inl rfl⟩
    have hequivalent : m.Equivalent j i := (Finset.mem_filter.1 hmem).2
    rw [← leader_of_mem_leaders hi', ← leader_of_mem_leaders hj']
    exact ((leader_eq_iff (mem_of_mem_leaders hj')).2 hequivalent).symm
  rw [classes_eq, Finset.card_image_of_injOn hinjective,
    List.toFinset_card_of_nodup (nodup_leaders m s)]

/-- The leader of an index is the least of its class. -/
theorem isLeast_leader (hi : i ∈ s) :
    IsLeast {j | j ∈ s ∧ m.Equivalent j i} (leader m s.toList i) := by
  have hleads := leader_mem_leaders (m := m) hi
  have hleader := equivalent_leader m s.toList i
  refine ⟨⟨mem_of_mem_leaders hleads, hleader⟩, fun j ⟨hj, hji⟩ => ?_⟩
  rcases equivalent_trans hji (equivalent_symm hleader) with rfl | hshares
  · exact UInt8.le_refl _
  · refine UInt8.not_lt.1 fun hlt => ?_
    exact ((mem_leaders_iff s.ascending).1 hleads).2 j hj hlt hshares

section Firsts

theorem firsts_append_singleton (l : List UInt8) (i : UInt8) :
    firsts (l ++ [i]) = if i ∈ firsts l then firsts l else firsts l ++ [i] := by
  rw [firsts, List.foldl_append, ← firsts]
  simp

theorem mem_firsts : i ∈ firsts l ↔ i ∈ l := by
  induction l using List.reverseRecOn with
  | nil => rfl
  | append_singleton l j ih =>
    rw [firsts_append_singleton, List.mem_append, List.mem_singleton, ← ih]
    by_cases hj : j ∈ firsts l
    · rw [if_pos hj]
      exact ⟨.inl, fun h => h.elim (fun hi => hi) fun heq => heq ▸ hj⟩
    · rw [if_neg hj, List.mem_append, List.mem_singleton]

/-- Renaming keeps the order of first occurrence if it keeps the entries apart. -/
theorem firsts_map {f : UInt8 → UInt8} (hf : ∀ i ∈ l, ∀ j ∈ l, f i = f j → i = j) :
    firsts (l.map f) = (firsts l).map f := by
  induction l using List.reverseRecOn with
  | nil => rfl
  | append_singleton l i ih =>
    have hrest := ih fun j hj k hk => hf j (List.mem_append_left _ hj) k (List.mem_append_left _ hk)
    have hmem : f i ∈ (firsts l).map f ↔ i ∈ firsts l := by
      refine ⟨fun h => ?_, List.mem_map_of_mem⟩
      obtain ⟨j, hj, heq⟩ := List.mem_map.1 h
      have hj' := List.mem_append_left [i] (mem_firsts.1 hj)
      rwa [← hf j hj' i (by simp) heq]
    rw [List.map_append, List.map_singleton, firsts_append_singleton, firsts_append_singleton, hrest]
    by_cases hi : i ∈ firsts l
    · rw [if_pos hi, if_pos (hmem.2 hi)]
    · rw [if_neg hi, if_neg (mt hmem.1 hi), List.map_append, List.map_singleton]

end Firsts

section Table

variable {u : Usage} {limits : Limits} {t : TexCoordTable}

/-- A table or a failure by the number of classes. -/
theorem ofUsage_eq (u : Usage) (m : Material) (limits : Limits) :
    ofUsage u m limits =
      if (classes m (u.indices .texCoord)).card ≤ min limits.maxTexCoords 255 then
        .ok ⟨(u.indices .texCoord).toList.map (entryOf m (u.indices .texCoord).toList)⟩
      else .error (.texCoordLimit (classes m (u.indices .texCoord)).card
        (min limits.maxTexCoords 255)) := by
  have hfollows := Allocation.follows_ofIndices m (u.indices .texCoord).nodup
  have hlimit : registerLimit limits = min limits.maxTexCoords 255 := rfl
  rw [card_classes, ← hfollows.next, ← hlimit, ofUsage]
  by_cases hle : (Allocation.ofIndices m (u.indices .texCoord).toList).next ≤ registerLimit limits
  · rw [if_pos hle, if_neg (Nat.not_lt.2 hle), hfollows.assigned, List.map_map]
    rfl
  · rw [if_neg hle, if_pos (Nat.not_le.1 hle)]

theorem register_eq_iff (hlength : (leaders m s.toList).length ≤ 255) (hi : i ∈ s) (hj : j ∈ s) :
    (entryOf m s.toList i).register = (entryOf m s.toList j).register ↔ m.Equivalent i j := by
  rw [← UInt8.toNat_inj, register_entryOf hlength hi, register_entryOf hlength hj,
    List.idxOf_inj (leader_mem_leaders hi), leader_eq_iff hi]

/-- The registers, in the order of first use. -/
theorem firsts_register (hlength : (leaders m s.toList).length ≤ 255) :
    (firsts (s.toList.map fun i => (entryOf m s.toList i).register)).map UInt8.toNat =
      List.range (leaders m s.toList).length := by
  let number (i : UInt8) : UInt8 := UInt8.ofNat ((leaders m s.toList).idxOf i)
  have hnumber : ∀ i ∈ leaders m s.toList,
      (number i).toNat = (leaders m s.toList).idxOf i := by
    intro i hi
    have hlt := List.idxOf_lt_length_of_mem hi
    rw [UInt8.toNat_ofNat']
    omega
  have hregisters : (s.toList.map fun i => (entryOf m s.toList i).register) =
      (s.toList.map (leader m s.toList)).map number := by
    rw [List.map_map]
    rfl
  have hinjective : ∀ i ∈ s.toList.map (leader m s.toList),
      ∀ j ∈ s.toList.map (leader m s.toList), number i = number j → i = j := by
    intro i hi j hj heq
    obtain ⟨a, ha, rfl⟩ := List.mem_map.1 hi
    obtain ⟨b, hb, rfl⟩ := List.mem_map.1 hj
    have hidx := congrArg UInt8.toNat heq
    rw [hnumber _ (leader_mem_leaders ha), hnumber _ (leader_mem_leaders hb)] at hidx
    exact (List.idxOf_inj (leader_mem_leaders ha)).1 hidx
  rw [hregisters, firsts_map hinjective, firsts_map_leader s.nodup, List.map_map]
  refine List.ext_getElem (by simp) fun k hk _ => ?_
  have hlt : k < (leaders m s.toList).length := by simpa using hk
  rw [List.getElem_map, List.getElem_range, Function.comp_apply,
    hnumber _ (List.getElem_mem hlt), (nodup_leaders m s).idxOf_getElem k hlt]

theorem entries_eq (h : ofUsage u m limits = .ok t) :
    t.entries = (u.indices .texCoord).toList.map (entryOf m (u.indices .texCoord).toList) :=
  entries_ofUsage h

theorem exists_entryOf (h : ofUsage u m limits = .ok t) {e : TexCoordEntry} (he : e ∈ t.entries) :
    ∃ i ∈ u.indices .texCoord, e = entryOf m (u.indices .texCoord).toList i := by
  rw [entries_eq h] at he
  obtain ⟨i, hi, rfl⟩ := List.mem_map.1 he
  exact ⟨i, hi, rfl⟩

theorem register?_of_mem (h : ofUsage u m limits = .ok t) {e : TexCoordEntry}
    (he : e ∈ t.entries) : t.register? e.index = some e.register := by
  obtain ⟨i, hi, rfl⟩ := exists_entryOf h he
  obtain ⟨found, hfilter, hregister, -⟩ := entry_of_mem h hi
  have hmem : entryOf m (u.indices .texCoord).toList i ∈ t.entries.filter fun e => e.index = i :=
    List.mem_filter.2 ⟨he, decide_eq_true rfl⟩
  rw [hfilter] at hmem
  rw [← List.mem_singleton.1 hmem] at hregister
  exact hregister

/-- The table of a usage: one register for each class of indices. -/
theorem ofUsage_exact (u : Usage) (m : Material) (limits : Limits) :
    ((∃ t, ofUsage u m limits = .ok t) ↔
      (classes m (u.indices .texCoord)).card ≤ min limits.maxTexCoords 255) ∧
    (min limits.maxTexCoords 255 < (classes m (u.indices .texCoord)).card →
      ofUsage u m limits = .error (.texCoordLimit (classes m (u.indices .texCoord)).card
        (min limits.maxTexCoords 255))) ∧
    ∀ t, ofUsage u m limits = .ok t →
      t.entries.map (·.index) = (u.indices .texCoord).toList ∧
      (t.entries.map (·.index)).Pairwise (· < ·) ∧
      (∀ e ∈ t.entries, t.register? e.index = some e.register) ∧
      (∀ e ∈ t.entries, ∀ f ∈ t.entries,
        e.register = f.register ↔ m.Equivalent e.index f.index) ∧
      (firsts (t.entries.map (·.register))).map UInt8.toNat =
        List.range (classes m (u.indices .texCoord)).card ∧
      t.registerCount = (classes m (u.indices .texCoord)).card ∧
      ∀ e ∈ t.entries,
        IsLeast {i | i ∈ u.indices .texCoord ∧ m.Equivalent i e.index} e.canonical := by
  have heq := ofUsage_eq u m limits
  refine ⟨⟨fun ⟨t, ht⟩ => ?_, fun hle => ?_⟩, fun hlt => ?_, fun t ht => ?_⟩
  · by_contra hle
    rw [if_neg hle] at heq
    cases ht.symm.trans heq
  · rw [if_pos hle] at heq
    exact ⟨_, heq⟩
  · rwa [if_neg (Nat.not_le.2 hlt)] at heq
  · have hlength := length_leaders_le ht
    have hindices : t.entries.map (·.index) = (u.indices .texCoord).toList := by
      rw [entries_eq ht, List.map_map]
      exact List.map_id _
    refine ⟨hindices, hindices ▸ (u.indices .texCoord).ascending, fun e => register?_of_mem ht,
      fun e he f hf => ?_, ?_, ?_, fun e he => ?_⟩
    · obtain ⟨i, hi, rfl⟩ := exists_entryOf ht he
      obtain ⟨j, hj, rfl⟩ := exists_entryOf ht hf
      exact register_eq_iff hlength hi hj
    · rw [entries_eq ht, List.map_map, card_classes]
      exact firsts_register hlength
    · rw [registerCount_ofUsage ht, canonicals_ofUsage ht, card_classes]
    · obtain ⟨i, hi, rfl⟩ := exists_entryOf ht he
      exact isLeast_leader hi

/-- Index 1 is rotated. Index 7 has no stage of its own and shares with index 0. -/
def tiltedCoordinates : Usage :=
  .ofLeaves [⟨.texCoord, 0⟩, ⟨.texCoord, 1⟩, ⟨.texCoord, 7⟩]

def tilted : Material where
  textures := [{}, { mods := { rotate := some .sine } }]

theorem ofUsage_exact_tilted :
    (∃ t, ofUsage tiltedCoordinates tilted { maxTexCoords := 2 } = .ok t ∧ t.registerCount = 2 ∧
      (firsts (t.entries.map (·.register))).map UInt8.toNat = [0, 1]) ∧
    ofUsage tiltedCoordinates tilted { maxTexCoords := 1 } = .error (.texCoordLimit 2 1) := by
  obtain ⟨hsome, -, htable⟩ := ofUsage_exact tiltedCoordinates tilted { maxTexCoords := 2 }
  obtain ⟨-, hnone, -⟩ := ofUsage_exact tiltedCoordinates tilted { maxTexCoords := 1 }
  obtain ⟨t, ht⟩ := hsome.2 (by decide)
  obtain ⟨-, -, -, -, hregisters, hcount, -⟩ := htable t ht
  exact ⟨⟨t, ht, hcount, hregisters⟩, hnone (by decide)⟩

end Table

end TexCoordTable

end MaterialGraph
