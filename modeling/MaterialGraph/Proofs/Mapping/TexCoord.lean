import Mathlib.Data.List.Basic
import Mathlib.Data.List.Induction
import MaterialGraph.Mapping.TexCoord

/-!
Which coordinate indices share a register. An index takes the register of its
leader, the first index in use that reads the same channel unmodified through
the same generator; the leaders have the registers in ascending order. Main
statement: the canonical indices of a table are the leaders of the usage.
-/

namespace MaterialGraph

/-- Whether two indices compute the same coordinates, both unmodified. -/
def Material.Shares (m : Material) (i j : UInt8) : Prop :=
  (m.stage i).isIdentity ∧ (m.stage j).isIdentity ∧
    ((m.stage i).uv, (m.stage i).gen) = ((m.stage j).uv, (m.stage j).gen)

instance (m : Material) (i j : UInt8) : Decidable (m.Shares i j) :=
  inferInstanceAs (Decidable (_ ∧ _ ∧ _))

theorem TextureStage.modFlags_of_isIdentity {s : TextureStage} (h : s.isIdentity) :
    s.modFlags = 0 := by
  have hnone : (TexCoordMod.all.filter fun m => s.wave m != .identity) = [] := by
    apply List.filter_eq_nil_iff.2
    intro m hm
    have hwave := List.all_eq_true.1 h m hm
    rw [bne, hwave]
    exact Bool.false_ne_true
  rw [modFlags, hnone, List.foldl_nil]

theorem IndexSet.nodup (s : IndexSet) : s.toList.Nodup :=
  s.ascending.imp UInt8.ne_of_lt

namespace TexCoordTable

variable {m : Material} {i j k : UInt8} {l : List UInt8} {key : UInt8 × TexCoordGen}

theorem shares_comm (h : m.Shares i j) : m.Shares j i :=
  ⟨h.2.1, h.1, h.2.2.symm⟩

theorem shares_trans (h : m.Shares i j) (h' : m.Shares j k) : m.Shares i k :=
  ⟨h.1, h'.2.1, h.2.2.trans h'.2.2⟩

/-- The first of some indices that computes the coordinates of a channel and
generator without modifying them. -/
def first? (m : Material) (l : List UInt8) (key : UInt8 × TexCoordGen) : Option UInt8 :=
  l.find? fun j => (m.stage j).isIdentity ∧ ((m.stage j).uv, (m.stage j).gen) = key

/-- The first of some indices that shares with an index, itself if there is none. -/
def leader (m : Material) (l : List UInt8) (i : UInt8) : UInt8 :=
  (l.find? fun j => m.Shares j i).getD i

/-- The indices that lead themselves. -/
def leaders (m : Material) (l : List UInt8) : List UInt8 :=
  l.filter fun i => leader m l i = i

theorem leader_of_identity (h : (m.stage i).isIdentity) :
    leader m l i = (first? m l ((m.stage i).uv, (m.stage i).gen)).getD i := by
  have hshares : ∀ j, m.Shares j i ↔ (m.stage j).isIdentity ∧
      ((m.stage j).uv, (m.stage j).gen) = ((m.stage i).uv, (m.stage i).gen) := fun j =>
    ⟨fun hj => ⟨hj.1, hj.2.2⟩, fun hj => ⟨hj.1, h, hj.2⟩⟩
  simp only [leader, first?, hshares]

theorem leader_of_not_identity (h : ¬(m.stage i).isIdentity) : leader m l i = i := by
  have hnone : (l.find? fun j => m.Shares j i) = none :=
    List.find?_eq_none.2 fun j _ hshares => h (of_decide_eq_true hshares).2.1
  rw [leader, hnone, Option.getD_none]

/-- A stage prescribes the same for an index and for its leader. -/
theorem stage_leader (m : Material) (l : List UInt8) (i : UInt8) :
    (m.stage (leader m l i)).uv = (m.stage i).uv ∧
      (m.stage (leader m l i)).modFlags = (m.stage i).modFlags ∧
      (m.stage (leader m l i)).gen = (m.stage i).gen := by
  cases hfind : l.find? fun j => m.Shares j i with
  | none =>
    rw [leader, hfind, Option.getD_none]
    exact ⟨rfl, rfl, rfl⟩
  | some j =>
    have hshares := List.find?_some hfind
    obtain ⟨hj, hi, hkey⟩ : m.Shares j i := of_decide_eq_true hshares
    obtain ⟨huv, hgen⟩ := Prod.mk.inj hkey
    rw [leader, hfind, Option.getD_some]
    refine ⟨huv, ?_, hgen⟩
    rw [TextureStage.modFlags_of_isIdentity hj, TextureStage.modFlags_of_isIdentity hi]

/-- The leader of an index in use does not depend on what comes after it. -/
theorem leader_append (hi : i ∈ l) (rest : List UInt8) :
    leader m (l ++ rest) i = leader m l i := by
  by_cases hidentity : (m.stage i).isIdentity
  · have hsome : (l.find? fun j => m.Shares j i).isSome :=
      List.find?_isSome.2 ⟨i, hi, decide_eq_true ⟨hidentity, hidentity, rfl⟩⟩
    obtain ⟨k, hk⟩ := Option.isSome_iff_exists.1 hsome
    rw [leader, leader, List.find?_append, hk, Option.some_or]
  · rw [leader_of_not_identity hidentity, leader_of_not_identity hidentity]

theorem leader_append_self (l : List UInt8) (i : UInt8) : leader m (l ++ [i]) i = leader m l i := by
  rw [leader, leader, List.find?_append]
  cases l.find? fun j => m.Shares j i with
  | some j => rfl
  | none => by_cases hi : m.Shares i i <;> simp [hi]

theorem leaders_append_singleton (l : List UInt8) (i : UInt8) :
    leaders m (l ++ [i]) = leaders m l ++ if leader m l i = i then [i] else [] := by
  rw [leaders, leaders, List.filter_append]
  congr 1
  · exact List.filter_congr fun k hk => by rw [leader_append hk]
  · rw [List.filter_singleton, leader_append_self]
    simp

theorem first?_eq_some (h : first? m l key = some j) :
    j ∈ l ∧ (m.stage j).isIdentity ∧ ((m.stage j).uv, (m.stage j).gen) = key := by
  rw [first?] at h
  exact ⟨List.mem_of_find?_eq_some h, by simpa using List.find?_some h⟩

theorem first?_mem_leaders (h : first? m l key = some j) : j ∈ leaders m l := by
  obtain ⟨hj, hidentity, hkey⟩ := first?_eq_some h
  refine List.mem_filter.2 ⟨hj, decide_eq_true ?_⟩
  rw [leader_of_identity hidentity, hkey, h, Option.getD_some]

theorem leader_mem_leaders_of_ne (h : leader m l i ≠ i) : leader m l i ∈ leaders m l := by
  by_cases hidentity : (m.stage i).isIdentity
  · rw [leader_of_identity hidentity] at h ⊢
    cases hfirst : first? m l ((m.stage i).uv, (m.stage i).gen) with
    | none => exact absurd (by rw [hfirst, Option.getD_none]) h
    | some j => exact first?_mem_leaders hfirst
  · exact absurd (leader_of_not_identity hidentity) h

theorem leader_mem_leaders (hi : i ∈ l) : leader m l i ∈ leaders m l := by
  by_cases hleads : leader m l i = i
  · rw [hleads]
    exact List.mem_filter.2 ⟨hi, decide_eq_true hleads⟩
  · exact leader_mem_leaders_of_ne hleads

/-- An index is a leader if no smaller one shares with it. -/
theorem mem_leaders_iff (h : l.Pairwise (· < ·)) :
    i ∈ leaders m l ↔ i ∈ l ∧ ∀ j ∈ l, j < i → ¬m.Shares j i := by
  rw [leaders, List.mem_filter, decide_eq_true_eq]
  refine and_congr_right fun hi => ?_
  cases hfind : l.find? fun j => m.Shares j i with
  | none =>
    have hnone := List.find?_eq_none.1 hfind
    simp only [leader, hfind, Option.getD_none, true_iff]
    exact fun j hj _ hshares => hnone j hj (decide_eq_true hshares)
  | some k =>
    obtain ⟨hk, before, after, rfl, hbefore⟩ := List.find?_eq_some_iff_append.1 hfind
    have hki : m.Shares k i := of_decide_eq_true hk
    obtain ⟨-, hafter, -⟩ := List.pairwise_append.1 h
    have hlt := (List.pairwise_cons.1 hafter).1
    simp only [leader, hfind, Option.getD_some]
    constructor
    · rintro rfl j hj hji hshares
      rcases List.mem_append.1 hj with hj | hj
      · exact absurd (decide_eq_true hshares) (by simpa using hbefore j hj)
      · rcases List.mem_cons.1 hj with rfl | hj
        · exact UInt8.lt_irrefl _ hji
        · exact UInt8.lt_irrefl _ (UInt8.lt_trans hji (hlt j hj))
    · intro hleads
      rcases List.mem_append.1 hi with hi' | hi'
      · have hself : m.Shares i i := shares_trans (shares_comm hki) hki
        exact absurd (decide_eq_true hself) (by simpa using hbefore i hi')
      · rcases List.mem_cons.1 hi' with rfl | hi'
        · rfl
        · exact absurd hki (hleads k (by simp) (hlt i hi'))

namespace Allocation

/-- Every index so far has the register of its leader. -/
structure Follows (m : Material) (a : Allocation) (l : List UInt8) : Prop where
  shared : ∀ key, a.shared.lookup key =
    (first? m l key).map fun j => ((leaders m l).idxOf j, j)
  next : a.next = (leaders m l).length
  assigned : a.assigned =
    l.map fun i => ⟨i, (leaders m l).idxOf (leader m l i), leader m l i⟩

theorem Follows.initial (m : Material) : Follows m {} [] where
  shared _ := rfl
  next := rfl
  assigned := rfl

private theorem first?_append_singleton (l : List UInt8) (i : UInt8) (key : UInt8 × TexCoordGen) :
    first? m (l ++ [i]) key = (first? m l key).or
      (if (m.stage i).isIdentity ∧ ((m.stage i).uv, (m.stage i).gen) = key then some i
        else none) := by
  rw [first?, first?, List.find?_append, List.find?_singleton]
  simp

/-- The registers of the indices so far stay when an index follows. -/
private theorem assigned_append (m : Material) (l : List UInt8) (i : UInt8) :
    (l ++ [i]).map (fun k => Assignment.mk k
      ((leaders m (l ++ [i])).idxOf (leader m (l ++ [i]) k)) (leader m (l ++ [i]) k)) =
    (l.map fun k => ⟨k, (leaders m l).idxOf (leader m l k), leader m l k⟩) ++
      [⟨i, (leaders m (l ++ [i])).idxOf (leader m l i), leader m l i⟩] := by
  rw [List.map_append, List.map_singleton, leader_append_self]
  congr 1
  refine List.map_congr_left fun k hk => ?_
  rw [leaders_append_singleton, leader_append hk, List.idxOf_append_of_mem (leader_mem_leaders hk)]

/-- An index that leads itself takes the next register. -/
theorem Follows.fresh {a : Allocation} (h : a.Follows m l) (hi : i ∉ l)
    (hleads : leader m l i = i) :
    (a.fresh i).next = (leaders m (l ++ [i])).length ∧
      (a.fresh i).assigned = (l ++ [i]).map fun k =>
        ⟨k, (leaders m (l ++ [i])).idxOf (leader m (l ++ [i]) k), leader m (l ++ [i]) k⟩ := by
  have hnew : i ∉ leaders m l := fun hmem => hi (List.mem_filter.1 hmem).1
  have hleaders : leaders m (l ++ [i]) = leaders m l ++ [i] := by
    rw [leaders_append_singleton, if_pos hleads]
  refine ⟨?_, ?_⟩
  · rw [hleaders, List.length_append, ← h.next]
    rfl
  · rw [assigned_append, hleads, hleaders, List.idxOf_append_of_notMem hnew]
    simp [Allocation.fresh, h.assigned, h.next]

private theorem first?_append_of_not_identity (h : ¬(m.stage i).isIdentity) :
    first? m (l ++ [i]) key = first? m l key := by
  rw [first?_append_singleton, if_neg fun hi => h hi.1, Option.or_none]

/-- Registers that are shared stay, whatever leaders follow. -/
private theorem shared_append (rest : List UInt8) (key : UInt8 × TexCoordGen) :
    ((first? m l key).map fun j => ((leaders m l ++ rest).idxOf j, j)) =
      (first? m l key).map fun j => ((leaders m l).idxOf j, j) := by
  cases h : first? m l key with
  | none => rfl
  | some j => rw [Option.map_some, Option.map_some, List.idxOf_append_of_mem (first?_mem_leaders h)]

/-- An index that shares takes the register of the first it shares with. -/
theorem Follows.share {a : Allocation} (h : a.Follows m l) (hi : i ∉ l)
    (hidentity : (m.stage i).isIdentity) {c : UInt8}
    (hfirst : first? m l ((m.stage i).uv, (m.stage i).gen) = some c) :
    (a.assign m i).Follows m (l ++ [i]) := by
  have hlookup := h.shared ((m.stage i).uv, (m.stage i).gen)
  have hleader : leader m l i = c := by
    rw [leader_of_identity hidentity, hfirst, Option.getD_some]
  have hne : leader m l i ≠ i := fun heq => hi (heq ▸ hleader ▸ (first?_eq_some hfirst).1)
  have hleaders : leaders m (l ++ [i]) = leaders m l := by
    rw [leaders_append_singleton, if_neg hne, List.append_nil]
  rw [hfirst, Option.map_some] at hlookup
  simp only [assign, hidentity, if_true, hlookup]
  refine ⟨fun key => ?_, by rw [hleaders, h.next], ?_⟩
  · rw [h.shared, hleaders, first?_append_singleton]
    by_cases hkey : ((m.stage i).uv, (m.stage i).gen) = key
    · rw [← hkey, hfirst, Option.some_or]
    · rw [if_neg fun hi => hkey hi.2, Option.or_none]
  · rw [assigned_append, ← h.assigned, hleaders, hleader]

/-- An unmodified index that shares with none before opens a register to share. -/
theorem Follows.lead {a : Allocation} (h : a.Follows m l) (hi : i ∉ l)
    (hidentity : (m.stage i).isIdentity)
    (hfirst : first? m l ((m.stage i).uv, (m.stage i).gen) = none) :
    (a.assign m i).Follows m (l ++ [i]) := by
  have hlookup := h.shared ((m.stage i).uv, (m.stage i).gen)
  have hleads : leader m l i = i := by
    rw [leader_of_identity hidentity, hfirst, Option.getD_none]
  have hnew : i ∉ leaders m l := fun hmem => hi (List.mem_filter.1 hmem).1
  rw [hfirst, Option.map_none] at hlookup
  simp only [assign, hidentity, if_true, hlookup]
  obtain ⟨hnext, hassigned⟩ := h.fresh hi hleads
  refine ⟨fun key => ?_, hnext, hassigned⟩
  rw [List.lookup_append, h.shared, first?_append_singleton, leaders_append_singleton,
    if_pos hleads]
  by_cases hkey : ((m.stage i).uv, (m.stage i).gen) = key
  · subst hkey
    simp [hfirst, hidentity, h.next, List.idxOf_append_of_notMem hnew]
  · have hne : (key == ((m.stage i).uv, (m.stage i).gen)) = false :=
      beq_eq_false_iff_ne.2 (Ne.symm hkey)
    rw [if_neg fun hi => hkey hi.2, Option.or_none, shared_append, List.lookup_cons, hne,
      List.lookup_nil, Option.or_none]

theorem Follows.step {a : Allocation} (h : a.Follows m l) (hi : i ∉ l) :
    (a.assign m i).Follows m (l ++ [i]) := by
  by_cases hidentity : (m.stage i).isIdentity
  · cases hfirst : first? m l ((m.stage i).uv, (m.stage i).gen) with
    | some c => exact h.share hi hidentity hfirst
    | none => exact h.lead hi hidentity hfirst
  · have hleads := leader_of_not_identity (l := l) hidentity
    obtain ⟨hnext, hassigned⟩ := h.fresh hi hleads
    simp only [assign, hidentity]
    refine ⟨fun key => ?_, hnext, hassigned⟩
    rw [first?_append_of_not_identity hidentity, leaders_append_singleton, shared_append]
    exact h.shared key

theorem follows_ofIndices (m : Material) (hl : l.Nodup) : (ofIndices m l).Follows m l := by
  induction l using List.reverseRecOn with
  | nil => exact .initial m
  | append_singleton l i ih =>
    have hnodup := List.nodup_append.1 hl
    rw [ofIndices, List.foldl_append]
    exact (ih hnodup.1).step fun hmem => hnodup.2.2 i hmem i (List.mem_singleton_self i) rfl

end Allocation

/-- The first occurrences in a list. -/
def firsts (l : List UInt8) : List UInt8 :=
  l.foldl (fun acc i => if acc.contains i then acc else acc ++ [i]) []

theorem canonicals_eq (t : TexCoordTable) :
    t.canonicals = firsts (t.entries.map TexCoordEntry.canonical) := by
  rw [firsts, List.foldl_map, canonicals]

/-- The leaders are met in ascending order. -/
theorem firsts_map_leader (hl : l.Nodup) : firsts (l.map (leader m l)) = leaders m l := by
  induction l using List.reverseRecOn with
  | nil => rfl
  | append_singleton l i ih =>
    obtain ⟨hnodup, -, hdisjoint⟩ := List.nodup_append.1 hl
    have hi : i ∉ l := fun hmem => hdisjoint i hmem i (List.mem_singleton_self i) rfl
    have hmap : l.map (leader m (l ++ [i])) = l.map (leader m l) :=
      List.map_congr_left fun k hk => leader_append hk [i]
    rw [List.map_append, List.map_singleton, hmap, leader_append_self, firsts,
      List.foldl_append, ← firsts, ih hnodup, leaders_append_singleton]
    by_cases hleads : leader m l i = i
    · have hnew : i ∉ leaders m l := fun hmem => hi (List.mem_filter.1 hmem).1
      simp [hleads, hnew]
    · simp [hleads, leader_mem_leaders_of_ne hleads]

variable {u : Usage} {limits : Limits} {t : TexCoordTable}

/-- Every index in use has the register of its leader. -/
theorem entries_ofUsage (h : ofUsage u m limits = .ok t) :
    t.entries = (u.indices .texCoord).toList.map fun i =>
      ⟨i, UInt8.ofNat ((leaders m (u.indices .texCoord).toList).idxOf
        (leader m (u.indices .texCoord).toList i)), leader m (u.indices .texCoord).toList i⟩ := by
  have hfollows := Allocation.follows_ofIndices m (u.indices .texCoord).nodup
  simp only [ofUsage] at h
  split at h
  · cases h
  · cases h
    rw [hfollows.assigned, List.map_map]
    rfl

theorem canonicals_ofUsage (h : ofUsage u m limits = .ok t) :
    t.canonicals = leaders m (u.indices .texCoord).toList := by
  rw [canonicals_eq, entries_ofUsage h, List.map_map]
  exact firsts_map_leader (u.indices .texCoord).nodup

end TexCoordTable

end MaterialGraph
