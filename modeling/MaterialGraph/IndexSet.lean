/-!
Finite sets of leaf indices, kept as strictly ascending lists of bytes.
-/

namespace MaterialGraph

structure IndexSet where
  toList : List UInt8
  ascending : toList.Pairwise (· < ·)
deriving DecidableEq

namespace IndexSet

def insertByte (i : UInt8) : List UInt8 → List UInt8
  | [] => [i]
  | j :: rest =>
    if i < j then i :: j :: rest
    else if i = j then j :: rest
    else j :: insertByte i rest

private theorem mem_insertByte_iff {i j : UInt8} :
    ∀ {l : List UInt8}, j ∈ insertByte i l ↔ j = i ∨ j ∈ l
  | [] => by simp [insertByte]
  | k :: rest => by
    rw [insertByte]
    split
    · simp
    · split
      · next h => subst h; simp
      · simp only [List.mem_cons, mem_insertByte_iff]
        exact ⟨fun h => h.elim (.inr ∘ .inl) (Or.imp id .inr),
          fun h => h.elim (.inr ∘ .inl) (Or.imp id .inr)⟩

private theorem pairwise_insertByte (i : UInt8) :
    ∀ {l : List UInt8}, l.Pairwise (· < ·) → (insertByte i l).Pairwise (· < ·)
  | [], _ => by simp [insertByte]
  | k :: rest, h => by
    obtain ⟨hhead, hrest⟩ := List.pairwise_cons.1 h
    rw [insertByte]
    split
    · next hlt =>
      refine List.pairwise_cons.2 ⟨fun j hj => ?_, h⟩
      rcases List.mem_cons.1 hj with rfl | hj
      · exact hlt
      · exact UInt8.lt_trans hlt (hhead j hj)
    · split
      · exact h
      · next hlt hne =>
        refine List.pairwise_cons.2 ⟨fun j hj => ?_, pairwise_insertByte i hrest⟩
        rcases mem_insertByte_iff.1 hj with rfl | hj
        · exact UInt8.lt_of_le_of_ne (UInt8.not_lt.1 hlt) (Ne.symm hne)
        · exact hhead j hj

def empty : IndexSet :=
  ⟨[], .nil⟩

instance : Inhabited IndexSet :=
  ⟨empty⟩

def insert (s : IndexSet) (i : UInt8) : IndexSet :=
  ⟨insertByte i s.toList, pairwise_insertByte i s.ascending⟩

def ofList (l : List UInt8) : IndexSet :=
  l.foldl insert empty

instance : Membership UInt8 IndexSet :=
  ⟨fun s i => i ∈ s.toList⟩

instance (i : UInt8) (s : IndexSet) : Decidable (i ∈ s) :=
  inferInstanceAs (Decidable (i ∈ s.toList))

def size (s : IndexSet) : Nat :=
  s.toList.length

def isEmpty (s : IndexSet) : Bool :=
  s.toList.isEmpty

def max? (s : IndexSet) : Option UInt8 :=
  s.toList.getLast?

/-- The number of smaller members, for a member. -/
def position? (s : IndexSet) (i : UInt8) : Option Nat :=
  s.toList.idxOf? i

@[simp]
theorem not_mem_empty (i : UInt8) : ¬i ∈ empty :=
  List.not_mem_nil

@[simp]
theorem mem_insert {s : IndexSet} {i j : UInt8} : j ∈ s.insert i ↔ j = i ∨ j ∈ s :=
  mem_insertByte_iff

theorem mem_ofList_iff {l : List UInt8} {i : UInt8} : i ∈ ofList l ↔ i ∈ l := by
  have hfold : ∀ (l : List UInt8) (s : IndexSet), i ∈ l.foldl insert s ↔ i ∈ s ∨ i ∈ l := by
    intro l
    induction l with
    | nil => exact fun s => (or_iff_left List.not_mem_nil).symm
    | cons j rest ih =>
      intro s
      rw [List.foldl_cons, ih, mem_insert, List.mem_cons, or_comm (a := i = j), or_assoc]
  rw [ofList, hfold]
  exact or_iff_right (not_mem_empty i)

end IndexSet

end MaterialGraph
