/-!
Tables from names to values. The entries are kept in strictly ascending order
of their names, so a name occurs once and equal tables have equal entries.
Main statements: what a lookup finds after an insertion or an erasure.
-/

namespace MaterialGraph

structure Table (α : Type) where
  entries : List (String × α)
  ascending : entries.Pairwise fun a b => a.1 < b.1
deriving DecidableEq

namespace Table

variable {α : Type}

private theorem lt_of_not_lt_of_ne {a b : String} (h : ¬a < b) (hne : a ≠ b) : b < a := by
  have hle : b ≤ a := String.not_lt.1 h
  by_cases hlt : b < a
  · exact hlt
  · exact absurd (String.le_antisymm (String.not_lt.1 hlt) hle) hne

/-- An entry goes before the first larger name and replaces one of the same name. -/
def insertEntry (name : String) (value : α) : List (String × α) → List (String × α)
  | [] => [(name, value)]
  | (n, v) :: rest =>
    if name < n then (name, value) :: (n, v) :: rest
    else if name = n then (name, value) :: rest
    else (n, v) :: insertEntry name value rest

private theorem mem_insertEntry {name : String} {value : α} {e : String × α} :
    ∀ {l : List (String × α)}, e ∈ insertEntry name value l → e = (name, value) ∨ e ∈ l
  | [], h => by simpa [insertEntry] using h
  | (n, v) :: rest, h => by
    rw [insertEntry] at h
    split at h
    · simpa using h
    · split at h
      · rcases List.mem_cons.1 h with h | h
        · exact .inl h
        · exact .inr (List.mem_cons_of_mem _ h)
      · rcases List.mem_cons.1 h with h | h
        · exact .inr (h ▸ List.mem_cons_self)
        · exact (mem_insertEntry h).imp id (List.mem_cons_of_mem _)

private theorem pairwise_insertEntry (name : String) (value : α) :
    ∀ {l : List (String × α)}, l.Pairwise (fun a b => a.1 < b.1) →
      (insertEntry name value l).Pairwise fun a b => a.1 < b.1
  | [], _ => by simp [insertEntry]
  | (n, v) :: rest, h => by
    obtain ⟨hhead, hrest⟩ := List.pairwise_cons.1 h
    rw [insertEntry]
    split
    · next hlt =>
      refine List.pairwise_cons.2 ⟨fun e he => ?_, h⟩
      rcases List.mem_cons.1 he with rfl | he
      · exact hlt
      · exact String.lt_trans hlt (hhead e he)
    · split
      · next heq => exact List.pairwise_cons.2 ⟨fun e he => heq ▸ hhead e he, hrest⟩
      · next hlt hne =>
        refine List.pairwise_cons.2 ⟨fun e he => ?_, pairwise_insertEntry name value hrest⟩
        rcases mem_insertEntry he with rfl | he
        · exact lt_of_not_lt_of_ne hlt hne
        · exact hhead e he

def empty : Table α :=
  ⟨[], .nil⟩

instance : Inhabited (Table α) :=
  ⟨empty⟩

def insert (t : Table α) (name : String) (value : α) : Table α :=
  ⟨insertEntry name value t.entries, pairwise_insertEntry name value t.ascending⟩

def erase (t : Table α) (name : String) : Table α :=
  ⟨t.entries.filter (·.1 != name), t.ascending.filter _⟩

/-- The last of several values given for one name wins. -/
def ofList (l : List (String × α)) : Table α :=
  l.foldl (fun t e => t.insert e.1 e.2) empty

def get? (t : Table α) (name : String) : Option α :=
  t.entries.lookup name

def contains (t : Table α) (name : String) : Bool :=
  (t.get? name).isSome

def names (t : Table α) : List String :=
  t.entries.map (·.1)

def values (t : Table α) : List α :=
  t.entries.map (·.2)

def size (t : Table α) : Nat :=
  t.entries.length

def isEmpty (t : Table α) : Bool :=
  t.entries.isEmpty

@[simp]
theorem get?_empty (name : String) : (empty : Table α).get? name = none := rfl

private theorem lookup_entry (k n : String) (v : α) (rest : List (String × α)) :
    ((n, v) :: rest).lookup k = if k = n then some v else rest.lookup k := by
  rw [List.lookup_cons]
  by_cases h : k = n
  · simp [h]
  · simp [h, beq_eq_false_iff_ne.2 h]

private theorem lookup_insertEntry (name : String) (value : α) (k : String) :
    ∀ l : List (String × α), (insertEntry name value l).lookup k =
      if k = name then some value else l.lookup k
  | [] => by rw [insertEntry, lookup_entry]
  | (n, v) :: rest => by
    rw [insertEntry]
    split
    · rw [lookup_entry]
    · split
      · next heq => subst heq; simp only [lookup_entry]; split <;> rfl
      · next hne =>
        rw [lookup_entry, lookup_insertEntry name value k rest, lookup_entry]
        by_cases h : k = name
        · subst h; simp [hne]
        · simp [h]

theorem get?_insert (t : Table α) (name k : String) (value : α) :
    (t.insert name value).get? k = if k = name then some value else t.get? k :=
  lookup_insertEntry name value k t.entries

theorem get?_erase (t : Table α) (name k : String) :
    (t.erase name).get? k = if k = name then none else t.get? k := by
  obtain ⟨l, hl⟩ := t
  simp only [get?, erase]
  clear hl
  induction l with
  | nil => simp
  | cons e rest ih =>
    obtain ⟨n, v⟩ := e
    by_cases hn : n = name
    · subst hn
      rw [List.filter_cons_of_neg (by simp), ih, lookup_entry]
      split <;> rfl
    · rw [List.filter_cons_of_pos (by simpa using hn), lookup_entry, ih, lookup_entry]
      by_cases hk : k = n
      · subst hk; simp [hn]
      · simp [hk]

end Table

end MaterialGraph
