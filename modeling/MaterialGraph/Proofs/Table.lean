import MaterialGraph.Table

/-!
Entries of tables. A name occurs in one entry at most, so an entry is found by
its name, and a name has one position.
-/

namespace MaterialGraph.Table

variable {α : Type} {t : Table α} {name : String} {value : α} {i j : Nat}

theorem name_ne_of_lt {e e' : String × α} (hi : t.entries[i]? = some e)
    (hj : t.entries[j]? = some e') (h : i < j) : e.1 ≠ e'.1 := by
  obtain ⟨hlt, rfl⟩ := List.getElem?_eq_some_iff.1 hi
  obtain ⟨hlt', rfl⟩ := List.getElem?_eq_some_iff.1 hj
  intro heq
  have hascending := List.pairwise_iff_getElem.1 t.ascending i j hlt hlt' h
  exact String.lt_irrefl _ (heq ▸ hascending)

theorem position_unique {e e' : String × α} (hi : t.entries[i]? = some e)
    (hj : t.entries[j]? = some e') (h : e.1 = e'.1) : i = j := by
  rcases Nat.lt_trichotomy i j with hlt | heq | hgt
  · exact absurd h (name_ne_of_lt hi hj hlt)
  · exact heq
  · exact absurd h.symm (name_ne_of_lt hj hi hgt)

theorem get?_eq_some_iff : t.get? name = some value ↔ (name, value) ∈ t.entries := by
  constructor
  · intro h
    rw [get?, List.lookup_eq_some_iff] at h
    obtain ⟨before, after, heq, -⟩ := h
    rw [heq]
    simp
  · intro h
    obtain ⟨before, after, heq⟩ := List.append_of_mem h
    refine List.lookup_eq_some_iff.2 ⟨before, after, heq, fun e he => ?_⟩
    have hascending := (List.pairwise_append.1 (heq ▸ t.ascending)).2.2 e he (name, value)
      List.mem_cons_self
    exact bne_iff_ne.2 fun hname => String.lt_irrefl name (hname ▸ hascending)

theorem contains_iff : t.contains name ↔ ∃ value, (name, value) ∈ t.entries := by
  rw [contains, Option.isSome_iff_exists]
  simp only [get?_eq_some_iff]

theorem mem_names_iff : name ∈ t.names ↔ t.contains name := by
  rw [contains_iff, names, List.mem_map]
  constructor
  · rintro ⟨e, he, rfl⟩
    exact ⟨e.2, he⟩
  · rintro ⟨value, h⟩
    exact ⟨(name, value), h, rfl⟩

/-- Tables in which the same is found for every name are equal. -/
theorem ext_get? {t t' : Table α} (h : ∀ name, t.get? name = t'.get? name) : t = t' := by
  have hmem (e : String × α) : e ∈ t.entries ↔ e ∈ t'.entries := by
    rw [← get?_eq_some_iff, ← get?_eq_some_iff, h]
  have hnodup (t : Table α) : t.entries.Nodup := by
    refine t.ascending.imp ?_
    rintro e _ hlt rfl
    exact String.lt_irrefl _ hlt
  have hperm : t.entries.Perm t'.entries :=
    (List.perm_ext_iff_of_nodup (hnodup t) (hnodup t')).2 hmem
  have heq : t.entries = t'.entries := by
    refine hperm.eq_of_pairwise (fun e e' _ _ hlt hgt => ?_) t.ascending t'.ascending
    exact absurd (String.lt_trans hlt hgt) (String.lt_irrefl _)
  cases t
  cases t'
  cases heq
  rfl

/-- Of several values inserted under a name, the last is found. -/
theorem get?_foldl_insert {β : Type} (key : β → String) (value : β → α) (l : List β) (t : Table α)
    (name : String) : (l.foldl (fun t b => t.insert (key b) (value b)) t).get? name =
      ((l.reverse.find? fun b => key b == name).map value).or (t.get? name) := by
  induction l generalizing t with
  | nil => rfl
  | cons b l ih =>
    rw [List.foldl_cons, ih, get?_insert, List.reverse_cons, List.find?_append]
    cases l.reverse.find? fun b => key b == name with
    | some c => rfl
    | none =>
      by_cases hname : name = key b
      · subst hname
        simp
      · have hother : (key b == name) = false := beq_false_of_ne (Ne.symm hname)
        simp [hname, hother]

theorem get?_ofList_of_mem {l : List (String × α)} (h : (name, value) ∈ l)
    (hunique : ∀ e ∈ l, e.1 = name → e.2 = value) : (ofList l).get? name = some value := by
  rw [ofList, get?_foldl_insert, get?_empty, Option.or_none]
  have hsome : (l.reverse.find? fun e => e.1 == name).isSome :=
    List.find?_isSome.2 ⟨_, List.mem_reverse.2 h, BEq.rfl⟩
  obtain ⟨e, he⟩ := Option.isSome_iff_exists.1 hsome
  have hname := List.find?_some he
  rw [he, Option.map_some, hunique e (List.mem_reverse.1 (List.mem_of_find?_eq_some he)) (eq_of_beq hname)]

theorem mem_of_get?_ofList {l : List (String × α)} (h : (ofList l).get? name = some value) :
    (name, value) ∈ l := by
  rw [ofList, get?_foldl_insert, get?_empty, Option.or_none, Option.map_eq_some_iff] at h
  obtain ⟨e, he, rfl⟩ := h
  have hname := List.find?_some he
  exact eq_of_beq hname ▸ List.mem_reverse.1 (List.mem_of_find?_eq_some he)

theorem ofList_entries (t : Table α) : ofList t.entries = t := by
  refine ext_get? fun name => Option.ext fun value => ?_
  constructor
  · intro h
    exact get?_eq_some_iff.2 (mem_of_get?_ofList h)
  · intro h
    refine get?_ofList_of_mem (get?_eq_some_iff.1 h) fun e he hname => ?_
    have he' : t.get? name = some e.2 := get?_eq_some_iff.2 (hname ▸ he)
    exact Option.some.inj (he'.symm.trans h)

/-- The values changed one by one, under the same names. -/
def map {β : Type} (f : α → β) (t : Table α) : Table β :=
  ⟨t.entries.map fun e => (e.1, f e.2), List.pairwise_map.2 t.ascending⟩

theorem get?_map {β : Type} (f : α → β) (t : Table α) (name : String) :
    (t.map f).get? name = (t.get? name).map f := by
  refine Option.ext fun value => ?_
  rw [get?_eq_some_iff, Option.map_eq_some_iff, map, List.mem_map]
  constructor
  · rintro ⟨e, he, heq⟩
    cases heq
    exact ⟨e.2, get?_eq_some_iff.2 he, rfl⟩
  · rintro ⟨old, hold, rfl⟩
    exact ⟨(name, old), get?_eq_some_iff.1 hold, rfl⟩

end MaterialGraph.Table
