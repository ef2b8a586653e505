import MaterialGraph.Json.Reader

/-!
Reading values that were written. Where the parts of a list or the fields of a record are
read again from what is written of them, so is the whole. Of some values that only holds if
they were read before.
-/

namespace MaterialGraph.Json

variable {α β : Type} {read : Json → Option α} {write : α → Json} {v : Json} {a : α}
  {r : List (String × Json)} {fields : List String} {field : String}

/-- Whether what a reader yields is read again from what is written of it. -/
def Restores (read : Json → Option α) (write : α → Json) : Prop :=
  ∀ ⦃v a⦄, read v = some a → read (write a) = some a

section Scalars

theorem restores_int (lo hi : Int) : Restores (int? lo hi) .int := by
  intro v i h
  cases v with
  | int j =>
    rw [int?] at h
    split at h
    · next hrange =>
      cases h
      exact if_pos hrange
    · cases h
  | _ => cases h

theorem restores_int64 : Restores int64? .int :=
  restores_int _ _

theorem byte?_toNat (b : UInt8) : byte? (.int b.toNat) = some b := by
  have hrange : (0 : Int) ≤ b.toNat ∧ (b.toNat : Int) ≤ 255 := by
    have hlt := b.toNat_lt
    omega
  rw [byte?, int?, if_pos hrange, Option.map_some, Int.toNat_natCast, UInt8.ofNat_toNat]

end Scalars

section Lists

theorem mapM_map_eq_some {f : β → Option α} {g : α → β} {l : List α}
    (h : ∀ a ∈ l, f (g a) = some a) : (l.map g).mapM f = some l := by
  induction l with
  | nil => rfl
  | cons a l ih =>
    rw [List.forall_mem_cons] at h
    simp [h.1, ih h.2]

theorem exists_of_mapM_eq_some {f : β → Option α} {l : List β} {out : List α}
    (h : l.mapM f = some out) : ∀ a ∈ out, ∃ b ∈ l, f b = some a := by
  induction l generalizing out with
  | nil =>
    cases h
    simp
  | cons b l ih =>
    rw [List.mapM_cons] at h
    simp only [Option.bind_eq_bind, Option.bind_eq_some_iff, Option.pure_def,
      Option.some.injEq] at h
    obtain ⟨a, ha, rest, hrest, rfl⟩ := h
    rw [List.forall_mem_cons]
    refine ⟨⟨b, List.mem_cons_self, ha⟩, fun a' ha' => ?_⟩
    obtain ⟨b', hb', heq⟩ := ih hrest a' ha'
    exact ⟨b', List.mem_cons_of_mem b hb', heq⟩

theorem list?_written {l : List α} (h : ∀ a ∈ l, read (write a) = some a) :
    list? read (.array (l.map write)) = some l :=
  mapM_map_eq_some h

end Lists

section Records

theorem lookup_eq_none_of_notMem {key : String} (h : key ∉ r.map Prod.fst) :
    r.lookup key = none := by
  rw [List.lookup_eq_none_iff]
  intro m hm
  exact bne_iff_ne.2 fun heq => h (heq ▸ List.mem_map_of_mem hm)

/-- The fields of a record are found as they were written. -/
theorem record?_written (hfields : fields.Nodup) (h : (r.map Prod.fst).Sublist fields)
    (lenient : Bool) :
    record? fields lenient (.object (r.map fun m => (some m.1, m.2))) = some r := by
  have hknown : ∀ m ∈ r, m.1 ∈ fields := fun m hm => h.subset (List.mem_map_of_mem hm)
  have hnodup : (r.map Prod.fst).Nodup := hfields.sublist h
  rw [record?]
  clear h
  induction r with
  | nil => rfl
  | cons m r ih =>
    obtain ⟨key, v⟩ := m
    rw [List.forall_mem_cons] at hknown
    rw [List.map_cons, List.nodup_cons] at hnodup
    simp [knownMembers?, ih hknown.2 hnodup.2, hknown.1, lookup_eq_none_of_notMem hnodup.1]

theorem withDefault?_of_lookup {default : α} (h : r.lookup field = some v)
    (hread : read v = some a) : withDefault? r field default read = some a := by
  rw [withDefault?, h]
  exact hread

theorem optional?_of_lookup (hnull : read .null = none) (h : r.lookup field = some v)
    (hread : read v = some a) : optional? r field read = some (some a) := by
  unfold optional?
  split
  · next hnone => cases h.symm.trans hnone
  · next hsome =>
    cases h.symm.trans hsome
    cases hread.symm.trans hnull
  · next hsome =>
    cases h.symm.trans hsome
    rw [hread, Option.map_some]

theorem Restores.of_withDefault {default : α} (h : Restores read write)
    (hdefault : read (write default) = some default)
    (hread : withDefault? r field default read = some a) : read (write a) = some a := by
  unfold withDefault? at hread
  split at hread
  · cases hread
    exact hdefault
  · exact h hread

theorem Restores.of_optional {o : Option α} (h : Restores read write)
    (hread : optional? r field read = some o) : ∀ a ∈ o, read (write a) = some a := by
  unfold optional? at hread
  split at hread
  · cases hread
    simp
  · cases hread
    simp
  · obtain ⟨a, ha, rfl⟩ := Option.map_eq_some_iff.1 hread
    intro a' ha'
    cases ha'
    exact h ha

end Records

end MaterialGraph.Json
