import MaterialGraph.Proofs.Failure
import MaterialGraph.Proofs.Path
import MaterialGraph.Resource.Directory

/-!
What writing and creating directories leaves as it was. Directories stay, so a
path keeps its location, and files other than those written keep their content.
-/

namespace MaterialGraph.FileTree

variable {t t' t'' : FileTree} {location other : List String} {path : String}
  {bytes : List UInt8} {changed changed' : List String → Prop} {paths paths' : String → Prop}

section Lookup

variable (e : FileEntry) (l : List (List String × FileEntry))

theorem lookup_cons (key other : List String) :
    ((key, e) :: l).lookup other = if other = key then some e else l.lookup other := by
  rw [List.lookup_cons]
  by_cases h : other = key
  · simp [h]
  · simp [beq_eq_false_iff_ne.2 h, h]

theorem lookup_replace (location other : List String) :
    (l.map fun x => if x.1 == location then (location, e) else x).lookup other =
      if other = location ∧ l.any (·.1 == location) then some e else l.lookup other := by
  induction l with
  | nil => simp
  | cons x l ih =>
    obtain ⟨key, old⟩ := x
    rw [List.map_cons]
    by_cases hkey : key = location
    · subst hkey
      rw [if_pos (beq_self_eq_true key), lookup_cons, lookup_cons, ih]
      by_cases hother : other = key <;> simp [hother]
    · have hne : (key == location) = false := beq_eq_false_iff_ne.2 hkey
      rw [hne, if_neg Bool.false_ne_true, lookup_cons, lookup_cons, ih, List.any_cons, hne,
        Bool.false_or]
      by_cases hother : other = key <;> simp [hother, hkey]

end Lookup

theorem entry?_set (hlocation : location ≠ []) (e : FileEntry) (other : List String) :
    entry? (t.set location e) other = if other = location then some e else t.entry? other := by
  by_cases hroot : other = []
  · simp [ entry?, hroot, hlocation.symm]
  · unfold entry? FileTree.set
    simp only [List.isEmpty_iff, hroot, if_false]
    split
    · next hany =>
      rw [lookup_replace]
      simp only [and_iff_left hany]
    · next hany =>
      have hnone : t.entries.lookup location = none := by
        rw [List.lookup_eq_none_iff]
        intro x hx
        rw [bne_iff_ne]
        rintro rfl
        exact hany (List.any_eq_true.2 ⟨x, hx, beq_self_eq_true x.1⟩)
      rw [List.lookup_append, lookup_cons]
      by_cases hother : other = location <;> simp [hother, hnone]

theorem working_set (t : FileTree) (location : List String) (e : FileEntry) :
    (t.set location e).working = t.working := by
  unfold FileTree.set
  split <;> rfl

/-- A location with a file or nothing at it is not the root. -/
theorem ne_root_of_entry (h : t.entry? location ≠ some .directory) : location ≠ [] := by
  rintro rfl
  exact h rfl

/-- What becomes of a tree when files are written to some locations and
directories are created. -/
structure Later (changed : List String → Prop) (t t' : FileTree) : Prop where
  working : t'.working = t.working
  directory : ∀ l, t.entry? l = some .directory → t'.entry? l = some .directory
  file : ∀ l bytes, ¬changed l →
    (t'.entry? l = some (.file bytes) ↔ t.entry? l = some (.file bytes))

namespace Later

theorem refl (changed : List String → Prop) (t : FileTree) : Later changed t t :=
  ⟨rfl, fun _ h => h, fun _ _ _ => Iff.rfl⟩

theorem trans (h : Later changed t t') (h' : Later changed t' t'') : Later changed t t'' where
  working := h'.working.trans h.working
  directory l hl := h'.directory l (h.directory l hl)
  file l bytes hl := (h'.file l bytes hl).trans (h.file l bytes hl)

theorem mono (h : Later changed t t') (hsub : ∀ l, changed l → changed' l) :
    Later changed' t t' where
  working := h.working
  directory := h.directory
  file l bytes hl := h.file l bytes fun hc => hl (hsub l hc)

theorem follow (h : Later changed t t') {parts : List String} :
    ∀ {location}, t.follow location parts = .ok other → t'.follow location parts = .ok other := by
  induction parts with
  | nil => exact fun hfollow => hfollow
  | cons part rest ih =>
    intro location hfollow
    unfold FileTree.follow at hfollow ⊢
    cases hentry : t.entry? location with
    | none =>
      rw [hentry] at hfollow
      cases hfollow
    | some e =>
      rw [hentry] at hfollow
      cases e with
      | file bytes => cases hfollow
      | directory =>
        rw [h.directory location hentry]
        dsimp only at hfollow ⊢
        split_ifs at hfollow ⊢
        · exact ih hfollow
        · exact ih hfollow
        · exact ih hfollow

theorem locate (h : Later changed t t') (hlocate : t.locate path = .ok location) :
    t'.locate path = .ok location := by
  unfold FileTree.locate at hlocate ⊢
  rw [h.working]
  split_ifs at hlocate ⊢
  · exact h.follow hlocate
  · exact h.follow hlocate

/-- A file is kept unless its location is among those written to. -/
theorem file?_eq (h : Later changed t t') (hfile : t.file? path = some bytes)
    (hkept : ∀ l, t'.locate path = .ok l → ¬changed l) : t'.file? path = some bytes := by
  unfold FileTree.file? find? at hfile ⊢
  cases hlocate : t.locate path with
  | error e => simp [hlocate] at hfile
  | ok l =>
    have hlocate' := h.locate hlocate
    rw [hlocate] at hfile
    rw [hlocate']
    cases hentry : t.entry? l with
    | none => simp [hentry] at hfile
    | some e =>
      cases e with
      | directory => simp [hentry] at hfile
      | file old =>
        dsimp only
        rw [(h.file l old (hkept l hlocate')).2 hentry]
        simpa [hentry] using hfile

end Later

/-- The locations that some paths lead to. -/
def Leads (t : FileTree) (paths : String → Prop) (location : List String) : Prop :=
  ∃ path, paths path ∧ t.locate path = .ok location

theorem Leads.later (h : Later changed t t') (hlead : t.Leads paths location) :
    t'.Leads paths location := by
  obtain ⟨path, hpath, hlocate⟩ := hlead
  exact ⟨path, hpath, h.locate hlocate⟩

theorem Leads.mono (hlead : t.Leads paths location) (hsub : ∀ p, paths p → paths' p) :
    t.Leads paths' location := by
  obtain ⟨path, hpath, hlocate⟩ := hlead
  exact ⟨path, hsub path hpath, hlocate⟩

theorem later_set_file (h : t.entry? location ≠ some .directory) (bytes : List UInt8) :
    Later (· = location) t (t.set location (.file bytes)) where
  working := working_set ..
  directory l hl := by
    rw [entry?_set (ne_root_of_entry h), if_neg]
    · exact hl
    · rintro rfl
      exact h hl
  file l bytes hl := by
    rw [entry?_set (ne_root_of_entry h), if_neg hl]

theorem later_set_directory (h : t.entry? location = none) :
    Later (fun _ => False) t (t.set location .directory) := by
  have hroot : location ≠ [] := ne_root_of_entry (t := t) (by simp [h])
  refine ⟨working_set .., fun l hl => ?_, fun l bytes _ => ?_⟩
  · rw [entry?_set hroot]
    split_ifs
    · rfl
    · exact hl
  · rw [entry?_set hroot]
    split_ifs with hl
    · simp [hl, h]
    · exact Iff.rfl

theorem later_makeDirectory (h : t.makeDirectory path = .ok t') :
    Later (fun _ => False) t t' := by
  obtain ⟨location, -, h⟩ := Except.bind_eq_ok_iff.1 h
  split at h
  · cases h
  · next hnone =>
    cases h
    exact later_set_directory hnone

theorem later_makeDirectories {around : List String} :
    ∀ {t t' : FileTree}, t.makeDirectories? around = some t' → Later (fun _ => False) t t' := by
  induction around with
  | nil =>
    rintro t t' h
    cases h
    exact .refl _ _
  | cons path outer ih =>
    intro t t' h
    unfold makeDirectories? at h
    split at h
    · next hmake =>
      cases h
      exact later_makeDirectory hmake
    · split at h
      · cases h
      · next t₁ houter =>
        have hlater := ih houter
        split at h
        · next hmake =>
          cases h
          exact hlater.trans (later_makeDirectory hmake)
        · split_ifs at h
          cases h
          exact hlater
    · split_ifs at h
      cases h
      exact .refl _ _

theorem later_ensure (h : t.ensure path = .ok t') : Later (fun _ => False) t t' := by
  have hensure := Outcome.ofOption_eq_ok_iff.1 h
  unfold ensureDirectory? at hensure
  split_ifs at hensure
  · cases hensure
    exact .refl _ _
  · exact later_makeDirectories hensure

theorem write_eq_ok (hlocate : t.locate path = .ok location)
    (h : t.entry? location ≠ some .directory) (bytes : List UInt8) :
    t.write path bytes = .ok (t.set location (.file bytes)) := by
  unfold write write?
  rw [hlocate]
  simp only [h, if_false]
  rfl

/-- A write changes the file that its path leads to, which it holds afterwards. -/
theorem later_write (h : t.write path bytes = .ok t') :
    Later (t'.Leads (· = path)) t t' ∧ t'.file? path = some bytes := by
  have hwrite := Outcome.ofOption_eq_ok_iff.1 h
  unfold write? at hwrite
  split at hwrite
  · cases hwrite
  · next location hlocate =>
    split_ifs at hwrite with hentry
    cases hwrite
    have hlater := later_set_file hentry bytes
    have hlocate' := hlater.locate hlocate
    refine ⟨hlater.mono ?_, ?_⟩
    · rintro l rfl
      exact ⟨path, rfl, hlocate'⟩
    · simp [FileTree.file?, find?, hlocate', entry?_set (ne_root_of_entry hentry)]

theorem resolve_eq_some_iff {root name text : String} {kind : ResourceKind} :
    (resolver root t).resolve kind name = .ok (some text) ↔
      t.text? (Path.join root (kind.path name)) = some text := by
  generalize hpath : Path.join root (kind.path name) = path
  simp only [resolver, hpath, read, text?]
  cases hfile : t.file? path with
  | none => simp
  | some bytes =>
    cases htext : Text.ofBytes? bytes <;> simp [Outcome.ofOption, Except.map, htext]

section Last

/-- Whether a part leads to something in a directory, not to the directory itself
or to the one around it. -/
def Descends (part : String) : Prop :=
  part ≠ "" ∧ part ≠ "." ∧ part ≠ ".."

theorem getLast?_follow {part : String} (hpart : Descends part) (front : List String) :
    ∀ {location}, t.follow location (front ++ [part]) = .ok other →
      other.getLast? = some part := by
  obtain ⟨hempty, hdot, hdots⟩ := hpart
  induction front with
  | nil =>
    intro location h
    simp only [List.nil_append, FileTree.follow, hempty, hdot, hdots, or_self, if_false] at h
    split at h
    · cases h
    · cases h
    · split_ifs at h
      cases h
      simp
  | cons first front ih =>
    intro location h
    rw [List.cons_append, FileTree.follow] at h
    split at h
    · cases h
    · cases h
    · split_ifs at h
      · exact ih h
      · exact ih h
      · exact ih h

/-- What a path leads to has the name that the path ends in. -/
theorem getLast?_locate (hlast : Descends (Path.lastPart path))
    (h : t.locate path = .ok location) : location.getLast? = some (Path.lastPart path) := by
  obtain ⟨front, hparts⟩ := List.getLast?_eq_some_iff.1 (Path.getLast?_parts path)
  unfold FileTree.locate at h
  split_ifs at h
  · rw [hparts] at h
    exact getLast?_follow hlast front h
  · rw [hparts] at h
    exact getLast?_follow hlast front h

end Last

end MaterialGraph.FileTree
