import Mathlib.Data.List.Nodup
import MaterialGraph.Body.Emit

/-!
Arguments in the order of their registers. Placing arguments one after the other
sorts them; where no register is used twice, the result is the sorted list of
what was placed, and it is the only ascending list with these members.
-/

namespace MaterialGraph.Body

variable {α β : Type*} {r : Int} {a : Argument} {replace : Bool}

/-- Strictly ascending in the registers. -/
def Ascending (l : List (Int × α)) : Prop :=
  l.Pairwise fun a b => a.1 < b.1

def byRegister (l : List (Int × α)) : List (Int × α) :=
  l.mergeSort fun a b => a.1 ≤ b.1

theorem byRegister_perm (l : List (Int × α)) : (byRegister l).Perm l :=
  List.mergeSort_perm l _

theorem byRegister_pairwise (l : List (Int × α)) :
    (byRegister l).Pairwise fun a b => a.1 ≤ b.1 := by
  refine (List.pairwise_mergeSort ?_ ?_ l).imp of_decide_eq_true
  · intro a b c hab hbc
    simp only [decide_eq_true_eq] at hab hbc ⊢
    omega
  · intro a b
    simp only [Bool.or_eq_true, decide_eq_true_eq]
    omega

theorem Ascending.nodup {l : List (Int × α)} (h : Ascending l) : (l.map Prod.fst).Nodup :=
  List.pairwise_map.2 (h.imp fun hlt => Int.ne_of_lt hlt)

/-- An ascending list is determined by its members. -/
theorem Ascending.eq_byRegister {l l' : List (Int × α)} (h : Ascending l) (hp : l.Perm l') :
    l = byRegister l' := by
  have hperm : l.Perm (byRegister l') := hp.trans (byRegister_perm l').symm
  refine hperm.eq_of_pairwise (fun a b ha hb hab hba => ?_) (h.imp Int.le_of_lt)
    (byRegister_pairwise l')
  have hb' : b ∈ l := hperm.mem_iff.2 hb
  exact List.inj_on_of_nodup_map h.nodup ha hb' (Int.le_antisymm hab hba)

theorem byRegister_ascending {l : List (Int × α)} (h : (l.map Prod.fst).Nodup) :
    Ascending (byRegister l) := by
  have hnodup : ((byRegister l).map Prod.fst).Nodup :=
    ((byRegister_perm l).map Prod.fst).nodup_iff.2 h
  refine ((byRegister_pairwise l).and (List.pairwise_map.1 hnodup)).imp fun hab => ?_
  have := hab.1
  have := hab.2
  omega

/-- Sorting by register does not look at what the registers hold. -/
theorem byRegister_map (f : α → β) {l : List (Int × α)} (h : (l.map Prod.fst).Nodup) :
    byRegister (l.map (Prod.map id f)) = (byRegister l).map (Prod.map id f) := by
  refine (Ascending.eq_byRegister (List.pairwise_map.2 ?_) ?_).symm
  · exact (byRegister_ascending h).imp id
  · exact (byRegister_perm l).map _

/-- In an ascending list a member is preceded by the members with smaller registers. -/
theorem Ascending.countP_lt {l : List (Int × α)} (h : Ascending l) {k : Nat} {e : Int × α}
    (hk : l[k]? = some e) : l.countP (fun d => d.1 < e.1) = k := by
  induction l generalizing k with
  | nil => simp at hk
  | cons d rest ih =>
    obtain ⟨hd, hrest⟩ := List.pairwise_cons.1 h
    cases k with
    | zero =>
      obtain rfl : d = e := by simpa using hk
      have hzero : rest.countP (fun c => c.1 < d.1) = 0 := by
        refine List.countP_eq_zero.2 fun c hc => ?_
        have := hd c hc
        simp only [decide_eq_true_eq]
        omega
      rw [List.countP_cons, hzero]
      simp
    | succ k =>
      have hk' : rest[k]? = some e := by simpa using hk
      have hlt : d.1 < e.1 := hd e (List.mem_of_getElem? hk')
      rw [List.countP_cons, ih hrest hk']
      simp [hlt]

theorem eq_or_mem_of_mem_place {x : Int × Argument} :
    ∀ {l : List (Int × Argument)}, x ∈ place replace r a l → x = (r, a) ∨ x ∈ l
  | [], h => .inl (List.mem_singleton.1 h)
  | (s, b) :: rest, h => by
    rw [place] at h
    split at h
    · exact List.mem_cons.1 h
    · split at h
      · next heq =>
        subst heq
        rcases List.mem_cons.1 h with rfl | h
        · cases replace with
          | true => exact .inl rfl
          | false => exact .inr List.mem_cons_self
        · exact .inr (List.mem_cons_of_mem _ h)
      · rcases List.mem_cons.1 h with rfl | h
        · exact .inr List.mem_cons_self
        · exact (eq_or_mem_of_mem_place h).imp_right (List.mem_cons_of_mem _)

theorem place_ascending :
    ∀ {l : List (Int × Argument)}, Ascending l → Ascending (place replace r a l)
  | [], _ => List.pairwise_singleton ..
  | (s, b) :: rest, h => by
    obtain ⟨hs, hrest⟩ := List.pairwise_cons.1 h
    rw [place]
    split
    · next hlt =>
      refine List.pairwise_cons.2 ⟨fun x hx => ?_, h⟩
      rcases List.mem_cons.1 hx with rfl | hx
      · exact hlt
      · exact Int.lt_trans hlt (hs x hx)
    · split
      · exact List.pairwise_cons.2 ⟨hs, hrest⟩
      · next hge hne =>
        refine List.pairwise_cons.2 ⟨fun x hx => ?_, place_ascending hrest⟩
        rcases eq_or_mem_of_mem_place hx with rfl | hx
        · simp only at hge hne ⊢
          omega
        · exact hs x hx

/-- An argument for a register that is still free joins the others. -/
theorem place_perm : ∀ {l : List (Int × Argument)}, r ∉ l.map Prod.fst →
    (place replace r a l).Perm ((r, a) :: l)
  | [], _ => .rfl
  | (s, b) :: rest, h => by
    simp only [List.map_cons, List.mem_cons, not_or] at h
    rw [place]
    split
    · exact .rfl
    · rw [if_neg h.1]
      exact ((place_perm h.2).cons (s, b)).trans (.swap ..)

/-- The arguments of a list placed from the first to the last. -/
def placeAll (replace : Bool) (items args : List (Int × Argument)) : List (Int × Argument) :=
  items.foldl (fun args i => place replace i.1 i.2 args) args

theorem placeAll_ascending {items args : List (Int × Argument)} (h : Ascending args) :
    Ascending (placeAll replace items args) := by
  induction items generalizing args with
  | nil => exact h
  | cons i rest ih => exact ih (place_ascending h)

theorem placeAll_perm {items args : List (Int × Argument)}
    (h : ((items ++ args).map Prod.fst).Nodup) :
    (placeAll replace items args).Perm (items ++ args) := by
  induction items generalizing args with
  | nil => exact .rfl
  | cons i rest ih =>
    have hfree : i.1 ∉ args.map Prod.fst := by
      simp only [List.cons_append, List.map_cons, List.nodup_cons, List.map_append,
        List.mem_append, not_or] at h
      exact h.1.2
    have hplaced : (rest ++ place replace i.1 i.2 args).Perm (i :: (rest ++ args)) :=
      ((place_perm hfree).append_left rest).trans List.perm_middle
    have hnodup : ((rest ++ place replace i.1 i.2 args).map Prod.fst).Nodup :=
      (hplaced.map Prod.fst).nodup_iff.2 h
    exact (ih hnodup).trans hplaced

end MaterialGraph.Body
