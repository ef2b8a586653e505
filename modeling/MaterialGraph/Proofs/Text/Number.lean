import Mathlib.Data.List.Induction

/-!
Texts with a number in them. Digits that are followed by something else can be
told from what follows them.
-/

namespace MaterialGraph

variable {j k : Nat} {s t : List Char}

theorem toList_numbered (opening closing : String) (k : Nat) :
    (opening ++ toString k ++ closing).toList =
      opening.toList ++ (Nat.toDigits 10 k ++ closing.toList) := by
  rw [String.toList_append, String.toList_append, List.append_assoc]
  simp [toString]

theorem isDigit_of_mem_toDigits {c : Char} (h : c ∈ Nat.toDigits 10 k) : c.isDigit = true :=
  Nat.isDigit_of_mem_toDigits (by decide) (by decide) h

theorem isDigit_of_mem_toString {c : Char} (h : c ∈ (toString k).toList) : c.isDigit = true :=
  isDigit_of_mem_toDigits (Nat.toList_repr ▸ h)

/-- A number is digits only. -/
theorem notMem_toString {c : Char} (hc : c.isDigit = false) (k : Nat) :
    c ∉ (toString k).toList := fun hmem =>
  Bool.eq_false_iff.1 hc (isDigit_of_mem_toString hmem)

theorem takeWhile_toDigits_append (hs : s.takeWhile Char.isDigit = []) (k : Nat) :
    (Nat.toDigits 10 k ++ s).takeWhile Char.isDigit = Nat.toDigits 10 k := by
  rw [List.takeWhile_append_of_pos fun _ => isDigit_of_mem_toDigits, hs, List.append_nil]

/-- Characters of one kind can be told from what follows them, if that starts with none. -/
theorem takeWhile_append_inj {p : Char → Bool} {a b : List Char} (ha : ∀ c ∈ a, p c = true)
    (hb : ∀ c ∈ b, p c = true) (hs : s.takeWhile p = []) (ht : t.takeWhile p = [])
    (h : a ++ s = b ++ t) : a = b ∧ s = t := by
  have hfront : a = b := by
    have hwhile := congrArg (List.takeWhile p) h
    rwa [List.takeWhile_append_of_pos ha, List.takeWhile_append_of_pos hb, hs, ht, List.append_nil,
      List.append_nil] at hwhile
  rw [hfront] at h
  exact ⟨hfront, List.append_cancel_left h⟩

theorem toDigits_append_inj (hs : s.takeWhile Char.isDigit = [])
    (ht : t.takeWhile Char.isDigit = [])
    (h : Nat.toDigits 10 j ++ s = Nat.toDigits 10 k ++ t) : j = k ∧ s = t := by
  obtain ⟨hdigits, hrest⟩ := takeWhile_append_inj (fun _ => isDigit_of_mem_toDigits)
    (fun _ => isDigit_of_mem_toDigits) hs ht h
  refine ⟨?_, hrest⟩
  calc
    j = Nat.ofDigitChars 10 (Nat.toDigits 10 j) 0 := Nat.ofDigitChars_ten_toDigits.symm
    _ = Nat.ofDigitChars 10 (Nat.toDigits 10 k) 0 := by rw [hdigits]
    _ = k := Nat.ofDigitChars_ten_toDigits

/-- Texts with a number behind one opening agree in the number and in what follows it. -/
theorem numbered_inj {opening a b : String} (ha : a.toList.takeWhile Char.isDigit = [])
    (hb : b.toList.takeWhile Char.isDigit = [])
    (h : opening ++ toString j ++ a = opening ++ toString k ++ b) : j = k ∧ a = b := by
  have htexts := congrArg String.toList h
  rw [toList_numbered, toList_numbered] at htexts
  obtain ⟨hnumber, hrest⟩ := toDigits_append_inj ha hb (List.append_cancel_left htexts)
  exact ⟨hnumber, String.toList_injective hrest⟩

theorem toString_inj : toString j = toString k ↔ j = k := by
  refine ⟨fun h => ?_, congrArg toString⟩
  have hnumbered : "" ++ toString j ++ "" = "" ++ toString k ++ "" := by rw [h]
  exact (numbered_inj rfl rfl hnumbered).1

/-- Zeros before a number do not change it. -/
theorem ofDigitChars_replicate_append (count : Nat) (s : List Char) :
    Nat.ofDigitChars 10 (List.replicate count '0' ++ s) 0 = Nat.ofDigitChars 10 s 0 := by
  induction count with
  | zero => rfl
  | succ count ih => rwa [List.replicate_succ, List.cons_append, Nat.ofDigitChars_cons]

theorem leftpad_toDigits_injective (width : Nat)
    (h : (Nat.toDigits 10 j).leftpad width '0' = (Nat.toDigits 10 k).leftpad width '0') :
    j = k := by
  have hvalue (n : Nat) : Nat.ofDigitChars 10 ((Nat.toDigits 10 n).leftpad width '0') 0 = n := by
    rw [List.leftpad, ofDigitChars_replicate_append, Nat.ofDigitChars_ten_toDigits]
  rw [← hvalue j, h, hvalue k]

theorem exists_digitChar_eq {d : Char} (h : d.isDigit) :
    ∃ k < 10, k.digitChar = d ∧ d.toNat - '0'.toNat = k := by
  have hrange := Char.isDigit_iff_toNat.1 h
  have hvalues : ∀ k < 10, k.digitChar = Char.ofNat ('0'.toNat + k) := by decide
  have hlt : d.toNat - '0'.toNat < 10 :=
    Nat.sub_lt_left_of_lt_add hrange.1 (Nat.lt_succ_of_le hrange.2)
  refine ⟨d.toNat - '0'.toNat, hlt, ?_, rfl⟩
  rw [hvalues _ hlt, Nat.add_sub_cancel' hrange.1, Char.ofNat_toNat]

/-- Digits are the number that they write, behind zeros. -/
theorem exists_eq_replicate_append_toDigits (hne : s ≠ []) (hs : ∀ d ∈ s, d.isDigit = true) :
    ∃ zeros, s = List.replicate zeros '0' ++ Nat.toDigits 10 (Nat.ofDigitChars 10 s 0) := by
  -- From the front, since a number is the number of its front digits, followed by the last.
  induction s using List.reverseRecOn with
  | nil => exact absurd rfl hne
  | append_singleton front d ih =>
    rw [List.forall_mem_append, List.forall_mem_singleton] at hs
    obtain ⟨k, hk, rfl, hvalue⟩ := exists_digitChar_eq hs.2
    have hlast : Nat.ofDigitChars 10 (front ++ [k.digitChar]) 0 =
        10 * Nat.ofDigitChars 10 front 0 + k := by
      rw [Nat.ofDigitChars_append, Nat.ofDigitChars_cons, Nat.ofDigitChars_nil, hvalue]
    rw [hlast]
    by_cases hfront : front = []
    · subst hfront
      exact ⟨0, by simp [Nat.toDigits_of_lt_base hk]⟩
    · obtain ⟨zeros, hzeros⟩ := ih hfront hs.1
      generalize Nat.ofDigitChars 10 front 0 = n at hzeros
      rcases Nat.eq_zero_or_pos n with rfl | hn
      · refine ⟨zeros + 1, ?_⟩
        rw [hzeros, Nat.toDigits_zero, Nat.mul_zero, Nat.zero_add, Nat.toDigits_of_lt_base hk,
          List.replicate_succ']
      · refine ⟨zeros, ?_⟩
        rw [← Nat.toDigits_append_toDigits (by decide) hn hk, Nat.toDigits_of_lt_base hk,
          ← List.append_assoc, ← hzeros]

/-- A number of several digits does not start with a zero. -/
theorem toDigits_ne_zero_cons (hs : s ≠ []) (k : Nat) : Nat.toDigits 10 k ≠ '0' :: s := by
  intro hcons
  have hdigits : ∀ d ∈ s, d.isDigit = true := fun d hd =>
    isDigit_of_mem_toDigits (hcons ▸ List.mem_cons_of_mem _ hd)
  have hvalue : Nat.ofDigitChars 10 s 0 = k := by
    have hzero := ofDigitChars_replicate_append 1 s
    rw [List.replicate_one, List.singleton_append, ← hcons, Nat.ofDigitChars_ten_toDigits] at hzero
    exact hzero.symm
  obtain ⟨zeros, heq⟩ := exists_eq_replicate_append_toDigits hs hdigits
  have hlength := congrArg List.length heq
  rw [hvalue, hcons, List.length_append, List.length_replicate, List.length_cons] at hlength
  omega

/-- A number starts with a digit. -/
theorem exists_toDigits_eq_cons (k : Nat) :
    ∃ d rest, Nat.toDigits 10 k = d :: rest ∧ d.isDigit = true := by
  obtain ⟨d, rest, hcons⟩ := List.exists_cons_of_ne_nil (Nat.toDigits_ne_nil (b := 10) (n := k))
  refine ⟨d, rest, hcons, ?_⟩
  have hmem : d ∈ Nat.toDigits 10 k := hcons ▸ List.mem_cons_self
  exact isDigit_of_mem_toDigits hmem

end MaterialGraph
