import Mathlib.Tactic.SplitIfs
import MaterialGraph.Text.Utf8

/-!
The order of texts. Main statement: of two texts, the one that comes first has the
bytes that come first.
-/

namespace MaterialGraph.Text

theorem toBytes_eq (s : String) : toBytes s = s.toList.flatMap String.utf8EncodeChar := by
  rw [toBytes, String.toUTF8_eq_toByteArray, ← String.utf8Encode_toList, List.utf8Encode,
    List.data_toByteArray]

theorem ofNat_cons_lt {a b : Nat} {s t : List UInt8} (hle : a ≤ b) (hb : b < 256)
    (h : a = b → s < t) : UInt8.ofNat a :: s < UInt8.ofNat b :: t := by
  refine List.cons_lt_cons_iff.2 ?_
  rcases Nat.lt_or_eq_of_le hle with hlt | heq
  · refine .inl (UInt8.lt_iff_toNat_lt.2 ?_)
    rw [UInt8.toNat_ofNat', UInt8.toNat_ofNat', Nat.mod_eq_of_lt hb,
      Nat.mod_eq_of_lt (Nat.lt_trans hlt hb)]
    exact hlt
  · exact .inr ⟨by rw [heq], h heq⟩

/-- Characters are ordered as the bytes that encode them, whatever follows. -/
theorem encodeChar_lt {c d : Char} (h : c < d) (s t : List UInt8) :
    String.utf8EncodeChar c ++ s < String.utf8EncodeChar d ++ t := by
  have hlt : c.val.toNat < d.val.toNat := h
  have hmax : d.val.toNat < 0x110000 := by
    rcases d.valid with hd | hd
    · exact Nat.lt_trans hd (by decide)
    · exact hd.2
  simp only [String.utf8EncodeChar]
  generalize c.val.toNat = m at *
  generalize d.val.toNat = n at *
  -- The digits of base 64, each from the one after it.
  have hm : m / 4096 = m / 64 / 64 ∧ m / 262144 = m / 64 / 64 / 64 := by omega
  have hn : n / 4096 = n / 64 / 64 ∧ n / 262144 = n / 64 / 64 / 64 := by omega
  rw [hm.1, hm.2, hn.1, hn.2]
  clear hm hn
  split_ifs
  any_goals omega
  -- The first bytes differ unless both characters have as many bytes, more than one.
  any_goals (refine ofNat_cons_lt ?_ ?_ fun _ => ?_ <;> omega)
  · refine ofNat_cons_lt (by omega) (by omega) fun _ => ?_
    exact ofNat_cons_lt (by omega) (by omega) fun _ => by omega
  · refine ofNat_cons_lt (by omega) (by omega) fun _ => ?_
    refine ofNat_cons_lt (by omega) (by omega) fun _ => ?_
    exact ofNat_cons_lt (by omega) (by omega) fun _ => by omega
  · refine ofNat_cons_lt (by omega) (by omega) fun _ => ?_
    refine ofNat_cons_lt (by omega) (by omega) fun _ => ?_
    refine ofNat_cons_lt (by omega) (by omega) fun _ => ?_
    exact ofNat_cons_lt (by omega) (by omega) fun _ => by omega

theorem encodeChar_ne_nil (c : Char) : String.utf8EncodeChar c ≠ [] := by
  simp only [String.utf8EncodeChar]
  split_ifs <;> exact List.cons_ne_nil _ _

theorem flatMap_encodeChar_lt {s t : List Char} (h : s < t) :
    s.flatMap String.utf8EncodeChar < t.flatMap String.utf8EncodeChar := by
  induction s generalizing t with
  | nil =>
    cases t with
    | nil => exact absurd h (List.lt_irrefl [])
    | cons d t =>
      rw [List.flatMap_nil, List.flatMap_cons]
      obtain ⟨b, rest, heq⟩ := List.exists_cons_of_ne_nil (encodeChar_ne_nil d)
      rw [heq]
      exact List.nil_lt_cons _ _
  | cons c s ih =>
    cases t with
    | nil => exact absurd h (List.not_lt_nil _)
    | cons d t =>
      rw [List.flatMap_cons, List.flatMap_cons]
      rcases List.cons_lt_cons_iff.1 h with hlt | ⟨rfl, hrest⟩
      · exact encodeChar_lt hlt _ _
      · exact List.append_left_lt (ih hrest)

/-- Texts are ordered as their bytes. -/
theorem toBytes_lt {s t : String} (h : s < t) : toBytes s < toBytes t := by
  rw [toBytes_eq, toBytes_eq]
  exact flatMap_encodeChar_lt h

end MaterialGraph.Text
