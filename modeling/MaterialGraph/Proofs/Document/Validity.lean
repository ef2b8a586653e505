import Mathlib.Data.List.Forall2
import Mathlib.Tactic.ByContra
import MaterialGraph.Document.Text
import MaterialGraph.Proofs.Table
import MaterialGraph.Proofs.Text.Number

/-!
What is known of a document that is accepted: its passes have names of passes, and its
sampler precisions have keys that write a texture index. Only the plain form of an index
is looked up, though. Main statement: a key takes effect unless it is padded, and an index
that is written with padding only has the precision of the document.
-/

namespace MaterialGraph.Document

variable {d : Document} {table : Table Precision} {key text : String} {i j : UInt8}

/-- Whether a key writes an index in decimal digits, behind a plus sign if need be. -/
def WritesIndex (key : String) (i : UInt8) : Prop :=
  ∃ digits, (key.toList = digits ∨ key.toList = '+' :: digits) ∧ digits ≠ [] ∧
    (∀ c ∈ digits, c.isDigit = true) ∧ Nat.ofDigitChars 10 digits 0 = i.toNat

/-- Whether a key has a plus sign or a zero before its number. -/
def Padded (key : String) : Prop :=
  ∃ rest, key.toList = '+' :: rest ∨ (rest ≠ [] ∧ key.toList = '0' :: rest)

/-- Whether a texture has the precision of a key that writes its index, if there is one,
and the precision of the document otherwise. -/
structure KeysTakeEffect (d : Document) (table : Table Precision) (i : UInt8) : Prop where
  given : (∃ key ∈ table.names, WritesIndex key i) →
    ∃ key, WritesIndex key i ∧ table.get? key = some (d.precisionOfTexture i)
  default : (∀ key ∈ table.names, ¬WritesIndex key i) → d.precisionOfTexture i = d.precision

/-- Whether an index is written by keys, all of them padded, of which none gives the
precision of the document. -/
structure Overlooks (d : Document) (table : Table Precision) (i : UInt8) : Prop where
  written : ∃ key ∈ table.names, WritesIndex key i
  padded : ∀ key ∈ table.names, WritesIndex key i → Padded key
  other : ∀ key mode, WritesIndex key i → table.get? key = some mode → mode ≠ d.precision

section Keys

theorem digitsValue_eq (digits : List Char) :
    digitsValue digits = Nat.ofDigitChars 10 digits 0 := by
  unfold digitsValue Nat.ofDigitChars
  simp only [Nat.mul_comm]

theorem eq_or_eq_plus_dropPlus (s : List Char) : s = dropPlus s ∨ s = '+' :: dropPlus s := by
  unfold dropPlus
  split
  · exact .inr rfl
  · exact .inl rfl

theorem dropPlus_of_isDigit {digits : List Char} (h : ∀ c ∈ digits, c.isDigit = true) :
    dropPlus digits = digits := by
  unfold dropPlus
  split
  · exact absurd (h '+' List.mem_cons_self) (by decide)
  · rfl

/-- The keys that pass as an index are those that write one. -/
theorem isTextureIndex_iff : isTextureIndex key ↔ ∃ i, WritesIndex key i := by
  simp only [isTextureIndex, Bool.and_eq_true, Bool.not_eq_true', List.isEmpty_eq_false_iff,
    List.all_eq_true, decide_eq_true_eq, digitsValue_eq]
  constructor
  · intro h
    obtain ⟨⟨hne, hdigits⟩, hle⟩ := h
    refine ⟨UInt8.ofNat (Nat.ofDigitChars 10 (dropPlus key.toList) 0), _,
      eq_or_eq_plus_dropPlus key.toList, hne, hdigits, ?_⟩
    rw [UInt8.toNat_ofNat', Nat.mod_eq_of_lt (Nat.lt_succ_of_le hle)]
  · intro h
    obtain ⟨i, digits, hkey, hne, hdigits, hvalue⟩ := h
    have hdrop : dropPlus key.toList = digits := by
      rcases hkey with hkey | hkey
      · rw [hkey, dropPlus_of_isDigit hdigits]
      · rw [hkey]
        rfl
    rw [hdrop, hvalue]
    exact ⟨⟨hne, hdigits⟩, Nat.le_of_lt_succ i.toNat_lt⟩

theorem toList_toString (i : UInt8) : (toString i).toList = Nat.toDigits 10 i.toNat :=
  Nat.toList_repr

theorem writesIndex_toString (i : UInt8) : WritesIndex (toString i) i := by
  refine ⟨_, .inl (toList_toString i), Nat.toDigits_ne_nil, fun c hc => ?_,
    Nat.ofDigitChars_ten_toDigits⟩
  exact isDigit_of_mem_toDigits hc

theorem not_padded_toString (i : UInt8) : ¬Padded (toString i) := by
  intro hpadded
  obtain ⟨rest, hplus | ⟨hrest, hzero⟩⟩ := hpadded
  · obtain ⟨c, digits, hcons, hdigit⟩ := exists_toDigits_eq_cons i.toNat
    rw [toList_toString, hcons, List.cons.injEq] at hplus
    rw [hplus.1] at hdigit
    cases hdigit
  · rw [toList_toString] at hzero
    exact toDigits_ne_zero_cons hrest i.toNat hzero

/-- A key that is not padded is the plain form of what it writes. -/
theorem WritesIndex.eq_toString (h : WritesIndex key i) (hkey : ¬Padded key) :
    key = toString i := by
  obtain ⟨digits, hlist | hlist, hne, hdigits, hvalue⟩ := h
  · obtain ⟨zeros, heq⟩ := exists_eq_replicate_append_toDigits hne hdigits
    rw [hvalue] at heq
    cases zeros with
    | zero => exact String.toList_injective (by rw [hlist, heq, toList_toString]; rfl)
    | succ zeros =>
      rw [heq, List.replicate_succ, List.cons_append] at hlist
      exact absurd ⟨_, .inr ⟨List.append_ne_nil_of_right_ne_nil _ Nat.toDigits_ne_nil, hlist⟩⟩ hkey
  · exact absurd ⟨digits, .inl hlist⟩ hkey

end Keys

section Accepted

theorem faults_of_parse (h : parse text = .ok d) : d.faults = [] := by
  unfold parse at h
  split at h
  · cases h
  · split at h
    · next hempty =>
      cases h
      exact List.isEmpty_iff.1 hempty
    · cases h

theorem ofName?_of_parse (h : parse text = .ok d) {e : String × WrittenPass}
    (he : e ∈ d.passes.entries) : ∃ pass ∈ Pass.all, pass.name = e.1 := by
  have hunknown := (List.append_eq_nil_iff.1 (faults_of_parse h)).1
  rw [List.map_eq_nil_iff, List.filter_eq_nil_iff] at hunknown
  have hknown := hunknown e.1 (List.mem_map_of_mem he)
  rw [Bool.not_eq_true, Option.isNone_eq_false_iff, Option.isSome_iff_exists] at hknown
  obtain ⟨pass, hpass⟩ := hknown
  exact ⟨pass, List.mem_of_find?_eq_some hpass, eq_of_beq (List.find?_some hpass :)⟩

theorem exists_writesIndex_of_parse (h : parse text = .ok d)
    (htable : d.samplerPrecision = some (.perTexture table)) (hkey : key ∈ table.names) :
    ∃ i, WritesIndex key i := by
  have hfaults := (List.append_eq_nil_iff.1 (faults_of_parse h)).2
  simp only [htable, List.map_eq_nil_iff, List.filter_eq_nil_iff] at hfaults
  have hindex : isTextureIndex key = true := by simpa using hfaults key hkey
  exact isTextureIndex_iff.1 hindex

end Accepted

section Lookup

variable (htable : d.samplerPrecision = some (.perTexture table))
include htable

theorem precisionOfTexture_of_plain {mode : Precision}
    (h : table.get? (toString i) = some mode) : d.precisionOfTexture i = mode := by
  simp only [precisionOfTexture, htable, h, Option.getD_some]

theorem precisionOfTexture_of_padded
    (h : ∀ key ∈ table.names, WritesIndex key i → Padded key) :
    d.precisionOfTexture i = d.precision := by
  have hnone : table.get? (toString i) = none := by
    by_contra hsome
    have hmem : toString i ∈ table.names :=
      Table.mem_names_iff.2 (Option.isSome_iff_ne_none.2 hsome)
    exact not_padded_toString i (h _ hmem (writesIndex_toString i))
  simp only [precisionOfTexture, htable, hnone, Option.getD_none]

theorem keysTakeEffect_iff (i : UInt8) : d.KeysTakeEffect table i ↔ ¬d.Overlooks table i := by
  constructor
  · intro h hover
    obtain ⟨key, hwrites, hmode⟩ := h.given hover.written
    exact hover.other key _ hwrites hmode (precisionOfTexture_of_padded htable hover.padded)
  · intro hover
    refine ⟨fun hwritten => ?_, fun hnone => ?_⟩
    · by_contra hlost
      have hpadded : ∀ key ∈ table.names, WritesIndex key i → Padded key := by
        intro key hkey hwrites
        by_contra hplain
        obtain ⟨mode, hmode⟩ := Option.isSome_iff_exists.1 (Table.mem_names_iff.1 hkey)
        have heq := hwrites.eq_toString hplain
        have hprecision := precisionOfTexture_of_plain htable (heq ▸ hmode)
        exact hlost ⟨key, hwrites, hprecision ▸ hmode⟩
      refine hover ⟨hwritten, hpadded, fun key mode hwrites hmode heq => ?_⟩
      refine hlost ⟨key, hwrites, ?_⟩
      rw [precisionOfTexture_of_padded htable hpadded, hmode, heq]
    · refine precisionOfTexture_of_padded htable fun key hkey hwrites => ?_
      exact absurd hwrites (hnone key hkey)

end Lookup

/-- Every key of an accepted table writes an index, which has the precision of the key
unless the key is padded. An index that only padded keys write has the precision of the
document, and this is what its keys give unless they are overlooked. -/
theorem precisionOfTexture_exact (h : parse text = .ok d)
    (htable : d.samplerPrecision = some (.perTexture table)) :
    (∀ key mode, table.get? key = some mode →
      ∃ i, WritesIndex key i ∧ (¬Padded key → d.precisionOfTexture i = mode)) ∧
    ∀ i, ((∀ key ∈ table.names, WritesIndex key i → Padded key) →
        d.precisionOfTexture i = d.precision) ∧
      (d.KeysTakeEffect table i ↔ ¬d.Overlooks table i) := by
  refine ⟨fun key mode hmode => ?_, fun i => ⟨precisionOfTexture_of_padded htable, ?_⟩⟩
  · have hkey : key ∈ table.names := Table.mem_names_iff.2 (by rw [Table.contains, hmode]; rfl)
    obtain ⟨i, hwrites⟩ := exists_writesIndex_of_parse h htable hkey
    refine ⟨i, hwrites, fun hpadded => precisionOfTexture_of_plain htable ?_⟩
    rw [← hwrites.eq_toString hpadded, hmode]
  · exact keysTakeEffect_iff htable i

section Sample

def sampled (key : String) : Document where
  name := "s"
  samplerPrecision := some (.perTexture (Table.empty.insert key .high))

def sampledText (key : String) : String :=
  "\x7b\"name\":\"s\",\"samplerPrecision\":\x7b\"" ++ key ++ "\":\"high\"\x7d\x7d"

theorem get?_sampled {key name : String} {mode : Precision}
    (h : (Table.empty.insert key Precision.high).get? name = some mode) :
    name = key ∧ mode = .high := by
  rw [Table.get?_insert] at h
  split at h
  · next hname => exact ⟨hname, (Option.some.inj h).symm⟩
  · cases h

theorem precisionOfTexture_exact_plain :
    parse (sampledText "1") = .ok (sampled "1") ∧
      (sampled "1").KeysTakeEffect (Table.empty.insert "1" .high) 1 ∧
      (sampled "1").precisionOfTexture 1 = .high := by
  have hparse : parse (sampledText "1") = .ok (sampled "1") := by decide +kernel
  have heffect : (sampled "1").KeysTakeEffect (Table.empty.insert "1" .high) 1 := by
    refine (((precisionOfTexture_exact hparse rfl).2 1).2).2 fun hover => ?_
    exact not_padded_toString 1 (hover.padded "1" (by decide) (writesIndex_toString 1))
  obtain ⟨key, -, hmode⟩ := heffect.given ⟨"1", by decide, writesIndex_toString 1⟩
  exact ⟨hparse, heffect, (get?_sampled hmode).2⟩

/-- A key with a leading zero is accepted and overlooked. -/
theorem not_keysTakeEffect_padded :
    parse (sampledText "01") = .ok (sampled "01") ∧ WritesIndex "01" 1 ∧
      (sampled "01").precisionOfTexture 1 = .low ∧
      ¬(sampled "01").KeysTakeEffect (Table.empty.insert "01" .high) 1 := by
  have hdigits : ∀ c ∈ ['0', '1'], c.isDigit = true := List.all_eq_true.1 rfl
  have hwrites : WritesIndex "01" 1 := ⟨['0', '1'], .inl rfl, by decide, hdigits, rfl⟩
  have hlow : (sampled "01").precisionOfTexture 1 = .low := by decide
  refine ⟨by decide +kernel, hwrites, hlow, fun heffect => ?_⟩
  obtain ⟨key, -, hmode⟩ := heffect.given ⟨"01", by decide, hwrites⟩
  rw [hlow] at hmode
  cases (get?_sampled hmode).2

end Sample

end MaterialGraph.Document
