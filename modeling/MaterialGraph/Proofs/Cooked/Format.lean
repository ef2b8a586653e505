import MaterialGraph.Proofs.Cooked.Reader
import MaterialGraph.Proofs.Failure

/-!
Cooked shaders as bytes and back. Main statements: a shader of passes that exist,
with texts short enough, is written and read back as it was; and whatever is read
is written again as the very bytes it was read from.
-/

namespace MaterialGraph.Cooked

/-- What is written of a pass after its index. A length counts the null byte that
ends its text. -/
def Contents (p : CookedPass) (bytes : List UInt8) : Prop :=
  ∃ vertexLength fragmentLength : List UInt8,
    (vertexLength.length = 4 ∧ number vertexLength = (Text.toBytes p.vertex ++ [0]).length) ∧
    (fragmentLength.length = 4 ∧ number fragmentLength = (Text.toBytes p.fragment ++ [0]).length) ∧
    bytes = p.outputs.bits :: p.mapping.toBytes ++ vertexLength ++ fragmentLength ++
      (Text.toBytes p.vertex ++ [0]) ++ (Text.toBytes p.fragment ++ [0])

/-- How a pass is written. -/
def Record (p : CookedPass) (bytes : List UInt8) : Prop :=
  ∃ index contents, bytes = index :: contents ∧ Pass.ofIndex? index.toNat = some p.pass ∧
    Contents p contents

/-- How a cooked shader is written. -/
def Layout (backend : UInt8) (passes : List CookedPass) (bytes : List UInt8) : Prop :=
  ∃ (count : UInt8) (records : List (List UInt8)), count.toNat = passes.length ∧
    List.Forall₂ Record passes records ∧ bytes = backend :: count :: records.flatten

theorem byte_eq_ok_iff {n : Nat} {b : UInt8} : byte n = .ok b ↔ b.toNat = n := by
  unfold byte
  constructor
  · intro h
    split at h
    · next hlt =>
      cases h
      rw [UInt8.toNat_ofNat', Nat.mod_eq_of_lt hlt]
    · cases h
  · rintro rfl
    rw [if_pos b.toNat_lt, UInt8.ofNat_toNat]

/-- A pass that exists is written as a record, and a record is how its pass is written. -/
theorem record_iff {p : CookedPass} {bytes : List UInt8} :
    Record p bytes ↔ p.pass ∈ Pass.all ∧ encodePass p = .ok bytes := by
  simp only [Record, Contents, encodePass, Except.bind_eq_ok_iff, byte_eq_ok_iff,
    lengthBytes_eq_ok_iff, Except.ok.injEq]
  constructor
  · rintro ⟨index, _, rfl, hpass, vertexLength, fragmentLength, hvertex, hfragment, rfl⟩
    obtain ⟨hmem, hindex⟩ := Pass.index_of_ofIndex? hpass
    exact ⟨hmem, index, hindex.symm, vertexLength, hvertex, fragmentLength, hfragment, rfl⟩
  · rintro ⟨hmem, index, hindex, vertexLength, hvertex, fragmentLength, hfragment, rfl⟩
    exact ⟨index, _, rfl, hindex ▸ Pass.ofIndex?_index hmem, vertexLength, fragmentLength, hvertex,
      hfragment, rfl⟩

variable {α : Type}

theorem reads_texts (vertexLength fragmentLength : Nat) (f : String → String → α) :
    Reads (do
      let vertex ← readText vertexLength
      let fragment ← readText fragmentLength
      return f vertex fragment)
    fun a bytes => ∃ vertex fragment, a = f vertex fragment ∧
      (Text.toBytes vertex ++ [0]).length = vertexLength ∧
      (Text.toBytes fragment ++ [0]).length = fragmentLength ∧
      bytes = (Text.toBytes vertex ++ [0]) ++ (Text.toBytes fragment ++ [0]) := by
  refine ((reads_readText vertexLength).bind fun vertex => (reads_readText fragmentLength).bind
    fun fragment => .pure (f vertex fragment)).of_iff fun a bytes => ?_
  constructor
  · rintro ⟨vertex, _, _, ⟨rfl, hvertex⟩, ⟨fragment, _, _, ⟨rfl, hfragment⟩, ⟨rfl, rfl⟩, rfl⟩, rfl⟩
    exact ⟨vertex, fragment, rfl, hvertex, hfragment, by rw [List.append_nil]⟩
  · rintro ⟨vertex, fragment, rfl, hvertex, hfragment, rfl⟩
    exact ⟨vertex, _, _, ⟨rfl, hvertex⟩, ⟨fragment, _, _, ⟨rfl, hfragment⟩, ⟨rfl, rfl⟩,
      (List.append_nil _).symm⟩, rfl⟩

/-- The two lengths stand before both texts. -/
theorem reads_lengthsAndTexts (f : String → String → α) :
    Reads (do
      let vertexLength ← readLength
      let fragmentLength ← readLength
      let vertex ← readText vertexLength
      let fragment ← readText fragmentLength
      return f vertex fragment)
    fun a bytes => ∃ vertex fragment vertexLength fragmentLength, a = f vertex fragment ∧
      lengthBytes (Text.toBytes vertex ++ [0]).length = .ok vertexLength ∧
      lengthBytes (Text.toBytes fragment ++ [0]).length = .ok fragmentLength ∧
      bytes = vertexLength ++ fragmentLength ++ (Text.toBytes vertex ++ [0]) ++
        (Text.toBytes fragment ++ [0]) := by
  refine (reads_readLength.bind fun vertexLength => reads_readLength.bind fun fragmentLength =>
    reads_texts vertexLength fragmentLength f).of_iff fun a bytes => ?_
  constructor
  · rintro ⟨_, vertexLength, _, hvertex, ⟨_, fragmentLength, _, hfragment,
      ⟨vertex, fragment, rfl, rfl, rfl, rfl⟩, rfl⟩, rfl⟩
    exact ⟨vertex, fragment, vertexLength, fragmentLength, rfl, hvertex, hfragment,
      by simp only [List.append_assoc]⟩
  · rintro ⟨vertex, fragment, vertexLength, fragmentLength, rfl, hvertex, hfragment, rfl⟩
    exact ⟨_, vertexLength, _, hvertex, ⟨_, fragmentLength, _, hfragment,
      ⟨vertex, fragment, rfl, rfl, rfl, rfl⟩, rfl⟩, by simp only [List.append_assoc]⟩

theorem reads_contents (pass : Pass) :
    Reads (do
      let outputs ← readByte
      let block ← take MappingBlock.size
      let vertexLength ← readLength
      let fragmentLength ← readLength
      let vertex ← readText vertexLength
      let fragment ← readText fragmentLength
      return CookedPass.mk pass ⟨outputs⟩ (.ofBytes block) vertex fragment)
    fun p bytes => p.pass = pass ∧ Contents p bytes := by
  refine (reads_readByte.bind fun outputs => (reads_take MappingBlock.size).bind fun block =>
    reads_lengthsAndTexts (CookedPass.mk pass ⟨outputs⟩ (.ofBytes block))).of_iff
      fun p bytes => ?_
  simp only [Contents, lengthBytes_eq_ok_iff]
  constructor
  · rintro ⟨outputs, _, _, rfl, ⟨block, _, _, ⟨rfl, hblock⟩, ⟨vertex, fragment, vertexLength,
      fragmentLength, rfl, hvertex, hfragment, rfl⟩, rfl⟩, rfl⟩
    refine ⟨rfl, vertexLength, fragmentLength, hvertex, hfragment, ?_⟩
    simp only [MappingBlock.toBytes_ofBytes hblock, List.cons_append, List.nil_append,
      List.append_assoc]
  · obtain ⟨_, ⟨outputs⟩, mapping, vertex, fragment⟩ := p
    rintro ⟨rfl, vertexLength, fragmentLength, hvertex, hfragment, rfl⟩
    refine ⟨outputs, [outputs], _, rfl, ⟨mapping.toBytes, _, _, ⟨rfl, mapping.length_toBytes⟩,
      ⟨vertex, fragment, vertexLength, fragmentLength, ?_, hvertex, hfragment, rfl⟩, rfl⟩, ?_⟩
    · rw [MappingBlock.ofBytes_toBytes]
    · simp only [List.cons_append, List.nil_append, List.append_assoc]

theorem reads_readPass : Reads readPass Record := by
  unfold readPass
  refine (reads_readByte.bind (N := fun index p contents =>
    Pass.ofIndex? index.toNat = some p.pass ∧ Contents p contents) fun index => ?_).of_iff
      fun p bytes => ?_
  · split
    · next hindex => exact (Reads.throw _).of_iff fun p contents => by simp [hindex]
    · next pass hindex =>
      exact (reads_contents pass).of_iff fun p contents => by
        rw [hindex, Option.some.injEq, eq_comm]
  · constructor
    · rintro ⟨index, _, contents, rfl, ⟨hindex, hcontents⟩, rfl⟩
      exact ⟨index, contents, rfl, hindex, hcontents⟩
    · rintro ⟨index, contents, rfl, hindex, hcontents⟩
      exact ⟨index, [index], contents, rfl, ⟨hindex, hcontents⟩, rfl⟩

theorem reads_readPasses (n : Nat) :
    Reads (readPasses n) fun passes bytes => passes.length = n ∧
      ∃ records, List.Forall₂ Record passes records ∧ bytes = records.flatten := by
  induction n with
  | zero =>
    refine (Reads.pure []).of_iff fun passes bytes => ?_
    constructor
    · rintro ⟨rfl, rfl⟩
      exact ⟨rfl, [], .nil, rfl⟩
    · rintro ⟨hlength, records, hrecords, rfl⟩
      obtain rfl := List.length_eq_zero_iff.1 hlength
      obtain rfl := List.forall₂_nil_left_iff.1 hrecords
      exact ⟨rfl, rfl⟩
  | succ n ih =>
    refine (reads_readPass.bind fun p => ih.bind fun rest => .pure (p :: rest)).of_iff
      fun passes bytes => ?_
    constructor
    · rintro ⟨p, record, _, hrecord, ⟨rest, _, _, ⟨rfl, records, hrecords, rfl⟩, ⟨rfl, rfl⟩, rfl⟩,
        rfl⟩
      exact ⟨rfl, record :: records, .cons hrecord hrecords, by simp⟩
    · rintro ⟨hlength, _, hrecords, rfl⟩
      cases hrecords with
      | nil => cases hlength
      | @cons p record rest records hrecord hrecords =>
        exact ⟨p, record, _, hrecord, ⟨rest, _, _, ⟨Nat.succ.inj hlength, records, hrecords, rfl⟩,
          ⟨rfl, rfl⟩, rfl⟩, by simp⟩

theorem reads_shader :
    Reads (do
      let backend ← readByte
      let count ← readByte
      let passes ← readPasses count.toNat
      return (backend, passes))
    fun result bytes => Layout result.1 result.2 bytes := by
  refine (reads_readByte.bind fun backend => reads_readByte.bind fun count =>
    (reads_readPasses count.toNat).bind fun passes => .pure (backend, passes)).of_iff
      fun result bytes => ?_
  constructor
  · rintro ⟨backend, _, _, rfl, ⟨count, _, _, rfl, ⟨passes, _, _, ⟨hlength, records, hrecords,
      rfl⟩, ⟨rfl, rfl⟩, rfl⟩, rfl⟩, rfl⟩
    exact ⟨count, records, hlength.symm, hrecords, by simp⟩
  · obtain ⟨backend, passes⟩ := result
    rintro ⟨count, records, hlength, hrecords, rfl⟩
    exact ⟨backend, [backend], _, rfl, ⟨count, [count], _, rfl, ⟨passes, _, _, ⟨hlength.symm,
      records, hrecords, rfl⟩, ⟨rfl, rfl⟩, rfl⟩, rfl⟩, by simp⟩

variable {backend : UInt8} {passes : List CookedPass} {bytes : List UInt8}

/-- What is decoded was read from all of the bytes. -/
theorem decode_eq_ok_iff : decode bytes = .ok (backend, passes) ↔ Layout backend passes bytes := by
  unfold decode
  rw [Except.bind_eq_ok_iff]
  constructor
  · intro h
    obtain ⟨⟨result, c⟩, hrun, hresult⟩ := h
    obtain ⟨taken, htaken, hbytes, -⟩ := (reads_shader ⟨0, bytes⟩ result c).1 hrun
    dsimp only at hresult hbytes
    split at hresult
    · next hempty =>
      cases hresult
      rw [hbytes, List.isEmpty_iff.1 hempty, List.append_nil]
      exact htaken
    · cases hresult
  · intro h
    have hrun := (reads_shader ⟨0, bytes⟩ (backend, passes) ⟨0 + bytes.length, []⟩).2
      ⟨bytes, h, (List.append_nil bytes).symm, rfl⟩
    exact ⟨_, hrun, rfl⟩

/-- A shader whose passes exist is laid out as it is encoded. -/
theorem layout_iff : Layout backend passes bytes ↔
    (∀ p ∈ passes, p.pass ∈ Pass.all) ∧ encode backend passes = .ok bytes := by
  have hrecord : Record = fun p bytes => p.pass ∈ Pass.all ∧ encodePass p = .ok bytes :=
    funext fun p => funext fun bytes => propext record_iff
  simp only [Layout, hrecord, List.forall₂_and_left, encode, Except.bind_eq_ok_iff, byte_eq_ok_iff,
    Except.mapM_eq_ok_iff, Except.ok.injEq]
  constructor
  · intro h
    obtain ⟨count, records, hcount, ⟨hpasses, hrecords⟩, rfl⟩ := h
    exact ⟨hpasses, count, hcount, records, hrecords, rfl⟩
  · intro h
    obtain ⟨hpasses, count, hcount, records, hrecords, rfl⟩ := h
    exact ⟨count, records, hcount, ⟨hpasses, hrecords⟩, rfl⟩

theorem exists_byte {n : Nat} (h : n < 256) : ∃ b, byte n = .ok b :=
  ⟨UInt8.ofNat n, if_pos h⟩

theorem exists_lengthBytes {n : Nat} (h : n < 0x100000000) : ∃ bytes, lengthBytes n = .ok bytes :=
  ⟨_, if_pos h⟩

theorem exists_encodePass {p : CookedPass} (hpass : p.pass ∈ Pass.all)
    (hvertex : (Text.toBytes p.vertex).length < 0xffffffff)
    (hfragment : (Text.toBytes p.fragment).length < 0xffffffff) :
    ∃ bytes, encodePass p = .ok bytes := by
  have hindex := Pass.index_lt hpass
  obtain ⟨index, hindex⟩ := exists_byte (n := p.pass.index) (by omega)
  obtain ⟨vertexLength, hvertex⟩ := exists_lengthBytes
    (n := (Text.toBytes p.vertex ++ [0]).length) (by rw [List.length_append, List.length_singleton]; omega)
  obtain ⟨fragmentLength, hfragment⟩ := exists_lengthBytes
    (n := (Text.toBytes p.fragment ++ [0]).length) (by rw [List.length_append, List.length_singleton]; omega)
  simp only [encodePass, Except.bind_eq_ok_iff, Except.ok.injEq]
  exact ⟨_, index, hindex, vertexLength, hvertex, fragmentLength, hfragment, rfl⟩

theorem lt_of_lengthBytes {n : Nat} {bytes : List UInt8} (h : lengthBytes n = .ok bytes) :
    n < 0x100000000 := by
  unfold lengthBytes at h
  split at h
  · next hlt => exact hlt
  · cases h

/-- A pass that exists is written exactly if its texts are short enough. -/
theorem exists_encodePass_iff {p : CookedPass} (hpass : p.pass ∈ Pass.all) :
    (∃ bytes, encodePass p = .ok bytes) ↔
      (Text.toBytes p.vertex).length < 0xffffffff ∧
        (Text.toBytes p.fragment).length < 0xffffffff := by
  constructor
  · intro ⟨bytes, h⟩
    simp only [encodePass, Except.bind_eq_ok_iff] at h
    obtain ⟨index, -, vertexLength, hvertex, fragmentLength, hfragment, -⟩ := h
    have hvertex := lt_of_lengthBytes hvertex
    have hfragment := lt_of_lengthBytes hfragment
    rw [List.length_append, List.length_singleton] at hvertex hfragment
    omega
  · intro ⟨hvertex, hfragment⟩
    exact exists_encodePass hpass hvertex hfragment

theorem exists_encode (backend : UInt8) (hcount : passes.length ≤ 255)
    (h : ∀ p ∈ passes, ∃ record, encodePass p = .ok record) :
    ∃ bytes, encode backend passes = .ok bytes := by
  obtain ⟨count, hcount⟩ := exists_byte (n := passes.length) (by omega)
  obtain ⟨records, hrecords⟩ := Except.exists_mapM_eq_ok h
  simp only [encode, hcount, hrecords, bind, Except.bind]
  exact ⟨_, rfl⟩

/-- What is encoded of passes that exist is read back as these passes. -/
theorem decode_of_encode (hpasses : ∀ p ∈ passes, p.pass ∈ Pass.all)
    (h : encode backend passes = .ok bytes) : decode bytes = .ok (backend, passes) :=
  decode_eq_ok_iff.2 (layout_iff.2 ⟨hpasses, h⟩)

theorem encodePass_of_encode (h : encode backend passes = .ok bytes) :
    ∀ p ∈ passes, ∃ record, encodePass p = .ok record := by
  simp only [encode, Except.bind_eq_ok_iff, Except.mapM_eq_ok_iff] at h
  obtain ⟨count, -, records, hrecords, -⟩ := h
  intro p hp
  obtain ⟨record, -, hrecord⟩ := hrecords.exists_mem p hp
  exact ⟨record, hrecord⟩

/-- Passes that exist, few enough and with texts short enough, are read back as written. -/
theorem decode_encode (backend : UInt8) (passes : List CookedPass) (hcount : passes.length ≤ 255)
    (hpasses : ∀ p ∈ passes, p.pass ∈ Pass.all)
    (htexts : ∀ p ∈ passes, (Text.toBytes p.vertex).length < 0xffffffff ∧
      (Text.toBytes p.fragment).length < 0xffffffff) :
    ∃ bytes, encode backend passes = .ok bytes ∧ decode bytes = .ok (backend, passes) := by
  obtain ⟨count, hcount⟩ := exists_byte (n := passes.length) (by omega)
  obtain ⟨records, hrecords⟩ := Except.exists_mapM_eq_ok fun p hp =>
    exists_encodePass (hpasses p hp) (htexts p hp).1 (htexts p hp).2
  have hencode : encode backend passes = .ok (backend :: count :: records.flatten) := by
    simp only [encode, hcount, hrecords, bind, Except.bind]
  exact ⟨_, hencode, decode_eq_ok_iff.2 (layout_iff.2 ⟨hpasses, hencode⟩)⟩

/-- A pass with a null character in a text and nothing in the other. -/
def samplePass : CookedPass where
  pass := .diffuse 3
  outputs := ⟨255⟩
  mapping := .ofBytes ((List.range 42).map UInt8.ofNat)
  vertex := "v\x00é"
  fragment := ""

theorem decode_encode_sample :
    [samplePass, samplePass].length ≤ 255 ∧ (∀ p ∈ [samplePass, samplePass], p.pass ∈ Pass.all) ∧
      (∀ p ∈ [samplePass, samplePass], (Text.toBytes p.vertex).length < 0xffffffff ∧
        (Text.toBytes p.fragment).length < 0xffffffff) ∧
      ∃ bytes, encode 1 [samplePass, samplePass] = .ok bytes ∧
        decode bytes = .ok (1, [samplePass, samplePass]) := by
  have hpasses : ∀ p ∈ [samplePass, samplePass], p.pass ∈ Pass.all := by decide
  have htexts : ∀ p ∈ [samplePass, samplePass], (Text.toBytes p.vertex).length < 0xffffffff ∧
      (Text.toBytes p.fragment).length < 0xffffffff := by decide
  exact ⟨by decide, hpasses, htexts, decode_encode 1 _ (by decide) hpasses htexts⟩

/-- What is read is written as it was read, and as nothing else. -/
theorem encode_of_decode (h : decode bytes = .ok (backend, passes)) :
    encode backend passes = .ok bytes ∧ Layout backend passes bytes ∧
      ∀ bytes', decode bytes' = .ok (backend, passes) → bytes' = bytes := by
  have hlayout := decode_eq_ok_iff.1 h
  have hencode := (layout_iff.1 hlayout).2
  refine ⟨hencode, hlayout, fun bytes' h' => ?_⟩
  have hencode' := (layout_iff.1 (decode_eq_ok_iff.1 h')).2
  rw [hencode, Except.ok.injEq] at hencode'
  exact hencode'.symm

def sampleBytes : List UInt8 :=
  [1, 1, 4, 255] ++ (List.range 42).map UInt8.ofNat ++ [5, 0, 0, 0] ++ [1, 0, 0, 0] ++
    [118, 0, 195, 169, 0] ++ [0]

theorem encode_of_decode_sample :
    decode sampleBytes = .ok (1, [samplePass]) ∧ encode 1 [samplePass] = .ok sampleBytes := by
  have hdecode : decode sampleBytes = .ok (1, [samplePass]) := rfl
  exact ⟨hdecode, (encode_of_decode hdecode).1⟩

end MaterialGraph.Cooked
