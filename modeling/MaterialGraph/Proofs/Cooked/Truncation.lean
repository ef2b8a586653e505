import MaterialGraph.Proofs.Cooked.Format

/-!
Cooked shaders that end too early or go on too long. A reader that takes certain
bytes stops where a beginning of them stops, and a reader put together from such
readers does so too, in whichever of its parts the bytes end. Main statement: a
proper beginning of bytes that are read is refused as truncated, and bytes that go
on behind them are refused for what trails.
-/

namespace MaterialGraph.Cooked

variable {α β : Type}

/-- Whether a reader runs out of bytes, at a position within them or at their end. -/
def Stalls (r : Reader α) (bytes : List UInt8) : Prop :=
  ∀ position, ∃ stop, position ≤ stop ∧ stop ≤ position + bytes.length ∧
    r.run ⟨position, bytes⟩ = .error (.fault (.truncated stop))

/-- Whether a reader stalls on every proper beginning of the bytes that it takes. -/
def SelfDelimiting (r : Reader α) : Prop :=
  ∃ Written, Reads r Written ∧
    ∀ a begun missing, Written a (begun ++ missing) → missing ≠ [] → Stalls r begun

/-- A beginning of two parts ends within the first, or contains it. -/
theorem within_or_contains {begun missing first rest : List UInt8}
    (h : begun ++ missing = first ++ rest) :
    (∃ left, left ≠ [] ∧ first = begun ++ left) ∨
      ∃ next, begun = first ++ next ∧ rest = next ++ missing := by
  rcases List.append_eq_append_iff.1 h with ⟨left, hfirst, hmissing⟩ | ⟨next, hbegun, hrest⟩
  · by_cases hleft : left = []
    · subst hleft
      exact .inr ⟨[], by simp [hfirst], by simp [hmissing]⟩
    · exact .inl ⟨left, hleft, hfirst⟩
  · exact .inr ⟨next, hbegun, hrest⟩

section Readers

variable {r : Reader α} {f : α → Reader β}

theorem Stalls.bind {bytes : List UInt8} (h : Stalls r bytes) : Stalls (r >>= f) bytes := by
  intro position
  obtain ⟨stop, hle, hlength, hrun⟩ := h position
  refine ⟨stop, hle, hlength, ?_⟩
  rw [StateT.run_bind, hrun]
  rfl

namespace SelfDelimiting

protected theorem pure (a : α) : SelfDelimiting (pure a : Reader α) := by
  refine ⟨_, Reads.pure a, fun b begun missing h hmissing => ?_⟩
  exact absurd (List.append_eq_nil_iff.1 h.2).2 hmissing

protected theorem throw (e : Failure) : SelfDelimiting (throw e : Reader α) :=
  ⟨_, Reads.throw e, fun _ _ _ h => h.elim⟩

/-- Bytes that end within what is read first stall there, and others within what is
read then. -/
protected theorem bind (hr : SelfDelimiting r) (hf : ∀ a, SelfDelimiting (f a)) :
    SelfDelimiting (r >>= f) := by
  obtain ⟨Written, hreads, hstalls⟩ := hr
  choose Next hnext hstalls' using hf
  refine ⟨_, hreads.bind hnext, ?_⟩
  rintro b begun missing ⟨a, first, rest, hfirst, hrest, heq⟩ hmissing
  rcases within_or_contains heq with ⟨left, hleft, rfl⟩ | ⟨next, rfl, rfl⟩
  · exact (hstalls a begun left hfirst hleft).bind
  · intro position
    have hrun := (hreads ⟨position, first ++ next⟩ a ⟨position + first.length, next⟩).2
      ⟨first, hfirst, rfl, rfl⟩
    obtain ⟨stop, hle, hlength, herror⟩ :=
      hstalls' a b next missing hrest hmissing (position + first.length)
    refine ⟨stop, by omega, by rw [List.length_append]; omega, ?_⟩
    rw [StateT.run_bind, hrun]
    exact herror

end SelfDelimiting

end Readers

theorem selfDelimiting_take (n : Nat) : SelfDelimiting (take n) := by
  refine ⟨_, reads_take n, fun taken begun missing h hmissing position => ?_⟩
  have hshort : begun.length < n := by
    have hlength := h.2
    have hpos := List.length_pos_of_ne_nil hmissing
    rw [List.length_append] at hlength
    omega
  refine ⟨position, Nat.le_refl _, Nat.le_add_right _ _, ?_⟩
  have hne : (begun.take n).length ≠ n := by
    rw [List.length_take]
    omega
  exact if_neg hne

theorem selfDelimiting_readByte : SelfDelimiting readByte :=
  (selfDelimiting_take 1).bind fun bytes => .pure (bytes.headD 0)

theorem selfDelimiting_readLength : SelfDelimiting readLength :=
  (selfDelimiting_take 4).bind fun bytes => .pure (number bytes)

/-- A text is taken as a whole before it is looked at. -/
theorem selfDelimiting_readText (length : Nat) : SelfDelimiting (readText length) := by
  refine (selfDelimiting_take length).bind fun bytes => ?_
  split
  · split
    · exact .pure _
    · exact .throw _
  · exact .throw _

theorem selfDelimiting_readPass : SelfDelimiting readPass := by
  refine selfDelimiting_readByte.bind fun index => ?_
  split
  · exact .throw _
  · refine selfDelimiting_readByte.bind fun outputs => ?_
    refine (selfDelimiting_take MappingBlock.size).bind fun block => ?_
    refine selfDelimiting_readLength.bind fun vertexLength => ?_
    refine selfDelimiting_readLength.bind fun fragmentLength => ?_
    refine (selfDelimiting_readText vertexLength).bind fun vertex => ?_
    exact (selfDelimiting_readText fragmentLength).bind fun fragment => .pure _

theorem selfDelimiting_readPasses (n : Nat) : SelfDelimiting (readPasses n) := by
  induction n with
  | zero => exact .pure []
  | succ n ih => exact selfDelimiting_readPass.bind fun p => ih.bind fun rest => .pure (p :: rest)

theorem selfDelimiting_shader :
    SelfDelimiting (do
      let backend ← readByte
      let count ← readByte
      let passes ← readPasses count.toNat
      return (backend, passes)) :=
  selfDelimiting_readByte.bind fun backend => selfDelimiting_readByte.bind fun count =>
    (selfDelimiting_readPasses count.toNat).bind fun passes => .pure (backend, passes)

variable {bytes : List UInt8} {result : UInt8 × List CookedPass}

/-- No cooked shader begins another: what stops before its end is refused as truncated at
a position that it has, and what goes on behind its end is refused for the bytes behind. -/
theorem decode_prefix_free (h : decode bytes = .ok result) :
    (∀ begun, begun <+: bytes → begun ≠ bytes → ∃ stop, stop ≤ begun.length ∧
      decode begun = .error (.fault (.truncated stop))) ∧
    ∀ longer, bytes <+: longer → longer ≠ bytes →
      decode longer = .error (.fault (.trailingBytes (longer.length - bytes.length))) := by
  obtain ⟨Written, hreads, hstalls⟩ := selfDelimiting_shader
  have hwritten : Written result bytes := by
    obtain ⟨⟨result', c⟩, hrun, hend⟩ := Except.bind_eq_ok_iff.1 h
    obtain ⟨taken, htaken, hbytes, -⟩ := (hreads ⟨0, bytes⟩ result' c).1 hrun
    dsimp only at hend hbytes
    split at hend
    · next hempty =>
      cases hend
      rwa [hbytes, List.isEmpty_iff.1 hempty, List.append_nil]
    · cases hend
  refine ⟨fun begun hbegun hne => ?_, fun longer hlonger hne => ?_⟩
  · obtain ⟨missing, rfl⟩ := hbegun
    have hmissing : missing ≠ [] := fun heq => hne (by rw [heq, List.append_nil])
    obtain ⟨stop, -, hle, hrun⟩ := hstalls result begun missing hwritten hmissing 0
    refine ⟨stop, by omega, ?_⟩
    rw [decode, hrun]
    rfl
  · obtain ⟨trailing, rfl⟩ := hlonger
    have hrun := (hreads ⟨0, bytes ++ trailing⟩ result ⟨0 + bytes.length, trailing⟩).2
      ⟨bytes, hwritten, rfl, rfl⟩
    have htrailing : ¬trailing.isEmpty := by
      simpa using hne
    rw [decode, hrun, List.length_append, Nat.add_sub_cancel_left]
    exact if_neg htrailing

/-- The sample stops within its last length, or goes on with a null byte. -/
theorem decode_prefix_free_sample :
    decode sampleBytes = .ok (1, [samplePass]) ∧
      (∃ stop, stop ≤ 52 ∧ decode (sampleBytes.take 52) = .error (.fault (.truncated stop))) ∧
      decode (sampleBytes ++ [0]) = .error (.fault (.trailingBytes 1)) := by
  have hdecode : decode sampleBytes = .ok (1, [samplePass]) := rfl
  obtain ⟨hbegun, hlonger⟩ := decode_prefix_free hdecode
  exact ⟨hdecode, hbegun (sampleBytes.take 52) (List.take_prefix 52 _) (by decide),
    hlonger (sampleBytes ++ [0]) (List.prefix_append _ _) (by decide)⟩

end MaterialGraph.Cooked
