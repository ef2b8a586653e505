import Mathlib.Data.List.Basic
import MaterialGraph.Cooked.Format

/-!
What the readers of cooked bytes take. A reader that succeeds takes certain
bytes off the front and leaves the others, and it succeeds on whatever starts
with such bytes; readers put together take the bytes of their parts one after
the other. Lengths are read from exactly the four bytes they are written with,
and texts from their bytes and a null byte.
-/

namespace MaterialGraph.Cooked

variable {α β : Type}

/-- A reader that gives `a` exactly when it can take bytes that `a` is written with. -/
def Reads (r : Reader α) (Written : α → List UInt8 → Prop) : Prop :=
  ∀ c a c', r.run c = .ok (a, c') ↔ ∃ bytes, Written a bytes ∧ c.rest = bytes ++ c'.rest ∧
    c'.position = c.position + bytes.length

namespace Reads

variable {r : Reader α} {f : α → Reader β} {Written Written' : α → List UInt8 → Prop}

theorem of_iff (h : Reads r Written) (hiff : ∀ a bytes, Written a bytes ↔ Written' a bytes) :
    Reads r Written' := by
  intro c a c'
  rw [h c a c']
  simp only [hiff]

protected theorem pure (a : α) : Reads (pure a) fun b bytes => b = a ∧ bytes = [] := by
  intro c b c'
  obtain ⟨position, rest⟩ := c
  obtain ⟨position', rest'⟩ := c'
  constructor
  · intro h
    cases h
    exact ⟨[], ⟨rfl, rfl⟩, rfl, rfl⟩
  · rintro ⟨_, ⟨rfl, rfl⟩, hrest, hposition⟩
    obtain rfl : rest = rest' := hrest
    obtain rfl : position' = position := hposition
    rfl

protected theorem throw (e : Failure) : Reads (throw e : Reader α) fun _ _ => False := by
  intro c a c'
  constructor
  · intro h
    cases h
  · rintro ⟨_, h, _⟩
    exact h.elim

theorem run_bind_eq_ok_iff {c c' : Cursor} {b : β} :
    (r >>= f).run c = .ok (b, c') ↔
      ∃ a c₁, r.run c = .ok (a, c₁) ∧ (f a).run c₁ = .ok (b, c') := by
  rw [StateT.run_bind]
  cases r.run c with
  | error e => simp [bind, Except.bind]
  | ok p =>
    obtain ⟨a, c₁⟩ := p
    simp [bind, Except.bind]

/-- The bytes of what is read first stand before those of what is read then. -/
protected theorem bind {N : α → β → List UInt8 → Prop} (hr : Reads r Written)
    (hf : ∀ a, Reads (f a) (N a)) :
    Reads (r >>= f) fun b bytes =>
      ∃ a first rest, Written a first ∧ N a b rest ∧ bytes = first ++ rest := by
  intro c b c'
  rw [run_bind_eq_ok_iff]
  constructor
  · rintro ⟨a, c₁, ha, hb⟩
    obtain ⟨first, hfirst, hrest, hposition⟩ := (hr c a c₁).1 ha
    obtain ⟨rest, hnext, hrest', hposition'⟩ := (hf a c₁ b c').1 hb
    refine ⟨first ++ rest, ⟨a, first, rest, hfirst, hnext, rfl⟩, ?_, ?_⟩
    · rw [hrest, hrest', List.append_assoc]
    · rw [hposition', hposition, List.length_append, Nat.add_assoc]
  · rintro ⟨_, ⟨a, first, rest, hfirst, hnext, rfl⟩, hrest, hposition⟩
    let c₁ : Cursor := ⟨c.position + first.length, rest ++ c'.rest⟩
    have ha : r.run c = .ok (a, c₁) :=
      (hr c a c₁).2 ⟨first, hfirst, by rw [hrest, List.append_assoc], rfl⟩
    have hb : (f a).run c₁ = .ok (b, c') :=
      (hf a c₁ b c').2 ⟨rest, hnext, rfl, by rw [hposition, List.length_append, Nat.add_assoc]⟩
    exact ⟨a, c₁, ha, hb⟩

end Reads

theorem reads_take (n : Nat) :
    Reads (take n) fun taken bytes => taken = bytes ∧ bytes.length = n := by
  intro c taken c'
  obtain ⟨position, rest⟩ := c
  obtain ⟨position', rest'⟩ := c'
  have hrun : (take n).run ⟨position, rest⟩ =
      if (rest.take n).length = n then .ok (rest.take n, ⟨position + n, rest.drop n⟩)
      else .error (.fault (.truncated position)) := rfl
  rw [hrun]
  constructor
  · intro h
    split at h
    · next hlength =>
      cases h
      exact ⟨rest.take n, ⟨rfl, hlength⟩, (List.take_append_drop n rest).symm, by rw [hlength]⟩
    · cases h
  · rintro ⟨_, ⟨rfl, rfl⟩, hrest, hposition⟩
    obtain rfl : rest = taken ++ rest' := hrest
    obtain rfl : position' = position + taken.length := hposition
    simp

theorem reads_readByte : Reads readByte fun b bytes => bytes = [b] := by
  refine ((reads_take 1).bind fun bytes => .pure (bytes.headD 0)).of_iff fun b bytes => ?_
  constructor
  · rintro ⟨taken, first, rest, ⟨rfl, hlength⟩, ⟨rfl, rfl⟩, rfl⟩
    obtain ⟨b, rfl⟩ := List.length_eq_one_iff.1 hlength
    rfl
  · rintro rfl
    exact ⟨[b], [b], [], ⟨rfl, rfl⟩, ⟨rfl, rfl⟩, rfl⟩

/-- The number that bytes stand for, the lowest byte first. -/
def number (bytes : List UInt8) : Nat :=
  bytes.foldr (fun b n => b.toNat + 256 * n) 0

/-- A length is written with four bytes, and four bytes are how their number is written. -/
theorem lengthBytes_eq_ok_iff {n : Nat} {bytes : List UInt8} :
    lengthBytes n = .ok bytes ↔ bytes.length = 4 ∧ number bytes = n := by
  unfold lengthBytes
  constructor
  · intro h
    split at h
    · next hlt =>
      cases h
      refine ⟨rfl, ?_⟩
      simp only [number, List.foldr_cons, List.foldr_nil, UInt8.toNat_ofNat']
      omega
    · cases h
  · rintro ⟨hlength, rfl⟩
    obtain ⟨b₀, b₁, b₂, b₃, rfl⟩ := List.length_eq_four.1 hlength
    have h₀ := b₀.toNat_lt
    have h₁ := b₁.toNat_lt
    have h₂ := b₂.toNat_lt
    have h₃ := b₃.toNat_lt
    have hnumber : number [b₀, b₁, b₂, b₃] =
        b₀.toNat + 256 * (b₁.toNat + 256 * (b₂.toNat + 256 * b₃.toNat)) := rfl
    have hdigit (b : UInt8) (n : Nat) (h : n % 256 = b.toNat) : UInt8.ofNat n = b :=
      UInt8.toNat_inj.1 (by rw [UInt8.toNat_ofNat', h])
    rw [hnumber, if_pos (by omega), hdigit b₀ _ (by omega), hdigit b₁ _ (by omega),
      hdigit b₂ _ (by omega), hdigit b₃ _ (by omega)]

theorem reads_readLength : Reads readLength fun n bytes => lengthBytes n = .ok bytes := by
  refine ((reads_take 4).bind fun bytes => .pure (number bytes)).of_iff fun n bytes => ?_
  rw [lengthBytes_eq_ok_iff]
  constructor
  · rintro ⟨taken, first, rest, ⟨rfl, hlength⟩, ⟨rfl, rfl⟩, rfl⟩
    rw [List.append_nil]
    exact ⟨hlength, rfl⟩
  · rintro ⟨hlength, rfl⟩
    exact ⟨bytes, bytes, [], ⟨rfl, hlength⟩, ⟨rfl, rfl⟩, (List.append_nil bytes).symm⟩

/-- Bytes are the bytes of a text and a null byte if they end in one and the others
are a text. -/
theorem eq_toBytes_append_iff {bytes : List UInt8} {s : String} :
    bytes = Text.toBytes s ++ [0] ↔
      bytes.getLast? = some 0 ∧ Text.ofBytes? bytes.dropLast = some s := by
  constructor
  · rintro rfl
    rw [List.getLast?_append, List.dropLast_concat, Text.ofBytes?_toBytes]
    exact ⟨rfl, rfl⟩
  · rintro ⟨hlast, hs⟩
    obtain ⟨body, rfl⟩ := List.getLast?_eq_some_iff.1 hlast
    rw [List.dropLast_concat] at hs
    rw [Text.toBytes_of_ofBytes? hs]

theorem reads_readText (length : Nat) :
    Reads (readText length) fun s bytes =>
      bytes = Text.toBytes s ++ [0] ∧ bytes.length = length := by
  unfold readText
  refine ((reads_take length).bind (N := fun taken s bytes =>
    taken = Text.toBytes s ++ [0] ∧ bytes = []) fun taken => ?_).of_iff fun s bytes => ?_
  · simp only [eq_toBytes_append_iff]
    split
    · next hlast =>
      split
      · next s hs =>
        refine (Reads.pure s).of_iff fun s' bytes => ?_
        simp [hlast, hs, eq_comm]
      · next hs => exact (Reads.throw _).of_iff fun s' bytes => by simp [hs]
    · next hlast => exact (Reads.throw _).of_iff fun s' bytes => by simp [hlast]
  · constructor
    · rintro ⟨taken, first, rest, ⟨rfl, hlength⟩, ⟨htext, rfl⟩, rfl⟩
      rw [List.append_nil]
      exact ⟨htext, hlength⟩
    · rintro ⟨htext, hlength⟩
      exact ⟨bytes, bytes, [], ⟨rfl, hlength⟩, ⟨htext, rfl⟩, (List.append_nil bytes).symm⟩

end MaterialGraph.Cooked
