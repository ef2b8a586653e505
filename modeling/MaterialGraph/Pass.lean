/-!
The rendering passes of a shader. Diffuse and specular passes come once per
light, numbered from zero.
-/

namespace MaterialGraph

inductive Pass
  | default
  | diffuse (light : Nat)
  | diffuseSpecular (light : Nat)
  | fullbright
  | preview
deriving DecidableEq, Inhabited

namespace Pass

/-- The number of lights that have passes of their own. -/
def lightCount : Nat := 4

/-- In index order. -/
def all : List Pass :=
  [default] ++ (List.range lightCount).map diffuse ++
    (List.range lightCount).map diffuseSpecular ++ [fullbright, preview]

def index : Pass → Nat
  | default => 0
  | diffuse i => 1 + i
  | diffuseSpecular i => 1 + lightCount + i
  | fullbright => 1 + 2 * lightCount
  | preview => 2 + 2 * lightCount

def ofIndex? (i : Nat) : Option Pass :=
  all[i]?

theorem all_ascending : all.Pairwise fun p q => p.index < q.index := by
  decide

theorem nodup_all : all.Nodup := by
  refine all_ascending.imp ?_
  rintro p _ hlt rfl
  exact Nat.lt_irrefl _ hlt

theorem index_lt {p : Pass} (h : p ∈ all) : p.index < 11 := by
  have hall : ∀ p ∈ all, p.index < 11 := by decide
  exact hall p h

theorem ofIndex?_index {p : Pass} (h : p ∈ all) : ofIndex? p.index = some p := by
  have hall : ∀ p ∈ all, ofIndex? p.index = some p := by decide
  exact hall p h

theorem index_inj {p q : Pass} (hp : p ∈ all) (hq : q ∈ all) : p.index = q.index ↔ p = q := by
  refine ⟨fun h => ?_, congrArg index⟩
  have hread := ofIndex?_index hp
  rw [h, ofIndex?_index hq] at hread
  exact (Option.some.inj hread).symm

theorem index_of_ofIndex? {i : Nat} {p : Pass} (h : ofIndex? i = some p) :
    p ∈ all ∧ p.index = i := by
  have hall : ∀ i < 11, (ofIndex? i).map index = some i := by decide
  have hlt : i < 11 := (List.getElem?_eq_some_iff.1 h).1
  have hindex := hall i hlt
  rw [h, Option.map_some, Option.some.injEq] at hindex
  exact ⟨List.mem_of_getElem? h, hindex⟩

/-- Lights are counted from one in names. -/
def name : Pass → String
  | default => "Default"
  | diffuse i => "Diffuse" ++ toString (i + 1)
  | diffuseSpecular i => "DiffuseSpecular" ++ toString (i + 1)
  | fullbright => "Fullbright"
  | preview => "Preview"

def ofName? (s : String) : Option Pass :=
  all.find? fun p => p.name == s

theorem name_inj {p q : Pass} (hp : p ∈ all) (hq : q ∈ all) : p.name = q.name ↔ p = q := by
  have hall : ∀ p ∈ all, ∀ q ∈ all, p.name = q.name → p = q := by decide +kernel
  exact ⟨hall p hp q hq, congrArg name⟩

end Pass

end MaterialGraph
