import Mathlib.Data.Set.Function
import MaterialGraph.Proofs.Document.Alike

/-!
Documents that differ in the names of their nodes and in nodes that no pass reaches.
Main statement: such documents write every pass alike. Renaming all nodes, inserting a
node under a free name and erasing a spare node give such documents.
-/

namespace MaterialGraph.Document

open Relation (ReflTransGen)

section Rename

variable (f : String → String)

/-- A binding refers to a node by its new name, also to one that is not there. -/
def WrittenBinding.rename (b : WrittenBinding) : WrittenBinding :=
  { b with node := b.node.map f }

def WrittenNode.rename (n : WrittenNode) : WrittenNode :=
  { n with inputs := n.inputs.map (WrittenBinding.rename f) }

def WrittenPass.rename (w : WrittenPass) : WrittenPass where
  color := w.color.map (WrittenBinding.rename f)
  alpha := w.alpha.map (WrittenBinding.rename f)
  depth := w.depth.map (WrittenBinding.rename f)

def Target.rename : Target → Target
  | .node name output => .node (f name) output
  | .leaf l => .leaf l

theorem classify_rename (b : WrittenBinding) :
    (b.rename f).classify = b.classify.map (Target.rename f) := by
  obtain ⟨node, output, source, index⟩ := b
  cases node with
  | none =>
    cases source with
    | none => rfl
    | some source =>
      cases output with
      | some output => rfl
      | none =>
        simp only [WrittenBinding.rename, WrittenBinding.classify, Option.map_none,
          Option.isSome_none, Bool.false_eq_true, if_false]
        cases MaterialSource.ofName? source with
        | none => rfl
        | some s =>
          by_cases hindex : 0 ≤ index.getD 0 ∧ index.getD 0 ≤ 255
          · simp only [hindex, and_self, if_true]
            rfl
          · simp only [hindex, if_false]
            rfl
  | some node =>
    cases source with
    | none => cases index <;> rfl
    | some source => rfl

theorem output?_rename (w : WrittenPass) (o : Output) :
    (w.rename f).output? o = (w.output? o).map (WrittenBinding.rename f) := by
  cases o <;> rfl

theorem isEmpty_rename (w : WrittenPass) : (w.rename f).isEmpty = w.isEmpty := by
  simp only [WrittenPass.isEmpty, output?_rename, Option.isNone_map]

end Rename

/-- Whether the nodes of a name, if there are any, are of a known type and no output of
any pass depends on them. -/
def Spare (types : String → Outcome NodeType) (d : Document) (x : String) : Prop :=
  ∀ n, d.nodes.get? x = some n → (∃ t, types n.type = .ok t) ∧
    ∀ pass w, d.pass? pass = some w → ¬d.Reaches w x

/-- The names of the nodes, and those under which outputs of passes look for nodes. -/
def names (d : Document) : Set String :=
  {x | d.nodes.contains x ∨ ∃ pass w, d.pass? pass = some w ∧ d.Reaches w x}

/-- A document with its nodes renamed and with spare nodes added and removed. Every
reference is renamed, also one that finds no node; names stay apart, so that it finds
none under its new name either. -/
structure Renames (types : String → Outcome NodeType) (f : String → String) (d d' : Document) :
    Prop where
  name : d'.name = d.name
  skinMode : d'.skinMode = d.skinMode
  precision : d'.precision = d.precision
  samplerPrecision : d'.samplerPrecision = d.samplerPrecision
  passes : d'.passes = d.passes.map (WrittenPass.rename f)
  injective : Set.InjOn f d.names
  kept : ∀ x n, d.nodes.get? x = some n → d'.nodes.get? (f x) = some (n.rename f) ∨
    d.Spare types x ∧ d'.Spare types (f x)
  added : ∀ y, d'.nodes.contains y → (∃ x, d.nodes.contains x ∧ f x = y) ∨ d'.Spare types y

variable {types : String → Outcome NodeType} {R : String → String → Prop} {d d' : Document}
  {w : WrittenPass} {b : WrittenBinding} {n : WrittenNode} {x : String}

theorem Spare.not_reaches {pass : Pass} (h : d.Spare types x) (hx : d.nodes.contains x)
    (hw : d.pass? pass = some w) : ¬d.Reaches w x := by
  obtain ⟨n, hn⟩ := Option.isSome_iff_exists.1 hx
  exact (h n hn).2 pass w hw

/-- A node is spare if nothing refers to it but itself. -/
theorem not_reaches (hout : ∀ o b, w.output? o = some b → ¬b.RefersTo x)
    (hin : ∀ y, d.Refers x y → y = x) : ¬d.Reaches w x := by
  rintro ⟨o, b, a, ho, ha, hpath⟩
  -- No node on the way is the spare one, seen from the output on.
  have hne : ∀ y, ReflTransGen d.Refers y a → y ≠ x := by
    intro y hy
    induction hy using ReflTransGen.head_induction_on with
    | refl =>
      rintro rfl
      exact hout o b ho ha
    | head hyz _ ih =>
      rintro rfl
      exact ih (hin _ hyz)
  exact hne x hpath rfl

theorem contains_of_get? (hn : d.nodes.get? x = some n) : d.nodes.contains x := by
  rw [Table.contains, hn]
  rfl

theorem refersTo_rename {f : String → String} (h : b.RefersTo x) :
    (b.rename f).RefersTo (f x) := by
  obtain ⟨output, hb⟩ := h
  refine ⟨output, ?_⟩
  rw [classify_rename, hb]
  rfl

theorem WrittenBinding.alike_rename {f : String → String} (h : ∀ x, b.RefersTo x → R x (f x)) :
    b.Alike R (b.rename f) := by
  have hrename := classify_rename f b
  cases hb : b.classify with
  | error e =>
    rw [hb] at hrename
    exact .fault hb hrename
  | ok target =>
    rw [hb] at hrename
    cases target with
    | leaf l => exact .leaf hb hrename
    | node x output => exact .node hb hrename (h x ⟨output, hb⟩)

theorem WrittenNode.alike_rename {f : String → String}
    (h : ∀ e ∈ n.inputs.entries, ∀ x, e.2.RefersTo x → R x (f x)) : n.Alike R (n.rename f) where
  type := rfl
  inputs key := by
    have hrename : (n.rename f).inputs.get? key = (n.inputs.get? key).map (.rename f) :=
      Table.get?_map _ _ key
    rw [hrename]
    cases hb : n.inputs.get? key with
    | none => exact .none
    | some b => exact .some (WrittenBinding.alike_rename (h (key, b) (Table.get?_eq_some_iff.1 hb)))

namespace Renames

variable {f : String → String} {pass : Pass} (h : Renames types f d d')
include h

theorem pass?_eq (pass : Pass) : d'.pass? pass = (d.pass? pass).map (WrittenPass.rename f) := by
  unfold pass?
  rw [h.passes, Table.get?_map, Table.get?_map]
  cases d.passes.get? pass.name with
  | some w => rfl
  | none => by_cases hpreview : pass = .preview <;> simp only [hpreview, if_true, if_false] <;> rfl

theorem written?_eq (pass : Pass) :
    d'.written? pass = (d.written? pass).map (WrittenPass.rename f) := by
  unfold written?
  rw [h.pass?_eq pass]
  cases hw : d.pass? pass with
  | none => rfl
  | some w =>
    simp only [Option.map_some, Option.filter_some, isEmpty_rename]
    split <;> rfl

/-- A node that an output depends on is there under its new name. -/
theorem get?_of_reaches (hw : d.pass? pass = some w) (hx : d.Reaches w x)
    (hn : d.nodes.get? x = some n) : d'.nodes.get? (f x) = some (n.rename f) := by
  rcases h.kept x n hn with hkept | ⟨hspare, -⟩
  · exact hkept
  · exact absurd hx (hspare.not_reaches (contains_of_get? hn) hw)

theorem reaches (hw : d.pass? pass = some w) (hx : d.Reaches w x) :
    d'.Reaches (w.rename f) (f x) := by
  obtain ⟨o, b, a, ho, ha, hpath⟩ := hx
  refine ⟨o, b.rename f, f a, ?_, refersTo_rename ha, ?_⟩
  · rw [output?_rename, ho]
    rfl
  · induction hpath using ReflTransGen.head_induction_on with
    | refl => exact .refl
    | @head x y hxy hya ih =>
      obtain ⟨n, hn, e, he, href⟩ := hxy
      have hy := h.get?_of_reaches hw ⟨o, b, a, ho, ha, hya⟩ hn
      refine .head ⟨n.rename f, hy, (e.1, e.2.rename f), ?_, refersTo_rename href⟩ ih
      exact List.mem_map_of_mem he

/-- A name under which an output looks for a node without finding one. -/
theorem get?_eq_none (hw : d.pass? pass = some w) (hx : d.Reaches w x)
    (hnone : d.nodes.get? x = none) : d'.nodes.get? (f x) = none := by
  by_contra hsome
  have hcontains : d'.nodes.contains (f x) := Option.isSome_iff_ne_none.2 hsome
  rcases h.added (f x) hcontains with ⟨z, hz, heq⟩ | hspare
  · obtain rfl := h.injective (.inl hz) (.inr ⟨pass, w, hw, hx⟩) heq
    rw [Table.contains, hnone] at hz
    cases hz
  · have hw' : d'.pass? pass = some (w.rename f) := by
      rw [h.pass?_eq, hw]
      rfl
    exact hspare.not_reaches hcontains hw' (h.reaches hw hx)

theorem known_iff : d.Known types ↔ d'.Known types := by
  constructor
  · intro hknown e' he'
    have hget := Table.get?_eq_some_iff.2 he'
    rcases h.added e'.1 (contains_of_get? hget) with ⟨x, hx, hname⟩ | hspare
    · obtain ⟨n, hn⟩ := Option.isSome_iff_exists.1 hx
      rcases h.kept x n hn with hkept | ⟨-, hspare⟩
      · rw [hname, hget] at hkept
        rw [Option.some.inj hkept]
        exact hknown (x, n) (Table.get?_eq_some_iff.1 hn)
      · rw [hname] at hspare
        exact (hspare e'.2 hget).1
    · exact (hspare e'.2 hget).1
  · intro hknown e he
    have hget := Table.get?_eq_some_iff.2 he
    rcases h.kept e.1 e.2 hget with hkept | ⟨hspare, -⟩
    · exact hknown (f e.1, e.2.rename f) (Table.get?_eq_some_iff.1 hkept)
    · exact (hspare e.2 hget).1

/-- The nodes that an output depends on correspond to those of the new names. -/
theorem alike (hw : d.pass? pass = some w) :
    Alike types (fun x x' => d.Reaches w x ∧ x' = f x) d d' w (w.rename f) where
  unique := by
    rintro x _ y _ ⟨-, rfl⟩ ⟨-, rfl⟩ hx hy
    exact ⟨congrArg f, fun heq => h.injective (.inl hx) (.inl hy) heq⟩
  reached := by
    rintro x _ ⟨hx, rfl⟩
    exact ⟨hx, h.reaches hw hx⟩
  known := h.known_iff
  outputs o := by
    rw [output?_rename]
    cases ho : w.output? o with
    | none => exact .none
    | some b => exact .some (WrittenBinding.alike_rename fun x hx => ⟨⟨o, b, x, ho, hx, .refl⟩, rfl⟩)
  nodes := by
    rintro x _ ⟨hx, rfl⟩
    cases hn : d.nodes.get? x with
    | none =>
      rw [h.get?_eq_none hw hx hn]
      exact .none
    | some n =>
      rw [h.get?_of_reaches hw hx hn]
      exact .some (WrittenNode.alike_rename fun e he y hy => ⟨hx.refers ⟨n, hn, e, he, hy⟩, rfl⟩)

/-- Names of nodes and spare nodes make no difference to what is written. -/
theorem similar : Similar types d d' where
  name := h.name.symm
  skinMode := h.skinMode.symm
  precision := h.precision.symm
  samplerPrecision := h.samplerPrecision.symm
  passes pass := by
    rw [h.written?_eq]
    cases hw : d.written? pass with
    | none => exact .none
    | some w => exact .some ⟨_, h.alike (Option.filter_eq_some_iff.1 hw).1⟩

end Renames

/-- All nodes under new names. -/
def rename (f : String → String) (d : Document) : Document :=
  { d with
    nodes := Table.ofList (d.nodes.entries.map fun e => (f e.1, e.2.rename f))
    passes := d.passes.map (WrittenPass.rename f) }

/-- Renaming may not let two names fall together. -/
theorem renames_rename {f : String → String} (hf : Set.InjOn f d.names) :
    Renames types f d (d.rename f) where
  name := rfl
  skinMode := rfl
  precision := rfl
  samplerPrecision := rfl
  passes := rfl
  injective := hf
  kept x n hn := by
    have hmem := List.mem_map_of_mem (f := fun e : String × WrittenNode => (f e.1, e.2.rename f))
      (Table.get?_eq_some_iff.1 hn)
    refine .inl (Table.get?_ofList_of_mem hmem fun e he hname => ?_)
    obtain ⟨⟨y, m⟩, hm, rfl⟩ := List.mem_map.1 he
    have hy := Table.get?_eq_some_iff.2 hm
    obtain rfl := hf (.inl (contains_of_get? hy)) (.inl (contains_of_get? hn)) hname
    cases hy.symm.trans hn
    rfl
  added y hy := by
    obtain ⟨n, hn⟩ := Option.isSome_iff_exists.1 hy
    obtain ⟨e, he, heq⟩ := List.mem_map.1 (Table.mem_of_get?_ofList hn)
    exact .inl ⟨e.1, Table.contains_iff.2 ⟨e.2, he⟩, congrArg Prod.fst heq⟩

theorem rename_id (n : WrittenNode) : n.rename id = n := by
  have hinputs : n.inputs.map (WrittenBinding.rename id) = n.inputs := by
    refine Table.ext_get? fun key => ?_
    rw [Table.get?_map]
    cases n.inputs.get? key with
    | none => rfl
    | some b => simp [WrittenBinding.rename]
  rw [WrittenNode.rename, hinputs]

theorem map_rename_id (t : Table WrittenPass) : t.map (WrittenPass.rename id) = t := by
  have hbinding (b : Option WrittenBinding) : b.map (WrittenBinding.rename id) = b := by
    cases b <;> simp [WrittenBinding.rename]
  refine Table.ext_get? fun name => ?_
  rw [Table.get?_map]
  cases t.get? name with
  | none => rfl
  | some w => simp only [Option.map_some, WrittenPass.rename, hbinding]

/-- A node under a name that nothing looks for brings no other node within reach. -/
theorem reaches_of_insert {pass : Pass} {y : String} (hx : x ∉ d.names)
    (hw : d.pass? pass = some w) (hy : Reaches { d with nodes := d.nodes.insert x n } w y) :
    d.Reaches w y := by
  obtain ⟨o, b, a, ho, ha, hpath⟩ := hy
  induction hpath using ReflTransGen.head_induction_on with
  | refl => exact ⟨o, b, a, ho, ha, .refl⟩
  | @head y z hyz _ ih =>
    obtain ⟨m, hm, e, he, href⟩ := hyz
    have hne : z ≠ x := by
      rintro rfl
      exact hx (.inr ⟨pass, w, hw, ih⟩)
    rw [Table.get?_insert, if_neg hne] at hm
    exact ih.refers ⟨m, hm, e, he, href⟩

theorem renames_insert (hx : x ∉ d.names) (ht : ∃ t, types n.type = .ok t) :
    Renames types id d { d with nodes := d.nodes.insert x n } where
  name := rfl
  skinMode := rfl
  precision := rfl
  samplerPrecision := rfl
  passes := (map_rename_id d.passes).symm
  injective := Function.injective_id.injOn
  kept y m hm := by
    have hne : y ≠ x := by
      rintro rfl
      exact hx (.inl (contains_of_get? hm))
    refine .inl ?_
    rw [id, Table.get?_insert, if_neg hne, hm, rename_id]
  added y hy := by
    by_cases heq : y = x
    · subst heq
      refine .inr fun m hm => ⟨?_, fun pass w hw hreaches => ?_⟩
      · rw [Table.get?_insert, if_pos rfl] at hm
        cases hm
        exact ht
      · exact hx (.inr ⟨pass, w, hw, reaches_of_insert hx hw hreaches⟩)
    · rw [Table.contains, Table.get?_insert, if_neg heq] at hy
      exact .inl ⟨y, hy, rfl⟩

theorem renames_erase (hx : d.Spare types x) :
    Renames types id d { d with nodes := d.nodes.erase x } where
  name := rfl
  skinMode := rfl
  precision := rfl
  samplerPrecision := rfl
  passes := (map_rename_id d.passes).symm
  injective := Function.injective_id.injOn
  kept y m hm := by
    by_cases heq : y = x
    · subst heq
      refine .inr ⟨hx, fun n hn => ?_⟩
      rw [id, Table.get?_erase, if_pos rfl] at hn
      cases hn
    · refine .inl ?_
      rw [id, Table.get?_erase, if_neg heq, hm, rename_id]
  added y hy := by
    by_cases heq : y = x
    · rw [Table.contains, Table.get?_erase, if_pos heq] at hy
      cases hy
    · rw [Table.contains, Table.get?_erase, if_neg heq] at hy
      exact .inl ⟨y, hy, rfl⟩

end MaterialGraph.Document
