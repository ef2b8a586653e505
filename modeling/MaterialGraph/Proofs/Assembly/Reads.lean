import MaterialGraph.Assembly.Assemble
import MaterialGraph.Proofs.Failure

/-!
What assembling a stage reads: the fragments of the prelude, and those that lines
of the defines and the prelude include. Assembling succeeds exactly if all of
these are there, and gives the same wherever their texts are the same.
-/

namespace MaterialGraph

/-- Whether there is a text of a name. -/
def Resolver.Has (resolver : Resolver) (kind : ResourceKind) (name : String) : Prop :=
  ∃ text, resolver.resolve kind name = .ok (some text)

/-- Whether another resolver has the texts that one has for some names. -/
def Resolver.KeptBy (needed : ResourceKind → String → Prop) (old new : Resolver) : Prop :=
  ∀ kind name text, needed kind name → old.resolve kind name = .ok (some text) →
    new.resolve kind name = .ok (some text)

namespace Include

/-- Whether a line stands for a fragment of some name. -/
def Names (line : List Char) (name : String) : Prop :=
  target? line = some name ∧ name ≠ materialName

variable {needed : ResourceKind → String → Prop} {old new resolver : Resolver} {stage : Stage}
  {material : String} {line : List Char} {lines : List (List Char)} {e : Expansion}

theorem expandLine_ok_iff (stage : Stage) (material : String) :
    (∃ e, expandLine resolver stage material line = .ok e) ↔
    ∀ name, Names line name → resolver.Has .fragment name := by
  unfold expandLine Names
  cases htarget : target? line with
  | none => simp
  | some name =>
    dsimp only
    split_ifs with hmaterial
    · simp [hmaterial]
    · constructor
      · rintro ⟨e, he⟩ _ ⟨⟨⟩, -⟩
        obtain ⟨found, hfound, he⟩ := Except.bind_eq_ok_iff.1 he
        cases found with
        | none => cases he
        | some text => exact ⟨text, hfound⟩
      · intro h
        obtain ⟨text, htext⟩ := h name ⟨rfl, hmaterial⟩
        exact ⟨_, Except.bind_eq_ok_iff.2 ⟨some text, htext, rfl⟩⟩

theorem expandLines_ok_iff (stage : Stage) (material : String) :
    (∃ e, expandLines resolver stage material lines = .ok e) ↔
    ∀ line ∈ lines, ∀ name, Names line name → resolver.Has .fragment name := by
  induction lines with
  | nil => simp [expandLines]
  | cons line rest ih =>
    rw [List.forall_mem_cons, ← ih, ← expandLine_ok_iff stage material]
    constructor
    · rintro ⟨e, he⟩
      obtain ⟨first, hfirst, he⟩ := Except.bind_eq_ok_iff.1 he
      obtain ⟨others, hothers, -⟩ := Except.bind_eq_ok_iff.1 he
      exact ⟨⟨first, hfirst⟩, others, hothers⟩
    · rintro ⟨⟨first, hfirst⟩, others, hothers⟩
      exact ⟨_, Except.bind_eq_ok_iff.2 ⟨first, hfirst,
        Except.bind_eq_ok_iff.2 ⟨others, hothers, rfl⟩⟩⟩

theorem expandLine_eq_ok (hkept : Resolver.KeptBy needed old new)
    (hneeded : ∀ name, Names line name → needed .fragment name)
    (h : expandLine old stage material line = .ok e) :
    expandLine new stage material line = .ok e := by
  unfold expandLine at h ⊢
  cases htarget : target? line with
  | none =>
    rw [htarget] at h
    exact h
  | some name =>
    rw [htarget] at h
    dsimp only at h ⊢
    split_ifs at h ⊢ with hmaterial
    · exact h
    · obtain ⟨found, hfound, h⟩ := Except.bind_eq_ok_iff.1 h
      cases found with
      | none => cases h
      | some fragment =>
        refine Except.bind_eq_ok_iff.2 ⟨some fragment, ?_, h⟩
        exact hkept _ _ _ (hneeded name ⟨htarget, hmaterial⟩) hfound

theorem expandLines_eq_ok (hkept : Resolver.KeptBy needed old new) :
    ∀ {lines : List (List Char)} {e : Expansion},
      (∀ line ∈ lines, ∀ name, Names line name → needed .fragment name) →
      expandLines old stage material lines = .ok e →
      expandLines new stage material lines = .ok e := by
  intro lines
  induction lines with
  | nil => exact fun _ h => h
  | cons line rest ih =>
    intro e hneeded h
    obtain ⟨first, hfirst, h⟩ := Except.bind_eq_ok_iff.1 h
    obtain ⟨others, hothers, h⟩ := Except.bind_eq_ok_iff.1 h
    refine Except.bind_eq_ok_iff.2 ⟨first, ?_, Except.bind_eq_ok_iff.2 ⟨others, ?_, h⟩⟩
    · exact expandLine_eq_ok hkept (hneeded line List.mem_cons_self) hfirst
    · exact ih (fun l hl => hneeded l (List.mem_cons_of_mem line hl)) hothers

end Include

namespace Assembly

variable {needed : ResourceKind → String → Prop} {old new resolver : Resolver} {config : Config}
  {p : Plan} {text : String} {names : List String}

theorem prelude_ok_iff : (∃ text, prelude resolver names = .ok text) ↔
    ∀ name ∈ names, resolver.Has .fragment name := by
  induction names with
  | nil => simp [prelude]
  | cons name rest ih =>
    rw [List.forall_mem_cons, ← ih]
    constructor
    · rintro ⟨text, h⟩
      obtain ⟨found, hfound, h⟩ := Except.bind_eq_ok_iff.1 h
      cases found with
      | none => cases h
      | some fragment =>
        obtain ⟨others, hothers, -⟩ := Except.bind_eq_ok_iff.1 h
        exact ⟨⟨fragment, hfound⟩, others, hothers⟩
    · rintro ⟨⟨fragment, hfound⟩, others, hothers⟩
      exact ⟨_, Except.bind_eq_ok_iff.2 ⟨some fragment, hfound,
        Except.bind_eq_ok_iff.2 ⟨others, hothers, rfl⟩⟩⟩

theorem prelude_eq_ok (hkept : Resolver.KeptBy needed old new) :
    ∀ {names : List String} {text : String}, (∀ name ∈ names, needed .fragment name) →
      prelude old names = .ok text → prelude new names = .ok text := by
  intro names
  induction names with
  | nil => exact fun _ h => h
  | cons name rest ih =>
    intro text hneeded h
    obtain ⟨found, hfound, h⟩ := Except.bind_eq_ok_iff.1 h
    cases found with
    | none => cases h
    | some fragment =>
      obtain ⟨others, hothers, h⟩ := Except.bind_eq_ok_iff.1 h
      refine Except.bind_eq_ok_iff.2 ⟨some fragment, ?_, Except.bind_eq_ok_iff.2 ⟨others, ?_, h⟩⟩
      · exact hkept _ _ _ (hneeded name List.mem_cons_self) hfound
      · exact ih (fun other hother => hneeded other (List.mem_cons_of_mem name hother)) hothers

/-- Whether assembling a stage reads a fragment. -/
def Reads (config : Config) (texts : Resolver) (p : Plan) (name : String) : Prop :=
  name ∈ config.prelude ∨ ∃ fragments, prelude texts config.prelude = .ok fragments ∧
    ∃ line ∈ Text.lines (p.defineBlock config.gles ++ fragments).toList, Include.Names line name

/-- The text before the optimizer is there exactly if every fragment that is read is. -/
theorem source_ok_iff : (∃ text, source config resolver p = .ok text) ↔
    ∀ name, Reads config resolver p name → resolver.Has .fragment name := by
  constructor
  · rintro ⟨text, h⟩
    obtain ⟨fragments, hfragments, h⟩ := Except.bind_eq_ok_iff.1 h
    obtain ⟨e, he, -⟩ := Except.bind_eq_ok_iff.1 h
    rintro name (hname | ⟨_, hfragments', line, hline, hnames⟩)
    · exact prelude_ok_iff.1 ⟨fragments, hfragments⟩ name hname
    · cases hfragments.symm.trans hfragments'
      exact (Include.expandLines_ok_iff _ _).1 ⟨e, he⟩ line hline name hnames
  · intro h
    obtain ⟨fragments, hfragments⟩ := prelude_ok_iff.2 fun name hname => h name (.inl hname)
    obtain ⟨e, he⟩ := (Include.expandLines_ok_iff p.stage p.materialText).2
      fun line hline name hnames => h name (.inr ⟨fragments, hfragments, line, hline, hnames⟩)
    unfold source
    rw [hfragments]
    simp only [bind, Except.bind, Include.expand, he]
    split <;> exact ⟨_, rfl⟩

theorem source_eq_ok (hkept : Resolver.KeptBy needed old new)
    (hneeded : ∀ name, Reads config new p name → needed .fragment name)
    (h : source config old p = .ok text) : source config new p = .ok text := by
  obtain ⟨fragments, hfragments, h⟩ := Except.bind_eq_ok_iff.1 h
  have hprelude := prelude_eq_ok hkept (fun name hname => hneeded name (.inl hname)) hfragments
  obtain ⟨e, he, h⟩ := Except.bind_eq_ok_iff.1 h
  refine Except.bind_eq_ok_iff.2 ⟨fragments, hprelude, Except.bind_eq_ok_iff.2 ⟨e, ?_, h⟩⟩
  refine Include.expandLines_eq_ok hkept (fun line hline name hnames => ?_) he
  exact hneeded name (.inr ⟨fragments, hprelude, line, hline, hnames⟩)

end Assembly

end MaterialGraph
