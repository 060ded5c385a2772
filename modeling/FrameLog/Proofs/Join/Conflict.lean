import FrameLog.Proofs.Join.Extension

/-!
# Joins never meet a conflict

What a goal finds after a binding was put into it is about its other variables, so it always merges
with that binding. This holds for all values, whether they agree with themselves or not. A join in
which conflicts are failures therefore never fails.
-/

namespace FrameLog

/-! ## What is found beside a binding -/

section

variable {facts : FactBase} {g : Goal} {c f : Binding}

/-- A match binds the variables that were not bound before. -/
theorem Goal.mem_keys_of_mem_answers_substitute (h : f ∈ (g.substitute c).answers facts)
    {x : String} : x ∈ f.keys ↔ x ∈ g.vars ∧ x ∉ c.keys := by
  obtain ⟨fact, -, hfact⟩ := List.mem_filterMap.mp h
  rw [Fact.mem_keys_match? hfact, mem_vars_iff, ← Binding.get?_eq_none_iff]
  exact Goal.var_mem_substitute_iff

theorem Goal.exists_merge?_of_mem_answers_substitute (h : f ∈ (g.substitute c).answers facts) :
    ∃ m, c.merge? f = some m ∧ f.merge? c = some m ∧ Binding.IsUnion c f m :=
  Binding.exists_merge?_of_disjoint fun _ hc hf => ((mem_keys_of_mem_answers_substitute h).mp hf).2 hc

end

/-! ## A join in which conflicts are failures -/

/-- The extensions of an answer, unless one of the matches conflicts with it. -/
def Condition.extensions? (c : Condition) (facts : FactBase) (carried : Binding) :
    Option (List Binding) :=
  let goal := c.goal.substitute carried
  if c.negated then some (if goal.fails facts then [carried] else [])
  else (goal.answers facts).mapM carried.merge?

/-- What a condition makes of a list of answers, unless there is a conflict. -/
def Condition.extend? (c : Condition) (facts : FactBase) (answers : List Binding) :
    Option (List Binding) :=
  answers.foldlM (fun next carried => do
    return (← c.extensions? facts carried).foldl insertNew next) []

/-- The answers to a conjunction, unless there is a conflict. -/
def Conjunction.answers? (c : Conjunction) (facts : FactBase) : Option (List Binding) :=
  match c.conditions with
  | [] => some []
  | first :: rest => rest.foldlM (fun answers d => d.extend? facts answers) (first.answers facts)

theorem mapM_eq_some_filterMap {α β : Type} {f : α → Option β} {as : List α}
    (h : ∀ a ∈ as, (f a).isSome) : as.mapM f = some (as.filterMap f) := by
  induction as with
  | nil => rfl
  | cons a as ih =>
      obtain ⟨b, hb⟩ := Option.isSome_iff_exists.mp (h a List.mem_cons_self)
      rw [List.mapM_cons, ih fun d hd => h d (List.mem_cons_of_mem a hd), hb,
        List.filterMap_cons_some hb]
      rfl

/-- No match conflicts with the answer that it extends. -/
theorem Condition.extensions?_eq (c : Condition) (facts : FactBase) (carried : Binding) :
    c.extensions? facts carried = some (c.extensions facts carried) := by
  unfold extensions? extensions
  cases c.negated with
  | true => rfl
  | false =>
      refine mapM_eq_some_filterMap fun f hf => ?_
      obtain ⟨m, hm, -, -⟩ := Goal.exists_merge?_of_mem_answers_substitute hf
      rw [hm, Option.isSome_some]

theorem Condition.extend?_eq (c : Condition) (facts : FactBase) (answers : List Binding) :
    c.extend? facts answers = some (c.extend facts answers) := by
  simp only [extend?, extend, extensions?_eq]
  exact List.foldlM_pure

theorem Conjunction.answers?_eq (c : Conjunction) (facts : FactBase) :
    c.answers? facts = some (c.answers facts) := by
  unfold answers? answers
  match c.conditions with
  | [] => rfl
  | first :: rest =>
      simp only [Condition.extend?_eq]
      exact List.foldlM_pure

/-! ## No conflict -/

/-- What a goal finds after a binding was put into it binds just the variables that the binding left
over. Both therefore merge in either order, and into the union of their entries, which is disjoint. So
no join meets a conflict: one that would fail there has the answers of the plain one. -/
theorem join_without_conflict (facts : FactBase) :
    (∀ (g : Goal) (c f : Binding), f ∈ (g.substitute c).answers facts →
      (∀ x, x ∈ f.keys ↔ x ∈ g.vars ∧ x ∉ c.keys) ∧
      ∃ m, c.merge? f = some m ∧ f.merge? c = some m ∧ Binding.IsUnion c f m) ∧
    ∀ q : Conjunction, q.answers? facts = some (q.answers facts) := by
  refine ⟨fun g c f hf => ⟨fun x => ?_, ?_⟩, fun q => q.answers?_eq facts⟩
  · exact Goal.mem_keys_of_mem_answers_substitute hf
  · exact Goal.exists_merge?_of_mem_answers_substitute hf

/-- A failed frame with a parameter that is no number. -/
def undefinedRatio : FactBase where
  toList :=
    [⟨.status, [.int 1, .atom "error"]⟩,
      ⟨.param, [.int 1, .atom "ratio", .float ⟨0x7ff8000000000000⟩]⟩]
  wellFormed := by decide

/-- The parameters of a frame. -/
def parametersOf : Goal := ⟨.param, [.var "F", .var "N", .var "V"]⟩

/-- The parameters of the frames that failed. -/
def failedParameters : Conjunction where
  conditions := [⟨⟨.status, [.var "F", .const (.atom "error")]⟩, false⟩, ⟨parametersOf, false⟩]

theorem join_without_conflict_undefinedRatio :
    (∃ f m : Binding, f ∈ (parametersOf.substitute (.ofList [("F", .int 1)])).answers undefinedRatio ∧
      "F" ∉ f.keys ∧ "V" ∈ f.keys ∧ (Binding.ofList [("F", .int 1)]).merge? f = some m ∧
      f.merge? (.ofList [("F", .int 1)]) = some m ∧ m.keys = ["F", "N", "V"]) ∧
    failedParameters.answers? undefinedRatio = some [.ofList
      [("F", .int 1), ("N", .atom "ratio"), ("V", .float ⟨0x7ff8000000000000⟩)]] := by
  obtain ⟨hfound, hjoin⟩ := join_without_conflict undefinedRatio
  have hmem : Binding.ofList [("N", .atom "ratio"), ("V", .float ⟨0x7ff8000000000000⟩)] ∈
      (parametersOf.substitute (.ofList [("F", .int 1)])).answers undefinedRatio := by decide +kernel
  obtain ⟨hkeys, m, hleft, hright, -⟩ := hfound _ _ _ hmem
  refine ⟨⟨_, m, hmem, ?_, ?_, hleft, hright, ?_⟩, ?_⟩
  · exact fun h => ((hkeys "F").mp h).2 (by decide)
  · exact (hkeys "V").mpr ⟨by decide, by decide⟩
  · have hm : some m = some (.ofList
        [("F", .int 1), ("N", .atom "ratio"), ("V", .float ⟨0x7ff8000000000000⟩)]) :=
      hleft.symm.trans (by decide +kernel)
    rw [Option.some.inj hm]
    decide
  · rw [hjoin]
    decide +kernel

end FrameLog
