import FrameLog.Proofs.Binding.Merging
import FrameLog.Proofs.Variables

/-!
# One step of a join

What a condition makes of one answer, and what dropping repetitions does to a list of answers.
-/

namespace FrameLog

/-! ## Dropping repetitions -/

section

variable {bs acc : List Binding} {b : Binding}

theorem mem_foldl_insertNew (h : b ∈ bs.foldl insertNew acc) : b ∈ acc ∨ b ∈ bs := by
  induction bs generalizing acc with
  | nil => exact .inl h
  | cons c bs ih =>
      rcases ih h with hacc | hbs
      · unfold insertNew at hacc
        split at hacc
        · exact .inl hacc
        · rcases List.mem_append.mp hacc with hacc | hc
          · exact .inl hacc
          · exact .inr (List.mem_singleton.mp hc ▸ List.mem_cons_self)
      · exact .inr (List.mem_cons_of_mem _ hbs)

theorem foldl_insertNew_of_mem (h : b ∈ acc) : b ∈ bs.foldl insertNew acc := by
  induction bs generalizing acc with
  | nil => exact h
  | cons c bs ih =>
      refine ih ?_
      unfold insertNew
      split
      · exact h
      · exact List.mem_append_left _ h

/-- Every binding that agrees with itself is represented in the list without repetitions. -/
theorem exists_agrees_foldl_insertNew (hb : b ∈ bs) (hself : b.agrees b = true) :
    ∃ m ∈ bs.foldl insertNew acc, m.agrees b = true := by
  induction bs generalizing acc with
  | nil => cases hb
  | cons c bs ih =>
      rcases List.mem_cons.mp hb with rfl | hb
      · rw [List.foldl_cons, insertNew]
        split
        · rename_i hany
          obtain ⟨m, hm, hmb⟩ := List.any_eq_true.mp hany
          exact ⟨m, foldl_insertNew_of_mem hm, hmb⟩
        · exact ⟨b, foldl_insertNew_of_mem (by simp), hself⟩
      · exact ih hb

/-- No binding stands behind one that agrees with it. -/
theorem pairwise_foldl_insertNew (h : acc.Pairwise fun a b => a.agrees b = false) :
    (bs.foldl insertNew acc).Pairwise fun a b => a.agrees b = false := by
  induction bs generalizing acc with
  | nil => exact h
  | cons c bs ih =>
      refine ih ?_
      unfold insertNew
      split
      · exact h
      · rename_i hany
        refine List.pairwise_append.mpr ⟨h, List.pairwise_singleton _ _, fun a ha d hd => ?_⟩
        obtain rfl := List.mem_singleton.mp hd
        have hnot : ¬ a.agrees d = true := fun had => hany (List.any_eq_true.mpr ⟨a, ha, had⟩)
        simpa using hnot

end

namespace Condition

variable {c : Condition} {facts : FactBase} {m e : Binding}

theorem extend_eq (c : Condition) (facts : FactBase) (answers : List Binding) :
    c.extend facts answers = (answers.flatMap (c.extensions facts)).foldl insertNew [] := by
  rw [extend, List.foldl_flatMap]

theorem exists_of_mem_extend {answers : List Binding} (he : e ∈ c.extend facts answers) :
    ∃ m ∈ answers, e ∈ c.extensions facts m := by
  rw [extend_eq] at he
  rcases mem_foldl_insertNew he with he | he
  · cases he
  · exact List.mem_flatMap.mp he

/-! ## Extensions -/

theorem mem_extensions_negated (hc : c.negated = true) :
    e ∈ c.extensions facts m ↔ e = m ∧ (c.goal.substitute m).answers facts = [] := by
  by_cases h : (c.goal.substitute m).answers facts = []
  · simp [extensions, hc, Goal.fails, h]
  · simp [extensions, hc, Goal.fails, h]

theorem mem_extensions_positive (hc : c.negated = false) :
    e ∈ c.extensions facts m ↔ ∃ f ∈ facts.facts c.goal.predicate,
      ∃ d, f.match? (c.goal.args.map (·.substitute m)) = some d ∧ m.merge? d = some e := by
  simp only [extensions, hc, Goal.answers, Goal.substitute, Bool.false_eq_true, if_false,
    List.mem_filterMap]
  constructor
  · rintro ⟨d, ⟨f, hf, hd⟩, he⟩
    exact ⟨f, hf, d, hd, he⟩
  · rintro ⟨f, hf, d, hd, he⟩
    exact ⟨d, ⟨f, hf, hd⟩, he⟩

/-- What a match of the substituted goal binds is new, so it merges with the binding that was
substituted. -/
theorem exists_merge?_of_match? {g : Goal} {f : Fact} {d : Binding}
    (h : f.match? (g.args.map (·.substitute m)) = some d) : ∃ e, m.merge? d = some e := by
  have hdisjoint : ∀ x ∈ m.keys, x ∉ d.keys := fun x hm hd => by
    rw [Fact.mem_keys_match? h, Goal.var_mem_substitute_iff, Binding.get?_eq_none_iff] at hd
    exact hd.2 hm
  obtain ⟨e, he, -, -⟩ := Binding.exists_merge?_of_disjoint hdisjoint
  exact ⟨e, he⟩

/-- A positive condition adds its variables and no others. -/
theorem mem_keys_extension (hc : c.negated = false) (he : e ∈ c.extensions facts m) {x : String} :
    x ∈ e.keys ↔ x ∈ m.keys ∨ Term.var x ∈ c.goal.args := by
  obtain ⟨f, -, d, hd, hmd⟩ := (mem_extensions_positive hc).mp he
  have hdx := Fact.mem_keys_match? (x := x) hd
  rw [Goal.var_mem_substitute_iff, Binding.get?_eq_none_iff] at hdx
  have hex : x ∈ e.keys ↔ x ∈ m.keys ∨ x ∈ d.keys := by
    simp only [Binding.mem_keys_iff, Binding.get?_merge? hmd]
    cases m.get? x <;> simp
  rw [hex, hdx]
  by_cases hx : x ∈ m.keys <;> simp [hx]

/-- Every value of an extension was carried or found in a fact of the condition. -/
theorem mem_values_extension (he : e ∈ c.extensions facts m) {v : Value} (hv : v ∈ e.values) :
    v ∈ m.values ∨ ∃ f ∈ facts.facts c.goal.predicate, v ∈ f.values := by
  cases hc : c.negated with
  | true =>
      obtain ⟨rfl, -⟩ := (mem_extensions_negated hc).mp he
      exact .inl hv
  | false =>
      obtain ⟨f, hf, d, hd, hmd⟩ := (mem_extensions_positive hc).mp he
      obtain ⟨x, hx⟩ := Binding.mem_values_iff.mp hv
      rw [Binding.get?_merge? hmd] at hx
      rcases Option.or_eq_some_iff.mp hx with hx | ⟨-, hx⟩
      · exact .inl (Binding.mem_values_iff.mpr ⟨x, hx⟩)
      · exact .inr ⟨f, hf, Fact.get?_match?_mem hd hx⟩

/-- The answers to a first condition are its extensions of the empty binding. -/
theorem answers_eq_extensions (c : Condition) (facts : FactBase) :
    c.answers facts = c.extensions facts .empty := by
  have hmerge : Binding.empty.merge? = some := funext Binding.empty_merge?
  simp [answers, extensions, Goal.negatedAnswers, Goal.substitute_empty, hmerge]

end Condition

end FrameLog
