import FrameLog.Query
import Mathlib.Data.List.Induction

/-!
# The variables of goals and conditions

Variables are listed at their first appearance, and those of the positive goals are told apart: these
are the ones that an answer binds.
-/

namespace FrameLog

theorem mem_firstAppearances {names : List String} {x : String} :
    x ∈ firstAppearances names ↔ x ∈ names := by
  have hfold : ∀ seen : List String,
      x ∈ names.foldl (fun seen name => if seen.contains name then seen else seen ++ [name]) seen ↔
        x ∈ seen ∨ x ∈ names := by
    induction names with
    | nil => simp
    | cons name names ih =>
        intro seen
        rw [List.foldl_cons, ih]
        split
        · rename_i hmem
          rw [List.contains_iff_mem] at hmem
          constructor
          · exact Or.imp_right (List.mem_cons_of_mem _)
          · rintro (h | h)
            · exact .inl h
            · rcases List.mem_cons.mp h with rfl | h
              · exact .inl hmem
              · exact .inr h
        · simp [or_assoc]
  rw [firstAppearances, hfold []]
  simp

/-! ## Order of appearance -/

/-- The names are those that occur, each once, an earlier occurrence before a later one. -/
structure InOrderOfAppearance (names occurrences : List String) : Prop where
  nodup : names.Nodup
  mem_iff : ∀ x, x ∈ names ↔ x ∈ occurrences
  ordered : names.Pairwise fun x y => occurrences.idxOf x < occurrences.idxOf y

theorem firstAppearances_concat (names : List String) (x : String) :
    firstAppearances (names ++ [x]) =
      if x ∈ names then firstAppearances names else firstAppearances names ++ [x] := by
  rw [firstAppearances, List.foldl_append, List.foldl_cons, List.foldl_nil, ← firstAppearances]
  simp only [List.contains_iff_mem, mem_firstAppearances]

theorem firstAppearances_inOrder (names : List String) :
    InOrderOfAppearance (firstAppearances names) names := by
  refine ⟨?_, fun x => mem_firstAppearances, ?_⟩
  · induction names using List.reverseRecOn with
    | nil => exact .nil
    | append_singleton names x ih =>
        rw [firstAppearances_concat]
        split
        · exact ih
        · rename_i hx
          rw [← mem_firstAppearances] at hx
          exact List.nodup_append.mpr ⟨ih, List.pairwise_singleton _ x, fun y hy z hz heq =>
            hx (List.mem_singleton.mp hz ▸ heq ▸ hy)⟩
  · induction names using List.reverseRecOn with
    | nil => exact .nil
    | append_singleton names x ih =>
        -- what came before keeps its place when a name is added at the end
        have hplace : ∀ y ∈ firstAppearances names,
            (names ++ [x]).idxOf y = names.idxOf y := fun y hy => by
          rw [List.idxOf_append, if_pos (mem_firstAppearances.mp hy)]
        have hkept := ih.imp_of_mem fun {y z} hy hz hlt => by
          rw [← hplace y hy, ← hplace z hz] at hlt
          exact hlt
        rw [firstAppearances_concat]
        split
        · exact hkept
        · rename_i hx
          refine List.pairwise_append.mpr ⟨hkept, List.pairwise_singleton _ x, fun y hy z hz => ?_⟩
          obtain rfl := List.mem_singleton.mp hz
          rw [hplace y hy, List.idxOf_append, if_neg hx]
          have := List.idxOf_lt_length_of_mem (mem_firstAppearances.mp hy)
          omega

theorem firstAppearances_append_right (xs ys : List String) :
    firstAppearances (xs ++ firstAppearances ys) = firstAppearances (xs ++ ys) := by
  induction ys using List.reverseRecOn with
  | nil => rfl
  | append_singleton ys y ih =>
      rw [firstAppearances_concat, ← List.append_assoc, firstAppearances_concat]
      split
      · rename_i hy
        rw [if_pos (List.mem_append_right xs hy), ih]
      · rw [← List.append_assoc, firstAppearances_concat, ih]
        simp only [List.mem_append, mem_firstAppearances]

theorem firstAppearances_append_left (xs ys : List String) :
    firstAppearances (firstAppearances xs ++ ys) = firstAppearances (xs ++ ys) := by
  induction ys using List.reverseRecOn with
  | nil => simpa using firstAppearances_append_right [] xs
  | append_singleton ys y ih =>
      rw [← List.append_assoc, ← List.append_assoc, firstAppearances_concat,
        firstAppearances_concat, ih]
      simp only [List.mem_append, mem_firstAppearances]

/-- Repetitions may be left out of parts of a list first. -/
theorem firstAppearances_flatMap {α : Type} (f : α → List String) (as : List α) :
    firstAppearances (as.flatMap fun a => firstAppearances (f a)) =
      firstAppearances (as.flatMap f) := by
  induction as using List.reverseRecOn with
  | nil => rfl
  | append_singleton as a ih =>
      simp only [List.flatMap_append, List.flatMap_singleton]
      rw [firstAppearances_append_right, ← firstAppearances_append_left, ih,
        firstAppearances_append_left]

/-! ## Goals and conditions -/

/-- The named variables of the goal, as often as they occur. -/
def Goal.names (g : Goal) : List String := g.args.filterMap Term.variableName?

theorem Goal.mem_names_iff {g : Goal} {x : String} : x ∈ g.names ↔ Term.var x ∈ g.args := by
  rw [names, List.mem_filterMap]
  constructor
  · rintro ⟨t, ht, hx⟩
    cases t with
    | var name =>
        cases hx
        exact ht
    | const _ => cases hx
    | anonymous => cases hx
  · intro h
    exact ⟨.var x, h, rfl⟩

theorem Goal.mem_vars_iff {g : Goal} {x : String} : x ∈ g.vars ↔ Term.var x ∈ g.args := by
  rw [vars, mem_firstAppearances]
  exact mem_names_iff

/-- The named variables of the positive conditions, which are those that a join binds. -/
def positiveVars (cs : List Condition) : List String :=
  (cs.filter fun c => !c.negated).flatMap fun c => c.goal.vars

theorem mem_positiveVars_iff {cs : List Condition} {x : String} :
    x ∈ positiveVars cs ↔ ∃ c ∈ cs, c.negated = false ∧ Term.var x ∈ c.goal.args := by
  simp [positiveVars, Goal.mem_vars_iff, and_assoc]

theorem positiveVars_append (cs ds : List Condition) :
    positiveVars (cs ++ ds) = positiveVars cs ++ positiveVars ds := by
  simp [positiveVars]

/-! ## Questions -/

/-- The goals that are not negated, in order. -/
def Question.positiveGoals : Question → List Goal
  | simple g => [g]
  | negated _ => []
  | compound c => (c.conditions.filter fun d => !d.negated).map (·.goal)

theorem Question.mem_positiveGoals_compound {c : Conjunction} {g : Goal} :
    g ∈ (compound c).positiveGoals ↔ ∃ d ∈ c.conditions, d.negated = false ∧ d.goal = g := by
  simp [positiveGoals, and_assoc]

end FrameLog
