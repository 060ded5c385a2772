import FrameLog.Proofs.Distinct
import FrameLog.Proofs.Join.Extension

/-!
# The join without early pruning

A join may drop repetitions after every condition or only once at the end. As long as agreement of
the values found is identity, both give the same list: the same answers in the same order.
-/

namespace FrameLog

/-! ## The plain join -/

/-- What a condition makes of a list of answers when repetitions are kept: a positive one puts the
extensions of an answer in its place, a negated one drops the answers under which its goal has a
match. -/
def Condition.plainExtend (c : Condition) (facts : FactBase) (carried : List Binding) :
    List Binding :=
  if c.negated then carried.filter fun m => (c.goal.substitute m).fails facts
  else carried.flatMap fun m => ((c.goal.substitute m).answers facts).filterMap m.merge?

/-- The answers by nested loops over all conditions, starting from the empty binding; at the end the
first occurrence of each is kept. -/
def Conjunction.plainAnswers (c : Conjunction) (facts : FactBase) : List Binding :=
  (c.conditions.foldl (fun carried d => d.plainExtend facts carried) [.empty]).eraseDups

/-- No fact holds a floating-point number. -/
def FactBase.FloatFree (b : FactBase) : Prop := ∀ f ∈ b.toList, ∀ v ∈ f.values, v.isFloat = false

instance (b : FactBase) : Decidable b.FloatFree :=
  inferInstanceAs (Decidable (∀ f ∈ b.toList, ∀ v ∈ f.values, v.isFloat = false))

theorem Condition.plainExtend_eq (c : Condition) (facts : FactBase) (carried : List Binding) :
    c.plainExtend facts carried = carried.flatMap (c.extensions facts) := by
  unfold plainExtend
  split
  · rename_i hc
    induction carried with
    | nil => rfl
    | cons m carried ih =>
        rw [List.filter_cons, ih, List.flatMap_cons, extensions, if_pos hc]
        split <;> rfl
  · rename_i hc
    refine List.flatMap_congr fun m _ => ?_
    rw [extensions, if_neg hc]

/-! ## The two joins side by side -/

/-- Dropping bindings that agree with an earlier one is keeping the first of those that are equal. -/
theorem foldl_insertNew_eq_eraseDups {bs : List Binding} (h : ∀ b ∈ bs, b.FloatFree) :
    bs.foldl insertNew [] = bs.eraseDups := by
  induction bs using List.reverseRecOn with
  | nil => rfl
  | append_singleton bs b ih =>
      have hbs : ∀ a ∈ bs, a.FloatFree := fun a ha => h a (List.mem_append_left _ ha)
      have hb : b.FloatFree := h b (by simp)
      have hany : bs.eraseDups.any (·.agrees b) = true ↔ b ∈ bs := by
        rw [List.any_eq_true]
        constructor
        · rintro ⟨a, ha, hab⟩
          rw [List.mem_eraseDups] at ha
          exact ((hbs a ha).agrees_iff_eq hb).mp hab ▸ ha
        · intro hmem
          exact ⟨b, List.mem_eraseDups.mpr hmem, (hb.agrees_iff_eq hb).mpr rfl⟩
      rw [List.foldl_concat, ih hbs, insertNew, eraseDups_concat]
      simp only [hany]

section

variable {facts : FactBase} {answers carried : List Binding}

theorem Condition.floatFree_plainExtend (c : Condition) (hfacts : facts.FloatFree)
    (hcarried : ∀ m ∈ carried, m.FloatFree) : ∀ e ∈ c.plainExtend facts carried, e.FloatFree := by
  intro e he v hv
  rw [Condition.plainExtend_eq] at he
  obtain ⟨m, hm, hem⟩ := List.mem_flatMap.mp he
  rcases Condition.mem_values_extension hem hv with hv | ⟨f, hf, hv⟩
  · exact hcarried m hm v hv
  · exact hfacts f (List.mem_filter.mp hf).1 v hv

/-- One condition keeps the two joins together: it does not matter which of the repetitions so far
the answers have kept. -/
theorem Condition.extend_eq_eraseDups (c : Condition) (hfacts : facts.FloatFree)
    (hcarried : ∀ m ∈ carried, m.FloatFree) (h : answers.eraseDups = carried.eraseDups) :
    c.extend facts answers = (c.plainExtend facts carried).eraseDups := by
  have hanswers : ∀ m ∈ answers, m.FloatFree := fun m hm => by
    rw [← List.mem_eraseDups, h, List.mem_eraseDups] at hm
    exact hcarried m hm
  have hfree := c.floatFree_plainExtend hfacts hanswers
  calc c.extend facts answers
      = (answers.flatMap (c.extensions facts)).foldl insertNew [] := c.extend_eq facts answers
    _ = (answers.flatMap (c.extensions facts)).eraseDups :=
        foldl_insertNew_eq_eraseDups (c.plainExtend_eq facts answers ▸ hfree)
    _ = (carried.flatMap (c.extensions facts)).eraseDups := by
        rw [← eraseDups_flatMap_eraseDups, h, eraseDups_flatMap_eraseDups]
    _ = (c.plainExtend facts carried).eraseDups := by rw [c.plainExtend_eq]

theorem Condition.mem_extend_iff (c : Condition) (hfacts : facts.FloatFree)
    (hanswers : ∀ m ∈ answers, m.FloatFree) {e : Binding} :
    e ∈ c.extend facts answers ↔ ∃ m ∈ answers, e ∈ c.extensions facts m := by
  rw [c.extend_eq_eraseDups hfacts hanswers rfl, List.mem_eraseDups, c.plainExtend_eq,
    List.mem_flatMap]

theorem Condition.floatFree_extend (c : Condition) (hfacts : facts.FloatFree)
    (hanswers : ∀ m ∈ answers, m.FloatFree) : ∀ e ∈ c.extend facts answers, e.FloatFree := by
  intro e he
  rw [c.extend_eq_eraseDups hfacts hanswers rfl, List.mem_eraseDups] at he
  exact c.floatFree_plainExtend hfacts hanswers e he

theorem Condition.floatFree_answers (c : Condition) (hfacts : facts.FloatFree) :
    ∀ e ∈ c.answers facts, e.FloatFree := by
  have hfree := c.floatFree_plainExtend hfacts (List.forall_mem_singleton.mpr Binding.floatFree_empty)
  rwa [c.plainExtend_eq, List.flatMap_singleton, ← c.answers_eq_extensions] at hfree

theorem floatFree_foldl_extend (ds : List Condition) (hfacts : facts.FloatFree)
    (hanswers : ∀ m ∈ answers, m.FloatFree) :
    ∀ e ∈ ds.foldl (fun answers d => d.extend facts answers) answers, e.FloatFree := by
  induction ds generalizing answers with
  | nil => exact hanswers
  | cons d ds ih => exact ih (d.floatFree_extend hfacts hanswers)

theorem Conjunction.floatFree_answers (c : Conjunction) (hfacts : facts.FloatFree) :
    ∀ m ∈ c.answers facts, m.FloatFree := by
  unfold answers
  match c.conditions with
  | [] => simp
  | first :: rest => exact floatFree_foldl_extend rest hfacts (first.floatFree_answers hfacts)

theorem foldl_extend_eq_eraseDups (ds : List Condition) (hfacts : facts.FloatFree)
    (hcarried : ∀ m ∈ carried, m.FloatFree) (h : answers = carried.eraseDups) :
    ds.foldl (fun answers d => d.extend facts answers) answers =
      (ds.foldl (fun carried d => d.plainExtend facts carried) carried).eraseDups := by
  induction ds generalizing answers carried with
  | nil => exact h
  | cons d ds ih =>
      refine ih (d.floatFree_plainExtend hfacts hcarried) ?_
      exact d.extend_eq_eraseDups hfacts hcarried (by rw [h, eraseDups_eraseDups])

end

/-- Over facts without floats, a conjunction of two conditions or more has the answers of the plain
join, in the same order. The constants of the conjunction may be floats. -/
theorem Conjunction.answers_eq_plainAnswers (c : Conjunction) (facts : FactBase)
    (hsize : 2 ≤ c.size) (hfacts : facts.FloatFree) : c.answers facts = c.plainAnswers facts := by
  unfold answers plainAnswers
  match hc : c.conditions with
  | [] => simp [size, hc] at hsize
  | [_] => simp [size, hc] at hsize
  | first :: second :: rest =>
      have hempty : ∀ m ∈ [Binding.empty], m.FloatFree :=
        List.forall_mem_singleton.mpr Binding.floatFree_empty
      have hfirst : first.answers facts = first.plainExtend facts [.empty] := by
        rw [first.answers_eq_extensions, first.plainExtend_eq, List.flatMap_singleton]
      have hcarried := first.floatFree_plainExtend hfacts hempty
      simp only [List.foldl_cons, hfirst]
      -- the first condition leaves its repetitions, which the second one takes away
      refine foldl_extend_eq_eraseDups rest hfacts
        (second.floatFree_plainExtend hfacts hcarried) ?_
      exact second.extend_eq_eraseDups hfacts hcarried rfl

/-- Frame 1, which is active, called two frames; one of them is active and calls nothing. -/
def busyTrace : FactBase where
  toList :=
    [⟨.calls, [.int 1, .int 2]⟩, ⟨.calls, [.int 1, .int 3]⟩, ⟨.status, [.int 1, .atom "active"]⟩,
      ⟨.status, [.int 2, .atom "active"]⟩, ⟨.status, [.int 3, .atom "error"]⟩]
  wellFormed := by decide

/-- `X` called something, and `S` is a status that some frame `Y` without calls has. -/
def callerAndLeafStatus : Conjunction where
  conditions :=
    [⟨⟨.calls, [.var "X", .anonymous]⟩, false⟩, ⟨⟨.status, [.var "Y", .var "S"]⟩, false⟩,
      ⟨⟨.calls, [.var "Y", .anonymous]⟩, true⟩]

theorem answers_eq_plainAnswers_busyTrace :
    2 ≤ callerAndLeafStatus.size ∧ busyTrace.FloatFree ∧
    callerAndLeafStatus.answers busyTrace = callerAndLeafStatus.plainAnswers busyTrace ∧
    callerAndLeafStatus.plainAnswers busyTrace =
      [.ofList [("X", .int 1), ("Y", .int 2), ("S", .atom "active")],
        .ofList [("X", .int 1), ("Y", .int 3), ("S", .atom "error")]] := by
  have hsize : 2 ≤ callerAndLeafStatus.size := by decide
  have hfacts : busyTrace.FloatFree := by decide
  have heq := Conjunction.answers_eq_plainAnswers callerAndLeafStatus busyTrace hsize hfacts
  refine ⟨hsize, hfacts, heq, ?_⟩
  rw [← heq]
  decide

end FrameLog
