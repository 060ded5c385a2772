import FrameLog.Json.Form
import FrameLog.Proofs.Join.Exact
import FrameLog.Proofs.Join.Plain
import FrameLog.Proofs.Query.Printing

/-! # Where conjunctions come from

Reading a query and building a conjunction from its conditions both see to it that there are two
conditions at least. Decoding JSON does not, and a conjunction of a single condition is answered with
repetitions. -/

namespace FrameLog

/-! ## Answers without repetitions -/

namespace Conjunction

/-- Over facts without floats, no two answers agree. -/
def Distinct (c : Conjunction) : Prop :=
  ∀ facts : FactBase, facts.FloatFree →
    (c.answers facts).Pairwise fun a b => a.agrees b = false ∧ b.agrees a = false

variable {c : Conjunction}

theorem distinct_of_two_le (h : 2 ≤ c.size) : c.Distinct := by
  intro facts hfacts
  refine (pairwise_answers facts h).imp_of_mem fun {a b} ha hb hab => ⟨hab, ?_⟩
  have hfree := c.floatFree_answers hfacts
  rw [← Bool.not_eq_true, (hfree a ha).agrees_iff_eq (hfree b hb)] at hab
  rw [← Bool.not_eq_true, (hfree b hb).agrees_iff_eq (hfree a ha)]
  exact Ne.symm hab

/-- Repetitions come from a single condition that is not negated and that some fact matches: the
fact may be known twice. -/
theorem distinct_iff : c.Distinct ↔ ∀ d, c.conditions = [d] → d.negated = false →
    ∀ f : Fact, f.WellFormed → (∀ v ∈ f.values, v.isFloat = false) →
      f.predicate = d.goal.predicate → f.match? d.goal.args = none := by
  constructor
  · intro hdistinct d hc hneg f hf hfree hp
    by_contra hmatch
    obtain ⟨m, hm⟩ := Option.ne_none_iff_exists'.mp hmatch
    -- nothing keeps a fact from being inserted twice
    let twice : FactBase := ⟨[f, f], by simp [hf]⟩
    have htwice : twice.FloatFree := by simpa [FactBase.FloatFree, twice] using hfree
    have hanswers : c.answers twice = [m, m] := by
      simp [answers, hc, Condition.answers, hneg, Goal.answers, FactBase.facts, twice, hp, hm]
    have hmfree : m.FloatFree := c.floatFree_answers htwice m (by simp [hanswers])
    have hpair := hdistinct twice htwice
    rw [hanswers] at hpair
    have hself : m.agrees m = false := (List.rel_of_pairwise_cons hpair (by simp)).1
    rw [(hmfree.agrees_iff_eq hmfree).mpr rfl] at hself
    cases hself
  · intro h
    rcases hc : c.conditions with - | ⟨d, - | ⟨e, ds⟩⟩
    · exact fun facts _ => by simp [answers, hc]
    · intro facts hfacts
      cases hneg : d.negated with
      | true =>
          simp only [answers, hc, List.foldl_nil, Condition.answers, hneg, Goal.negatedAnswers, if_true]
          split
          · exact List.pairwise_singleton _ _
          · exact .nil
      | false =>
          have hnone : d.goal.answers facts = [] := by
            refine List.filterMap_eq_nil_iff.mpr fun f hf => ?_
            obtain ⟨hf, hp⟩ := List.mem_filter.mp hf
            exact h d hc hneg f (facts.wellFormed f hf) (hfacts f hf) (beq_iff_eq.mp hp)
          simp [answers, hc, Condition.answers, hneg, hnone]
    · exact distinct_of_two_le (by simp [size, hc])

/-- The conjunction is of two conditions or more, so that none of its answers is repeated. -/
structure Proper (c : Conjunction) : Prop where
  two_le_size : 2 ≤ c.size
  nonempty : c.conditions.isEmpty = false
  distinct : c.Distinct

theorem proper_iff : c.Proper ↔ 2 ≤ c.size := by
  refine ⟨fun h => h.two_le_size, fun h => ⟨h, ?_, distinct_of_two_le h⟩⟩
  rw [List.isEmpty_eq_false_iff]
  intro hnil
  simp [size, hnil] at h

theorem two_le_of_ofList? {cs : List Condition} (h : ofList? cs = some c) : 2 ≤ c.size := by
  unfold ofList? at h
  split at h
  · cases h
  · rename_i hlen
    cases h
    exact Nat.le_of_not_lt hlen

end Conjunction

/-! ## Queries that come into being -/

/-- The ways to a query: a text is read, the query is put together from its parts, or JSON is
decoded. -/
inductive Query.Obtained : Query → Prop
  | read {v s q} (h : Query.read v s = .ok q) : Obtained q
  | simple {source g} : Obtained ⟨source, .simple g⟩
  | negated {source g} : Obtained ⟨source, .negated g⟩
  | compound {source cs c} (h : Conjunction.ofList? cs = some c) : Obtained ⟨source, .compound c⟩
  | decoded {text q} (h : Json.decode? Query text = some q) : Obtained q

/-- A conjunction that comes into being has all the properties that it should have as soon as it is
of two conditions; shorter ones come from JSON only. The shorter ones without repetitions are those
that are empty, negated, or not matched by any fact. -/
theorem Query.Obtained.conjunction_proper_iff {q : Query} (hq : q.Obtained) {c : Conjunction}
    (hc : q.question = .compound c) :
    (c.Proper ↔ 2 ≤ c.size) ∧
    (c.Proper ∨ ∃ text, Json.decode? Query text = some q) ∧
    (c.Distinct ↔ ∀ d, c.conditions = [d] → d.negated = false →
      ∀ f : Fact, f.WellFormed → (∀ v ∈ f.values, v.isFloat = false) →
        f.predicate = d.goal.predicate → f.match? d.goal.args = none) := by
  refine ⟨Conjunction.proper_iff, ?_, Conjunction.distinct_iff⟩
  cases hq with
  | read h =>
      have hshaped := (Query.derives_of_read h).2.shaped
      rw [hc] at hshaped
      exact .inl (Conjunction.proper_iff.mpr hshaped.1)
  | simple => cases hc
  | negated => cases hc
  | compound h =>
      cases hc
      exact .inl (Conjunction.proper_iff.mpr (Conjunction.two_le_of_ofList? h))
  | decoded h => exact .inr ⟨_, h⟩

theorem conjunction_proper_iff_failedLeaves :
    (⟨failedLeaves.text, failedLeaves⟩ : Query).Obtained ∧
    ∃ c, failedLeaves = .compound c ∧ c.Proper := by
  have hread : Query.read .full failedLeaves.text = .ok ⟨failedLeaves.text, failedLeaves⟩ :=
    failedLeaves_wellFormed.read_text
  obtain ⟨hproper, -, -⟩ := Query.Obtained.conjunction_proper_iff (.read hread) rfl
  exact ⟨.read hread, _, rfl, hproper.mpr (by decide)⟩

/-- Which statuses are there? -/
def statuses : Conjunction := ⟨[⟨⟨.status, [.anonymous, .var "S"]⟩, false⟩]⟩

/-- That question in JSON, as a conjunction of one condition. -/
def statusesText : String :=
  "\x7b\"source\":\"\",\"kind\":\x7b\"Compound\":\x7b\"conditions\":[\x7b\"goal\":\x7b" ++
    "\"predicate\":\"status\",\"args\":[\"Anonymous\",\x7b\"Variable\":\"S\"\x7d]\x7d," ++
    "\"negated\":false\x7d]\x7d\x7d\x7d"

/-- A conjunction of no conditions in JSON. -/
def nothingText : String :=
  "\x7b\"source\":\"\",\"kind\":\x7b\"Compound\":\x7b\"conditions\":[]\x7d\x7d\x7d"

/-- Two frames are active. -/
def twoActive : FactBase where
  toList := [⟨.status, [.int 1, .atom "active"]⟩, ⟨.status, [.int 2, .atom "active"]⟩]
  wellFormed := by decide

theorem improper_decoded :
    Json.decode? Query statusesText = some ⟨"", .compound statuses⟩ ∧ statuses.size = 1 ∧
    twoActive.FloatFree ∧
    statuses.answers twoActive = [.ofList [("S", .atom "active")], .ofList [("S", .atom "active")]] ∧
    Json.decode? Query nothingText = some ⟨"", .compound ⟨[]⟩⟩ ∧
    (⟨[]⟩ : Conjunction).conditions.isEmpty = true ∧
    ¬ ∀ q : Query, q.Obtained → ∀ c, q.question = .compound c → c.Proper := by
  have hstatuses : Json.decode? Query statusesText = some ⟨"", .compound statuses⟩ := by
    decide +kernel
  have hnothing : Json.decode? Query nothingText = some ⟨"", .compound ⟨[]⟩⟩ := by decide +kernel
  refine ⟨hstatuses, rfl, by decide, by decide, hnothing, rfl, fun h => ?_⟩
  exact absurd (h _ (.decoded hstatuses) statuses rfl).two_le_size (by decide)

end FrameLog
