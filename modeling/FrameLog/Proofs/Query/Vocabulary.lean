import FrameLog.Proofs.Query.Reading
import Mathlib.Data.List.Destutter
import Mathlib.Data.List.Sort
import Mathlib.Data.String.Basic

/-! # Smaller vocabularies

A vocabulary only filters. It takes no part in any rule but the one on predicates, and that rule has
the leftmost predicate outside the vocabulary reported. -/

namespace FrameLog
open Text

variable {v : Vocabulary} {cs : List Char}

/-! ## Names -/

theorem Vocabulary.mem_names_iff {name : String} :
    name ∈ v.names ↔ ∃ p, v.accepts p = true ∧ p.name = name := by
  simp only [names, toList, List.mem_map, List.mem_filter]
  constructor
  · rintro ⟨p, ⟨-, hp⟩, hname⟩
    exact ⟨p, hp, hname⟩
  · rintro ⟨p, hp, hname⟩
    exact ⟨p, ⟨Named.mem_all p, hp⟩, hname⟩

theorem Vocabulary.pairwise_names (v : Vocabulary) : v.names.Pairwise (· < ·) := by
  have hall : ((Named.all : List Predicate).map Predicate.name).Pairwise (· < ·) := by decide
  exact hall.sublist (List.filter_sublist.map Predicate.name)

theorem mem_destutter'_ne_iff {α : Type} [DecidableEq α] {a b : α} {as : List α} :
    b ∈ as.destutter' (· ≠ ·) a ↔ b ∈ a :: as := by
  induction as generalizing a with
  | nil => rfl
  | cons c as ih =>
      rw [List.destutter'_cons]
      split
      · rw [List.mem_cons, ih, List.mem_cons (b := a)]
      · rename_i h
        obtain rfl := not_not.mp h
        simp [ih]

/-- A list in ascending order is strictly ascending without the repeats that stand side by side. -/
theorem pairwise_lt_destutter'_ne {α : Type} [LinearOrder α] {a : α} {as : List α}
    (h : (a :: as).Pairwise (· ≤ ·)) : (as.destutter' (· ≠ ·) a).Pairwise (· < ·) := by
  induction as generalizing a with
  | nil => exact List.pairwise_singleton _ a
  | cons c as ih =>
      obtain ⟨ha, hrest⟩ := List.pairwise_cons.mp h
      rw [List.destutter'_cons]
      split
      · rename_i hne
        refine List.pairwise_cons.mpr ⟨fun b hb => ?_, ih hrest⟩
        have hac : a < c := lt_of_le_of_ne (ha c List.mem_cons_self) hne
        rcases List.mem_cons.mp (mem_destutter'_ne_iff.mp hb) with rfl | hb
        · exact hac
        · exact hac.trans_le ((List.pairwise_cons.mp hrest).1 b hb)
      · rename_i heq
        obtain rfl := not_not.mp heq
        exact ih hrest

/-- The names of the vocabulary of some predicates are theirs in ascending order, without repeats. -/
theorem Vocabulary.names_ofList (ps : List Predicate) :
    (ofList ps).names = (ps.map Predicate.name).mergeSort.destutter (· ≠ ·) := by
  have hsorted : (ps.map Predicate.name).mergeSort.Pairwise (· ≤ ·) := List.pairwise_mergeSort' _ _
  have hmem : ∀ name, name ∈ (ofList ps).names ↔ name ∈ (ps.map Predicate.name).mergeSort := by
    intro name
    simp [mem_names_iff, ofList]
  cases hnames : (ps.map Predicate.name).mergeSort with
  | nil =>
      rw [hnames] at hmem
      exact List.eq_nil_iff_forall_not_mem.mpr fun name h => by simpa using (hmem name).mp h
  | cons first rest =>
      rw [hnames] at hsorted hmem
      rw [List.destutter_cons']
      exact (pairwise_names _).eq_of_mem_iff (pairwise_lt_destutter'_ne hsorted)
        fun name => (hmem name).trans mem_destutter'_ne_iff.symm

/-! ## Texts -/

theorem GoalText.iff_full {g : Goal} :
    GoalText v cs g ↔ GoalText .full cs g ∧ v.accepts g.predicate = true := by
  constructor
  · rintro ⟨hp, h₁, h₂, h₃, hargs⟩
    exact ⟨.mk rfl h₁ h₂ h₃ hargs, hp⟩
  · rintro ⟨⟨-, h₁, h₂, h₃, hargs⟩, hp⟩
    exact .mk hp h₁ h₂ h₃ hargs

theorem ConditionText.iff_full {c : Condition} :
    ConditionText v cs c ↔ ConditionText .full cs c ∧ v.accepts c.goal.predicate = true := by
  constructor
  · intro h
    cases h with
    | positive h => exact ⟨.positive (GoalText.iff_full.mp h).1, (GoalText.iff_full.mp h).2⟩
    | negated hw h => exact ⟨.negated hw (GoalText.iff_full.mp h).1, (GoalText.iff_full.mp h).2⟩
  · rintro ⟨h, hp⟩
    cases h with
    | positive h => exact .positive (GoalText.iff_full.mpr ⟨h, hp⟩)
    | negated hw h => exact .negated hw (GoalText.iff_full.mpr ⟨h, hp⟩)

theorem Separated.and_iff {α : Type} {Item : List Char → α → Prop} {P : α → Prop} {as : List α} :
    Separated (fun cs a => Item cs a ∧ P a) cs as ↔ Separated Item cs as ∧ ∀ a ∈ as, P a := by
  constructor
  · intro h
    induction h with
    | one h => exact ⟨.one h.1, List.forall_mem_singleton.mpr h.2⟩
    | more h hw hw' _ ih => exact ⟨.more h.1 hw hw' ih.1, List.forall_mem_cons.mpr ⟨h.2, ih.2⟩⟩
  · rintro ⟨h, hall⟩
    induction h with
    | one h => exact .one ⟨h, List.forall_mem_singleton.mp hall⟩
    | more h hw hw' _ ih =>
        obtain ⟨hfirst, hrest⟩ := List.forall_mem_cons.mp hall
        exact .more ⟨h, hfirst⟩ hw hw' (ih hrest)

theorem separated_conditions_iff_full {ds : List Condition} :
    Separated (ConditionText v) cs ds ↔
      Separated (ConditionText .full) cs ds ∧ ∀ d ∈ ds, v.accepts d.goal.predicate = true := by
  have hitem : ConditionText v =
      fun cs d => ConditionText .full cs d ∧ v.accepts d.goal.predicate = true :=
    funext fun _ => funext fun _ => propext ConditionText.iff_full
  rw [hitem, Separated.and_iff]

theorem BodyText.iff_full {k : Question} :
    BodyText v cs k ↔ BodyText .full cs k ∧ ∀ p ∈ k.predicates, v.accepts p = true := by
  constructor
  · intro h
    cases h with
    | negated hw h =>
        obtain ⟨h, hp⟩ := GoalText.iff_full.mp h
        exact ⟨.negated hw h, List.forall_mem_singleton.mpr hp⟩
    | simple h =>
        obtain ⟨h, hp⟩ := GoalText.iff_full.mp h
        exact ⟨.simple h, List.forall_mem_singleton.mpr hp⟩
    | compound h hw hw' hrest =>
        obtain ⟨h, hp⟩ := GoalText.iff_full.mp h
        obtain ⟨hrest, hps⟩ := separated_conditions_iff_full.mp hrest
        exact ⟨.compound h hw hw' hrest,
          List.forall_mem_cons.mpr ⟨hp, List.forall_mem_map.mpr hps⟩⟩
  · rintro ⟨h, hps⟩
    cases h with
    | negated hw h =>
        exact .negated hw (GoalText.iff_full.mpr ⟨h, hps _ List.mem_cons_self⟩)
    | simple h => exact .simple (GoalText.iff_full.mpr ⟨h, hps _ List.mem_cons_self⟩)
    | compound h hw hw' hrest =>
        obtain ⟨hp, hps⟩ := List.forall_mem_cons.mp hps
        exact .compound (GoalText.iff_full.mpr ⟨h, hp⟩) hw hw'
          (separated_conditions_iff_full.mpr ⟨hrest, List.forall_mem_map.mp hps⟩)

theorem QueryText.iff_full {k : Question} :
    QueryText v cs k ↔ QueryText .full cs k ∧ ∀ p ∈ k.predicates, v.accepts p = true := by
  constructor
  · rintro ⟨hw, hw', h⟩
    exact ⟨.mk hw hw' (BodyText.iff_full.mp h).1, (BodyText.iff_full.mp h).2⟩
  · rintro ⟨⟨hw, hw', h⟩, hps⟩
    exact .mk hw hw' (BodyText.iff_full.mpr ⟨h, hps⟩)

theorem Query.read_eq_ok_iff_full {s : String} {q : Query} :
    Query.read v s = .ok q ↔
      Query.read .full s = .ok q ∧ ∀ p ∈ q.question.predicates, v.accepts p = true := by
  obtain ⟨source, k⟩ := q
  constructor
  · intro h
    obtain ⟨rfl, hk⟩ := Query.derives_of_read h
    obtain ⟨hk, hps⟩ := QueryText.iff_full.mp hk
    exact ⟨Query.read_of_derives hk, hps⟩
  · rintro ⟨h, hps⟩
    obtain ⟨rfl, hk⟩ := Query.derives_of_read h
    exact Query.read_of_derives (QueryText.iff_full.mpr ⟨hk, hps⟩)

/-! ## Faults

A text that is a query over the full vocabulary has no other fault than a predicate outside the
smaller one. -/

/-- What is reported about a predicate outside the vocabulary. -/
def Vocabulary.unknown (v : Vocabulary) (p : Predicate) : QueryError :=
  .unknownPredicate p.name v.names

/-- How a fault in a goal of the question is reported; the goals are counted from zero. -/
def Question.faultAt (k : Question) (i : Nat) (cause : QueryError) : QueryError :=
  match k with
  | simple _ => cause
  | negated _ => .inNegation cause
  | compound _ => .inCondition (i + 1) cause

theorem Question.root_faultAt (k : Question) (i : Nat) (p : Predicate) :
    (k.faultAt i (v.unknown p)).root = v.unknown p := by
  cases k <;> rfl

theorem Goal.readPredicate_unknown {p : Predicate} (hp : v.accepts p = false)
    (h : Goal.readPredicate .full cs = .ok p) : Goal.readPredicate v cs = .error (v.unknown p) := by
  obtain ⟨rfl, -⟩ := Goal.readPredicate_eq_ok_iff.mp h
  have hfind : Named.find? p.name = some p := Named.find?_name p
  have hresolve : v.resolve? p.name = none := by
    rw [Vocabulary.resolve?, hfind, Option.filter_some, hp]
    rfl
  simp only [Goal.readPredicate, p.isEmpty_name, p.isAtomToken_name, String.ofList_toList, hresolve,
    Bool.false_eq_true, Bool.not_true, if_false]
  rfl

theorem Goal.read_unknown {g : Goal} (hp : v.accepts g.predicate = false)
    (h : Goal.read .full cs = .ok g) : Goal.read v cs = .error (v.unknown g.predicate) := by
  have hopen : '(' ∈ cs := by
    obtain ⟨before, interior, after, rfl, -⟩ := Goal.exists_parts h
    simp
  obtain ⟨before, inside, rfl, hbefore⟩ := List.eq_append_cons_of_mem hopen
  obtain ⟨hname, -, -, hclose, -⟩ := (Goal.read_append_cons hbefore).mp h
  have hmem : ')' ∈ inside := List.count_pos_iff.mp (by omega)
  unfold Goal.read
  rw [span_append_cons hbefore]
  simp only
  -- only the rule on missing parentheses comes before that on predicates
  rw [if_neg (by simp [hmem]), Goal.readPredicate_unknown hp hname]
  rfl

theorem Condition.read_unknown {c : Condition} (hp : v.accepts c.goal.predicate = false)
    (h : Condition.read .full cs = .ok c) :
    Condition.read v cs = .error (v.unknown c.goal.predicate) := by
  unfold Condition.read at h ⊢
  split at h
  · cases h
  · rename_i hempty
    rw [if_neg hempty]
    split at h
    · simp only [bind_eq_ok_iff, pure_eq_ok_iff] at h
      obtain ⟨g, hg, rfl⟩ := h
      simp only [Goal.read_unknown hp hg]
      rfl
    · cases h
    · simp only [bind_eq_ok_iff, pure_eq_ok_iff] at h
      obtain ⟨g, hg, rfl⟩ := h
      simp only [Goal.read_unknown hp hg]
      rfl

section

variable {p : Predicate} {ps rest : List Predicate}

/-- The conditions before the faulty one are read, and those after it are not looked at. -/
theorem Conjunction.mapM_read_unknown {segments : List (List Char)} {ds : List Condition} (n : Nat)
    (hds : List.Forall₂ (fun s d => ConditionText .full (trim s) d) segments ds)
    (hpreds : ds.map (·.goal.predicate) = ps ++ p :: rest)
    (hps : ∀ p' ∈ ps, v.accepts p' = true) (hp : v.accepts p = false) :
    ((segments.zipIdx n).mapM fun (segment, position) =>
        (Condition.read v (trim segment)).mapError (QueryError.inCondition position)) =
      .error (.inCondition (n + ps.length) (v.unknown p)) := by
  induction ps generalizing segments ds n with
  | nil =>
      obtain ⟨d, ds, rfl, rfl, -⟩ := List.map_eq_cons_iff.mp hpreds
      cases hds with
      | cons hd _ =>
          rw [List.zipIdx_cons, List.mapM_cons]
          simp only [Condition.read_unknown hp (Condition.read_eq_ok_iff.mpr hd)]
          rfl
  | cons p' ps ih =>
      obtain ⟨d, ds, rfl, rfl, htail⟩ := List.map_eq_cons_iff.mp hpreds
      obtain ⟨hp', hps⟩ := List.forall_mem_cons.mp hps
      cases hds with
      | cons hd hds =>
          have hread := Condition.read_eq_ok_iff.mpr (ConditionText.iff_full.mpr ⟨hd, hp'⟩)
          rw [List.zipIdx_cons, List.mapM_cons]
          simp only [hread, ih (n + 1) hds htail hps, List.length_cons, Nat.add_right_comm n 1,
            ← Nat.add_assoc]
          rfl

theorem Question.read_unknown {k : Question} (hpreds : k.predicates = ps ++ p :: rest)
    (hps : ∀ p' ∈ ps, v.accepts p' = true) (hp : v.accepts p = false)
    (h : Question.read .full cs = .ok k) :
    Question.read v cs = .error (k.faultAt ps.length (v.unknown p)) := by
  have honly : ∀ {g : Goal}, [g.predicate] = ps ++ p :: rest → ps = [] ∧ g.predicate = p := by
    intro g hg
    cases ps with
    | nil => exact ⟨rfl, (List.cons.inj hg).1⟩
    | cons => simp at hg
  unfold Question.read at h ⊢
  -- the shape is decided by the text alone, so both readings take the same branch
  split at h
  · cases h
  · rename_i hempty
    rw [if_neg hempty]
    split at h
    · cases h
    · simp only [bind_eq_ok_iff, pure_eq_ok_iff, mapError_eq_ok_iff] at h
      obtain ⟨g, hg, rfl⟩ := h
      obtain ⟨rfl, rfl⟩ := honly hpreds
      simp only [Goal.read_unknown hp hg]
      rfl
    · split at h
      · simp only [bind_eq_ok_iff, pure_eq_ok_iff] at h
        obtain ⟨g, hg, rfl⟩ := h
        obtain ⟨rfl, rfl⟩ := honly hpreds
        simp only [Goal.read_unknown hp hg]
        rfl
      · simp only [bind_eq_ok_iff, pure_eq_ok_iff, Conjunction.read_eq_ok_iff] at h
        obtain ⟨c, hc, rfl⟩ := h
        have hfault := Conjunction.mapM_read_unknown 1 hc hpreds hps hp
        simp only [Conjunction.read, hfault, Nat.add_comm 1]
        rfl

theorem Query.read_unknown {s : String} {q : Query}
    (hpreds : q.question.predicates = ps ++ p :: rest)
    (hps : ∀ p' ∈ ps, v.accepts p' = true) (hp : v.accepts p = false)
    (h : Query.read .full s = .ok q) :
    Query.read v s = .error (q.question.faultAt ps.length (v.unknown p)) := by
  unfold Query.read at h ⊢
  simp only [guard_eq_ok_iff] at h
  obtain ⟨hblank, h⟩ := h
  rw [if_neg hblank]
  split at h
  · rename_i hmark
    simp only [guard_eq_ok_iff, bind_eq_ok_iff, pure_eq_ok_iff] at h
    obtain ⟨hperiod, k, hk, rfl⟩ := h
    simp only [hmark] at hperiod ⊢
    rw [if_neg hperiod, Question.read_unknown hpreds hps hp hk]
    rfl
  · cases h

end

/-- Over a smaller vocabulary a text is the query that it is over the full one, as long as all
predicates are in the vocabulary. Otherwise the leftmost that is not is reported, together with all
names of the vocabulary in ascending order: by itself in a simple query, else with the place where it
stands. -/
theorem Query.read_restricted (v : Vocabulary) (s : String) :
    (∀ q, Query.read v s = .ok q ↔
      Query.read .full s = .ok q ∧ ∀ p ∈ q.question.predicates, v.accepts p = true) ∧
    (∀ q, Query.read .full s = .ok q → (∃ p ∈ q.question.predicates, v.accepts p = false) →
      ∃ ps p rest, q.question.predicates = ps ++ p :: rest ∧
        (∀ p' ∈ ps, v.accepts p' = true) ∧ v.accepts p = false ∧
        Query.read v s =
          .error (q.question.faultAt ps.length (.unknownPredicate p.name v.names)) ∧
        (q.question.faultAt ps.length (.unknownPredicate p.name v.names)).root =
          .unknownPredicate p.name v.names) ∧
    v.names.Pairwise (· < ·) ∧
    ∀ name, name ∈ v.names ↔ ∃ p, v.accepts p = true ∧ p.name = name := by
  refine ⟨fun q => Query.read_eq_ok_iff_full, fun q h hrejected => ?_, v.pairwise_names,
    fun name => Vocabulary.mem_names_iff⟩
  obtain ⟨p, hfind⟩ : ∃ p, q.question.predicates.find? (!v.accepts ·) = some p := by
    obtain ⟨p, hmem, hp⟩ := hrejected
    exact Option.isSome_iff_exists.mp (List.find?_isSome.mpr ⟨p, hmem, by simp [hp]⟩)
  obtain ⟨hp, ps, rest, hpreds, hps⟩ := List.find?_eq_some_iff_append.mp hfind
  simp only [Bool.not_not, Bool.not_eq_true'] at hp hps
  exact ⟨ps, p, rest, hpreds, hps, hp, Query.read_unknown hpreds hps hp h,
    q.question.root_faultAt ps.length p⟩

/-- A vocabulary for statuses, one of them listed twice. -/
def statusWords : Vocabulary := .ofList [.status, .allocated, .status]

/-- Is some frame active that called nothing and was called by another one? -/
def activeLeaf : Query where
  source := "?- status(X, active), \\+ calls(X, _), calls(Y, X)."
  question := .compound ⟨[⟨⟨.status, [.var "X", .const (.atom "active")]⟩, false⟩,
    ⟨⟨.calls, [.var "X", .anonymous]⟩, true⟩, ⟨⟨.calls, [.var "Y", .var "X"]⟩, false⟩]⟩

theorem read_restricted_activeLeaf :
    Query.read .full activeLeaf.source = .ok activeLeaf ∧
    (∃ p ∈ activeLeaf.question.predicates, statusWords.accepts p = false) ∧
    Query.read statusWords activeLeaf.source =
      .error (.inCondition 2 (.unknownPredicate "calls" ["allocated", "status"])) := by
  have hread : Query.read .full activeLeaf.source = .ok activeLeaf := by decide +kernel
  have hrejected : ∃ p ∈ activeLeaf.question.predicates, statusWords.accepts p = false := by decide
  refine ⟨hread, hrejected, ?_⟩
  obtain ⟨-, hfault, -⟩ := Query.read_restricted statusWords activeLeaf.source
  obtain ⟨ps, p, rest, hpreds, hps, hp, herror, -⟩ := hfault _ hread hrejected
  match ps, hpreds with
  | [], hpreds =>
      obtain rfl : .status = p := (List.cons.inj hpreds).1
      cases hp
  | [p'], hpreds =>
      obtain rfl : .calls = p := (List.cons.inj (List.cons.inj hpreds).2).1
      exact herror
  | _ :: p' :: ps, hpreds =>
      -- the second predicate is no longer the leftmost
      obtain rfl : .calls = p' := (List.cons.inj (List.cons.inj hpreds).2).1
      cases hps .calls (by simp)

end FrameLog
