import FrameLog.Proofs.Except
import FrameLog.Proofs.Query.Cutting
import FrameLog.Proofs.Query.Tokens

/-! # Reading queries

The reader accepts exactly the texts of the grammar. There is one lemma for each reader function, and
each is proved from those of the functions that it calls. -/

namespace FrameLog
open Text

variable {v : Vocabulary} {cs : List Char}

/-! ## Goals -/

theorem Goal.readArguments_eq_ok_iff {name interior : List Char} {as : List Term} :
    Goal.readArguments name interior = .ok as ↔ Separated ArgumentText (trim interior) as := by
  rw [← cuts_arguments.forall₂_iff ArgumentText.tight]
  simp only [← Goal.readArgument_eq_ok_iff, ← mapM_eq_ok_iff]
  unfold Goal.readArguments
  split
  · rename_i hempty
    rw [List.isEmpty_iff.mp hempty]
    constructor
    · intro h
      cases h
    · intro h
      cases h
  · rfl

theorem span_append_cons {c : Char} {as bs : List Char} (h : c ∉ as) :
    (as ++ c :: bs).span (· != c) = (as, c :: bs) := by
  have hall : ∀ d ∈ as, (d != c) = true := fun d hd => by
    rw [bne_iff_ne]
    rintro rfl
    exact h hd
  rw [List.span_eq_takeWhile_dropWhile, List.takeWhile_append_of_pos hall,
    List.dropWhile_append_of_pos hall, List.takeWhile_cons_of_neg (by simp),
    List.dropWhile_cons_of_neg (by simp), List.append_nil]

/-- What the reader demands of a text with its first opening parenthesis in view. -/
theorem Goal.read_append_cons {before inside : List Char} {g : Goal} (h : '(' ∉ before) :
    Goal.read v (before ++ '(' :: inside) = .ok g ↔
      Goal.readPredicate v (trim before) = .ok g.predicate ∧
      ')' ∉ before ∧ '(' ∉ inside ∧ inside.count ')' = 1 ∧
      trim ((inside.span (· != ')')).2.drop 1) = [] ∧
      Goal.readArguments (trim before) (trim (inside.span (· != ')')).1) = .ok g.args := by
  have hspan : (before ++ '(' :: inside).span (· != '(') = (before, '(' :: inside) :=
    span_append_cons h
  have hopen : (before ++ '(' :: inside).count '(' = inside.count '(' + 1 := by
    rw [List.count_append, List.count_eq_zero_of_not_mem h, List.count_cons_self]
    omega
  have hclose : (before ++ '(' :: inside).count ')' = before.count ')' + inside.count ')' := by
    rw [List.count_append, List.count_cons_of_ne (by decide)]
  unfold Goal.read
  rw [hspan]
  simp only [hopen, hclose]
  simp only [guard_eq_ok_iff, bind_eq_ok_iff, pure_eq_ok_iff]
  constructor
  · rintro ⟨-, p, hp, hcounts, htrailing, args, hargs, rfl⟩
    simp only [not_or, not_not, List.contains_iff_mem] at hcounts
    obtain ⟨h1, h2, hbefore⟩ := hcounts
    rw [List.count_eq_zero_of_not_mem hbefore, Nat.zero_add] at h2
    refine ⟨hp, hbefore, List.count_eq_zero.mp (Nat.succ.inj h1), h2, ?_, hargs⟩
    simpa using htrailing
  · rintro ⟨hp, hbefore, h1, h2, htrailing, hargs⟩
    have hmem : ')' ∈ inside := List.count_pos_iff.mp (by omega)
    refine ⟨by simp [hmem], g.predicate, hp, ?_, by rw [htrailing]; decide, g.args, hargs, rfl⟩
    simp [List.count_eq_zero_of_not_mem h1, List.count_eq_zero_of_not_mem hbefore, h2, hbefore]

/-- A text that reads as a goal consists of a predicate, arguments in parentheses and blanks. -/
theorem Goal.exists_parts {body : List Char} {g : Goal} (h : Goal.read v body = .ok g) :
    ∃ before interior after, body = before ++ '(' :: (interior ++ ')' :: after) ∧
      Goal.readPredicate v (trim before) = .ok g.predicate ∧ trim after = [] ∧
      Goal.readArguments (trim before) (trim interior) = .ok g.args := by
  by_cases hopen : '(' ∈ body
  · obtain ⟨before, inside, rfl, hbefore⟩ := List.eq_append_cons_of_mem hopen
    rw [Goal.read_append_cons hbefore] at h
    obtain ⟨hp, -, -, hcount, htrailing, hargs⟩ := h
    have hclose : ')' ∈ inside := List.count_pos_iff.mp (by omega)
    obtain ⟨interior, after, rfl, hinterior⟩ := List.eq_append_cons_of_mem hclose
    rw [span_append_cons hinterior] at htrailing hargs
    exact ⟨before, interior, after, rfl, hp, htrailing, hargs⟩
  · have hspan : body.span (· != '(') = (body, []) := by
      have hall : ∀ c ∈ body, (c != '(') = true := fun c hc => by
        rw [bne_iff_ne]
        rintro rfl
        exact hopen hc
      rw [List.span_eq_takeWhile_dropWhile, List.takeWhile_eq_self_iff.mpr hall,
        List.dropWhile_eq_nil_iff.mpr hall]
    unfold Goal.read at h
    rw [hspan] at h
    cases h

theorem Goal.read_eq_ok_iff {body : List Char} {g : Goal} :
    Goal.read v body = .ok g ↔ GoalText v (trim body) g := by
  constructor
  · intro h
    obtain ⟨before, interior, after, rfl, hp, hafter, hargs⟩ := Goal.exists_parts h
    rw [Goal.readPredicate_eq_ok_iff] at hp
    rw [Goal.readArguments_eq_ok_iff, trim_trim] at hargs
    obtain ⟨w, w₁, hw, hw₁, hbefore⟩ := exists_trim before
    obtain ⟨w₂, w₃, hw₂, hw₃, hinterior⟩ := exists_trim interior
    have hgoal := GoalText.mk hp.2 hw₁ hw₂ hw₃ hargs
    have hbody : before ++ '(' :: (interior ++ ')' :: after) = w ++ (g.predicate.name.toList ++ w₁ ++
        '(' :: (w₂ ++ trim interior ++ w₃) ++ [')']) ++ after := by
      rw [hp.1] at hbefore
      conv_lhs => rw [hbefore, hinterior]
      simp only [List.append_assoc, List.cons_append, List.nil_append]
    rw [(trim_eq_iff hgoal.tight).mpr ⟨w, after, hw, trim_eq_nil_iff.mp hafter, hbody⟩]
    exact hgoal
  · intro h
    obtain ⟨w, w', hw, hw', hbody⟩ := exists_trim body
    generalize trim body = middle at h hbody
    obtain ⟨hp, h₁, h₂, h₃, hargs⟩ := h
    rename_i w₁ w₂ w₃ inner
    have hbefore : trim (w ++ g.predicate.name.toList ++ w₁) = g.predicate.name.toList :=
      trim_surround g.predicate.tight_name hw h₁
    have hinner : trim (w₂ ++ inner ++ w₃) = inner :=
      trim_surround (hargs.tight ArgumentText.tight) h₂ h₃
    have hflat : Flat (w ++ g.predicate.name.toList ++ w₁) :=
      (hw.flat.append g.predicate.wordChars_name.flat).append h₁.flat
    have hflat' : Flat (w₂ ++ inner ++ w₃) := (h₂.flat.append hargs.flat).append h₃.flat
    have hparts : body = (w ++ g.predicate.name.toList ++ w₁) ++
        '(' :: ((w₂ ++ inner ++ w₃) ++ ')' :: w') := by
      rw [hbody]
      simp only [List.append_assoc, List.cons_append, List.nil_append]
    rw [hparts, Goal.read_append_cons hflat.open_not_mem, span_append_cons hflat'.close_not_mem,
      hbefore, Goal.readPredicate_eq_ok_iff, Goal.readArguments_eq_ok_iff, trim_trim, hinner]
    refine ⟨⟨rfl, hp⟩, hflat.close_not_mem, ?_, ?_, hw'.trim_eq, hargs⟩
    · rw [List.mem_append, List.mem_cons]
      rintro (hc | hc | hc)
      · exact hflat'.open_not_mem hc
      · cases hc
      · exact hw'.flat.open_not_mem hc
    · rw [List.count_append, List.count_cons_self, List.count_eq_zero_of_not_mem hflat'.close_not_mem,
        List.count_eq_zero_of_not_mem hw'.flat.close_not_mem]

/-! ## Negation signs -/

theorem negatedPart?_eq_some_iff {part : List Char} :
    negatedPart? cs = some part ↔ ∃ rest, cs = '\\' :: '+' :: rest ∧ trim rest = part := by
  constructor
  · intro h
    unfold negatedPart? at h
    split at h
    · cases h
      exact ⟨_, rfl, rfl⟩
    · cases h
  · rintro ⟨rest, rfl, rfl⟩
    rfl

theorem GoalText.negatedPart?_append {g : Goal} (h : GoalText v cs g) (rest : List Char) :
    negatedPart? (cs ++ rest) = none := by
  obtain ⟨-, -, -, -, -⟩ := h
  cases g.predicate <;> rfl

theorem GoalText.negatedPart?_eq_none {g : Goal} (h : GoalText v cs g) :
    negatedPart? cs = none := by
  have := h.negatedPart?_append []
  rwa [List.append_nil] at this

/-- In a trimmed text, blanks only precede what a negation sign negates. -/
theorem exists_negation {part : List Char} {g : Goal} (h : negatedPart? (trim cs) = some part)
    (hread : Goal.read v part = .ok g) :
    ∃ w, Blanks w ∧ GoalText v part g ∧ trim cs = '\\' :: '+' :: (w ++ part) := by
  obtain ⟨rest, hcs, rfl⟩ := negatedPart?_eq_some_iff.mp h
  rw [Goal.read_eq_ok_iff, trim_trim] at hread
  obtain ⟨w, w', hw, hw', hrest⟩ := exists_trim rest
  refine ⟨w, hw, hread, ?_⟩
  rw [← trim_trim cs, trim_eq_iff (tight_negation hread.tight)]
  refine ⟨[], w', .nil, hw', ?_⟩
  conv_lhs => rw [hcs, hrest]
  simp only [List.nil_append, List.cons_append]

theorem negatedPart?_negation {w part : List Char} (hw : Blanks w) (hpart : Tight part) :
    negatedPart? ('\\' :: '+' :: (w ++ part)) = some part := by
  have := trim_surround hpart hw .nil
  rw [List.append_nil] at this
  exact negatedPart?_eq_some_iff.mpr ⟨_, rfl, this⟩

/-! ## Conditions -/

theorem Goal.read_eq_ok_iff_of_tight {g : Goal} (h : Tight cs) :
    Goal.read v cs = .ok g ↔ GoalText v cs g := by
  rw [Goal.read_eq_ok_iff, h.trim_eq]

theorem Condition.read_eq_ok_iff {c : Condition} :
    Condition.read v (trim cs) = .ok c ↔ ConditionText v (trim cs) c := by
  unfold Condition.read
  constructor
  · intro h
    split at h
    · cases h
    · split at h
      · simp only [bind_eq_ok_iff, pure_eq_ok_iff, Goal.read_eq_ok_iff, trim_trim] at h
        obtain ⟨g, hg, rfl⟩ := h
        exact .positive hg
      · cases h
      · rename_i hpart
        simp only [bind_eq_ok_iff, pure_eq_ok_iff] at h
        obtain ⟨g, hg, rfl⟩ := h
        obtain ⟨w, hw, hgoal, hcs⟩ := exists_negation hpart hg
        rw [hcs]
        exact .negated hw hgoal
  · intro h
    rw [if_neg (by simp [h.tight.ne_nil])]
    generalize trim cs = ds at h
    cases h with
    | positive hg =>
        rw [hg.negatedPart?_eq_none]
        simp only [bind_eq_ok_iff, pure_eq_ok_iff]
        exact ⟨_, (Goal.read_eq_ok_iff_of_tight hg.tight).mpr hg, rfl⟩
    | @negated w ds g hw hg =>
        obtain ⟨d, ds, rfl⟩ := List.exists_cons_of_ne_nil hg.tight.ne_nil
        rw [negatedPart?_negation hw hg.tight]
        simp only [bind_eq_ok_iff, pure_eq_ok_iff]
        exact ⟨_, (Goal.read_eq_ok_iff_of_tight hg.tight).mpr hg, rfl⟩

theorem Conjunction.read_eq_ok_iff {segments : List (List Char)} {c : Conjunction} :
    Conjunction.read v segments = .ok c ↔
      List.Forall₂ (fun s d => ConditionText v (trim s) d) segments c.conditions := by
  have hpositions : (segments.zipIdx 1).map Prod.fst = segments := List.zipIdx_map_fst 1 segments
  conv_rhs => rw [← hpositions, List.forall₂_map_left_iff]
  simp only [Conjunction.read, bind_eq_ok_iff, pure_eq_ok_iff, mapM_eq_ok_iff, mapError_eq_ok_iff,
    Condition.read_eq_ok_iff]
  constructor
  · rintro ⟨ds, h, rfl⟩
    exact h
  · intro h
    exact ⟨c.conditions, h, rfl⟩

/-- The first segment that is no condition is reported with its position. -/
theorem Conjunction.read_eq_error_iff {segments : List (List Char)} {e : QueryError} :
    Conjunction.read v segments = .error e ↔ ∃ before s rest cause,
      segments = before ++ s :: rest ∧ (∀ s' ∈ before, ∃ d, Condition.read v (trim s') = .ok d) ∧
      Condition.read v (trim s) = .error cause ∧ e = .inCondition (before.length + 1) cause := by
  unfold Conjunction.read
  simp only [bind_eq_error_iff, pure, Except.pure, reduceCtorEq, and_false, exists_false, or_false,
    mapM_eq_error_iff, mapError_eq_ok_iff, mapError_eq_error_iff]
  constructor
  · rintro ⟨front, ⟨s, i⟩, back, hsplit, hfront, cause, hs, rfl⟩
    obtain ⟨before, after, rfl, rfl, hafter⟩ := List.zipIdx_eq_append_iff.mp hsplit
    obtain ⟨s', rest, rfl, heq, -⟩ := List.zipIdx_eq_cons_iff.mp hafter.symm
    obtain ⟨rfl, rfl⟩ := Prod.mk.inj heq
    refine ⟨before, s, rest, cause, rfl, fun s' hs' => ?_, hs, by rw [Nat.add_comm]⟩
    obtain ⟨⟨_, i⟩, hmem, rfl⟩ := List.mem_map.mp (List.zipIdx_map_fst 1 before ▸ hs')
    exact hfront _ hmem
  · rintro ⟨before, s, rest, cause, rfl, hbefore, hs, rfl⟩
    refine ⟨before.zipIdx 1, (s, 1 + before.length), rest.zipIdx (1 + before.length + 1), ?_, ?_,
      cause, hs, by rw [Nat.add_comm]⟩
    · rw [List.zipIdx_append, List.zipIdx_cons]
    · rintro ⟨s', i⟩ hmem
      exact hbefore s' (List.fst_mem_of_mem_zipIdx hmem)

/-! ## Bodies -/

theorem Question.read_eq_ok_iff {k : Question} :
    Question.read v (trim cs) = .ok k ↔ BodyText v (trim cs) k := by
  unfold Question.read
  constructor
  · intro h
    split at h
    · cases h
    · split at h
      · cases h
      · rename_i hpart
        simp only [bind_eq_ok_iff, pure_eq_ok_iff, mapError_eq_ok_iff] at h
        obtain ⟨g, hg, rfl⟩ := h
        obtain ⟨w, hw, hgoal, hcs⟩ := exists_negation hpart hg
        rw [hcs]
        exact .negated hw hgoal
      · rename_i hpart
        split at h
        · simp only [bind_eq_ok_iff, pure_eq_ok_iff, Goal.read_eq_ok_iff, trim_trim] at h
          obtain ⟨g, hg, rfl⟩ := h
          exact .simple hg
        · rename_i hsegments
          simp only [bind_eq_ok_iff, pure_eq_ok_iff, Conjunction.read_eq_ok_iff] at h
          obtain ⟨⟨ds⟩, hds, rfl⟩ := h
          rw [(cuts_conditions v).forall₂_iff ConditionText.tight, trim_trim] at hds
          generalize trim cs = body at hds hpart hsegments
          cases hds with
          | one hd => exact absurd hd.uncut.segments_eq (hsegments _)
          | more hd hw hw' hrest =>
              cases hd with
              | positive hg => exact .compound hg hw hw' hrest
              | negated _ _ => cases hpart
  · intro h
    rw [if_neg (by simp [h.tight.ne_nil])]
    generalize trim cs = body at h
    have htrim := h.tight.trim_eq
    cases h with
    | @negated w part g hw hg =>
        obtain ⟨d, ds, rfl⟩ := List.exists_cons_of_ne_nil hg.tight.ne_nil
        rw [negatedPart?_negation hw hg.tight]
        simp only [bind_eq_ok_iff, pure_eq_ok_iff, mapError_eq_ok_iff]
        exact ⟨_, (Goal.read_eq_ok_iff_of_tight hg.tight).mpr hg, rfl⟩
    | simple hg =>
        rw [hg.negatedPart?_eq_none, hg.uncut.segments_eq]
        simp only [bind_eq_ok_iff, pure_eq_ok_iff]
        exact ⟨_, (Goal.read_eq_ok_iff_of_tight hg.tight).mpr hg, rfl⟩
    | @compound part w w' rest g ds hg hw hw' hrest =>
        have hlist := Separated.more (ConditionText.positive hg) hw hw' hrest
        have hpieces := ((cuts_conditions v).forall₂_iff ConditionText.tight).mpr
          (htrim.symm ▸ hlist)
        have hpart : negatedPart? (part ++ w ++ ',' :: (w' ++ rest)) = none := by
          rw [List.append_assoc]
          exact hg.negatedPart?_append _
        obtain ⟨d, ds, rfl⟩ := hrest.exists_cons
        obtain ⟨p, q, ps, hsegments⟩ : ∃ p q ps,
            Query.segments (part ++ w ++ ',' :: (w' ++ rest)) = p :: q :: ps := by
          generalize Query.segments _ = pieces at hpieces
          rcases hpieces with - | ⟨-, - | ⟨-, -⟩⟩
          exact ⟨_, _, _, rfl⟩
        rw [hsegments] at hpieces
        rw [hpart, hsegments]
        simp only [bind_eq_ok_iff, pure_eq_ok_iff, Conjunction.read_eq_ok_iff]
        exact ⟨_, hpieces, rfl⟩

/-! ## Queries -/

theorem Query.derives_of_read {s : String} {q : Query} (h : Query.read v s = .ok q) :
    q.source = String.ofList (trim s.toList) ∧ QueryText v (trim s.toList) q.question := by
  unfold Query.read at h
  simp only [guard_eq_ok_iff] at h
  obtain ⟨-, h⟩ := h
  split at h
  · rename_i rest heq
    simp only [guard_eq_ok_iff, bind_eq_ok_iff, pure_eq_ok_iff, Question.read_eq_ok_iff,
      not_not] at h
    obtain ⟨hlast, k, hk, rfl⟩ := h
    have hrest : rest.dropLast ++ ['.'] = rest := by
      cases rest with
      | nil =>
          rw [heq] at hlast
          cases hlast
      | cons c rest =>
          rw [heq, List.getLast?_cons_cons, List.getLast?_cons_cons] at hlast
          exact List.dropLast_append_getLast? _ hlast
    obtain ⟨w, w', hw, hw', hbody⟩ := exists_trim rest.dropLast
    rw [heq, ← hrest, hbody]
    exact ⟨rfl, .mk hw hw' hk⟩
  · cases h

theorem Query.read_of_derives {s : String} {k : Question} (h : QueryText v (trim s.toList) k) :
    Query.read v s = .ok ⟨String.ofList (trim s.toList), k⟩ := by
  unfold Query.read
  simp only [guard_eq_ok_iff]
  refine ⟨by simp [h.tight.ne_nil], ?_⟩
  generalize trim s.toList = cs at h
  obtain ⟨hw, hw', hk⟩ := h
  rename_i w body w'
  have hlast : ('?' :: '-' :: (w ++ body ++ w') ++ ['.']).getLast? = some '.' := by
    rw [List.getLast?_append]
    rfl
  have hinner : trim (w ++ body ++ w' ++ ['.']).dropLast = body := by
    rw [List.dropLast_concat, trim_surround hk.tight hw hw']
  simp only [List.cons_append, guard_eq_ok_iff, bind_eq_ok_iff, pure_eq_ok_iff, not_not]
  refine ⟨hlast, k, ?_, rfl⟩
  rw [Question.read_eq_ok_iff, hinner]
  exact hk

/-- A text is accepted exactly when it derives a query, and that is the one returned. -/
theorem Query.read_eq_ok_iff_derives (v : Vocabulary) (s : String) (q : Query) :
    Query.read v s = .ok q ↔
      q.source = String.ofList (trim s.toList) ∧ QueryText v (trim s.toList) q.question := by
  constructor
  · exact Query.derives_of_read
  · obtain ⟨source, k⟩ := q
    rintro ⟨rfl, h⟩
    exact Query.read_of_derives h

end FrameLog
