import FrameLog.CallGraph
import FrameLog.Proofs.FactBase.Acceptance

/-!
# Offering facts one after another

Facts are offered to a fact base in turn, and those of a wrong length are refused. Whatever is
offered, the readers of the fact base stay in step with each other. The same holds of a table that
files the facts by predicate and is changed in place, where a refused fact could leave a trace.
-/

namespace FrameLog

/-- The fault of a fact that has not as many values as its predicate takes. -/
def Fact.misfit (f : Fact) : Fault := .arity f.predicate f.predicate.arity f.values.length

/-- What becomes of a fact that is offered. -/
def Fact.verdict (f : Fact) : Except Fault Unit :=
  if f.WellFormed then .ok () else .error f.misfit

namespace FactBase

/-! ## Facts in turn -/

/-- The facts after one more was offered. -/
def offer (b : FactBase) (f : Fact) : FactBase :=
  match b.insert f with
  | .ok b' => b'
  | .error _ => b

/-- The facts after others were offered in turn. -/
def offerAll (b : FactBase) (fs : List Fact) : FactBase := fs.foldl offer b

/-- What the readers of a fact base tell fits together. -/
structure Consistent (b : FactBase) : Prop where
  filed : ∀ p, ∀ f ∈ b.facts p, f.predicate = p ∧ f.values.length = p.arity
  size_eq : b.size = (b.summary.map (·.2)).sum
  ordered : b.predicates.Pairwise fun p q => p.name < q.name
  mem_predicates : ∀ p, p ∈ b.predicates ↔ ∃ n, (p, n) ∈ b.summary ∧ 0 < n

variable {b b' : FactBase} {f : Fact}

theorem insert_of_not_wellFormed (b : FactBase) (h : ¬ f.WellFormed) :
    b.insert f = .error f.misfit := by
  rw [insert, dif_neg h]
  rfl

theorem toList_offer (b : FactBase) (f : Fact) :
    (b.offer f).toList = b.toList ++ [f].filter fun g => g.WellFormed := by
  unfold offer
  split
  · rename_i b' h
    obtain ⟨hf, hlist⟩ := insert_eq_ok_iff.mp h
    rw [hlist, List.filter_cons_of_pos (by simpa using hf), List.filter_nil]
  · rename_i fault h
    have hf : ¬ f.WellFormed := fun hf => by
      rw [insert, dif_pos hf] at h
      cases h
    rw [List.filter_cons_of_neg (by simpa using hf), List.filter_nil, List.append_nil]

/-- Of the facts that were offered those of the right length are there, in the order of the offers. -/
theorem toList_offerAll (b : FactBase) (fs : List Fact) :
    (b.offerAll fs).toList = b.toList ++ fs.filter fun f => f.WellFormed := by
  induction fs generalizing b with
  | nil => rw [offerAll, List.foldl_nil, List.filter_nil, List.append_nil]
  | cons f fs ih =>
      rw [offerAll, List.foldl_cons, ← offerAll, ih, toList_offer, List.append_assoc,
        ← List.filter_append, List.singleton_append]

theorem facts_offerAll (b : FactBase) (fs : List Fact) (p : Predicate) :
    (b.offerAll fs).facts p = b.facts p ++ fs.filter fun f => f.predicate = p ∧ f.WellFormed := by
  rw [facts, toList_offerAll, List.filter_append, List.filter_filter, ← facts]
  simp only [beq_eq_decide, Bool.decide_and]

/-! ## Counting facts -/

theorem length_eq_sum_filter (fs : List Fact) : fs.length =
    ((Named.all : List Predicate).map fun p => (fs.filter (·.predicate == p)).length).sum := by
  induction fs with
  | nil => rfl
  | cons f fs ih =>
      rw [List.length_cons, ih]
      simp only [Named.all, List.map_cons, List.map_nil, List.sum_cons, List.sum_nil,
        List.filter_cons]
      cases hp : f.predicate <;> simp <;> omega

theorem mem_summary_iff {p : Predicate} {n : Nat} :
    (p, n) ∈ b.summary ↔ n = (b.facts p).length := by
  rw [summary, List.mem_map]
  constructor
  · rintro ⟨q, -, heq⟩
    cases heq
    rfl
  · rintro rfl
    exact ⟨p, Named.mem_all p, rfl⟩

theorem consistent (b : FactBase) : b.Consistent where
  filed p f hf := by
    obtain ⟨hmem, hp⟩ := List.mem_filter.mp hf
    obtain rfl := beq_iff_eq.mp hp
    exact ⟨rfl, b.wellFormed f hmem⟩
  size_eq := by
    rw [size, length_eq_sum_filter, summary, List.map_map]
    rfl
  ordered := by
    have hall : (Named.all : List Predicate).Pairwise fun p q => p.name < q.name := by decide
    exact hall.filter _
  mem_predicates p := by
    rw [predicates, List.mem_filter, hasFacts_iff, ← List.length_pos_iff]
    constructor
    · rintro ⟨-, hpos⟩
      exact ⟨_, mem_summary_iff.mpr rfl, hpos⟩
    · rintro ⟨n, hn, hpos⟩
      exact ⟨Named.mem_all p, mem_summary_iff.mp hn ▸ hpos⟩

end FactBase

/-! ## A table that is changed in place -/

/-- Facts filed by predicate. A predicate has an entry or none, and an entry may be empty. -/
structure FactTable where
  entries : Predicate → Option (List Fact)

namespace FactTable

/-- No entries. -/
def empty : FactTable := ⟨fun _ => none⟩

/-- The facts of a predicate. -/
def facts (t : FactTable) (p : Predicate) : List Fact := (t.entries p).getD []

/-- The number of facts in all entries. -/
def size (t : FactTable) : Nat :=
  (((Named.all : List Predicate).filterMap t.entries).map List.length).sum

/-- The predicates with an entry that is not empty. -/
def predicates (t : FactTable) : List Predicate :=
  (Named.all : List Predicate).filter fun p => (t.entries p).any (!·.isEmpty)

/-- The number of facts of every predicate. -/
def summary (t : FactTable) : List (Predicate × Nat) :=
  (Named.all : List Predicate).map fun p => (p, (t.facts p).length)

/-- The graph of the `calls` facts. -/
def callGraph (t : FactTable) : CallGraph := ⟨(t.facts .calls).filterMap Fact.callEdge?⟩

/-- The table with a fact more at the end of the entry of its predicate, which is made if there is
none. -/
def file (t : FactTable) (f : Fact) : FactTable :=
  ⟨fun p => if p = f.predicate then some (t.facts p ++ [f]) else t.entries p⟩

/-- Files a fact; one of a wrong length is refused. -/
def insert (f : Fact) : ExceptT Fault (StateM FactTable) Unit := do
  unless f.WellFormed do throw f.misfit
  modify (·.file f)

/-- Inserts facts in turn and tells what became of each. -/
def insertAll : List Fact → StateM FactTable (List (Except Fault Unit))
  | [] => return []
  | f :: fs => do
    let outcome ← (insert f).run
    return outcome :: (← insertAll fs)

/-- Every reader finds in the table what it finds in the fact base. -/
structure Presents (t : FactTable) (b : FactBase) : Prop where
  facts : ∀ p, t.facts p = b.facts p
  size : t.size = b.size
  summary : t.summary = b.summary
  predicates : t.predicates = b.predicates
  callGraph : t.callGraph = b.callGraph

variable {t : FactTable} {b : FactBase} {f : Fact}

theorem size_eq (t : FactTable) :
    t.size = ((Named.all : List Predicate).map fun p => (t.facts p).length).sum := by
  rw [size]
  generalize (Named.all : List Predicate) = ps
  induction ps with
  | nil => rfl
  | cons p ps ih =>
      rw [List.map_cons, List.sum_cons, ← ih, facts]
      cases hp : t.entries p with
      | none => rw [List.filterMap_cons_none hp, Option.getD_none, List.length_nil, Nat.zero_add]
      | some fs =>
          rw [List.filterMap_cons_some hp, List.map_cons, List.sum_cons, Option.getD_some]

/-- The readers see no more than the facts of each predicate; an empty entry is as good as none. -/
theorem presents_of_facts (h : ∀ p, t.facts p = b.facts p) : t.Presents b where
  facts := h
  size := by
    rw [size_eq, FactBase.size, FactBase.length_eq_sum_filter]
    simp only [h]
    rfl
  summary := by simp only [summary, FactBase.summary, h]
  predicates := by
    refine List.filter_congr fun p _ => ?_
    rw [FactBase.hasFacts, ← h p, facts]
    cases t.entries p with
    | none => rfl
    | some fs => rfl
  callGraph := by rw [callGraph, FactBase.callGraph, h]

theorem facts_file (t : FactTable) (f : Fact) (p : Predicate) :
    (t.file f).facts p = t.facts p ++ [f].filter fun g => g.predicate = p := by
  by_cases hp : p = f.predicate
  · simp [facts, file, hp]
  · simp [facts, file, hp, Ne.symm hp]

theorem run_insert (t : FactTable) (f : Fact) : (insert f).run.run t =
    if f.WellFormed then (.ok (), t.file f) else (.error f.misfit, t) := by
  unfold insert
  split <;> rfl

/-- A fact that is offered to both leaves the table in step with the fact base. -/
theorem exists_run_insert (h : ∀ p, t.facts p = b.facts p) (f : Fact) :
    ∃ t', (insert f).run.run t = (f.verdict, t') ∧ ∀ p, t'.facts p = (b.offer f).facts p := by
  have hoffer (p : Predicate) :
      (b.offer f).facts p = b.facts p ++ [f].filter fun g => g.predicate = p ∧ g.WellFormed :=
    FactBase.facts_offerAll b [f] p
  rw [run_insert, Fact.verdict]
  by_cases hf : f.WellFormed
  · rw [if_pos hf, if_pos hf]
    refine ⟨t.file f, rfl, fun p => ?_⟩
    rw [facts_file, hoffer, h]
    simp [List.filter_cons, hf]
  · rw [if_neg hf, if_neg hf]
    refine ⟨t, rfl, fun p => ?_⟩
    rw [hoffer, h]
    simp [hf]

theorem exists_run_insertAll (h : ∀ p, t.facts p = b.facts p) (fs : List Fact) :
    ∃ t', (insertAll fs).run t = (fs.map Fact.verdict, t') ∧
      ∀ p, t'.facts p = (b.offerAll fs).facts p := by
  induction fs generalizing t b with
  | nil => exact ⟨t, rfl, h⟩
  | cons f fs ih =>
      obtain ⟨t₁, hfirst, hfacts⟩ := exists_run_insert h f
      obtain ⟨t₂, hrest, hfacts⟩ := ih hfacts
      refine ⟨t₂, ?_, hfacts⟩
      have hcons : (insertAll (f :: fs)).run t =
          (((insert f).run.run t).1 :: ((insertAll fs).run ((insert f).run.run t).2).1,
            ((insertAll fs).run ((insert f).run.run t).2).2) := rfl
      rw [hcons, hfirst, hrest, List.map_cons]

end FactTable

namespace FactBase

/-- Facts that went into a fact base in turn, and others that are offered to it after them. -/
theorem offerAll_empty_append (b : FactBase) (fs : List Fact) :
    empty.offerAll (b.toList ++ fs) = b.offerAll fs := by
  refine toList_inj ?_
  have hall : (b.toList.filter fun f => f.WellFormed) = b.toList :=
    List.filter_eq_self.mpr fun f hf => decide_eq_true (b.wellFormed f hf)
  rw [toList_offerAll, toList_offerAll, List.filter_append, hall]
  rfl

/-! ## Any run of insertions -/

/-- Whatever is offered to a fact base, its readers stay in step. The facts of a predicate are those
from before and behind them the offered ones of the right length, in the order of the offers. A fact
of another length is refused, with both lengths for a reason. A table that is changed in place, and
into which all this is put in turn, presents the same to every reader, and a refused fact leaves no
trace in it. -/
theorem insertions_spec (b : FactBase) (fs : List Fact) :
    (b.offerAll fs).Consistent ∧
    (∀ p, (b.offerAll fs).facts p =
      b.facts p ++ fs.filter fun f => f.predicate = p ∧ f.WellFormed) ∧
    (∀ f, ¬ f.WellFormed → (b.offerAll fs).insert f =
      .error (.arity f.predicate f.predicate.arity f.values.length)) ∧
    ∃ t, (FactTable.insertAll (b.toList ++ fs)).run .empty =
        ((b.toList ++ fs).map Fact.verdict, t) ∧
      t.Presents (b.offerAll fs) ∧
      ∀ f, ¬ f.WellFormed → (FactTable.insert f).run.run t =
        (.error (.arity f.predicate f.predicate.arity f.values.length), t) := by
  refine ⟨consistent _, facts_offerAll b fs, fun f hf => insert_of_not_wellFormed _ hf, ?_⟩
  obtain ⟨t, hrun, hfacts⟩ :=
    FactTable.exists_run_insertAll (t := .empty) (b := empty) (fun _ => rfl) (b.toList ++ fs)
  rw [offerAll_empty_append] at hfacts
  refine ⟨t, hrun, FactTable.presents_of_facts hfacts, fun f hf => ?_⟩
  rw [FactTable.run_insert, if_neg hf, Fact.misfit]

/-- Frame 1 is active. -/
def activeMain : FactBase where
  toList := [⟨.status, [.int 1, .atom "active"]⟩]
  wellFormed := by decide

/-- A call and a status of a second frame, and between them rows that are cut short. -/
def garbledRows : List Fact :=
  [⟨.frame, [.int 2]⟩, ⟨.calls, [.int 1, .int 2]⟩, ⟨.param, []⟩, ⟨.status, [.int 2, .atom "error"]⟩]

theorem insertions_spec_garbledRows :
    ¬ (Fact.mk .frame [.int 2]).WellFormed ∧
    (activeMain.offerAll garbledRows).insert ⟨.frame, [.int 2]⟩ = .error (.arity .frame 4 1) ∧
    (activeMain.offerAll garbledRows).facts .status =
      [⟨.status, [.int 1, .atom "active"]⟩, ⟨.status, [.int 2, .atom "error"]⟩] ∧
    (activeMain.offerAll garbledRows).predicates = [.calls, .status] ∧
    ∃ t, (FactTable.insertAll (activeMain.toList ++ garbledRows)).run .empty =
        ([.ok (), .error (.arity .frame 4 1), .ok (), .error (.arity .param 3 0), .ok ()], t) ∧
      t.size = 3 ∧ (FactTable.insert ⟨.frame, [.int 2]⟩).run.run t = (.error (.arity .frame 4 1), t) := by
  obtain ⟨-, hfacts, hrefused, t, hrun, hpresents, hkept⟩ := insertions_spec activeMain garbledRows
  have hmisfit : ¬ (Fact.mk .frame [.int 2]).WellFormed := by decide
  refine ⟨hmisfit, hrefused _ hmisfit, ?_, by decide, t, hrun, ?_, hkept _ hmisfit⟩
  · rw [hfacts]
    decide
  · rw [hpresents.size]
    decide

end FactBase

end FrameLog
