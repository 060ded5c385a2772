import FrameLog.Proofs.Search.Shortest
import Mathlib.Order.ConditionallyCompleteLattice.Basic
import Mathlib.Order.Lattice.Nat

/-!
# The levels of a search

The search lists nodes by their distance from the start. Within one distance a node stands where the
first of the listed nodes that lead to it puts it, and the nodes that one node leads to keep the order
in which it lists them.
-/

namespace FrameLog

variable {α : Type}

/-! ## Places in a list -/

/-- In a list whose elements ascend, the places of two elements compare as the elements do. -/
theorem idxOf_lt_idxOf_iff {β : Type} [DecidableEq β] {R : α → α → Prop} [Std.Asymm R] {key : α → β}
    {l : List α} (hl : l.Pairwise R) (hkeys : (l.map key).Nodup) {a b : α} (ha : a ∈ l) (hb : b ∈ l) :
    (l.map key).idxOf (key a) < (l.map key).idxOf (key b) ↔ R a b := by
  obtain ⟨i, hi, rfl⟩ := List.getElem_of_mem ha
  obtain ⟨j, hj, rfl⟩ := List.getElem_of_mem hb
  have hplace : ∀ k (hk : k < l.length), (l.map key).idxOf (key l[k]) = k := by
    intro k hk
    have hk' : k < (l.map key).length := by rwa [List.length_map]
    rw [← List.getElem_map key (h := hk')]
    exact hkeys.idxOf_getElem k hk'
  rw [hplace i hi, hplace j hj]
  refine ⟨List.pairwise_iff_getElem.mp hl i j hi hj, fun h => ?_⟩
  by_contra hle
  rcases (Nat.le_of_not_lt hle).eq_or_lt with rfl | hlt
  · exact Std.Asymm.asymm _ _ h h
  · exact Std.Asymm.asymm _ _ h (List.pairwise_iff_getElem.mp hl j i hj hi hlt)

/-! ## Distances -/

/-- The number of steps of the shortest walks from one node to another. -/
noncomputable def distance (next : α → List α) (a b : α) : Nat :=
  sInf {n | ∃ w, IsWalk (fun a b => b ∈ next a) a b w ∧ w.length = n + 1}

/-- The node is the first of those listed that lead to another one and are one step nearer to the
start. -/
structure FirstLead [DecidableEq α] (next : α → List α) (start : α) (listed : List α) (p b : α) :
    Prop where
  mem : p ∈ listed
  leads : b ∈ next p
  nearer : distance next start p + 1 = distance next start b
  first : ∀ q ∈ listed, b ∈ next q → distance next start q + 1 = distance next start b →
    listed.idxOf p ≤ listed.idxOf q

/-- The nodes other than the start that are within its reach, each once: nearer ones first, and within
one distance by their first leads. -/
structure ByLevels [DecidableEq α] (next : α → List α) (start : α) (listed : List α) : Prop where
  nodup : listed.Nodup
  mem_iff : ∀ b, b ∈ listed ↔ b ≠ start ∧ Relation.TransGen (fun a b => b ∈ next a) start b
  sorted : listed.Pairwise fun b c => distance next start b ≤ distance next start c
  led : ∀ b ∈ listed, ∃ p, FirstLead next start (start :: listed) p b
  order : ∀ b ∈ listed, ∀ c ∈ listed, ∀ p q, FirstLead next start (start :: listed) p b →
    FirstLead next start (start :: listed) q c →
    (listed.idxOf b < listed.idxOf c ↔ (start :: listed).idxOf p < (start :: listed).idxOf q ∨
      p = q ∧ (next p).idxOf b < (next p).idxOf c)

variable [DecidableEq α] {next : α → List α} {nodes listed : List α} {start : α}

theorem FirstLead.unique {p q b : α} (hp : FirstLead next start listed p b)
    (hq : FirstLead next start listed q b) : p = q := by
  have hpq := hp.first q hq.mem hq.leads hq.nearer
  have hqp := hq.first p hp.mem hp.leads hp.nearer
  exact (List.idxOf_inj hp.mem).mp (Nat.le_antisymm hpq hqp)

instance : Std.Asymm (Trail.Earlier next) where
  asymm s t := Std.Asymm.asymm (ranks next s.nodes) (ranks next t.nodes)

theorem Trail.Earlier.length_le {s t : Trail α} (h : s.Earlier next t) : s.length ≤ t.length := by
  have hranks : ∀ u : Trail α, (ranks next u.nodes).length = u.length := fun u => by
    rw [length_ranks, u.length_nodes, Nat.add_sub_cancel]
  rw [← hranks s, ← hranks t]
  rcases List.shortlex_def.mp h with hlt | ⟨hlen, -⟩
  · exact hlt.le
  · exact hlen.le

/-! ## All trails from a start -/

theorem idxOf_last_lt_iff {s t : Trail α} (hs : s ∈ trails nodes next start)
    (ht : t ∈ trails nodes next start) :
    ((trails nodes next start).map (·.last)).idxOf s.last <
      ((trails nodes next start).map (·.last)).idxOf t.last ↔ s.Earlier next t :=
  idxOf_lt_idxOf_iff (followsSearch_earlier next).pairwise_trails nodup_trails hs ht

/-- One step further, trails compare as before, and those that come from one trail as the places do
that their last nodes have among its neighbours. -/
theorem extend_earlier_iff {s t : Trail α} (hs : s ∈ trails nodes next start)
    (ht : t ∈ trails nodes next start) {a b : α} (ha : a ∈ next s.last) :
    (s.extend a).Earlier next (t.extend b) ↔
      s.Earlier next t ∨ s = t ∧ (next s.last).idxOf a < (next s.last).idxOf b := by
  have hfollows := followsSearch_earlier next
  constructor
  · intro h
    rcases lt_trichotomy (((trails nodes next start).map (·.last)).idxOf s.last)
      (((trails nodes next start).map (·.last)).idxOf t.last) with hlt | heq | hgt
    · exact .inl ((idxOf_last_lt_iff hs ht).mp hlt)
    · obtain rfl := eq_of_last_eq hs ht ((List.idxOf_inj (List.mem_map_of_mem hs)).mp heq)
      refine .inr ⟨rfl, ?_⟩
      by_contra hle
      rcases (Nat.le_of_not_lt hle).eq_or_lt with heq | hgt
      · obtain rfl := (List.idxOf_inj ha).mp heq.symm
        exact Std.Asymm.asymm _ _ h h
      · exact Std.Asymm.asymm _ _ h (hfollows.sibling s hgt)
    · exact absurd h (Std.Asymm.asymm _ _ (hfollows.extend _ _ ((idxOf_last_lt_iff ht hs).mp hgt)))
  · rintro (h | ⟨rfl, h⟩)
    · exact hfollows.extend _ _ h
    · exact hfollows.sibling s h

variable (hnodes : ∀ a, ∀ b ∈ next a, b ∈ nodes)
include hnodes

theorem distance_last {t : Trail α} (ht : t ∈ trails nodes next start) :
    distance next start t.last = t.length := by
  have hwalk := isWalk_of_mem_trails t ht
  refine Nat.le_antisymm (Nat.sInf_le ⟨t.nodes, hwalk, t.length_nodes⟩) ?_
  refine le_csInf ⟨t.length, t.nodes, hwalk, t.length_nodes⟩ ?_
  rintro n ⟨w, hw, hlen⟩
  have hle := length_nodes_le hnodes ht hw
  rw [t.length_nodes, hlen] at hle
  exact Nat.le_of_succ_le_succ hle

theorem pairwise_distance : ((trails nodes next start).map (·.last)).Pairwise
    fun a b => distance next start a ≤ distance next start b := by
  refine List.pairwise_map.mpr ((followsSearch_earlier next).pairwise_trails.imp_of_mem ?_)
  intro s t hs ht h
  rw [distance_last hnodes hs, distance_last hnodes ht]
  exact h.length_le

/-- The trail to a node comes from the trail to its first lead. -/
theorem exists_extend_firstLead {t : Trail α} (ht : t ∈ trails nodes next start)
    (hne : t.last ≠ start) : ∃ s ∈ trails nodes next start, t = s.extend t.last ∧
      FirstLead next start ((trails nodes next start).map (·.last)) s.last t.last := by
  obtain ⟨s, hs, hst, hfirst⟩ := exists_eq_extend hnodes ht hne
  refine ⟨s, hs, hst, List.mem_map_of_mem hs, ?_, ?_, ?_⟩
  · have hsteps := (isWalk_of_mem_trails t ht).steps
    rw [hst, s.nodes_extend] at hsteps
    exact (List.isChain_append.mp hsteps).2.2 s.last s.getLast?_nodes t.last rfl
  · rw [distance_last hnodes hs, distance_last hnodes ht, hst]
    rfl
  · intro q hq hlead _
    obtain ⟨u, hu, rfl⟩ := List.mem_map.mp hq
    rcases hfirst u hu hlead with rfl | hearlier
    · exact Nat.le_refl _
    · exact ((idxOf_last_lt_iff hs hu).mpr hearlier).le

/-- Two nodes are listed in the order of their first leads, and where these are the same in the order
in which that node lists them. -/
theorem idxOf_lt_iff_of_firstLead {b c p q : α} :
    let listed := (trails nodes next start).map (·.last)
    b ∈ listed → b ≠ start → c ∈ listed → c ≠ start →
    FirstLead next start listed p b → FirstLead next start listed q c →
    (listed.idxOf b < listed.idxOf c ↔ listed.idxOf p < listed.idxOf q ∨
      p = q ∧ (next p).idxOf b < (next p).idxOf c) := by
  intro listed hb hbne hc hcne hp hq
  obtain ⟨t, ht, rfl⟩ := List.mem_map.mp hb
  obtain ⟨u, hu, rfl⟩ := List.mem_map.mp hc
  obtain ⟨s, hs, hst, hlead⟩ := exists_extend_firstLead hnodes ht hbne
  obtain ⟨r, hr, hru, hlead'⟩ := exists_extend_firstLead hnodes hu hcne
  obtain rfl := hp.unique hlead
  obtain rfl := hq.unique hlead'
  have hsame : s = r ↔ s.last = r.last := ⟨congrArg Trail.last, eq_of_last_eq hs hr⟩
  rw [idxOf_last_lt_iff ht hu, idxOf_last_lt_iff hs hr, hst, hru,
    extend_earlier_iff hs hr hlead.leads, hsame]
  exact Iff.rfl

/-- The trails end at the start and, level by level, at all that is within its reach. -/
theorem byLevels_of_trails
    (hlisted : (trails nodes next start).map (·.last) = start :: listed) :
    ByLevels next start listed := by
  have hnodup : (start :: listed).Nodup := hlisted ▸ nodup_trails
  have hne : ∀ b ∈ listed, b ≠ start := fun b hb hstart =>
    (List.nodup_cons.mp hnodup).1 (hstart ▸ hb)
  have hmem : ∀ b ∈ listed, b ∈ (trails nodes next start).map (·.last) := fun b hb =>
    hlisted ▸ List.mem_cons_of_mem start hb
  refine ⟨hnodup.of_cons, fun b => ?_, ?_, fun b hb => ?_, ?_⟩
  · have hreach : b ∈ (trails nodes next start).map (·.last) ↔
        Relation.ReflTransGen (fun a b => b ∈ next a) start b := mem_map_last_trails_iff hnodes
    rw [hlisted, List.mem_cons, Relation.reflTransGen_iff_eq_or_transGen] at hreach
    constructor
    · intro hb
      exact ⟨hne b hb, (hreach.mp (.inr hb)).resolve_left (hne b hb)⟩
    · rintro ⟨hb, hstep⟩
      exact (hreach.mpr (.inr hstep)).resolve_left hb
  · have hsorted : (start :: listed).Pairwise fun b c =>
        distance next start b ≤ distance next start c := hlisted ▸ pairwise_distance hnodes
    exact hsorted.of_cons
  · obtain ⟨t, ht, rfl⟩ := List.mem_map.mp (hmem b hb)
    obtain ⟨s, -, -, hlead⟩ := exists_extend_firstLead hnodes ht (hne _ hb)
    exact ⟨s.last, hlisted ▸ hlead⟩
  · intro b hb c hc p q hp hq
    have horder := idxOf_lt_iff_of_firstLead hnodes (hmem b hb) (hne b hb) (hmem c hc) (hne c hc)
      (hlisted ▸ hp) (hlisted ▸ hq)
    rw [hlisted, List.idxOf_cons_ne _ (hne b hb).symm, List.idxOf_cons_ne _ (hne c hc).symm]
      at horder
    exact Nat.succ_lt_succ_iff.symm.trans horder

end FrameLog
