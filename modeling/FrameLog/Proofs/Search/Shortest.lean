import FrameLog.Proofs.Search.Order
import Mathlib.Data.List.Nodup
import Mathlib.Data.List.Shortlex

/-!
# The first of the shortest walks

Walks from one start are compared by the places that their steps have among the neighbours of each
node. The trail to a node comes first among the shortest walks to it.
-/

namespace FrameLog

variable {α : Type} [DecidableEq α] {next : α → List α}

/-! ## Ranks -/

/-- The places of the nodes of a walk, each among the neighbours of the node before it. -/
def ranks (next : α → List α) : List α → List Nat
  | a :: b :: w => (next a).idxOf b :: ranks next (b :: w)
  | _ => []

theorem ranks_concat {w : List α} {b : α} (hw : w.getLast? = some b) (c : α) :
    ranks next (w ++ [c]) = ranks next w ++ [(next b).idxOf c] := by
  induction w with
  | nil => cases hw
  | cons a w ih =>
      cases w with
      | nil =>
          obtain rfl := Option.some.inj hw
          rfl
      | cons d w =>
          rw [List.getLast?_cons_cons] at hw
          exact congrArg _ (ih hw)

theorem length_ranks (w : List α) : (ranks next w).length = w.length - 1 := by
  induction w with
  | nil => rfl
  | cons a w ih =>
      cases w with
      | nil => rfl
      | cons b w => exact congrArg Nat.succ ih

/-- Lists of one length keep their order whatever is appended to them. -/
theorem lt_append_of_lt {u v : List Nat} (h : u < v) (hlen : u.length = v.length)
    (x y : List Nat) : u ++ x < v ++ y := by
  induction u generalizing v with
  | nil =>
      obtain rfl := List.length_eq_zero_iff.mp hlen.symm
      exact absurd h (List.lt_irrefl [])
  | cons i u ih =>
      cases v with
      | nil => cases hlen
      | cons j v =>
          rw [List.cons_append, List.cons_append, List.cons_lt_cons_iff]
          rcases List.cons_lt_cons_iff.mp h with hij | ⟨rfl, huv⟩
          · exact .inl hij
          · exact .inr ⟨rfl, ih huv (Nat.succ.inj hlen)⟩

theorem Trail.ranks_extend (t : Trail α) (a : α) :
    ranks next (t.extend a).nodes = ranks next t.nodes ++ [(next t.last).idxOf a] := by
  rw [nodes_extend, ranks_concat t.getLast?_nodes]

/-! ## The order of trails -/

/-- The first trail is the shorter one, or of the same length with lower ranks. -/
def Trail.Earlier (next : α → List α) (s t : Trail α) : Prop :=
  List.Shortlex (· < ·) (ranks next s.nodes) (ranks next t.nodes)

/-- The search finds trails by their lengths, and those of one length by their ranks. -/
theorem followsSearch_earlier (next : α → List α) : FollowsSearch next (Trail.Earlier next) where
  trans := by
    intro s t u hst htu
    rcases List.shortlex_def.mp hst with hst | ⟨hst, hlex⟩ <;>
      rcases List.shortlex_def.mp htu with htu | ⟨htu, hlex'⟩
    · exact .of_length_lt (hst.trans htu)
    · exact .of_length_lt (htu ▸ hst)
    · exact .of_length_lt (hst ▸ htu)
    · exact .of_lex (hst.trans htu) (List.lt_trans hlex hlex')
  child t a := by
    rw [Trail.Earlier, t.ranks_extend]
    exact .of_length_lt (by simp)
  extend := by
    intro s t a b h
    rw [Trail.Earlier, s.ranks_extend, t.ranks_extend]
    rcases List.shortlex_def.mp h with hlt | ⟨hlen, hlex⟩
    · exact .of_length_lt (by simpa using hlt)
    · exact .of_lex (by simpa using hlen) (lt_append_of_lt hlex hlen _ _)
  sibling t a b hab := by
    rw [Trail.Earlier, t.ranks_extend, t.ranks_extend]
    exact .append_left ((List.shortlex_singleton_iff _ _).mpr hab) _

variable {nodes : List α} {start : α}

theorem eq_of_last_eq {s t : Trail α} (hs : s ∈ trails nodes next start)
    (ht : t ∈ trails nodes next start) (h : s.last = t.last) : s = t :=
  List.inj_on_of_nodup_map nodup_trails hs ht h

/-- No walk is shorter than the trail to its end. -/
theorem length_nodes_le (hnodes : ∀ a, ∀ b ∈ next a, b ∈ nodes) {t : Trail α}
    (ht : t ∈ trails nodes next start) {w : List α}
    (hw : IsWalk (fun a b => b ∈ next a) start t.last w) : t.nodes.length ≤ w.length := by
  obtain ⟨u, hu, hlast, hle⟩ := exists_trail_of_isWalk hnodes hw
  rwa [eq_of_last_eq hu ht hlast] at hle

/-- The trail to a node comes from the first of the trails that lead to the node. -/
theorem exists_eq_extend (hnodes : ∀ a, ∀ b ∈ next a, b ∈ nodes) {t : Trail α}
    (ht : t ∈ trails nodes next start) (hne : t.last ≠ start) :
    ∃ s ∈ trails nodes next start, t = s.extend t.last ∧
      ∀ u ∈ trails nodes next start, t.last ∈ next u.last → s = u ∨ s.Earlier next u := by
  have hpairwise : (trails nodes next start).Pairwise (Trail.Earlier next) :=
    (followsSearch_earlier next).pairwise_trails
  have hfrom : ∀ u ∈ trails nodes next start, t.last ∈ next u.last →
      ∃ s ∈ trails nodes next start, t = s.extend t.last ∧ (s = u ∨ s.Earlier next u) := by
    intro u hu hlast
    have hnew : t.last ∈ nodes.eraseDups.erase start :=
      mem_unreached_iff.mpr ⟨hne, hnodes u.last t.last hlast⟩
    obtain ⟨s, hs, hextend, horder⟩ := exists_discoverer hu hlast hnew
    exact ⟨s, hs, eq_of_last_eq ht hextend rfl,
      horder.imp_right fun h => List.pairwise_pair.mp (hpairwise.sublist h)⟩
  obtain ⟨u, hu, hlast⟩ : ∃ u ∈ trails nodes next start, t.last ∈ next u.last := by
    rcases (isWalk_of_mem_trails t ht).cases_last with ⟨-, hstay⟩ | ⟨v, c, -, hv, hc⟩
    · exact absurd hstay.symm hne
    · obtain ⟨u, hu, rfl, -⟩ := exists_trail_of_isWalk hnodes hv
      exact ⟨u, hu, hc⟩
  obtain ⟨s, hs, hst, -⟩ := hfrom u hu hlast
  refine ⟨s, hs, hst, fun r hr hlead => ?_⟩
  -- it is the same trail from which the node is found, whichever leads to it
  obtain ⟨s', -, hst', horder⟩ := hfrom r hr hlead
  obtain ⟨rfl, -⟩ := Trail.extend_inj (hst.symm.trans hst')
  exact horder

/-- The trail to a node is the first of the shortest walks to it. -/
theorem ranks_nodes_lt (hnodes : ∀ a, ∀ b ∈ next a, b ∈ nodes) {t : Trail α}
    (ht : t ∈ trails nodes next start) {w : List α}
    (hw : IsWalk (fun a b => b ∈ next a) start t.last w) (hlen : w.length = t.nodes.length)
    (hne : w ≠ t.nodes) : ranks next t.nodes < ranks next w := by
  -- by the length of the walk: up to the last node but one it is no shorter than the trail to that
  -- node, and the trail to its end comes from there or from an earlier one
  induction hn : w.length generalizing w t with
  | zero => exact absurd (List.length_eq_zero_iff.mp hn) hw.ne_nil
  | succ n ih =>
      rcases hw.cases_last with ⟨rfl, hstay⟩ | ⟨v, c, rfl, hv, hcb⟩
      · have hbefore : t.before = [] := by
          rw [Trail.length_nodes, List.length_singleton] at hlen
          exact List.length_eq_zero_iff.mp (Nat.succ.inj hlen).symm
        exact absurd (by simp [Trail.nodes, hbefore, hstay]) hne
      · rw [List.length_append, List.length_singleton] at hlen hn
        obtain ⟨u, hu, rfl, hule⟩ := exists_trail_of_isWalk hnodes hv
        have hulen : v.length = u.nodes.length := by
          have hle := length_nodes_le hnodes ht ((isWalk_of_mem_trails u hu).concat hcb)
          rw [List.length_append, List.length_singleton] at hle
          omega
        have hstart : t.last ≠ start := by
          intro hstart
          have hpos := List.length_pos_of_ne_nil hv.ne_nil
          have hstay : IsWalk (fun a b => b ∈ next a) start t.last [start] := by
            rw [hstart]
            exact .single _ start
          have hle := length_nodes_le hnodes ht hstay
          rw [List.length_singleton] at hle
          omega
        have hvle : v = u.nodes ∨ ranks next u.nodes < ranks next v :=
          or_iff_not_imp_left.mpr fun hvne => ih hu hv hulen hvne (Nat.succ.inj hn)
        obtain ⟨s, -, hst, hfirst⟩ := exists_eq_extend hnodes ht hstart
        have horder := hfirst u hu hcb
        have hsnodes : t.nodes = s.nodes ++ [t.last] := by rw [← s.nodes_extend, ← hst]
        have hsranks : ranks next t.nodes = ranks next s.nodes ++ [(next s.last).idxOf t.last] := by
          rw [← s.ranks_extend, ← hst]
        have hslen : s.nodes.length = v.length := by
          rw [hsnodes, List.length_append, List.length_singleton] at hlen
          omega
        have hranks : (ranks next s.nodes).length = (ranks next v).length := by
          rw [length_ranks, length_ranks, hslen]
        rw [hsranks, ranks_concat hv.last]
        refine lt_append_of_lt ?_ hranks _ _
        rcases horder with rfl | hearlier
        · refine hvle.resolve_left ?_
          rintro rfl
          exact hne hsnodes.symm
        · have hsu : ranks next s.nodes < ranks next u.nodes :=
            (List.shortlex_iff_lex (by rw [length_ranks, length_ranks, hslen, hulen])).mp hearlier
          rcases hvle with rfl | hlt
          · exact hsu
          · exact List.lt_trans hsu hlt

end FrameLog
