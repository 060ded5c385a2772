import FrameLog.ChainCache
import Mathlib.Data.List.Dedup
import Mathlib.Data.List.Induction

/-!
# The history of a cache

A cache that started empty holds, for each key, the first chain that was offered for it. Its replies
and its counters are told by the operations that were carried out, and nothing that was written
changes later.
-/

namespace FrameLog

/-! ## Operations on a cache -/

/-- What can be done with a cache. -/
inductive CacheOperation where
  | get (key : ChainKey)
  | insert (key : ChainKey) (chain : List FrameId)
  /-- A lookup that comes with a computation of the chain. -/
  | getOrCompute (key : ChainKey) (computed : List FrameId)
  | contains (key : ChainKey)
deriving DecidableEq

/-- What a cache says to an operation. -/
inductive CacheReply where
  | found (chain : Option (List FrameId))
  | inserted
  /-- A chain, and how often the computation was run. -/
  | obtained (chain : List FrameId) (computations : Nat)
  | contained (answer : Bool)
deriving DecidableEq

namespace CacheOperation

/-- The key that the operation looks up. -/
def lookup? : CacheOperation → Option ChainKey
  | get key => some key
  | getOrCompute key _ => some key
  | _ => none

/-- The chain that the operation offers to be remembered, with its key. -/
def offer? : CacheOperation → Option (ChainKey × List FrameId)
  | insert key chain => some (key, chain)
  | getOrCompute key computed => some (key, computed)
  | _ => none

end CacheOperation

namespace ChainCache

/-- Carries out one operation. The computation that it may come with counts its runs. -/
def perform (c : ChainCache) : CacheOperation → CacheReply × ChainCache
  | .get key =>
    let (chain, c) := c.get key
    (.found chain, c)
  | .insert key chain => (.inserted, c.insert key chain)
  | .getOrCompute key computed =>
    let compute : Unit → StateM Nat (List FrameId) := fun _ => do
      modify (· + 1)
      return computed
    let ((chain, c), computations) := (c.getOrCompute key compute).run 0
    (.obtained chain computations, c)
  | .contains key => (.contained (c.contains key), c)

/-- Carries out operations in order, each on the cache that the ones before it leave. -/
def performAll (c : ChainCache) : List CacheOperation → List CacheReply × ChainCache
  | [] => ([], c)
  | op :: ops =>
    let (reply, c) := c.perform op
    let (replies, c) := c.performAll ops
    (reply :: replies, c)

theorem performAll_concat (c : ChainCache) (ops : List CacheOperation) (op : CacheOperation) :
    c.performAll (ops ++ [op]) = ((c.performAll ops).1 ++ [((c.performAll ops).2.perform op).1],
      ((c.performAll ops).2.perform op).2) := by
  induction ops generalizing c with
  | nil => rfl
  | cons first ops ih => simp only [List.cons_append, performAll, ih]

/-! ## What an operation changes -/

/-- The cache with a lookup counted, if there is one. -/
def tally (c : ChainCache) : Option ChainKey → ChainCache
  | none => c
  | some key => (c.get key).2

/-- The cache after a chain was offered, if there is one. -/
def accept (c : ChainCache) : Option (ChainKey × List FrameId) → ChainCache
  | none => c
  | some (key, chain) => c.insert key chain

variable {c : ChainCache}

theorem entries_get (key : ChainKey) : (c.get key).2.entries = c.entries := by
  cases h : c.find? key <;> simp [get, h]

theorem hits_get (key : ChainKey) :
    (c.get key).2.hits = c.hits + if (c.find? key).isSome then 1 else 0 := by
  cases h : c.find? key <;> simp [get, h]

theorem misses_get (key : ChainKey) :
    (c.get key).2.misses = c.misses + if (c.find? key).isNone then 1 else 0 := by
  cases h : c.find? key <;> simp [get, h]

theorem insert_of_find? {key : ChainKey} {old : List FrameId} (h : c.find? key = some old)
    (chain : List FrameId) : c.insert key chain = c := by
  simp [insert, contains, h]

theorem find?_insert (key : ChainKey) (chain : List FrameId) (other : ChainKey) :
    (c.insert key chain).find? other =
      (c.find? other).or (if other = key then some chain else none) := by
  unfold insert
  split
  · rename_i hkey
    obtain ⟨old, hold⟩ := Option.isSome_iff_exists.mp hkey
    by_cases hother : other = key
    · simp [hother, hold]
    · simp [hother]
  · by_cases hother : other = key
    · simp [find?, List.lookup_append, hother]
    · simp [find?, List.lookup_append, List.lookup_cons, beq_false_of_ne hother, hother]

theorem counters_insert (key : ChainKey) (chain : List FrameId) :
    (c.insert key chain).hits = c.hits ∧ (c.insert key chain).misses = c.misses := by
  unfold insert
  split <;> exact ⟨rfl, rfl⟩

theorem nodup_insert (h : (c.entries.map (·.1)).Nodup) (key : ChainKey) (chain : List FrameId) :
    ((c.insert key chain).entries.map (·.1)).Nodup := by
  unfold insert
  split
  · exact h
  · rename_i hnew
    rw [List.map_append, List.map_singleton]
    refine List.nodup_append.mpr ⟨h, List.nodup_singleton key, fun a ha b hb hab => hnew ?_⟩
    obtain rfl := List.mem_singleton.mp hb
    obtain ⟨e, he, rfl⟩ := List.mem_map.mp ha
    exact List.lookup_isSome_iff.mpr ⟨e, he, by simp [hab]⟩

/-- The computation is not run when a chain is remembered. -/
theorem perform_getOrCompute_of_find? {key : ChainKey} {old : List FrameId}
    (h : c.find? key = some old) (computed : List FrameId) :
    c.perform (.getOrCompute key computed) = (.obtained old 0, (c.get key).2) := by
  have hget : c.get key = (some old, { c with hits := c.hits + 1 }) := by simp [get, h]
  simp only [perform, getOrCompute, hget]
  rfl

/-- The computation is run once when nothing is remembered. -/
theorem perform_getOrCompute_of_not_find? {key : ChainKey} (h : c.find? key = none)
    (computed : List FrameId) : c.perform (.getOrCompute key computed) =
      (.obtained computed 1, (c.get key).2.insert key computed) := by
  have hget : c.get key = (none, { c with misses := c.misses + 1 }) := by simp [get, h]
  simp only [perform, getOrCompute, hget]
  rfl

/-- An operation counts its lookup and then offers its chain. -/
theorem snd_perform (op : CacheOperation) :
    (c.perform op).2 = (c.tally op.lookup?).accept op.offer? := by
  cases op with
  | get key => rfl
  | insert key chain => rfl
  | contains key => rfl
  | getOrCompute key computed =>
      cases h : c.find? key with
      | none => rw [perform_getOrCompute_of_not_find? h]; rfl
      | some old =>
          have hold : (c.get key).2.find? key = some old := by rw [find?, entries_get]; exact h
          rw [perform_getOrCompute_of_find? h]
          exact (insert_of_find? hold computed).symm

end ChainCache

/-! ## The history -/

namespace CacheOperation

/-- The chain that the operations leave for a key: that of the first of them to offer one. -/
def remembered? (past : List CacheOperation) (key : ChainKey) : Option (List FrameId) :=
  (past.filterMap offer?).lookup key

/-- What is said to an operation after others. A computation is run, and once, only when there is
nothing for the key. -/
def replyAfter (past : List CacheOperation) : CacheOperation → CacheReply
  | get key => .found (remembered? past key)
  | insert _ _ => .inserted
  | getOrCompute key computed =>
    match remembered? past key with
    | some chain => .obtained chain 0
    | none => .obtained computed 1
  | contains key => .contained (remembered? past key).isSome

/-- The operation looks up a key that the ones before it have left a chain for. -/
def finds (past : List CacheOperation) (op : CacheOperation) : Bool :=
  op.lookup?.any fun key => (remembered? past key).isSome

/-- The operation looks up a key that the ones before it have left no chain for. -/
def misses (past : List CacheOperation) (op : CacheOperation) : Bool :=
  op.lookup?.any fun key => (remembered? past key).isNone

/-- What holds of each operation in view of those before it. -/
def inTurn {α : Type} (f : List CacheOperation → CacheOperation → α) (ops : List CacheOperation) :
    List α :=
  ops.mapIdx fun i op => f (ops.take i) op

variable {past : List CacheOperation} {key : ChainKey} {chain : List FrameId}

theorem inTurn_concat {α : Type} (f : List CacheOperation → CacheOperation → α)
    (ops : List CacheOperation) (op : CacheOperation) :
    inTurn f (ops ++ [op]) = inTurn f ops ++ [f ops op] := by
  -- the operations before an earlier one are not affected by what comes at the end
  have hearlier : (ops.mapIdx fun i o => f ((ops ++ [op]).take i) o) = inTurn f ops :=
    List.mapIdx_eq_mapIdx_iff.mpr fun i hi => by
      rw [List.take_append_of_le_length (Nat.le_of_lt hi)]
  rw [inTurn, List.mapIdx_concat, hearlier, List.take_left]

theorem count_inTurn_concat (f : List CacheOperation → CacheOperation → Bool)
    (ops : List CacheOperation) (op : CacheOperation) :
    (inTurn f (ops ++ [op])).count true =
      (inTurn f ops).count true + if f ops op then 1 else 0 := by
  rw [inTurn_concat, List.count_append, List.count_singleton]
  cases f ops op <;> rfl

theorem remembered?_concat (past : List CacheOperation) (op : CacheOperation) (key : ChainKey) :
    remembered? (past ++ [op]) key =
      (remembered? past key).or (op.offer?.toList.lookup key) := by
  rw [remembered?, List.filterMap_append, List.lookup_append]
  cases op <;> rfl

theorem remembered?_append_of_some (h : remembered? past key = some chain)
    (later : List CacheOperation) : remembered? (past ++ later) key = some chain := by
  rw [remembered?, List.filterMap_append, List.lookup_append]
  exact Option.or_eq_some_iff.mpr (.inl h)

/-- What is remembered was offered by the first operation that offered anything for the key. -/
theorem remembered?_eq_some_iff : remembered? past key = some chain ↔
    ∃ before op after, past = before ++ op :: after ∧ op.offer? = some (key, chain) ∧
      remembered? before key = none := by
  constructor
  · intro h
    induction past using List.reverseRecOn with
    | nil => cases h
    | append_singleton past op ih =>
        cases hpast : remembered? past key with
        | some old =>
            rw [remembered?_append_of_some hpast, Option.some.injEq] at h
            obtain ⟨before, first, after, rfl, hfirst⟩ := ih (h ▸ hpast)
            exact ⟨before, first, after ++ [op], by simp, hfirst⟩
        | none =>
            rw [remembered?_concat, hpast, Option.none_or] at h
            refine ⟨past, op, [], rfl, ?_, hpast⟩
            cases ho : op.offer? with
            | none => simp [ho] at h
            | some e =>
                rw [ho, Option.toList_some, List.lookup_cons] at h
                split at h <;> simp_all [Prod.ext_iff]
  · rintro ⟨before, op, after, rfl, hop, hbefore⟩
    rw [List.append_cons]
    refine remembered?_append_of_some ?_ after
    rw [remembered?_concat, hbefore, Option.none_or, hop, Option.toList_some, List.lookup_cons_self]

theorem mem_offered_iff :
    key ∈ (past.filterMap offer?).map (·.1) ↔ (remembered? past key).isSome := by
  rw [remembered?, List.lookup_isSome_iff, List.mem_map]
  simp only [beq_iff_eq, eq_comm (a := key)]

end CacheOperation

/-! ## Runs -/

namespace ChainCache

open CacheOperation

/-- The cache holds and has counted what the operations say. -/
structure Reflects (c : ChainCache) (past : List CacheOperation) : Prop where
  find? : ∀ key, c.find? key = remembered? past key
  nodup : (c.entries.map (·.1)).Nodup
  hits : c.hits = (inTurn finds past).count true
  misses : c.misses = (inTurn CacheOperation.misses past).count true

variable {c : ChainCache} {past : List CacheOperation}

theorem reflects_empty : empty.Reflects [] := ⟨fun _ => rfl, .nil, rfl, rfl⟩

theorem find?_tally (key? : Option ChainKey) (other : ChainKey) :
    (c.tally key?).find? other = c.find? other := by
  cases key? with
  | none => rfl
  | some key => rw [tally, ChainCache.find?, entries_get, ChainCache.find?]

theorem find?_accept (offer? : Option (ChainKey × List FrameId)) (other : ChainKey) :
    (c.accept offer?).find? other = (c.find? other).or (offer?.toList.lookup other) := by
  cases offer? with
  | none => simp [accept]
  | some e =>
      rw [accept, find?_insert, Option.toList_some, List.lookup_cons]
      by_cases h : other = e.1
      · simp [h]
      · simp [h, beq_false_of_ne h]

theorem counters_accept (offer? : Option (ChainKey × List FrameId)) :
    (c.accept offer?).hits = c.hits ∧ (c.accept offer?).misses = c.misses := by
  cases offer? with
  | none => exact ⟨rfl, rfl⟩
  | some e => exact counters_insert e.1 e.2

theorem nodup_accept (h : (c.entries.map (·.1)).Nodup)
    (offer? : Option (ChainKey × List FrameId)) : ((c.accept offer?).entries.map (·.1)).Nodup := by
  cases offer? with
  | none => exact h
  | some e => exact nodup_insert h e.1 e.2

/-- One operation: the reply is that of the history, and the history grows by the operation. -/
theorem Reflects.perform (h : c.Reflects past) (op : CacheOperation) :
    (c.perform op).1 = op.replyAfter past ∧ (c.perform op).2.Reflects (past ++ [op]) := by
  constructor
  · cases op with
    | get key =>
        rw [replyAfter, ← h.find?]
        cases hkey : c.find? key <;> simp [ChainCache.perform, get, hkey]
    | insert key chain => rfl
    | contains key => rw [replyAfter, ← h.find?]; rfl
    | getOrCompute key computed =>
        rw [replyAfter, ← h.find?]
        cases hkey : c.find? key with
        | none => rw [perform_getOrCompute_of_not_find? hkey]
        | some old => rw [perform_getOrCompute_of_find? hkey]
  · rw [snd_perform]
    refine ⟨fun key => ?_, nodup_accept ?_ _, ?_, ?_⟩
    · rw [find?_accept, find?_tally, h.find?, remembered?_concat]
    · cases op.lookup? with
      | none => exact h.nodup
      | some key => rw [tally, entries_get]; exact h.nodup
    · rw [(counters_accept _).1, count_inTurn_concat, ← h.hits, finds]
      cases op.lookup? with
      | none => rfl
      | some key => rw [tally, hits_get, h.find?, Option.any_some]
    · rw [(counters_accept _).2, count_inTurn_concat, ← h.misses, CacheOperation.misses]
      cases op.lookup? with
      | none => rfl
      | some key => rw [tally, misses_get, h.find?, Option.any_some]

/-- A run on an empty cache replies as the history says and leaves a cache that reflects it. -/
theorem reflects_performAll (ops : List CacheOperation) :
    (empty.performAll ops).1 = inTurn replyAfter ops ∧ (empty.performAll ops).2.Reflects ops := by
  induction ops using List.reverseRecOn with
  | nil => exact ⟨rfl, reflects_empty⟩
  | append_singleton ops op ih =>
      obtain ⟨hreplies, hreflects⟩ := ih
      obtain ⟨hreply, hnext⟩ := hreflects.perform op
      rw [performAll_concat]
      exact ⟨by rw [inTurn_concat, hreplies, hreply], hnext⟩

theorem Reflects.size_eq (h : c.Reflects past) :
    c.size = ((past.filterMap offer?).map (·.1)).dedup.length := by
  have hkeys : ∀ key, key ∈ c.entries.map (·.1) ↔ key ∈ (past.filterMap offer?).map (·.1) := by
    intro key
    rw [mem_offered_iff, ← h.find?, ChainCache.find?, List.lookup_isSome_iff, List.mem_map]
    simp only [beq_iff_eq, eq_comm (a := key)]
  have hperm : (c.entries.map (·.1)).Perm ((past.filterMap offer?).map (·.1)).dedup :=
    (List.perm_ext_iff_of_nodup h.nodup (List.nodup_dedup _)).mpr fun key => by
      rw [hkeys, List.mem_dedup]
  rw [size, ← hperm.length_eq, List.length_map]

/-- Whatever is done with a cache that starts empty, its replies are those of the history: a lookup
is answered with the chain of the first operation to offer one for the key while there was none, and
a computation is run, once, only when there is nothing. That chain never changes. There are as many
entries as different keys were offered, the counters are the numbers of lookups that found a chain
and that did not, and nothing but a lookup is counted. -/
theorem performAll_history (ops : List CacheOperation) :
    let cache := (empty.performAll ops).2
    (empty.performAll ops).1 = inTurn replyAfter ops ∧
    (∀ key, cache.find? key = remembered? ops key) ∧
    (∀ key chain, cache.find? key = some chain ↔ ∃ before op after, ops = before ++ op :: after ∧
      op.offer? = some (key, chain) ∧ (empty.performAll before).2.contains key = false) ∧
    (∀ before after, ops = before ++ after → ∀ key chain,
      (empty.performAll before).2.find? key = some chain → cache.find? key = some chain) ∧
    cache.size = ((ops.filterMap offer?).map (·.1)).dedup.length ∧
    cache.hits = (inTurn finds ops).count true ∧
    cache.misses = (inTurn CacheOperation.misses ops).count true ∧
    ∀ op : CacheOperation, op.lookup? = none →
      (cache.perform op).2.hits = cache.hits ∧ (cache.perform op).2.misses = cache.misses := by
  intro cache
  obtain ⟨hreplies, hcache⟩ := reflects_performAll ops
  have hfind : ∀ past key, (empty.performAll past).2.find? key = remembered? past key :=
    fun past => (reflects_performAll past).2.find?
  have habsent : ∀ past key, (empty.performAll past).2.contains key = false ↔
      remembered? past key = none := fun past key => by
    rw [contains, hfind, Option.isSome_eq_false_iff, Option.isNone_iff_eq_none]
  refine ⟨hreplies, hcache.find?, fun key chain => ?_, ?_, hcache.size_eq, hcache.hits,
    hcache.misses, fun op hop => ?_⟩
  · rw [hcache.find?, remembered?_eq_some_iff]
    simp only [habsent]
  · rintro before after rfl key chain h
    rw [hfind] at h
    rw [hcache.find?]
    exact remembered?_append_of_some h after
  · rw [snd_perform, hop]
    exact counters_accept _

/-- Both keys of frame 5 in turn: a lookup in vain, two writes, and computations for either key. -/
def mixedOperations : List CacheOperation :=
  [.get (5, .callees), .insert (5, .callees) [6], .insert (5, .callees) [9],
    .getOrCompute (5, .callees) [7], .getOrCompute (5, .callers) [4, 3], .contains (5, .callers),
    .get (5, .callers)]

theorem performAll_history_mixedOperations :
    (empty.performAll mixedOperations).1 = [.found none, .inserted, .inserted, .obtained [6] 0,
      .obtained [4, 3] 1, .contained true, .found (some [4, 3])] ∧
    mixedOperations = mixedOperations.take 2 ++ mixedOperations.drop 2 ∧
    (empty.performAll (mixedOperations.take 2)).2.find? (5, .callees) = some [6] ∧
    (empty.performAll mixedOperations).2.find? (5, .callees) = some [6] ∧
    (empty.performAll mixedOperations).2.size = 2 ∧
    (empty.performAll mixedOperations).2.hits = 2 ∧
    (empty.performAll mixedOperations).2.misses = 2 ∧
    (CacheOperation.contains (1, .callers)).lookup? = none ∧
    ((empty.performAll mixedOperations).2.perform (.contains (1, .callers))).2.misses = 2 := by
  obtain ⟨hreplies, -, -, hkept, hsize, hhits, hmisses, huncounted⟩ :=
    performAll_history mixedOperations
  have hsplit : mixedOperations = mixedOperations.take 2 ++ mixedOperations.drop 2 :=
    (List.take_append_drop 2 mixedOperations).symm
  have hwritten : (empty.performAll (mixedOperations.take 2)).2.find? (5, .callees) = some [6] := rfl
  exact ⟨hreplies.trans rfl, hsplit, hwritten, hkept _ _ hsplit _ _ hwritten, hsize.trans rfl,
    hhits.trans rfl, hmisses.trans rfl, rfl, (huncounted _ rfl).2.trans (hmisses.trans rfl)⟩

end ChainCache

end FrameLog
