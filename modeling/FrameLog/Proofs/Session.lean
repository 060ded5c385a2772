import FrameLog.Session
import Mathlib.Data.List.Dedup

/-!
# Remembering is invisible

A session may be asked anything in any order. What it remembers changes none of its answers, and its
counters tell exactly how often chains were looked up and how many different ones.
-/

namespace FrameLog

/-! ## Runs of a session -/

/-- What can be asked of a session. -/
inductive Operation where
  | run (input : String)
  | evaluate (query : Query)
  | chain (frame : FrameId) (direction : Direction)
  | path (source target : FrameId)
  | relationship (frame : FrameId)
  /-- The counters of the remembered chains. -/
  | counters
deriving DecidableEq

/-- What a session says to an operation. -/
inductive Reply where
  | response (response : Response)
  | answer (answer : Answer)
  | chain (frames : List FrameId)
  | path (frames : Option (List FrameId))
  | relationship (relationship : Relationship)
  | counters (hits misses entries : Nat)
deriving DecidableEq

namespace Operation

/-- The chains that the operation looks up, in order. -/
def keys : Operation → List ChainKey
  | chain frame d => [(frame, d)]
  | relationship frame => [(frame, .callers), (frame, .callees)]
  | _ => []

def isChain : Operation → Bool
  | chain _ _ => true
  | _ => false

def isRelationship : Operation → Bool
  | relationship _ => true
  | _ => false

theorem length_keys (op : Operation) :
    op.keys.length = (if op.isChain then 1 else 0) + 2 * (if op.isRelationship then 1 else 0) := by
  cases op <;> rfl

theorem length_flatMap_keys (ops : List Operation) :
    (ops.flatMap keys).length = ops.countP isChain + 2 * ops.countP isRelationship := by
  induction ops with
  | nil => rfl
  | cons op ops ih =>
      rw [List.flatMap_cons, List.length_append, length_keys, ih, List.countP_cons,
        List.countP_cons]
      omega

end Operation

namespace Session

/-- A session that has not been asked anything. -/
def fresh (facts : FactBase) (settings : Settings) : Session := { facts, settings }

/-- Carries out one operation. -/
def perform (s : Session) : Operation → Reply × Session
  | .run input => (.response (s.run input), s)
  | .evaluate query => (.answer (s.evaluate query), s)
  | .chain frame d =>
    let (chain, s) := s.chain frame d
    (.chain chain, s)
  | .path source target => (.path (s.path? source target), s)
  | .relationship frame =>
    let (relationship, s) := s.relationship frame
    (.relationship relationship, s)
  | .counters => (.counters s.cache.hits s.cache.misses s.cache.size, s)

/-- Carries out operations in order, each on the session that the ones before it leave. -/
def performAll (s : Session) : List Operation → List Reply × Session
  | [] => ([], s)
  | op :: ops =>
    let (reply, s) := s.perform op
    let (replies, s) := s.performAll ops
    (reply :: replies, s)

end Session

/-! ## What is remembered -/

/-- The cache holds the chains of the asked keys and has counted how they were asked. -/
structure ChainCache.Remembers (c : ChainCache) (facts : FactBase) (asked : List ChainKey) :
    Prop where
  chains : ∀ e ∈ c.entries, e.2 = facts.callGraph.chain e.1.1 e.1.2
  nodup : (c.entries.map (·.1)).Nodup
  keys : ∀ key, key ∈ c.entries.map (·.1) ↔ key ∈ asked
  misses : c.misses = c.size
  lookups : c.hits + c.misses = asked.length

namespace ChainCache

variable {c : ChainCache} {facts : FactBase} {asked : List ChainKey}

theorem remembers_empty (facts : FactBase) : empty.Remembers facts [] :=
  ⟨by simp [empty], by simp [empty], by simp [empty], rfl, rfl⟩

theorem contains_iff {key : ChainKey} :
    c.contains key = true ↔ key ∈ c.entries.map (·.1) := by
  simp only [contains, find?, List.lookup_isSome_iff, List.mem_map, beq_iff_eq]
  constructor
  · rintro ⟨e, he, rfl⟩
    exact ⟨e, he, rfl⟩
  · rintro ⟨e, he, rfl⟩
    exact ⟨e, he, rfl⟩

theorem Remembers.size_eq (h : c.Remembers facts asked) : c.size = asked.dedup.length := by
  have hperm : (c.entries.map (·.1)).Perm asked.dedup :=
    (List.perm_ext_iff_of_nodup h.nodup asked.nodup_dedup).mpr fun key => by
      rw [h.keys, List.mem_dedup]
  simpa [size] using hperm.length_eq

theorem getOrCompute_of_find? {key : ChainKey} {chain old : List FrameId}
    (h : c.find? key = some old) : Id.run (c.getOrCompute key fun _ => pure chain) =
      (old, { c with hits := c.hits + 1 }) := by
  simp [getOrCompute, get, h]

theorem getOrCompute_of_not_find? {key : ChainKey} {chain : List FrameId}
    (h : c.find? key = none) : Id.run (c.getOrCompute key fun _ => pure chain) =
      (chain, { c with entries := c.entries ++ [(key, chain)], misses := c.misses + 1 }) := by
  have hlookup : c.entries.lookup key = none := h
  simp [getOrCompute, get, insert, contains, find?, hlookup]

/-- A lookup answers with the chain of the call graph, remembered or not, and is counted. -/
theorem Remembers.getOrCompute (h : c.Remembers facts asked) (key : ChainKey) :
    ∃ next : ChainCache,
      Id.run (c.getOrCompute key fun _ => pure (facts.callGraph.chain key.1 key.2)) =
        (facts.callGraph.chain key.1 key.2, next) ∧
      next.Remembers facts (asked ++ [key]) := by
  cases hfind : c.find? key with
  | some old =>
      obtain ⟨l₁, l₂, hl, -⟩ := List.lookup_eq_some_iff.mp hfind
      have hmem : (key, old) ∈ c.entries := by simp [hl]
      have hold : old = facts.callGraph.chain key.1 key.2 := h.chains _ hmem
      have hasked : key ∈ asked := (h.keys key).mp (List.mem_map.mpr ⟨_, hmem, rfl⟩)
      refine ⟨{ c with hits := c.hits + 1 }, ?_, h.chains, h.nodup, ?_, h.misses, ?_⟩
      · rw [getOrCompute_of_find? hfind, hold]
      · intro other
        rw [h.keys, List.mem_append, List.mem_singleton]
        constructor
        · exact .inl
        · rintro (hother | rfl)
          · exact hother
          · exact hasked
      · have hcount := h.lookups
        simp only [List.length_append, List.length_singleton]
        omega
  | none =>
      have hnew : key ∉ c.entries.map (·.1) := by
        intro hmem
        obtain ⟨e, he, rfl⟩ := List.mem_map.mp hmem
        have hne := List.lookup_eq_none_iff.mp hfind e he
        simp at hne
      refine ⟨_, getOrCompute_of_not_find? hfind, ?_, ?_, ?_, ?_, ?_⟩
      · intro e he
        rcases List.mem_append.mp he with he | he
        · exact h.chains e he
        · obtain rfl := List.mem_singleton.mp he
          rfl
      · simp only [List.map_append, List.map_cons, List.map_nil]
        exact List.nodup_append.mpr ⟨h.nodup, List.nodup_singleton key, fun a ha b hb hab => by
          obtain rfl := List.mem_singleton.mp hb
          exact hnew (hab ▸ ha)⟩
      · intro other
        simp only [List.map_append, List.map_cons, List.map_nil, List.mem_append, h.keys]
      · simp [size, h.misses]
      · have hcount := h.lookups
        simp only [List.length_append, List.length_singleton]
        omega

end ChainCache

/-! ## Sessions that remember and sessions that do not -/

namespace Session

variable {facts : FactBase} {cache : ChainCache} {asked : List ChainKey} {settings : Settings}

theorem chain_plain (h : settings.rememberChains = false) (frame : FrameId) (d : Direction) :
    chain ⟨facts, settings, cache⟩ frame d =
      (facts.callGraph.chain frame d, ⟨facts, settings, cache⟩) := by
  simp [chain, h]

theorem chain_remembering (h : settings.rememberChains = true)
    (hc : cache.Remembers facts asked) (frame : FrameId) (d : Direction) :
    ∃ next : ChainCache, chain ⟨facts, settings, cache⟩ frame d =
        (facts.callGraph.chain frame d, ⟨facts, settings, next⟩) ∧
      next.Remembers facts (asked ++ [(frame, d)]) := by
  obtain ⟨next, hnext, hrem⟩ := hc.getOrCompute (frame, d)
  exact ⟨next, by simp [chain, h, hnext], hrem⟩

/-- The relationship of a frame, read off the call graph. -/
theorem relationship_plain (h : settings.rememberChains = false) (frame : FrameId) :
    relationship ⟨facts, settings, cache⟩ frame =
      ({ frame := frame
         directCaller := facts.callGraph.directCaller? frame
         directCallees := facts.callGraph.callees frame
         callerChain := facts.callGraph.chain frame .callers
         calleeChain := facts.callGraph.chain frame .callees }, ⟨facts, settings, cache⟩) := by
  simp [relationship, chain_plain h]

/-- One operation: without remembering the session stays as it is, with remembering the looked up
chains are added, and both reply alike. -/
theorem perform_remembering (settings : Settings) (hc : cache.Remembers facts asked)
    (op : Operation) :
    ∃ next : ChainCache,
      (perform ⟨facts, { settings with rememberChains := true }, cache⟩ op).2 =
        ⟨facts, { settings with rememberChains := true }, next⟩ ∧
      next.Remembers facts (asked ++ op.keys) ∧
      (op ≠ .counters →
        (perform ⟨facts, { settings with rememberChains := true }, cache⟩ op).1 =
          (perform (fresh facts { settings with rememberChains := false }) op).1) := by
  have hon : ({ settings with rememberChains := true } : Settings).rememberChains = true := rfl
  cases op with
  | run input => exact ⟨cache, rfl, by simpa [Operation.keys] using hc, fun _ => rfl⟩
  | evaluate query => exact ⟨cache, rfl, by simpa [Operation.keys] using hc, fun _ => rfl⟩
  | path source target => exact ⟨cache, rfl, by simpa [Operation.keys] using hc, fun _ => rfl⟩
  | counters => exact ⟨cache, rfl, by simpa [Operation.keys] using hc, fun h => absurd rfl h⟩
  | chain frame d =>
      obtain ⟨next, hnext, hrem⟩ := chain_remembering hon hc frame d
      refine ⟨next, by simp [perform, hnext], hrem, fun _ => ?_⟩
      simp [perform, hnext, fresh, chain_plain]
  | relationship frame =>
      obtain ⟨mid, hmid, hrem⟩ := chain_remembering hon hc frame .callers
      obtain ⟨next, hnext, hrem⟩ := chain_remembering hon hrem frame .callees
      refine ⟨next, by simp [perform, relationship, hmid, hnext], ?_, fun _ => ?_⟩
      · simpa [Operation.keys] using hrem
      · simp [perform, relationship, hmid, hnext, fresh, chain_plain]

theorem perform_plain (op : Operation) :
    (perform ⟨facts, { settings with rememberChains := false }, cache⟩ op).2 =
      ⟨facts, { settings with rememberChains := false }, cache⟩ := by
  cases op with
  | run input => rfl
  | evaluate query => rfl
  | path source target => rfl
  | counters => rfl
  | chain frame d => simp [perform, chain_plain]
  | relationship frame => simp [perform, relationship_plain]

/-! ## Runs -/

theorem performAll_plain (facts : FactBase) (settings : Settings) (ops : List Operation) :
    performAll (fresh facts { settings with rememberChains := false }) ops =
      (ops.map fun op => (perform (fresh facts { settings with rememberChains := false }) op).1,
        fresh facts { settings with rememberChains := false }) := by
  induction ops with
  | nil => rfl
  | cons op ops ih =>
      have hstay : (perform (fresh facts { settings with rememberChains := false }) op).2 =
          fresh facts { settings with rememberChains := false } := perform_plain op
      simp only [performAll, hstay, ih, List.map_cons]

theorem performAll_remembering (settings : Settings) (hc : cache.Remembers facts asked)
    (ops : List Operation) :
    ∃ next : ChainCache,
      (performAll ⟨facts, { settings with rememberChains := true }, cache⟩ ops).2 =
        ⟨facts, { settings with rememberChains := true }, next⟩ ∧
      next.Remembers facts (asked ++ ops.flatMap Operation.keys) ∧
      ∀ (i : Nat) (op : Operation), ops[i]? = some op → op ≠ .counters →
        (performAll ⟨facts, { settings with rememberChains := true }, cache⟩ ops).1[i]? =
          some (perform (fresh facts { settings with rememberChains := false }) op).1 := by
  induction ops generalizing cache asked with
  | nil => exact ⟨cache, rfl, by simpa using hc, by simp⟩
  | cons first ops ih =>
      obtain ⟨mid, hmid, hrem, hreply⟩ := perform_remembering settings hc first
      obtain ⟨next, hnext, hrem', hreplies⟩ := ih hrem
      refine ⟨next, ?_, ?_, fun i op hi hop => ?_⟩
      · simp only [performAll, hmid, hnext]
      · simpa [List.append_assoc] using hrem'
      · cases i with
        | zero =>
            obtain rfl : first = op := by simpa using hi
            simp [performAll, hreply hop]
        | succ i =>
            simp only [performAll, hmid, List.getElem?_cons_succ]
            exact hreplies i op (by simpa using hi) hop

/-- Whatever a session is asked, remembering chains changes no reply but that of the counters: each
is what a fresh session says to the operation alone. Every remembered chain is that of the call
graph, a miss is counted for each different key and a hit for each repetition; without remembering
nothing is counted. -/
theorem remembering_invisible (facts : FactBase) (settings : Settings) (ops : List Operation) :
    let remembering := fresh facts { settings with rememberChains := true }
    let plain := fresh facts { settings with rememberChains := false }
    let cache := (remembering.performAll ops).2.cache
    (∀ (i : Nat) (op : Operation), ops[i]? = some op → op ≠ .counters →
      (remembering.performAll ops).1[i]? = some (remembering.perform op).1 ∧
      (plain.performAll ops).1[i]? = some (remembering.perform op).1 ∧
      (plain.perform op).1 = (remembering.perform op).1) ∧
    (∀ e ∈ cache.entries, e.2 = facts.callGraph.chain e.1.1 e.1.2) ∧
    (∀ key, cache.contains key = true ↔ key ∈ ops.flatMap Operation.keys) ∧
    cache.misses = cache.size ∧
    cache.size = (ops.flatMap Operation.keys).dedup.length ∧
    cache.hits + cache.misses =
      ops.countP Operation.isChain + 2 * ops.countP Operation.isRelationship ∧
    (plain.performAll ops).2.cache = .empty := by
  intro remembering plain cache
  obtain ⟨next, hnext, hrem, hreplies⟩ :=
    performAll_remembering settings (ChainCache.remembers_empty facts) ops
  have hcache : cache = next := by simp [cache, remembering, fresh, hnext]
  have hplain := performAll_plain facts settings ops
  rw [List.nil_append] at hrem
  rw [hcache]
  refine ⟨fun i op hi hop => ?_, hrem.chains, ?_, hrem.misses, hrem.size_eq, ?_, ?_⟩
  · obtain ⟨-, -, -, hfresh⟩ := perform_remembering settings (ChainCache.remembers_empty facts) op
    have hsame : (plain.perform op).1 = (remembering.perform op).1 := (hfresh hop).symm
    rw [← hsame]
    refine ⟨hreplies i op hi hop, ?_, rfl⟩
    rw [hplain, List.getElem?_map, hi]
    rfl
  · exact fun key => ChainCache.contains_iff.trans (hrem.keys key)
  · rw [hrem.lookups, Operation.length_flatMap_keys]
  · rw [hplain]
    rfl

/-- Frame 1 called frame 2, which called frame 3. -/
def twoCalls : FactBase where
  toList := [⟨.calls, [.int 1, .int 2]⟩, ⟨.calls, [.int 2, .int 3]⟩]
  wellFormed := by decide

/-- Both chains of frame 2, one of them again, and the chain of frame 3. -/
def repeatedLookups : List Operation :=
  [.relationship 2, .chain 2 .callees, .path 1 3, .chain 3 .callees]

theorem remembering_invisible_repeatedLookups :
    let remembering := fresh twoCalls { rememberChains := true }
    let plain := fresh twoCalls { rememberChains := false }
    let cache := (remembering.performAll repeatedLookups).2.cache
    (repeatedLookups[1]? = some (.chain 2 .callees) ∧
      (.chain 2 .callees : Operation) ≠ .counters) ∧
    (remembering.performAll repeatedLookups).1[1]? = (plain.performAll repeatedLookups).1[1]? ∧
    cache.misses = 3 ∧ cache.size = 3 ∧ cache.hits = 1 ∧
    (plain.performAll repeatedLookups).2.cache = .empty := by
  intro remembering plain cache
  obtain ⟨hreplies, -, -, hmisses, hsize, hlookups, hplain⟩ :=
    remembering_invisible twoCalls {} repeatedLookups
  have hasked : repeatedLookups[1]? = some (.chain 2 .callees) ∧
      (.chain 2 .callees : Operation) ≠ .counters := ⟨rfl, by decide⟩
  obtain ⟨hleft, hright, -⟩ := hreplies 1 _ hasked.1 hasked.2
  have hthree : cache.size = 3 := hsize
  have hmiss : cache.misses = 3 := hmisses.trans hthree
  have hfour : cache.hits + cache.misses = 4 := hlookups
  exact ⟨hasked, hleft.trans hright.symm, hmiss, hthree, by omega, hplain⟩

end Session

end FrameLog
