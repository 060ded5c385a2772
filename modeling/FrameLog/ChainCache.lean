import FrameLog.CallGraph

/-!
# Remembered chains

A cache of call chains that counts its lookups. An entry is written once and never changes or leaves.
-/

namespace FrameLog

/-- A chain is remembered for a frame and a direction. -/
abbrev ChainKey := FrameId × Direction

/-- The remembered chains, with the numbers of lookups that found one and that did not. -/
structure ChainCache where
  /-- The entries in the order of writing; no key stands twice. -/
  entries : List (ChainKey × List FrameId)
  hits : Nat
  misses : Nat

namespace ChainCache

/-- Nothing remembered and nothing counted. -/
def empty : ChainCache := ⟨[], 0, 0⟩

/-- The remembered chain. -/
def find? (c : ChainCache) (key : ChainKey) : Option (List FrameId) := c.entries.lookup key

/-- A chain is remembered for the key. -/
def contains (c : ChainCache) (key : ChainKey) : Bool := (c.find? key).isSome

/-- The number of entries. -/
def size (c : ChainCache) : Nat := c.entries.length

/-- The remembered chain, and the cache with the lookup counted. -/
def get (c : ChainCache) (key : ChainKey) : Option (List FrameId) × ChainCache :=
  match c.find? key with
  | some chain => (some chain, { c with hits := c.hits + 1 })
  | none => (none, { c with misses := c.misses + 1 })

/-- Remembers a chain unless the key has one. -/
def insert (c : ChainCache) (key : ChainKey) (chain : List FrameId) : ChainCache :=
  if c.contains key then c else { c with entries := c.entries ++ [(key, chain)] }

/-- The remembered chain, or else the computed one, which is then remembered. The computation runs
only when nothing is remembered. -/
def getOrCompute {m : Type → Type} [Monad m] (c : ChainCache) (key : ChainKey)
    (compute : Unit → m (List FrameId)) : m (List FrameId × ChainCache) :=
  match c.get key with
  | (some chain, c) => return (chain, c)
  | (none, c) => do
    let chain ← compute ()
    return (chain, c.insert key chain)

end ChainCache

end FrameLog
