import FrameLog.Frame

/-!
# Fact bases

The facts of a trace in the order of their insertion. Each has the arity of its predicate.
-/

namespace FrameLog

/-- Facts in the order of their insertion. -/
structure FactBase where
  toList : List Fact
  wellFormed : ∀ f ∈ toList, f.WellFormed

namespace FactBase

/-- No facts. -/
def empty : FactBase := ⟨[], by simp⟩

/-- Appends a fact of the right arity; another is refused. -/
def insert (b : FactBase) (f : Fact) : Except Fault FactBase :=
  if h : f.WellFormed then
    return ⟨b.toList ++ [f], fun g hg => by
      rcases List.mem_append.mp hg with hg | hg
      · exact b.wellFormed g hg
      · rwa [List.mem_singleton.mp hg]⟩
  else throw (.arity f.predicate f.predicate.arity f.values.length)

theorem toList_insert {b b' : FactBase} {f : Fact} (h : b.insert f = .ok b') :
    b'.toList = b.toList ++ [f] := by
  unfold insert at h
  split at h
  · cases h
    rfl
  · cases h

/-- The first fault in a list of frame identifiers: a zero, or one that stood before. -/
def findFault? (seen : List FrameId) : List FrameId → Option Fault
  | [] => none
  | id :: rest =>
    if id = 0 then some (.invalidFrame id)
    else if seen.contains id then some (.duplicateFrame id)
    else findFault? (id :: seen) rest

/-- The facts of the frames, in order. The identifiers have to be distinct and not zero. -/
def ofFrames (frames : List Frame) : Except Fault FactBase :=
  match findFault? [] (frames.map (·.id)) with
  | some fault => throw fault
  | none => return ⟨frames.flatMap Frame.facts, fun f hf => by
      obtain ⟨frame, _, h⟩ := List.mem_flatMap.mp hf
      exact frame.wellFormed_facts f h⟩

/-- The facts of a predicate, in the order of their insertion. -/
def facts (b : FactBase) (p : Predicate) : List Fact := b.toList.filter (·.predicate == p)

/-- Some fact has the predicate. -/
def hasFacts (b : FactBase) (p : Predicate) : Bool := !(b.facts p).isEmpty

/-- The number of facts. -/
def size (b : FactBase) : Nat := b.toList.length

/-- The predicates that have facts, in the order of their names. -/
def predicates (b : FactBase) : List Predicate := (Named.all : List Predicate).filter b.hasFacts

/-- The number of facts of every predicate, in the order of their names. -/
def summary (b : FactBase) : List (Predicate × Nat) :=
  (Named.all : List Predicate).map fun p => (p, (b.facts p).length)

end FactBase

end FrameLog
