/-!
# Breadth-first search

Search in a finite graph that is given by the list of its nodes and the neighbours of each. A full
search yields every node it reaches in the order of discovery, each with the trail that led to it. A
search for one node stops when it finds it, and keeps no trails: it notes the node that each one was
found from, and goes back along these parents in the end.
-/

namespace FrameLog

variable {α : Type} [DecidableEq α]

/-- A walk from a start to its last node; the nodes before the last one stand latest first. -/
structure Trail (α : Type) where
  last : α
  before : List α
deriving DecidableEq

namespace Trail

/-- The trail that has not left its start. -/
def start (a : α) : Trail α := ⟨a, []⟩

/-- One step further. -/
def extend (t : Trail α) (a : α) : Trail α := ⟨a, t.last :: t.before⟩

/-- The nodes from the start to the last one. -/
def nodes (t : Trail α) : List α := (t.last :: t.before).reverse

end Trail

/-- The candidates that are still unreached, each once and in order, and what is then left. -/
def discover (unreached : List α) : List α → List α × List α
  | [] => ([], unreached)
  | a :: rest =>
    if a ∈ unreached then
      let (found, left) := discover (unreached.erase a) rest
      (a :: found, left)
    else discover unreached rest

/-- Discovery moves nodes and loses none. -/
theorem length_discover (unreached candidates : List α) :
    (discover unreached candidates).1.length + (discover unreached candidates).2.length =
      unreached.length := by
  induction candidates generalizing unreached with
  | nil => simp [discover]
  | cons a rest ih =>
    simp only [discover]
    split
    · rename_i h
      have herase := List.length_erase_of_mem h
      have hpos := List.length_pos_of_mem h
      have := ih (unreached.erase a)
      simp only [List.length_cons]
      omega
    · exact ih unreached

/-- The trails in the queue, followed by those that the search finds from them. The node at the head
of the queue is left by all its edges before the next one is looked at. -/
def explore (neighbours : α → List α) (unreached : List α) : List (Trail α) → List (Trail α)
  | [] => []
  | t :: queue =>
    let found := (discover unreached (neighbours t.last)).1
    let left := (discover unreached (neighbours t.last)).2
    t :: explore neighbours left (queue ++ found.map t.extend)
termination_by queue => queue.length + unreached.length
decreasing_by
  have := length_discover unreached (neighbours t.last)
  simp only [List.length_append, List.length_map, List.length_cons]
  omega

/-- The trails to the nodes within reach of the start, in the order of discovery; the first one is
the start itself. -/
def trails (nodes : List α) (neighbours : α → List α) (start : α) : List (Trail α) :=
  explore neighbours (nodes.eraseDups.erase start) [Trail.start start]

/-! ## Searching for one node -/

/-- Notes the node that others were found from. -/
def foundFrom (c : α) (found : List α) : List (α × α) := found.map fun a => (a, c)

/-- The parents of the nodes that a search finds up to its target, in the order of discovery. There
are none when the target is not found. -/
def seek (neighbours : α → List α) (target : α) (unreached : List α) (parents : List (α × α)) :
    List α → Option (List (α × α))
  | [] => none
  | c :: queue =>
    let found := (discover unreached (neighbours c)).1
    let left := (discover unreached (neighbours c)).2
    if target ∈ found then
      some (parents ++ foundFrom c (found.takeWhile (· ≠ target) ++ [target]))
    else seek neighbours target left (parents ++ foundFrom c found) (queue ++ found)
termination_by queue => queue.length + unreached.length
decreasing_by
  have := length_discover unreached (neighbours c)
  simp only [List.length_append, List.length_cons]
  omega

/-- The parents that a search from the start notes up to its target. -/
def parentsTo? (nodes : List α) (neighbours : α → List α) (start target : α) :
    Option (List (α × α)) :=
  seek neighbours target (nodes.eraseDups.erase start) [] [start]

/-- There are fewer notes without that of a node. -/
theorem length_eraseP_lt {parents : List (α × α)} {c p : α} (h : parents.lookup c = some p) :
    (parents.eraseP (·.1 == c)).length < parents.length := by
  obtain ⟨l, r, rfl, -⟩ := List.lookup_eq_some_iff.mp h
  have hmem : (c, p) ∈ l ++ (c, p) :: r := by simp
  have herase := List.length_eraseP_of_mem (p := (·.1 == c)) hmem (beq_self_eq_true c)
  have hpos := List.length_pos_of_mem hmem
  omega

/-- The nodes from the start to a node, followed by those that come after it: the way back goes from
parent to parent, and uses no parent twice. -/
def unwind (parents : List (α × α)) (start c : α) (after : List α) : List α :=
  if c = start then c :: after
  else match _ : parents.lookup c with
    | none => c :: after
    | some p => unwind (parents.eraseP (·.1 == c)) start p (c :: after)
termination_by parents.length
decreasing_by exact length_eraseP_lt ‹_›

end FrameLog
