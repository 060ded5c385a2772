/-!
# Named things, predicates and vocabularies

Finite kinds whose members are written by name: predicates, statuses, directions, scenarios and the
like. The predicates are the five relations that a trace is described with, and a vocabulary is a set
of them that a session accepts.
-/

namespace FrameLog

/-! ## Named things -/

/-- A finite kind: its members, and the name that each is written with. -/
class Named (α : Type) where
  /-- Every member, in the order in which they are listed. -/
  all : List α
  /-- The written form of a member. -/
  name : α → String
  mem_all : ∀ a, a ∈ all
  name_inj : ∀ a b, name a = name b → a = b

namespace Named

variable {α : Type} [Named α]

/-- The member with the given name. -/
def find? (s : String) : Option α := (all : List α).find? (name · == s)

theorem find?_name (a : α) : find? (name a) = some a := by
  unfold find?
  cases h : (all : List α).find? (name · == name a) with
  | none => exact absurd (List.find?_eq_none.mp h a (mem_all a)) (by simp)
  | some b =>
    have hb := List.find?_some h
    rw [name_inj b a (by simpa using hb)]

theorem find?_eq_some_iff {s : String} {a : α} : find? s = some a ↔ s = name a := by
  constructor
  · intro h
    have hname : name a = s := by simpa using List.find?_some h
    exact hname.symm
  · rintro rfl
    exact find?_name a

end Named

/-! ## Predicates -/

/-- A relation between the frames of a trace and their properties. -/
inductive Predicate where
  /-- `allocated(Frame, Bytes)` -/
  | allocated
  /-- `calls(Caller, Callee)` -/
  | calls
  /-- `frame(Frame, Function, Time, Status)` -/
  | frame
  /-- `param(Frame, Parameter, Value)` -/
  | param
  /-- `status(Frame, Status)` -/
  | status
deriving DecidableEq

namespace Predicate

/-- The name written in queries. -/
def name : Predicate → String
  | allocated => "allocated"
  | calls => "calls"
  | frame => "frame"
  | param => "param"
  | status => "status"

/-- The predicates are listed in the order of their names. -/
instance : Named Predicate where
  all := [allocated, calls, frame, param, status]
  name := name
  mem_all p := by cases p <;> decide
  name_inj p q h := by cases p <;> cases q <;> first | rfl | exact absurd h (by decide)

/-- The number of values in every fact of the predicate. -/
def arity : Predicate → Nat
  | allocated => 2
  | calls => 2
  | frame => 4
  | param => 3
  | status => 2

end Predicate

/-! ## Vocabularies -/

/-- The set of predicates that queries may use. -/
structure Vocabulary where
  accepts : Predicate → Bool

namespace Vocabulary

/-- The vocabulary of the listed predicates. -/
def ofList (ps : List Predicate) : Vocabulary := ⟨ps.contains⟩

/-- Every predicate. -/
def full : Vocabulary := ⟨fun _ => true⟩

/-- The accepted predicates, each once, in the order of their names. -/
def toList (v : Vocabulary) : List Predicate := (Named.all : List Predicate).filter v.accepts

/-- The accepted names in ascending order. -/
def names (v : Vocabulary) : List String := v.toList.map Predicate.name

/-- The accepted predicate with the given name. -/
def resolve? (v : Vocabulary) (name : String) : Option Predicate :=
  (Named.find? name).filter v.accepts

end Vocabulary

end FrameLog
