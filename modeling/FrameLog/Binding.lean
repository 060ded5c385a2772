import FrameLog.Value

/-!
# Bindings

A binding gives values to variables. It is a list of entries in ascending order of the names, so two
bindings with the same entries are equal.
-/

namespace FrameLog

/-- Values for variables, in ascending order of the names. -/
structure Binding where
  entries : List (String × Value)
  sorted : entries.Pairwise (·.1 < ·.1)
deriving DecidableEq

namespace Binding

/-! ## Entries in order -/

/-- Puts an entry at its place, in the stead of one with the same name. -/
def insertEntry (name : String) (value : Value) : List (String × Value) → List (String × Value)
  | [] => [(name, value)]
  | e :: rest =>
    if name < e.1 then (name, value) :: e :: rest
    else if name = e.1 then (name, value) :: rest
    else e :: insertEntry name value rest

theorem mem_insertEntry {name : String} {value : Value} {es : List (String × Value)}
    {e : String × Value} (h : e ∈ insertEntry name value es) : e = (name, value) ∨ e ∈ es := by
  induction es with
  | nil => simpa [insertEntry] using h
  | cons d rest ih =>
    simp only [insertEntry] at h
    split at h
    · simpa using h
    · split at h
      · rcases List.mem_cons.mp h with h | h
        · exact .inl h
        · exact .inr (List.mem_cons_of_mem _ h)
      · rcases List.mem_cons.mp h with rfl | h
        · exact .inr List.mem_cons_self
        · rcases ih h with h | h
          · exact .inl h
          · exact .inr (List.mem_cons_of_mem _ h)

theorem pairwise_insertEntry {name : String} {value : Value} {es : List (String × Value)}
    (h : es.Pairwise (·.1 < ·.1)) : (insertEntry name value es).Pairwise (·.1 < ·.1) := by
  induction es with
  | nil => simp [insertEntry]
  | cons d rest ih =>
    obtain ⟨hd, hrest⟩ := List.pairwise_cons.mp h
    simp only [insertEntry]
    split
    · rename_i hlt
      refine List.pairwise_cons.mpr ⟨fun e he => ?_, h⟩
      rcases List.mem_cons.mp he with rfl | he
      · exact hlt
      · exact String.lt_trans hlt (hd e he)
    · split
      · rename_i heq
        exact List.pairwise_cons.mpr ⟨fun e he => by simpa [heq] using hd e he, hrest⟩
      · rename_i hlt hne
        refine List.pairwise_cons.mpr ⟨fun e he => ?_, ih hrest⟩
        rcases mem_insertEntry he with rfl | he
        · exact Std.lt_of_le_of_ne (Std.not_lt.mp hlt) (Ne.symm hne)
        · exact hd e he

theorem lookup_insertEntry (name : String) (value : Value) (es : List (String × Value))
    (other : String) : (insertEntry name value es).lookup other =
      if other = name then some value else es.lookup other := by
  induction es with
  | nil => grind [insertEntry]
  | cons e rest ih => grind [insertEntry]

/-! ## Operations -/

/-- No values. -/
def empty : Binding := ⟨[], .nil⟩

/-- The value of a variable. -/
def get? (b : Binding) (name : String) : Option Value := b.entries.lookup name

@[simp] theorem get?_empty (name : String) : empty.get? name = none := rfl

/-- Gives a value to a variable. -/
def insert (b : Binding) (name : String) (value : Value) : Binding :=
  ⟨insertEntry name value b.entries, pairwise_insertEntry b.sorted⟩

theorem get?_insert (b : Binding) (name : String) (value : Value) (other : String) :
    (b.insert name value).get? other = if other = name then some value else b.get? other :=
  lookup_insertEntry name value b.entries other

/-- The binding of a list of entries; of two with the same name the later counts. -/
def ofList (entries : List (String × Value)) : Binding :=
  entries.foldl (fun b (name, value) => b.insert name value) empty

/-- The variables, in ascending order. -/
def keys (b : Binding) : List String := b.entries.map (·.1)

/-- The values, in the order of their variables. -/
def values (b : Binding) : List Value := b.entries.map (·.2)

def isEmpty (b : Binding) : Bool := b.entries.isEmpty

/-- The bindings have the same variables and agreeing values. -/
def agrees (a b : Binding) : Bool :=
  a.entries.length == b.entries.length &&
  (a.entries.zip b.entries).all fun (d, e) => d.1 == e.1 && d.2.agrees e.2

/-- Gives a value to a variable unless it has one that disagrees; one that agrees is kept. -/
def bind? (b : Binding) (name : String) (value : Value) : Option Binding :=
  match b.get? name with
  | none => some (b.insert name value)
  | some bound => if bound.agrees value then some b else none

/-- Both bindings together, unless they disagree on a shared variable. -/
def merge? (a b : Binding) : Option Binding :=
  b.entries.foldlM (fun merged (name, value) => merged.bind? name value) a

/-- The assignments as they are shown. -/
def text (b : Binding) : String :=
  ", ".intercalate (b.entries.map fun (name, value) => name ++ " = " ++ value.text)

end Binding

end FrameLog
