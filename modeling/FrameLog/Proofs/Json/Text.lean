import FrameLog.Json.Reader
import Mathlib.Data.List.TakeDrop

/-!
# Reading what was written

The text of a JSON value is read back as that value, when its numbers are whole and no string in it
holds half a surrogate pair.
-/

namespace FrameLog

/-! ## Numbers -/

theorem Decimal.isDigit_of_mem_digits {n : Nat} {c : Char} (h : c ∈ digits n) : c.isDigit = true :=
  Nat.isDigit_of_mem_toDigits (by decide) (by decide) h

theorem Decimal.digits_ne_nil (n : Nat) : digits n ≠ [] := Nat.toDigits_ne_nil

/-- Only zero is written with a leading zero. -/
theorem Decimal.exists_digits_cons {n : Nat} (h : 0 < n) : ∃ c ds, digits n = c :: ds ∧ c ≠ '0' := by
  induction n using Nat.strongRecOn with
  | _ n ih =>
      by_cases hn : n < 10
      · refine ⟨n.digitChar, [], Nat.toDigits_of_lt_base hn, ?_⟩
        have hdigit : ∀ k < 10, 0 < k → Nat.digitChar k ≠ '0' := by decide
        exact hdigit n hn h
      · obtain ⟨c, ds, hds, hc⟩ := ih (n / 10) (by omega) (by omega)
        refine ⟨c, ds ++ [(n % 10).digitChar], ?_, hc⟩
        have hsplit : digits n = digits (n / 10) ++ [(n % 10).digitChar] :=
          Nat.toDigits_of_base_le (by decide) (by omega)
        rw [hsplit, hds, List.cons_append]

namespace Json

/-- The text does not begin with a character that would continue a number. -/
def Stops (rest : List Char) : Prop :=
  ∀ c ∈ rest.head?, c.isDigit = false ∧ c ≠ '.' ∧ c ≠ 'e' ∧ c ≠ 'E'

namespace Number

variable {rest : List Char}

theorem readDigits?_append {ds : List Char} (hne : ds ≠ []) (hds : ∀ c ∈ ds, c.isDigit = true)
    (hrest : Stops rest) : readDigits? (ds ++ rest) = some (ds, rest) := by
  have hnone : rest.takeWhile Char.isDigit = [] ∧ rest.dropWhile Char.isDigit = rest := by
    cases rest with
    | nil => exact ⟨rfl, rfl⟩
    | cons c rest =>
        have hc := (hrest c rfl).1
        exact ⟨List.takeWhile_cons_of_neg (by simp [hc]), List.dropWhile_cons_of_neg (by simp [hc])⟩
  rw [readDigits?, List.span_eq_takeWhile_dropWhile, List.takeWhile_append_of_pos hds,
    List.dropWhile_append_of_pos hds, hnone.1, hnone.2, List.append_nil]
  simp [hne]

theorem readPlaces?_of_stops (hrest : Stops rest) : readPlaces? rest = some ([], rest) := by
  unfold readPlaces?
  split
  · rename_i c rest
    exact absurd rfl (hrest '.' rfl).2.1
  · rfl

theorem readExponent?_of_stops (hrest : Stops rest) : readExponent? rest = some (none, rest) := by
  cases rest with
  | nil => rfl
  | cons c rest =>
      obtain ⟨-, -, he, hE⟩ := hrest c rfl
      simp [readExponent?, he, hE]

theorem write_ofInt (i : Int) :
    (ofInt i).write = (if i < 0 then ['-'] else []) ++ Decimal.digits i.natAbs := by
  simp [ofInt, write]

/-- The sign and the digits of a whole number are read back. -/
theorem read?_ofInt (i : Int) (hrest : Stops rest) :
    read? ((ofInt i).write ++ rest) = some (ofInt i, rest) := by
  have hall : ∀ c ∈ Decimal.digits i.natAbs, c.isDigit = true := fun c =>
    Decimal.isDigit_of_mem_digits
  have hdigits := readDigits?_append (Decimal.digits_ne_nil i.natAbs) hall hrest
  have hplaces := readPlaces?_of_stops hrest
  have hexponent := readExponent?_of_stops hrest
  rw [write_ofInt]
  rcases Nat.eq_zero_or_pos i.natAbs with hzero | hpos
  · obtain rfl := Int.natAbs_eq_zero.mp hzero
    simp [read?, ofInt, Decimal.digits, hplaces, hexponent]
  · obtain ⟨c, ds, hds, hc⟩ := Decimal.exists_digits_cons hpos
    have hminus : c ≠ '-' := by
      rintro rfl
      exact absurd (hall '-' (by simp [hds])) (by decide)
    rw [hds, List.cons_append] at hdigits
    by_cases hneg : i < 0 <;>
      simp [read?, ofInt, hneg, hds, hc, hminus, hdigits, hplaces, hexponent]

end Number

/-! ## Strings -/

theorem unit?_hexDigit {n : Nat} (h : n < 32) :
    unit? '0' '0' (hexDigit (n / 16)) (hexDigit (n % 16)) = some n := by
  have hall : ∀ n < 32, unit? '0' '0' (hexDigit (n / 16)) (hexDigit (n % 16)) = some n := by decide
  exact hall n h

/-- A character is written as an escape of one letter, as a unit, or as itself. -/
theorem writeChar_cases (c : Char) :
    (∃ e, writeChar c = ['\\', e] ∧ e ≠ 'u' ∧ escaped? e = some c) ∨
    (writeChar c = ['\\', 'u', '0', '0', hexDigit (c.toNat / 16), hexDigit (c.toNat % 16)] ∧
      c.toNat < 0x20) ∨
    (writeChar c = [c] ∧ c ≠ '"' ∧ c ≠ '\\' ∧ ¬ c.toNat < 0x20) := by
  unfold writeChar
  split_ifs with hquote hback hn hr ht hb hf hcontrol
  -- all but the last two cases are about one character with an escape of its own
  any_goals exact .inl ⟨_, rfl, by decide, by subst_vars; rfl⟩
  case pos => exact .inr (.inl ⟨rfl, hcontrol⟩)
  case neg => exact .inr (.inr ⟨rfl, hquote, hback, hcontrol⟩)

/-- A written character is read as one piece, which stands for it. -/
theorem exists_piece (c : Char) : ∃ piece,
    (∀ cs, readPieces? (writeChar c ++ cs) =
      (readPieces? cs).map fun (pieces, rest) => (piece :: pieces, rest)) ∧
    (∀ pieces, joinPieces? (piece :: pieces) = (joinPieces? pieces).map (c :: ·)) := by
  rcases writeChar_cases c with
    ⟨e, hwrite, hu, he⟩ | ⟨hwrite, hcontrol⟩ | ⟨hwrite, hquote, hback, hplain⟩
  · refine ⟨.char c, fun cs => ?_, fun pieces => rfl⟩
    rw [hwrite]
    cases h : readPieces? cs <;> simp [readPieces?, hu, he, h]
  · refine ⟨.unit c.toNat, fun cs => ?_, fun pieces => ?_⟩
    · rw [hwrite]
      cases h : readPieces? cs <;> simp [readPieces?, unit?_hexDigit hcontrol, h]
    · have hhigh : isHighHalf c.toNat = false := by simp [isHighHalf]; omega
      have hlow : isLowHalf c.toNat = false := by simp [isLowHalf]; omega
      rw [joinPieces?.eq_def]
      simp [hhigh, hlow]
  · refine ⟨.char c, fun cs => ?_, fun pieces => rfl⟩
    rw [hwrite]
    cases h : readPieces? cs <;> simp [readPieces?, hback, hplain, h]

/-- The pieces of a written text, up to the closing quote, stand for the text. -/
theorem exists_pieces (cs rest : List Char) : ∃ pieces,
    readPieces? (cs.flatMap writeChar ++ '"' :: rest) = some (pieces, rest) ∧
    joinPieces? pieces = some cs := by
  induction cs with
  | nil => exact ⟨[], by simp [readPieces?], rfl⟩
  | cons c cs ih =>
      obtain ⟨pieces, hread, hjoin⟩ := ih
      obtain ⟨piece, hreads, hjoins⟩ := exists_piece c
      refine ⟨piece :: pieces, ?_, ?_⟩
      · rw [List.flatMap_cons, List.append_assoc, hreads, hread]
        rfl
      · rw [hjoins, hjoin]
        rfl

theorem readString?_writeString (s : String) (rest : List Char) :
    readString? (s.toList.flatMap writeChar ++ '"' :: rest) = some (some s, rest) := by
  obtain ⟨pieces, hread, hjoin⟩ := exists_pieces s.toList rest
  rw [readString?, hread]
  simp [hjoin]

/-! ## Values -/

/-- The numbers are whole, and every string has a text. -/
inductive Plain : Json → Prop
  | null : Plain null
  | bool (b : Bool) : Plain (bool b)
  | number (i : Int) : Plain (number (Number.ofInt i))
  | str (s : String) : Plain (str s)
  | array {items : List Json} (h : ∀ j ∈ items, Plain j) : Plain (array items)
  | obj {members : List (String × Json)} (h : ∀ m ∈ members, Plain m.2) : Plain (obj members)

/-- With fuel for its length, the text of the value is read back. -/
def Reads (j : Json) : Prop :=
  ∀ fuel rest, j.write.length ≤ fuel → Stops rest →
    readValue? fuel (j.write ++ rest) = some (j, rest)

/-- The text of the value begins with a character that is no space and closes no array. -/
def Opens (j : Json) : Prop := ∃ c cs, j.write = c :: cs ∧ isSpace c = false ∧ c ≠ ']'

theorem skipSpace_cons {c : Char} (h : isSpace c = false) (cs : List Char) :
    skipSpace (c :: cs) = c :: cs :=
  List.dropWhile_cons_of_neg (by simp [h])

theorem stops_cons {c : Char} (h : c = ',' ∨ c = ']' ∨ c = '\x7d') (cs : List Char) :
    Stops (c :: cs) := by
  rintro _ ⟨⟩
  rcases h with rfl | rfl | rfl <;> decide

theorem stops_writeItems (items : List Json) (rest : List Char) :
    Stops (writeItems items ++ rest) := by
  cases items with
  | nil => exact stops_cons (by decide) _
  | cons j items => exact stops_cons (by decide) _

theorem stops_writeMembers (members : List (Option String × Json)) (rest : List Char) :
    Stops (writeMembers members ++ rest) := by
  cases members with
  | nil => exact stops_cons (by decide) _
  | cons m members => exact stops_cons (by decide) _

/-- A value that has a beginning is read when there is fuel at all. -/
theorem Opens.reads {j : Json} (hopen : j.Opens)
    (h : ∀ fuel rest, j.write.length ≤ fuel + 1 → Stops rest →
      readValue? (fuel + 1) (j.write ++ rest) = some (j, rest)) : j.Reads := by
  intro fuel rest hfuel hrest
  obtain ⟨c, cs, hwrite, -⟩ := hopen
  cases fuel with
  | zero => simp [hwrite] at hfuel
  | succ fuel => exact h fuel rest hfuel hrest

/-! ### Words, numbers and strings -/

theorem opens_null : null.Opens := ⟨_, _, rfl, by decide⟩

theorem reads_null : null.Reads :=
  opens_null.reads fun fuel rest _ _ => by
    simp (disch := decide) [write, readValue?, skipSpace_cons]

theorem opens_bool (b : Bool) : (bool b).Opens := by cases b <;> exact ⟨_, _, rfl, by decide⟩

theorem reads_bool (b : Bool) : (bool b).Reads :=
  (opens_bool b).reads fun fuel rest _ _ => by
    cases b <;> simp (disch := decide) [write, readValue?, skipSpace_cons]

theorem Number.exists_write_cons (i : Int) :
    ∃ c cs, (ofInt i).write = c :: cs ∧ (c = '-' ∨ c.isDigit = true) := by
  obtain ⟨c, cs, hdigits⟩ := List.exists_cons_of_ne_nil (Decimal.digits_ne_nil i.natAbs)
  rw [write_ofInt, hdigits]
  by_cases hneg : i < 0
  · exact ⟨'-', c :: cs, by rw [if_pos hneg]; rfl, .inl rfl⟩
  · refine ⟨c, cs, by rw [if_neg hneg]; rfl, .inr ?_⟩
    exact Decimal.isDigit_of_mem_digits (hdigits ▸ List.mem_cons_self)

theorem isSpace_of_number {c : Char} (hc : c = '-' ∨ c.isDigit = true) : isSpace c = false := by
  rw [← Bool.not_eq_true]
  intro hspace
  simp only [isSpace, Bool.or_eq_true, beq_iff_eq] at hspace
  rcases hspace with ((rfl | rfl) | rfl) | rfl <;> simp at hc

theorem opens_number (i : Int) : (number (Number.ofInt i)).Opens := by
  obtain ⟨c, cs, hwrite, hc⟩ := Number.exists_write_cons i
  refine ⟨c, cs, hwrite, isSpace_of_number hc, ?_⟩
  rintro rfl
  simp at hc

/-- A value that begins like a number is one. -/
theorem readValue?_number {c : Char} (hc : c = '-' ∨ c.isDigit = true) (fuel : Nat) (cs : List Char) :
    readValue? (fuel + 1) (c :: cs) =
      (Number.read? (c :: cs)).map fun (n, rest) => (number n, rest) := by
  rw [readValue?, skipSpace_cons (isSpace_of_number hc)]
  split
  all_goals first | rfl | (rename_i heq; cases heq; simp at hc)

theorem reads_number (i : Int) : (number (Number.ofInt i)).Reads := by
  refine (opens_number i).reads fun fuel rest _ hrest => ?_
  obtain ⟨c, cs, hwrite, hc⟩ := Number.exists_write_cons i
  have hread := Number.read?_ofInt i hrest
  rw [hwrite] at hread
  rw [write, hwrite, List.cons_append, readValue?_number hc, ← List.cons_append, hread]
  rfl

theorem opens_str (s : String) : (str s).Opens := ⟨_, _, rfl, by decide⟩

theorem reads_str (s : String) : (str s).Reads := by
  refine (opens_str s).reads fun fuel rest _ _ => ?_
  simp (disch := decide) [str, write, writeString, readValue?, skipSpace_cons,
    readString?_writeString]

/-! ### Arrays and objects -/

theorem readItems?_write {j : Json} {items : List Json} (hj : j.Reads) (hitems : ∀ i ∈ items, i.Reads)
    {fuel : Nat} (rest : List Char) (hfuel : (j.write ++ writeItems items).length ≤ fuel) :
    readItems? fuel (j.write ++ (writeItems items ++ rest)) = some (j :: items, rest) := by
  -- an item costs one unit of fuel, which the comma or the bracket after it pays for
  induction items generalizing j fuel with
  | nil =>
      rw [List.length_append, writeItems, List.length_singleton] at hfuel
      obtain ⟨fuel, rfl⟩ := Nat.exists_eq_succ_of_ne_zero (by omega : fuel ≠ 0)
      rw [readItems?, hj fuel _ (by omega) (stops_writeItems [] rest)]
      simp (disch := decide) [writeItems, skipSpace_cons]
  | cons i items ih =>
      obtain ⟨hi, hitems⟩ := List.forall_mem_cons.mp hitems
      rw [List.length_append, writeItems, List.length_cons] at hfuel
      obtain ⟨fuel, rfl⟩ := Nat.exists_eq_succ_of_ne_zero (by omega : fuel ≠ 0)
      have hread : readItems? fuel _ = _ := ih hi hitems (by omega)
      rw [readItems?, hj fuel _ (by omega) (stops_writeItems (i :: items) rest)]
      simp (disch := decide) [writeItems, skipSpace_cons, hread]

theorem opens_array (items : List Json) : (array items).Opens := by
  cases items <;> exact ⟨_, _, rfl, by decide⟩

/-- What does not close at once is read item by item. -/
theorem readValue?_array {c : Char} (hspace : isSpace c = false) (hclose : c ≠ ']') (fuel : Nat)
    (cs : List Char) : readValue? (fuel + 1) ('[' :: c :: cs) =
      (readItems? fuel (c :: cs)).map fun (items, rest) => (array items, rest) := by
  simp (disch := decide) only [readValue?, skipSpace_cons]
  rw [skipSpace_cons hspace]
  split
  · rename_i heq
    cases heq
    exact absurd rfl hclose
  · rfl

theorem reads_array {items : List Json} (h : ∀ j ∈ items, j.Opens ∧ j.Reads) :
    (array items).Reads := by
  refine (opens_array items).reads fun fuel rest hfuel _ => ?_
  cases items with
  | nil => simp (disch := decide) [write, readValue?, skipSpace_cons]
  | cons j items =>
      obtain ⟨⟨⟨c, cs, hwrite, hspace, hclose⟩, hj⟩, hitems⟩ := List.forall_mem_cons.mp h
      have hread := readItems?_write hj (fun i hi => (hitems i hi).2) rest
        (Nat.le_of_succ_le_succ hfuel)
      rw [hwrite, List.cons_append] at hread
      rw [write, hwrite, List.cons_append, List.cons_append, List.cons_append, List.append_assoc,
        readValue?_array hspace hclose, hread]
      rfl

/-- The members of an object that all have names. -/
def named (members : List (String × Json)) : List (Option String × Json) :=
  members.map fun (name, value) => (some name, value)

theorem named_cons (name : String) (j : Json) (members : List (String × Json)) :
    named ((name, j) :: members) = (some name, j) :: named members := rfl

section

variable {name : String} {j : Json} {fuel : Nat} {cs cs' rest : List Char}
  {members : List (Option String × Json)}

theorem readMembers?_last (hread : readValue? fuel cs = some (j, '\x7d' :: rest)) :
    readMembers? (fuel + 1) (writeString (some name) ++ ':' :: cs) = some ([(some name, j)], rest) := by
  simp (disch := decide)
    [readMembers?, writeString, skipSpace_cons, readString?_writeString, hread]

theorem readMembers?_next (hread : readValue? fuel cs = some (j, ',' :: cs'))
    (hnext : readMembers? fuel cs' = some (members, rest)) :
    readMembers? (fuel + 1) (writeString (some name) ++ ':' :: cs) =
      some ((some name, j) :: members, rest) := by
  simp (disch := decide)
    [readMembers?, writeString, skipSpace_cons, readString?_writeString, hread, hnext]

end

theorem readMembers?_write {name : String} {j : Json} {members : List (String × Json)} (hj : j.Reads)
    (hmembers : ∀ m ∈ members, m.2.Reads) {fuel : Nat} (rest : List Char)
    (hfuel : (j.write ++ writeMembers (named members)).length ≤ fuel) :
    readMembers? fuel (writeString (some name) ++
        ':' :: (j.write ++ (writeMembers (named members) ++ rest))) =
      some (named ((name, j) :: members), rest) := by
  have hstops := stops_writeMembers (named members) rest
  induction members generalizing name j fuel with
  | nil =>
      rw [named, List.map_nil, writeMembers] at hfuel hstops ⊢
      rw [List.length_append, List.length_singleton] at hfuel
      obtain ⟨fuel, rfl⟩ := Nat.exists_eq_succ_of_ne_zero (by omega : fuel ≠ 0)
      exact readMembers?_last (hj fuel _ (by omega) hstops)
  | cons m members ih =>
      obtain ⟨key, i⟩ := m
      obtain ⟨hi, hmembers⟩ := List.forall_mem_cons.mp hmembers
      rw [named_cons, writeMembers] at hfuel hstops ⊢
      rw [List.length_append, List.length_cons, List.length_append, List.length_cons] at hfuel
      obtain ⟨fuel, rfl⟩ := Nat.exists_eq_succ_of_ne_zero (by omega : fuel ≠ 0)
      have hnext : readMembers? fuel _ = some (named ((key, i) :: members), rest) :=
        ih hi hmembers (by dsimp only; omega) (stops_writeMembers _ rest)
      have hread := hj fuel _ (by omega) hstops
      simp only [List.append_assoc, List.cons_append] at hread ⊢
      exact readMembers?_next hread hnext

theorem opens_obj (members : List (String × Json)) : (obj members).Opens := by
  cases members <;> exact ⟨_, _, rfl, by decide⟩

theorem readValue?_object (fuel : Nat) (cs : List Char) : readValue? (fuel + 1) ('\x7b' :: '"' :: cs) =
    (readMembers? fuel ('"' :: cs)).map fun (members, rest) => (object members, rest) := by
  simp (disch := decide) only [readValue?, skipSpace_cons]
  rfl

theorem reads_obj {members : List (String × Json)} (h : ∀ m ∈ members, m.2.Reads) :
    (obj members).Reads := by
  refine (opens_obj members).reads fun fuel rest hfuel _ => ?_
  cases members with
  | nil => simp (disch := decide) [obj, write, readValue?, skipSpace_cons]
  | cons m members =>
      obtain ⟨name, j⟩ := m
      obtain ⟨hj, hmembers⟩ := List.forall_mem_cons.mp h
      have hobj : obj ((name, j) :: members) = object ((some name, j) :: named members) := rfl
      rw [hobj, write] at hfuel ⊢
      rw [List.length_cons, List.length_append, List.length_cons] at hfuel
      have hread : readMembers? fuel (writeString (some name) ++ _) = _ :=
        readMembers?_write hj hmembers rest (by dsimp only; omega)
      simp only [writeString, List.cons_append, List.append_assoc, readValue?_object] at hread ⊢
      rw [hread]
      rfl

/-! ### Whole texts -/

theorem Plain.opens_reads {j : Json} (h : j.Plain) : j.Opens ∧ j.Reads := by
  induction h with
  | null => exact ⟨opens_null, reads_null⟩
  | bool b => exact ⟨opens_bool b, reads_bool b⟩
  | number i => exact ⟨opens_number i, reads_number i⟩
  | str s => exact ⟨opens_str s, reads_str s⟩
  | array _ ih => exact ⟨opens_array _, reads_array ih⟩
  | obj _ ih => exact ⟨opens_obj _, reads_obj fun m hm => (ih m hm).2⟩

/-- The text of a plain value is read back as the value. -/
theorem Plain.read?_text {j : Json} (h : j.Plain) : read? j.text = some j := by
  have hread := h.opens_reads.2 (2 * j.write.length + 2) [] (by omega) (by rintro _ ⟨⟩)
  rw [List.append_nil] at hread
  simp [read?, text, hread, skipSpace]

end FrameLog.Json
