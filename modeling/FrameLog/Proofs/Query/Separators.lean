import FrameLog.Proofs.Query.Conditions
import FrameLog.Proofs.Text.Lines

/-!
# Where a body is cut

A body is cut exactly at the commas outside all parentheses, those before which as many parentheses
were opened as closed. A single pass over the bytes that counts the depth in a machine word finds the
same segments, as long as the word is wide enough for the parentheses, and a query can be read from
what that pass finds.
-/

namespace FrameLog.Query
open Text

/-! ## Depth -/

/-- The change of depth along a text. -/
def depth : List Char → Int
  | [] => 0
  | c :: cs => depthStep c + depth cs

theorem depthStep_comma : depthStep ',' = 0 := by decide

/-- A character is a parenthesis of one kind or the other, or it changes nothing. -/
theorem depthStep_cases (c : Char) (cs : List Char) :
    (depthStep c = 1 ∧ (c :: cs).count '(' = cs.count '(' + 1 ∧
      (c :: cs).count ')' = cs.count ')') ∨
    (depthStep c = -1 ∧ (c :: cs).count '(' = cs.count '(' ∧
      (c :: cs).count ')' = cs.count ')' + 1) ∨
    (depthStep c = 0 ∧ (c :: cs).count '(' = cs.count '(' ∧
      (c :: cs).count ')' = cs.count ')') := by
  by_cases hopen : c = '('
  · left
    simp [hopen, depthStep]
  · by_cases hclose : c = ')'
    · right; left
      simp [hclose, depthStep]
    · right; right
      simp [hopen, hclose, depthStep]

theorem depth_eq_count (cs : List Char) : depth cs = cs.count '(' - cs.count ')' := by
  induction cs with
  | nil => rfl
  | cons c cs ih =>
      rw [depth, ih]
      rcases depthStep_cases c cs with ⟨hstep, hopen, hclose⟩ | ⟨hstep, hopen, hclose⟩ |
        ⟨hstep, hopen, hclose⟩ <;> omega

theorem depth_eq_zero_iff {cs : List Char} : depth cs = 0 ↔ cs.count '(' = cs.count ')' := by
  rw [depth_eq_count]
  omega

/-! ## Cuts -/

variable {d : Int} {front back : List Char}

/-- The comma between the two parts separates segments: some first ones are those of the part before
it, and the others are those of the part behind it. -/
def CutBetween (front back : List Char) : Prop :=
  ∃ before after, before ≠ [] ∧ after ≠ [] ∧
    segments (front ++ ',' :: back) = before ++ after ∧
    [','].intercalate before = front ∧ [','].intercalate after = back

/-- The places of the commas before which as many parentheses were opened as closed. -/
def outerCommas (body : List Char) : List Nat :=
  (List.range body.length).filter fun i =>
    body[i]? = some ',' ∧ (body.take i).count '(' = (body.take i).count ')'

theorem modifyHead_append {α : Type} {as : List α} (h : as ≠ []) (bs : List α) (f : α → α) :
    (as ++ bs).modifyHead f = as.modifyHead f ++ bs := by
  obtain ⟨a, as, rfl⟩ := List.exists_cons_of_ne_nil h
  rfl

/-- At a comma at depth zero the text is cut, whatever stands before it. -/
theorem segmentsFrom_append_comma (h : d + depth front = 0) (back : List Char) :
    segmentsFrom d (front ++ ',' :: back) = segmentsFrom d front ++ segmentsFrom 0 back := by
  induction front generalizing d with
  | nil =>
      obtain rfl : d = 0 := by simpa [depth] using h
      rfl
  | cons c front ih =>
      rw [depth, ← Int.add_assoc] at h
      rw [List.cons_append]
      by_cases hcomma : c = ',' ∧ d = 0
      · obtain ⟨rfl, rfl⟩ := hcomma
        rw [depthStep_comma, Int.add_zero] at h
        rw [segmentsFrom, if_pos ⟨rfl, rfl⟩, segmentsFrom, if_pos ⟨rfl, rfl⟩, ih h, List.cons_append]
      · rw [segmentsFrom_cons hcomma, segmentsFrom_cons hcomma, ih h,
          modifyHead_append (segmentsFrom_ne_nil _ front)]

/-- What stands before a cut ends at depth zero. -/
theorem depth_of_cut {cs : List Char} {before after : List (List Char)} (hbefore : before ≠ [])
    (hafter : after ≠ []) (h : segmentsFrom d cs = before ++ after) :
    d + depth ([','].intercalate before) = 0 := by
  induction cs generalizing d before with
  | nil =>
      obtain ⟨p, ps, rfl⟩ := List.exists_cons_of_ne_nil hbefore
      have hlen := congrArg List.length h
      simp only [segmentsFrom, List.cons_append, List.length_cons, List.length_append,
        List.length_nil] at hlen
      have hpos := List.length_pos_iff.mpr hafter
      omega
  | cons c cs ih =>
      obtain ⟨p, ps, rfl⟩ := List.exists_cons_of_ne_nil hbefore
      by_cases hcomma : c = ',' ∧ d = 0
      · obtain ⟨rfl, rfl⟩ := hcomma
        rw [segmentsFrom, if_pos ⟨rfl, rfl⟩, List.cons_append] at h
        obtain ⟨rfl, hrest⟩ := List.cons.inj h
        cases ps with
        | nil => rfl
        | cons q ps =>
            have hcut := ih (List.cons_ne_nil q ps) hrest
            rwa [List.intercalate_cons_cons, List.nil_append, List.singleton_append, depth,
              depthStep_comma, Int.zero_add]
      · obtain ⟨q, qs, hqs⟩ := List.exists_cons_of_ne_nil (segmentsFrom_ne_nil (d + depthStep c) cs)
        rw [segmentsFrom_cons hcomma, hqs, List.modifyHead_cons, List.cons_append] at h
        obtain ⟨rfl, rfl⟩ := List.cons.inj h
        have hcut := ih (List.cons_ne_nil q ps) hqs
        have hjoin : [','].intercalate ((c :: q) :: ps) = c :: [','].intercalate (q :: ps) :=
          intercalate_modifyHead_cons (List.cons_ne_nil q ps) c
        rw [hjoin, depth, ← Int.add_assoc]
        exact hcut

/-- A comma is a separator when as many parentheses were opened before it as closed. -/
theorem cutBetween_iff : CutBetween front back ↔ front.count '(' = front.count ')' := by
  rw [← depth_eq_zero_iff]
  constructor
  · rintro ⟨before, after, hbefore, hafter, h, rfl, -⟩
    simpa only [Int.zero_add] using depth_of_cut hbefore hafter h
  · intro h
    refine ⟨segments front, segments back, segmentsFrom_ne_nil 0 front, segmentsFrom_ne_nil 0 back,
      ?_, intercalate_segmentsFrom 0 front, intercalate_segmentsFrom 0 back⟩
    exact segmentsFrom_append_comma (by rw [h, Int.add_zero]) back

theorem length_segmentsFrom (d : Int) (cs : List Char) : (segmentsFrom d cs).length =
    ((List.range cs.length).filter fun i => cs[i]? = some ',' ∧ d + depth (cs.take i) = 0).length +
      1 := by
  induction cs generalizing d with
  | nil => rfl
  | cons c cs ih =>
      have hrest : ((List.range cs.length).filter
          ((fun i => decide ((c :: cs)[i]? = some ',' ∧ d + depth ((c :: cs).take i) = 0)) ∘
            Nat.succ)).length + 1 = (segmentsFrom (d + depthStep c) cs).length := by
        rw [ih]
        simp only [Function.comp_def, Nat.succ_eq_add_one, List.getElem?_cons_succ,
          List.take_succ_cons, depth, ← Int.add_assoc]
      rw [List.length_cons, List.range_succ_eq_map, List.filter_cons, List.filter_map]
      by_cases hcomma : c = ',' ∧ d = 0
      · obtain ⟨rfl, rfl⟩ := hcomma
        rw [depthStep_comma, Int.add_zero] at hrest
        rw [segmentsFrom, if_pos ⟨rfl, rfl⟩, List.length_cons, if_pos (by simp [depth]),
          List.length_cons, List.length_map, hrest]
      · rw [segmentsFrom_cons hcomma, List.length_modifyHead, if_neg (by simpa [depth] using hcomma),
          List.length_map, hrest]

theorem length_segments (body : List Char) :
    (segments body).length = (outerCommas body).length + 1 := by
  rw [segments, length_segmentsFrom, outerCommas]
  simp only [Int.zero_add, depth_eq_zero_iff]

/-! ## A single pass over the bytes -/

/-- The change of depth at a character, in a machine word. -/
def wordStep (c : Char) : Int32 :=
  if c = '(' then 1 else if c = ')' then -1 else 0

/-- Cuts the bytes of a text in one pass over its characters. The pass keeps the depth in a machine
word, the offset at which the segment begins and that of the next character. -/
def cutBytes (text : List UInt8) (depth : Int32) (start offset : Nat) :
    List Char → List (List UInt8)
  | [] => [text.drop start]
  | c :: cs =>
    let next := offset + c.utf8Size
    if c = ',' ∧ depth = 0 then
      (text.take offset).drop start :: cutBytes text depth (offset + 1) next cs
    else cutBytes text (depth + wordStep c) start next cs

/-- The number of parentheses of either kind. -/
def parentheses (cs : List Char) : Nat := cs.count '(' + cs.count ')'

theorem natAbs_add_depthStep_le (d : Int) (c : Char) (cs : List Char) :
    (d + depthStep c).natAbs + parentheses cs ≤ d.natAbs + parentheses (c :: cs) := by
  unfold parentheses
  rcases depthStep_cases c cs with ⟨hstep, hopen, hclose⟩ | ⟨hstep, hopen, hclose⟩ |
    ⟨hstep, hopen, hclose⟩ <;> omega

theorem toInt_wordStep (c : Char) : (wordStep c).toInt = depthStep c := by
  unfold wordStep depthStep
  split
  · rfl
  · split <;> rfl

theorem toInt_add_wordStep {word : Int32} {d : Int} (hword : word.toInt = d) (c : Char)
    (hroom : (d + depthStep c).natAbs < 2 ^ 31) : (word + wordStep c).toInt = d + depthStep c := by
  rw [Int32.toInt_add, hword, toInt_wordStep]
  apply Int.bmod_eq_of_le_mul_two <;> omega

theorem length_encode_singleton (c : Char) : (encode [c]).length = c.utf8Size := by
  rw [encode_cons, encode, List.flatMap_nil, List.append_nil, String.length_utf8EncodeChar]

/-- The bytes from one offset to another are those of the part of the text between them. -/
theorem drop_take_encode (done seg rest : List Char) :
    ((encode (done ++ seg ++ rest)).take ((encode done).length + (encode seg).length)).drop
      (encode done).length = encode seg := by
  rw [encode_append, encode_append, ← List.length_append, List.take_left, List.drop_left]

/-- The pass has read what is done and the beginning of a segment. What it finds in the rest is what
is cut from there at the depth that the word holds. -/
theorem cutBytes_eq {text : List UInt8} {word : Int32} {d : Int} (done seg : List Char)
    {rest : List Char} (htext : text = encode (done ++ seg ++ rest)) (hword : word.toInt = d)
    (hroom : d.natAbs + parentheses rest < 2 ^ 31) :
    cutBytes text word (encode done).length ((encode done).length + (encode seg).length) rest =
      ((segmentsFrom d rest).modifyHead (seg ++ ·)).map encode := by
  induction rest generalizing word d done seg with
  | nil =>
      rw [cutBytes, htext, List.append_nil, encode_append, List.drop_left, segmentsFrom,
        List.modifyHead_cons, List.append_nil, List.map_singleton]
  | cons c rest ih =>
      have hstep := natAbs_add_depthStep_le d c rest
      by_cases hcomma : c = ',' ∧ word = 0
      · obtain ⟨rfl, rfl⟩ := hcomma
        obtain rfl : d = 0 := hword.symm
        -- the next segment begins behind the comma
        have hdone : (encode (done ++ seg ++ [','])).length =
            (encode done).length + (encode seg).length + 1 := by
          rw [encode_append, encode_append, List.length_append, List.length_append,
            length_encode_singleton]
          rfl
        have hrest := ih (done ++ seg ++ [',']) [] (by rw [htext]; simp) hword (by omega)
        rw [hdone, ← Uncut.nil 0 rest, List.nil_append] at hrest
        rw [cutBytes, if_pos ⟨rfl, rfl⟩, segmentsFrom, if_pos ⟨rfl, rfl⟩, List.modifyHead_cons,
          List.append_nil, List.map_cons, ← hrest, htext, drop_take_encode]
        rfl
      · have hd : ¬ (c = ',' ∧ d = 0) := by
          rw [← hword]
          exact fun h => hcomma ⟨h.1, Int32.toInt_inj.mp h.2⟩
        have hseg : (encode (seg ++ [c])).length = (encode seg).length + c.utf8Size := by
          rw [encode_append, List.length_append, length_encode_singleton]
        have hrest := ih done (seg ++ [c]) (by rw [htext]; simp)
          (toInt_add_wordStep hword c (by omega)) (by omega)
        rw [hseg, ← Nat.add_assoc] at hrest
        rw [cutBytes, if_neg hcomma, hrest, segmentsFrom_cons hd, List.modifyHead_modifyHead]
        simp only [Function.comp_def, List.append_assoc, List.singleton_append]

/-- From the beginning of a text the pass finds its segments. -/
theorem cutBytes_eq_segments {body : List Char} (hroom : parentheses body < 2 ^ 31) :
    cutBytes (encode body) 0 0 0 body = (segments body).map encode := by
  have hword : (0 : Int32).toInt = 0 := rfl
  have hpass := cutBytes_eq [] [] (rfl : encode body = _) hword (by simpa using hroom)
  rwa [← Uncut.nil 0 body] at hpass

/-- A body without a leading negation sign is read from the pieces that the pass finds in it: several
are the conditions of a compound question, and one is a goal. -/
theorem read_enclosed_eq_of_cutBytes (v : Vocabulary) {body : String} (hne : trim body.toList ≠ [])
    (hpositive : negatedPart? (trim body.toList) = none)
    (hroom : parentheses (trim body.toList) < 2 ^ 31) :
    ∃ pieces, pieces.map encode = cutBytes (encode (trim body.toList)) 0 0 0 (trim body.toList) ∧
      Query.read v ("?-" ++ body ++ ".") =
        (if 1 < pieces.length then (Conjunction.read v pieces).map Question.compound
          else (Goal.read v (trim body.toList)).map Question.simple).map
            (Query.mk ("?-" ++ body ++ ".")) := by
  refine ⟨segments (trim body.toList), (cutBytes_eq_segments hroom).symm, ?_⟩
  rw [read_enclosed]
  congr 1
  rw [Question.read, if_neg (by simpa using hne), hpositive]
  obtain ⟨p, ps, hsegments⟩ := List.exists_cons_of_ne_nil (segmentsFrom_ne_nil 0 (trim body.toList))
  rw [segments, hsegments]
  cases ps with
  | nil => rfl
  | cons q ps =>
      rw [if_pos (by simp)]
      rfl

/-! ## Exact segments -/

/-- The segments of a body are its pieces between the commas outside all parentheses. Joined they are
the body; a comma separates them exactly when as many parentheses were opened before it as closed, so
that there is one segment more than there are such commas; and none of them can be cut again. With
fewer than `2 ^ 31` parentheses, one pass over the bytes finds the same segments. -/
theorem segments_exact (body : List Char) :
    [','].intercalate (segments body) = body ∧
    (∀ front back, body = front ++ ',' :: back →
      (CutBetween front back ↔ front.count '(' = front.count ')')) ∧
    (segments body).length = (outerCommas body).length + 1 ∧
    (∀ s ∈ segments body, segments s = [s]) ∧
    (parentheses body < 2 ^ 31 →
      cutBytes (encode body) 0 0 0 body = (segments body).map encode) := by
  exact ⟨intercalate_segmentsFrom 0 body, fun front back _ => cutBetween_iff, length_segments body,
    fun s hs => segments_of_mem hs, cutBytes_eq_segments⟩

/-- Two conditions with parentheses that are not closed or not open, and a name beyond ASCII. -/
def garbledBody : List Char := "frame(1, π), a), b(,".toList

theorem segments_exact_garbledBody :
    segments garbledBody = ["frame(1, π)".toList, " a), b(".toList, []] ∧
    ¬ CutBetween "frame(1".toList " π), a), b(,".toList ∧
    outerCommas garbledBody = [11, 19] ∧ (segments garbledBody).length = 3 ∧
    segments " a), b(".toList = [" a), b(".toList] ∧
    cutBytes (encode garbledBody) 0 0 0 garbledBody =
      [encode "frame(1, π)".toList, encode " a), b(".toList, []] := by
  obtain ⟨-, hcut, hlength, hwhole, hbytes⟩ := segments_exact garbledBody
  have hsegments : segments garbledBody = ["frame(1, π)".toList, " a), b(".toList, []] := by decide
  have hcommas : outerCommas garbledBody = [11, 19] := by decide
  refine ⟨hsegments, ?_, hcommas, ?_, hwhole _ ?_, ?_⟩
  · rw [hcut "frame(1".toList " π), a), b(,".toList (by decide)]
    decide
  · rw [hlength, hcommas]
    rfl
  · rw [hsegments]
    decide
  · rw [hbytes (by decide), hsegments]
    rfl

end FrameLog.Query
