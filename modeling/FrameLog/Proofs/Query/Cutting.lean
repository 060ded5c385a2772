import FrameLog.Proofs.Query.Grammar
import Mathlib.Data.List.Forall2

/-! # Cutting lists at their commas

The two ways of cutting that the reader uses recover the items of a separated list. -/

namespace FrameLog
open Text

/-- Cutting loses nothing but the commas, and cuts before the rest of a list at its first comma. -/
structure Cuts {α : Type} (cut : List Char → List (List Char)) (Item : List Char → α → Prop) :
    Prop where
  ne_nil : ∀ cs, cut cs ≠ []
  join : ∀ cs, [','].intercalate (cut cs) = cs
  last : ∀ {p a}, Item (trim p) a → cut p = [p]
  first : ∀ {p a} rest, Item (trim p) a → cut (p ++ ',' :: rest) = p :: cut rest

section Cuts

variable {α : Type} {cut : List Char → List (List Char)} {Item : List Char → α → Prop}
  {cs : List Char} {as : List α}

theorem Cuts.forall₂_of_separated (hcut : Cuts cut Item) (hitem : ∀ {cs a}, Item cs a → Tight cs)
    (h : Separated Item cs as) : ∀ {w w'}, Blanks w → Blanks w' →
      List.Forall₂ (fun p a => Item (trim p) a) (cut (w ++ cs ++ w')) as := by
  induction h with
  | @one cs a h =>
      intro w w' hw hw'
      have hp : Item (trim (w ++ cs ++ w')) a := by rwa [trim_surround (hitem h) hw hw']
      rw [hcut.last hp]
      exact .cons hp .nil
  | @more cs v v' rest a as h hv hv' _ ih =>
      intro w w' hw hw'
      have hp : Item (trim (w ++ cs ++ v)) a := by rwa [trim_surround (hitem h) hw hv]
      have hsplit : w ++ (cs ++ v ++ ',' :: (v' ++ rest)) ++ w' =
          (w ++ cs ++ v) ++ ',' :: (v' ++ rest ++ w') := by
        simp only [List.append_assoc, List.cons_append]
      rw [hsplit, hcut.first _ hp]
      exact .cons hp (ih hv' hw')

theorem separated_of_forall₂ (hitem : ∀ {cs a}, Item cs a → Tight cs) (p : List Char)
    (ps : List (List Char)) (h : List.Forall₂ (fun p a => Item (trim p) a) (p :: ps) as) :
    Separated Item (trim ([','].intercalate (p :: ps))) as := by
  induction ps generalizing p as with
  | nil =>
      rcases h with - | ⟨hp, - | -⟩
      rw [List.intercalate_singleton]
      exact .one hp
  | cons q ps ih =>
      rcases h with - | ⟨hp, hps⟩
      have hrest := ih q hps
      rw [List.intercalate_cons_cons]
      -- the blanks beside the comma are those at the end of the piece and at the start of the rest
      obtain ⟨w, w', hw, hw', hpieces⟩ := exists_trim p
      obtain ⟨x, x', hx, hx', hjoin⟩ := exists_trim ([','].intercalate (q :: ps))
      have hmore := Separated.more hp hw' hx hrest
      have htrim := (trim_eq_iff (hmore.tight hitem)).mpr ⟨w, x', hw, hx', rfl⟩
      have hwhole : p ++ [','] ++ [','].intercalate (q :: ps) =
          w ++ (trim p ++ w' ++ ',' :: (x ++ trim ([','].intercalate (q :: ps)))) ++ x' := by
        conv_lhs => rw [hpieces, hjoin]
        simp only [List.append_assoc, List.cons_append, List.nil_append]
      rw [hwhole, htrim]
      exact hmore

/-- The pieces are items exactly when the text is a list of them. -/
theorem Cuts.forall₂_iff (hcut : Cuts cut Item) (hitem : ∀ {cs a}, Item cs a → Tight cs) :
    List.Forall₂ (fun p a => Item (trim p) a) (cut cs) as ↔ Separated Item (trim cs) as := by
  constructor
  · intro h
    obtain ⟨p, ps, hps⟩ := List.exists_cons_of_ne_nil (hcut.ne_nil cs)
    rw [hps] at h
    rw [← hcut.join cs, hps]
    exact separated_of_forall₂ hitem p ps h
  · intro h
    obtain ⟨w, w', hw, hw', heq⟩ := exists_trim cs
    rw [heq]
    exact hcut.forall₂_of_separated hitem h hw hw'

end Cuts

/-! ## Arguments -/

theorem ArgumentText.no_comma {p : List Char} {a : Term} (h : ArgumentText (trim p) a) :
    ∀ c ∈ p, (c == ',') = false := by
  refine forall_mem_of_trim (fun c hc => ?_) (fun c hc => ?_)
  · exact beq_eq_false_iff_ne.mpr (isBlank.plain hc).2.2
  · exact beq_eq_false_iff_ne.mpr (isWordChar.plain (h.wordChars c hc)).2.2.2

theorem cuts_arguments : Cuts (List.splitOnP (· == ',')) ArgumentText where
  ne_nil := List.splitOnP_ne_nil _
  join _ := List.intercalate_splitOn ','
  last h := List.splitOnP_eq_singleton h.no_comma
  first rest h := List.splitOnP_append_cons_of_forall_mem h.no_comma ',' rfl rest

/-! ## Conditions -/

namespace Query

theorem segmentsFrom_ne_nil (d : Int) (cs : List Char) : segmentsFrom d cs ≠ [] := by
  cases cs with
  | nil => exact List.cons_ne_nil _ _
  | cons c cs =>
      unfold segmentsFrom pushChar
      repeat' split
      all_goals exact List.cons_ne_nil _ _

theorem segmentsFrom_cons {d : Int} {c : Char} (h : ¬ (c = ',' ∧ d = 0)) (cs : List Char) :
    segmentsFrom d (c :: cs) = (segmentsFrom (d + depthStep c) cs).modifyHead (c :: ·) := by
  obtain ⟨p, ps, hps⟩ := List.exists_cons_of_ne_nil (segmentsFrom_ne_nil (d + depthStep c) cs)
  rw [segmentsFrom, if_neg h, hps]
  rfl

theorem intercalate_modifyHead_cons {ps : List (List Char)} (h : ps ≠ []) (c : Char) :
    [','].intercalate (ps.modifyHead (c :: ·)) = c :: [','].intercalate ps := by
  obtain ⟨p, ps, rfl⟩ := List.exists_cons_of_ne_nil h
  rw [List.modifyHead_cons]
  cases ps with
  | nil => rw [List.intercalate_singleton, List.intercalate_singleton]
  | cons q ps => simp only [List.intercalate_cons_cons, List.cons_append]

theorem intercalate_segmentsFrom (d : Int) (cs : List Char) :
    [','].intercalate (segmentsFrom d cs) = cs := by
  induction cs generalizing d with
  | nil => rfl
  | cons c cs ih =>
      by_cases h : c = ',' ∧ d = 0
      · obtain ⟨rfl, rfl⟩ := h
        obtain ⟨p, ps, hps⟩ := List.exists_cons_of_ne_nil (segmentsFrom_ne_nil 0 cs)
        rw [segmentsFrom, if_pos ⟨rfl, rfl⟩, hps, List.intercalate_cons_cons, ← hps, ih 0]
        rfl
      · rw [segmentsFrom_cons h, intercalate_modifyHead_cons (segmentsFrom_ne_nil _ cs), ih]

/-- The text is not cut when its reading begins at the depth `d`, and leads to the depth `e`. -/
def Uncut (d : Int) (cs : List Char) (e : Int) : Prop :=
  ∀ rest, segmentsFrom d (cs ++ rest) = (segmentsFrom e rest).modifyHead (cs ++ ·)

variable {d e f : Int} {cs ds : List Char}

theorem Uncut.nil (d : Int) : Uncut d [] d := by
  intro rest
  obtain ⟨p, ps, hps⟩ := List.exists_cons_of_ne_nil (segmentsFrom_ne_nil d rest)
  rw [List.nil_append, hps]
  rfl

theorem Uncut.append (h : Uncut d cs e) (h' : Uncut e ds f) : Uncut d (cs ++ ds) f := by
  intro rest
  rw [List.append_assoc, h, h', List.modifyHead_modifyHead]
  congr 1
  funext p
  exact (List.append_assoc cs ds p).symm

theorem Uncut.single {c : Char} (h : ¬ (c = ',' ∧ d = 0)) : Uncut d [c] (d + depthStep c) :=
  fun rest => segmentsFrom_cons h rest

theorem Uncut.of_plain (h : ∀ c ∈ cs, c ≠ '(' ∧ c ≠ ')' ∧ ¬ (c = ',' ∧ d = 0)) : Uncut d cs d := by
  induction cs with
  | nil => exact .nil d
  | cons c cs ih =>
      obtain ⟨hopen, hclose, hcomma⟩ := h c List.mem_cons_self
      have hstep : depthStep c = 0 := by rw [depthStep, if_neg hopen, if_neg hclose]
      have hfirst : Uncut d [c] d := by simpa only [hstep, Int.add_zero] using Uncut.single hcomma
      exact hfirst.append (ih fun x hx => h x (List.mem_cons_of_mem c hx))

theorem Uncut.segmentsFrom_eq (h : Uncut d cs e) : segmentsFrom d cs = [cs] := by
  have hall := h []
  rwa [List.append_nil, segmentsFrom, List.modifyHead_cons, List.append_nil] at hall

theorem Uncut.segments_eq (h : Uncut 0 cs 0) : segments cs = [cs] := h.segmentsFrom_eq

/-- Cutting a segment again leaves it whole; only the first one begins at the depth of the text. -/
theorem segmentsFrom_segment {p : List Char} {ps : List (List Char)}
    (h : segmentsFrom d cs = p :: ps) : segmentsFrom d p = [p] ∧ ∀ q ∈ ps, segments q = [q] := by
  induction cs generalizing d p ps with
  | nil =>
      obtain ⟨rfl, rfl⟩ := List.cons.inj h
      exact ⟨rfl, List.forall_mem_nil _⟩
  | cons c cs ih =>
      by_cases hcomma : c = ',' ∧ d = 0
      · obtain ⟨rfl, rfl⟩ := hcomma
        rw [segmentsFrom, if_pos ⟨rfl, rfl⟩] at h
        obtain ⟨rfl, rfl⟩ := List.cons.inj h
        obtain ⟨q, qs, hqs⟩ := List.exists_cons_of_ne_nil (segmentsFrom_ne_nil 0 cs)
        rw [hqs]
        exact ⟨rfl, List.forall_mem_cons.mpr (ih hqs)⟩
      · obtain ⟨q, qs, hqs⟩ := List.exists_cons_of_ne_nil (segmentsFrom_ne_nil (d + depthStep c) cs)
        rw [segmentsFrom_cons hcomma, hqs, List.modifyHead_cons] at h
        obtain ⟨rfl, rfl⟩ := List.cons.inj h
        obtain ⟨hq, hrest⟩ := ih hqs
        refine ⟨?_, hrest⟩
        rw [segmentsFrom_cons hcomma, hq, List.modifyHead_cons]

theorem segments_of_mem {s : List Char} (h : s ∈ segments cs) : segments s = [s] := by
  obtain ⟨p, ps, hps⟩ := List.exists_cons_of_ne_nil (segmentsFrom_ne_nil 0 cs)
  obtain ⟨hp, hrest⟩ := segmentsFrom_segment hps
  rw [segments, hps] at h
  rcases List.mem_cons.mp h with rfl | h
  · exact hp
  · exact hrest s h

end Query

theorem WordChars.uncut {cs : List Char} (h : WordChars cs) (d : Int) : Query.Uncut d cs d := by
  refine .of_plain fun c hc => ?_
  obtain ⟨-, hopen, hclose, hcomma⟩ := isWordChar.plain (h c hc)
  exact ⟨hopen, hclose, fun h => hcomma h.1⟩

theorem Text.Blanks.uncut {w : List Char} (h : Blanks w) (d : Int) : Query.Uncut d w d := by
  refine .of_plain fun c hc => ?_
  obtain ⟨hopen, hclose, hcomma⟩ := isBlank.plain (h c hc)
  exact ⟨hopen, hclose, fun h => hcomma h.1⟩

namespace Query

/-- Blanks at the end of a text belong to its last segment. -/
theorem exists_segmentsFrom_append_blanks {w : List Char} (hw : Blanks w) (d : Int)
    (cs : List Char) : ∃ front last, segmentsFrom d cs = front ++ [last] ∧
      segmentsFrom d (cs ++ w) = front ++ [last ++ w] := by
  induction cs generalizing d with
  | nil => exact ⟨[], [], rfl, (hw.uncut d).segmentsFrom_eq⟩
  | cons c cs ih =>
      by_cases hcomma : c = ',' ∧ d = 0
      · obtain ⟨front, last, hcs, hcsw⟩ := ih d
        refine ⟨[] :: front, last, ?_, ?_⟩
        · rw [segmentsFrom, if_pos hcomma, hcs, List.cons_append]
        · rw [List.cons_append, segmentsFrom, if_pos hcomma, hcsw, List.cons_append]
      · obtain ⟨front, last, hcs, hcsw⟩ := ih (d + depthStep c)
        rw [List.cons_append, segmentsFrom_cons hcomma, segmentsFrom_cons hcomma, hcs, hcsw]
        cases front with
        | nil => exact ⟨[], c :: last, rfl, rfl⟩
        | cons p front => exact ⟨(c :: p) :: front, last, rfl, rfl⟩

/-- The conditions of a text are those of the trimmed text. -/
theorem map_trim_segments (cs : List Char) :
    (segments (trim cs)).map trim = (segments cs).map trim := by
  obtain ⟨w, w', hw, hw', heq⟩ := exists_trim cs
  obtain ⟨front, last, htrim, hend⟩ := exists_segmentsFrom_append_blanks hw' 0 (trim cs)
  have hcs : segments cs = (front ++ [last ++ w']).modifyHead (w ++ ·) := by
    conv_lhs => rw [heq, List.append_assoc]
    rw [segments, hw.uncut 0, hend]
  rw [hcs, segments, htrim]
  have hlast : trim (last ++ w') = trim last := trim_blanks .nil hw' last
  cases front with
  | nil =>
      have hboth : trim (w ++ (last ++ w')) = trim last := by
        rw [← List.append_assoc]
        exact trim_blanks hw hw' last
      simp [hboth]
  | cons p front =>
      have hfirst : trim (w ++ p) = trim p := by simpa using trim_blanks hw .nil p
      simp [hfirst, hlast]

theorem segments_trim_of_mem {s : List Char} (h : s ∈ segments cs) :
    segments (trim s) = [trim s] := by
  have hone := map_trim_segments s
  rw [segments_of_mem h, List.map_singleton] at hone
  obtain ⟨p, hp, -⟩ := List.map_eq_singleton_iff.mp hone
  have hjoin : [','].intercalate (segments (trim s)) = trim s := intercalate_segmentsFrom 0 (trim s)
  rw [hp, List.intercalate_singleton] at hjoin
  rw [hp, hjoin]

end Query

variable {v : Vocabulary}

theorem GoalText.uncut {cs : List Char} {g : Goal} (h : GoalText v cs g) : Query.Uncut 0 cs 0 := by
  obtain ⟨-, h₁, h₂, h₃, hargs⟩ := h
  have hinner : Query.Uncut 1 _ 1 :=
    .of_plain fun c hc => ⟨(hargs.flat c hc).1, (hargs.flat c hc).2, fun h => absurd h.2 (by decide)⟩
  have hopen : Query.Uncut 0 ['('] 1 := .single (by decide)
  have hclose : Query.Uncut 1 [')'] 0 := .single (by decide)
  have hhead := (g.predicate.wordChars_name.uncut 0).append (h₁.uncut 0)
  have hpair := hopen.append (((h₂.uncut 1).append hinner).append (h₃.uncut 1))
  exact (hhead.append hpair).append hclose

theorem ConditionText.uncut {cs : List Char} {c : Condition} (h : ConditionText v cs c) :
    Query.Uncut 0 cs 0 := by
  cases h with
  | positive h => exact h.uncut
  | negated hw h =>
      have hslash : Query.Uncut 0 ['\\'] 0 := .single (by decide)
      have hplus : Query.Uncut 0 ['+'] 0 := .single (by decide)
      exact (hslash.append hplus).append ((hw.uncut 0).append h.uncut)

theorem ConditionText.uncut_of_trim {p : List Char} {c : Condition}
    (h : ConditionText v (trim p) c) : Query.Uncut 0 p 0 := by
  obtain ⟨w, w', hw, hw', heq⟩ := exists_trim p
  rw [heq]
  exact ((hw.uncut 0).append h.uncut).append (hw'.uncut 0)

theorem cuts_conditions (v : Vocabulary) : Cuts Query.segments (ConditionText v) where
  ne_nil := Query.segmentsFrom_ne_nil 0
  join := Query.intercalate_segmentsFrom 0
  last h := h.uncut_of_trim.segments_eq
  first {p _} rest h := by
    have hcut := h.uncut_of_trim (',' :: rest)
    rw [Query.segmentsFrom, if_pos ⟨rfl, rfl⟩, List.modifyHead_cons, List.append_nil] at hcut
    exact hcut

end FrameLog
