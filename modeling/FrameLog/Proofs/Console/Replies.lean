import FrameLog.Proofs.Console

/-!
# Replies of a console

What a console that has not been asked anything says to a line. A line that begins with a colon is a
command: its words decide what it asks of the call graph and the frames, or what is wrong with it. All
other lines are queries.
-/

namespace FrameLog

open Text

/-! ## Numerals -/

/-- The text is the number in digits; a plus sign may stand before them. -/
def IsNumeral (cs : List Char) (n : UInt64) : Prop :=
  ∃ digits, (cs = digits ∨ cs = '+' :: digits) ∧ digits ≠ [] ∧ digits.all Char.isDigit ∧
    Decimal.ofDigits digits = n.toNat

theorem readWord?_eq_some_iff {cs : List Char} {n : UInt64} :
    readWord? cs = some n ↔ IsNumeral cs n := by
  have hdigits : ∀ ds : List Char,
      (if !ds.isEmpty ∧ ds.all Char.isDigit ∧ Decimal.ofDigits ds < Nat.pow 2 64 then
        some (UInt64.ofNat (Decimal.ofDigits ds)) else none) = some n ↔
      ds ≠ [] ∧ ds.all Char.isDigit ∧ Decimal.ofDigits ds = n.toNat := by
    intro ds
    rw [Option.ite_none_right_eq_some, Option.some_inj]
    constructor
    · rintro ⟨⟨hne, hall, hlt⟩, rfl⟩
      exact ⟨by simpa using hne, hall, (UInt64.toNat_ofNat_of_lt' hlt).symm⟩
    · rintro ⟨hne, hall, heq⟩
      refine ⟨⟨by simpa using hne, hall, heq ▸ n.toNat_lt⟩, ?_⟩
      rw [heq, UInt64.ofNat_toNat]
  unfold readWord? IsNumeral
  dsimp only
  rw [hdigits]
  split
  · rename_i ds
    constructor
    · exact fun h => ⟨ds, .inr rfl, h⟩
    · rintro ⟨digits, rfl | h, hrest⟩
      · simp at hrest
      · exact (List.cons.inj h).2 ▸ hrest
  · rename_i hplus
    constructor
    · exact fun h => ⟨cs, .inl rfl, h⟩
    · rintro ⟨digits, rfl | rfl, hrest⟩
      · exact hrest
      · exact absurd rfl (hplus digits)

theorem readWord?_eq_none_iff {cs : List Char} : readWord? cs = none ↔ ∀ n, ¬ IsNumeral cs n := by
  simp only [← readWord?_eq_some_iff, Option.eq_none_iff_forall_ne_some]

/-! ## Commands -/

/-- The words of a command that cannot be carried out, and what is wrong with it. -/
inductive Command.Refused : List String → String → Prop
  | missing {name : String} (hname : name ∈ [":chain", ":path", ":info"]) :
      Refused [name] "missing frame id"
  | missingTarget {source : String} {i : FrameId} (hsource : IsNumeral source.toList i) :
      Refused [":path", source] "missing frame id"
  | notAFrame {name word : String} {more : List String}
      (hname : name ∈ [":chain", ":path", ":info"]) (hword : ∀ i, ¬ IsNumeral word.toList i) :
      Refused (name :: word :: more) ("'" ++ word ++ "' is not a frame id")
  | targetNotAFrame {source word : String} {more : List String} {i : FrameId}
      (hsource : IsNumeral source.toList i) (hword : ∀ i, ¬ IsNumeral word.toList i) :
      Refused (":path" :: source :: word :: more) ("'" ++ word ++ "' is not a frame id")
  | direction {frame word : String} {more : List String} {i : FrameId}
      (hframe : IsNumeral frame.toList i) (hword : word ∉ ["callees", "callers"]) :
      Refused (":chain" :: frame :: word :: more)
        ("Unknown direction '" ++ word ++ "': expected 'callees' or 'callers'")
  | unknown {name : String} {more : List String}
      (hname : name ∉ [":chain", ":path", ":info", ":facts", ":help"]) :
      Refused (name :: more) ("unknown command '" ++ name ++ "' (try :help)")

/-- The words of a command, and what it says about the trace. Words that are left over do not
matter. -/
inductive Command.Performed (facts : FactBase) (frames : List Frame) : List String → String → Prop
  | chain {frame : String} {more : List String} {i : FrameId} {d : Direction}
      (hframe : IsNumeral frame.toList i) (hd : more.head?.getD "callees" = d.name)
      (hsome : facts.callGraph.chain i d ≠ []) :
      Performed facts frames (":chain" :: frame :: more)
        (d.name ++ " of frame " ++ FrameId.text i ++ ": " ++
          FrameId.join ", " (facts.callGraph.chain i d))
  | noChain {frame : String} {more : List String} {i : FrameId} {d : Direction}
      (hframe : IsNumeral frame.toList i) (hd : more.head?.getD "callees" = d.name)
      (hnone : facts.callGraph.chain i d = []) :
      Performed facts frames (":chain" :: frame :: more)
        ("Frame " ++ FrameId.text i ++ " has no " ++ d.name ++ ".")
  | path {source target : String} {more : List String} {i j : FrameId} {p : List FrameId}
      (hsource : IsNumeral source.toList i) (htarget : IsNumeral target.toList j)
      (hpath : facts.callGraph.path? i j = some p) :
      Performed facts frames (":path" :: source :: target :: more)
        ("Call path: " ++ FrameId.join " -> " p)
  | noPath {source target : String} {more : List String} {i j : FrameId}
      (hsource : IsNumeral source.toList i) (htarget : IsNumeral target.toList j)
      (hpath : facts.callGraph.path? i j = none) :
      Performed facts frames (":path" :: source :: target :: more)
        ("No call path from frame " ++ FrameId.text i ++ " to frame " ++ FrameId.text j ++ ".")
  | info {frame : String} {more : List String} {i : FrameId} (hframe : IsNumeral frame.toList i) :
      Performed facts frames (":info" :: frame :: more)
        (Relationship.text
          { frame := i
            directCaller := facts.callGraph.directCaller? i
            directCallees := facts.callGraph.callees i
            callerChain := facts.callGraph.chain i .callers
            calleeChain := facts.callGraph.chain i .callees })
  | facts {more : List String} :
      Performed facts frames (":facts" :: more) ("\n".intercalate (frames.flatMap Frame.factTexts))
  | help {more : List String} : Performed facts frames (":help" :: more) Command.helpText

/-- The reply to a line by a console that has not been asked anything. -/
inductive Console.Replies (facts : FactBase) (settings : Settings) (frames : List Frame)
    (line : List Char) : String → Prop
  | query (hline : line.head? ≠ some ':') :
      Replies facts settings frames line
        ((Session.fresh facts settings).run (String.ofList line)).output
  | performed {text : String} (hline : line.head? = some ':')
      (h : Command.Performed facts frames ((words line).map String.ofList) text) :
      Replies facts settings frames line text
  | refused {message : String} (hline : line.head? = some ':')
      (h : Command.Refused ((words line).map String.ofList) message) :
      Replies facts settings frames line ("Error: " ++ message)

/-! ## Reading commands -/

namespace Command

theorem readFrame_eq_ok {word : String} {i : FrameId} (h : IsNumeral word.toList i) :
    readFrame (some word.toList) = .ok i := by
  rw [readFrame, readWord?_eq_some_iff.mpr h]
  rfl

theorem readFrame_eq_error {word : String} (h : ∀ i, ¬ IsNumeral word.toList i) :
    readFrame (some word.toList) = .error (.notAFrame word) := by
  rw [readFrame, readWord?_eq_none_iff.mpr h]
  exact congrArg (fun s => Except.error (CommandError.notAFrame s)) String.ofList_toList

/-- The direction that the words ask for; callees, unless there is a word. -/
theorem read_chain {frame : String} {more : List String} {i : FrameId}
    (hframe : IsNumeral frame.toList i) :
    read ":chain".toList ((frame :: more).map String.toList) =
      match Direction.ofName (more.head?.getD "callees") with
      | .ok d => .ok (.chain i d)
      | .error fault => .error (.direction fault) := by
  change (readFrame (some frame.toList) >>= fun i => _) = _
  rw [readFrame_eq_ok hframe]
  cases more with
  | nil => rfl
  | cons word more =>
      change (match Direction.ofName (String.ofList word.toList) with
        | .ok d => Except.ok (Command.chain i d)
        | .error fault => .error (CommandError.direction fault)) = _
      rw [String.ofList_toList]
      rfl

theorem read_path {source target : String} {more : List String} {i : FrameId}
    (hsource : IsNumeral source.toList i) :
    read ":path".toList ((source :: target :: more).map String.toList) =
      (readFrame (some target.toList)).map (.path i) := by
  change (readFrame (some source.toList) >>= fun i => _) = _
  rw [readFrame_eq_ok hsource]
  change (readFrame (some target.toList) >>= fun j => pure (Command.path i j)) = _
  cases readFrame (some target.toList) <;> rfl

theorem read_info {frame : String} {more : List String} :
    read ":info".toList ((frame :: more).map String.toList) =
      (readFrame (some frame.toList)).map .info := by
  change (readFrame (some frame.toList) >>= fun i => pure (Command.info i)) = _
  cases readFrame (some frame.toList) <;> rfl

end Command

/-! ## What a fresh console says -/

theorem Direction.ofName_name (d : Direction) : ofName d.name = .ok d := by cases d <;> rfl

theorem Direction.ofName_eq_error {word : String} (h : word ∉ ["callees", "callers"]) :
    ofName word = .error (.unknownDirection word) := by
  have hnone : (Named.find? word : Option Direction) = none := by
    rw [Option.eq_none_iff_forall_ne_some]
    intro d hd
    rw [Named.find?_eq_some_iff.mp hd] at h
    cases d <;> exact h (by decide)
  rw [ofName, hnone]
  rfl

section

variable {facts : FactBase} {settings : Settings} {frames : List Frame} {line : List Char}
  {text : String}

namespace Console

theorem perform_chain (i : FrameId) (d : Direction) :
    ((opened facts settings frames).perform (.chain i d)).1 =
      if facts.callGraph.chain i d = [] then
        "Frame " ++ FrameId.text i ++ " has no " ++ d.name ++ "."
      else
        d.name ++ " of frame " ++ FrameId.text i ++ ": " ++
          FrameId.join ", " (facts.callGraph.chain i d) := by
  have hchain : ((Session.fresh facts settings).chain i d).1 = facts.callGraph.chain i d :=
    Session.chain_after facts settings [] i d
  simp only [perform, opened, hchain, List.isEmpty_iff]

theorem perform_path (i j : FrameId) :
    ((opened facts settings frames).perform (.path i j)).1 =
      match facts.callGraph.path? i j with
      | some p => "Call path: " ++ FrameId.join " -> " p
      | none => "No call path from frame " ++ FrameId.text i ++ " to frame " ++ FrameId.text j ++ "." :=
  rfl

theorem perform_info (i : FrameId) :
    ((opened facts settings frames).perform (.info i)).1 =
      Relationship.text
        { frame := i
          directCaller := facts.callGraph.directCaller? i
          directCallees := facts.callGraph.callees i
          callerChain := facts.callGraph.chain i .callers
          calleeChain := facts.callGraph.chain i .callees } :=
  congrArg Relationship.text (Session.relationship_after facts settings [] i)

end Console

/-- The words of a command are read as one that says the same about the trace. -/
theorem Command.Performed.exists_read {ws : List String} (h : Performed facts frames ws text)
    (settings : Settings) :
    ∃ name args command, ws.map String.toList = name :: args ∧ read name args = .ok command ∧
      ((Console.opened facts settings frames).perform command).1 = text := by
  cases h with
  | @chain frame more i d hframe hd hsome =>
      refine ⟨_, _, .chain i d, rfl, ?_, ?_⟩
      · rw [read_chain hframe, hd, Direction.ofName_name]
      · rw [Console.perform_chain, if_neg hsome]
  | @noChain frame more i d hframe hd hnone =>
      refine ⟨_, _, .chain i d, rfl, ?_, ?_⟩
      · rw [read_chain hframe, hd, Direction.ofName_name]
      · rw [Console.perform_chain, if_pos hnone]
  | @path source target more i j p hsource htarget hpath =>
      refine ⟨_, _, .path i j, rfl, ?_, ?_⟩
      · rw [read_path hsource, readFrame_eq_ok htarget]
        rfl
      · rw [Console.perform_path, hpath]
  | @noPath source target more i j hsource htarget hpath =>
      refine ⟨_, _, .path i j, rfl, ?_, ?_⟩
      · rw [read_path hsource, readFrame_eq_ok htarget]
        rfl
      · rw [Console.perform_path, hpath]
  | @info frame more i hframe =>
      refine ⟨_, _, .info i, rfl, ?_, Console.perform_info i⟩
      rw [read_info, readFrame_eq_ok hframe]
      rfl
  | facts => exact ⟨_, _, .facts, rfl, rfl, rfl⟩
  | help => exact ⟨_, _, .help, rfl, rfl, rfl⟩

/-- The words of a command that cannot be carried out are refused for that cause. -/
theorem Command.Refused.exists_read {ws : List String} (h : Refused ws text) :
    ∃ name args cause, ws.map String.toList = name :: args ∧ read name args = .error cause ∧
      cause.message = text := by
  cases h with
  | missing hname =>
      simp only [List.mem_cons, List.not_mem_nil, or_false] at hname
      rcases hname with rfl | rfl | rfl <;> exact ⟨_, _, .missingFrame, rfl, rfl, rfl⟩
  | @missingTarget source i hsource =>
      refine ⟨_, _, .missingFrame, rfl, ?_, rfl⟩
      change (readFrame (some source.toList) >>= fun i => _) = _
      rw [readFrame_eq_ok hsource]
      rfl
  | @notAFrame name word more hname hword =>
      refine ⟨_, _, .notAFrame word, rfl, ?_, rfl⟩
      simp only [List.mem_cons, List.not_mem_nil, or_false] at hname
      rcases hname with rfl | rfl | rfl <;>
      · change (readFrame (some word.toList) >>= fun i => _) = _
        rw [readFrame_eq_error hword]
        rfl
  | @targetNotAFrame source word more i hsource hword =>
      refine ⟨_, _, .notAFrame word, rfl, ?_, rfl⟩
      rw [read_path hsource, readFrame_eq_error hword]
      rfl
  | @direction frame word more i hframe hword =>
      refine ⟨_, _, .direction (.unknownDirection word), rfl, ?_, rfl⟩
      rw [read_chain hframe, List.head?_cons, Option.getD_some, Direction.ofName_eq_error hword]
  | @unknown name more hname =>
      refine ⟨_, _, .unknown name, rfl, ?_, rfl⟩
      simp only [List.mem_cons, List.not_mem_nil, or_false, not_or] at hname
      obtain ⟨hchain, hpath, hinfo, hfacts, hhelp⟩ := hname
      unfold read
      rw [String.ofList_toList]
      split <;> first | contradiction | rfl

/-- The command of the words says something about the trace, or it is refused. -/
def Command.Settled (facts : FactBase) (frames : List Frame) (ws : List String) : Prop :=
  (∃ text, Performed facts frames ws text) ∨ ∃ message, Refused ws message

namespace Command

theorem settled_chain {frame : String} {more : List String} {i : FrameId}
    (hframe : IsNumeral frame.toList i) : Settled facts frames (":chain" :: frame :: more) := by
  have hdirection : ∀ d : Direction, more.head?.getD "callees" = d.name →
      Settled facts frames (":chain" :: frame :: more) := fun d hd => by
    by_cases hchain : facts.callGraph.chain i d = []
    · exact .inl ⟨_, .noChain hframe hd hchain⟩
    · exact .inl ⟨_, .chain hframe hd hchain⟩
  cases more with
  | nil => exact hdirection .callees rfl
  | cons word more =>
      by_cases hword : word ∈ ["callees", "callers"]
      · simp only [List.mem_cons, List.not_mem_nil, or_false] at hword
        rcases hword with rfl | rfl
        · exact hdirection .callees rfl
        · exact hdirection .callers rfl
      · exact .inr ⟨_, .direction hframe hword⟩

theorem settled_path {source : String} {more : List String} {i : FrameId}
    (hsource : IsNumeral source.toList i) : Settled facts frames (":path" :: source :: more) := by
  cases more with
  | nil => exact .inr ⟨_, .missingTarget hsource⟩
  | cons target more =>
      by_cases htarget : ∃ j, IsNumeral target.toList j
      · obtain ⟨j, hj⟩ := htarget
        cases hpath : facts.callGraph.path? i j with
        | none => exact .inl ⟨_, .noPath hsource hj hpath⟩
        | some p => exact .inl ⟨_, .path hsource hj hpath⟩
      · exact .inr ⟨_, .targetNotAFrame hsource (not_exists.mp htarget)⟩

theorem settled (facts : FactBase) (frames : List Frame) (name : String) (args : List String) :
    Settled facts frames (name :: args) := by
  by_cases hknown : name ∈ [":chain", ":path", ":info", ":facts", ":help"]
  · by_cases hname : name ∈ [":chain", ":path", ":info"]
    · cases args with
      | nil => exact .inr ⟨_, .missing hname⟩
      | cons word more =>
          by_cases hword : ∃ i, IsNumeral word.toList i
          · obtain ⟨i, hi⟩ := hword
            simp only [List.mem_cons, List.not_mem_nil, or_false] at hname
            rcases hname with rfl | rfl | rfl
            · exact settled_chain hi
            · exact settled_path hi
            · exact .inl ⟨_, .info hi⟩
          · exact .inr ⟨_, .notAFrame hname (not_exists.mp hword)⟩
    · simp only [List.mem_cons, List.not_mem_nil, or_false, not_or] at hknown hname
      rcases hknown with rfl | rfl | rfl | rfl | rfl
      · exact absurd rfl hname.1
      · exact absurd rfl hname.2.1
      · exact absurd rfl hname.2.2
      · exact .inl ⟨_, .facts⟩
      · exact .inl ⟨_, .help⟩
  · exact .inr ⟨_, .unknown hknown⟩

end Command

/-! ## Replies -/

namespace Console

/-- A line that begins with a colon has a first word. -/
theorem words_ne_nil (h : line.head? = some ':') : words line ≠ [] := by
  obtain ⟨rest, rfl⟩ := List.head?_eq_some_iff.mp h
  obtain ⟨w, ws, hw⟩ := List.exists_cons_of_ne_nil (List.splitOnP_ne_nil isBlank rest)
  have hcolon : isBlank ':' = false := by decide
  simp [words, List.splitOnP_cons_eq_if_modifyHead, hcolon, hw]

theorem map_toList_map_ofList (ws : List (List Char)) :
    (ws.map String.ofList).map String.toList = ws := by
  simp [Function.comp_def]

/-- A fresh console replies with this text and no other. -/
theorem replies_iff : Replies facts settings frames line text ↔
    text = ((opened facts settings frames).reply line).1 := by
  have hreply : ∀ {text}, Replies facts settings frames line text →
      ((opened facts settings frames).reply line).1 = text := by
    intro text h
    cases h with
    | query hline => rw [reply, if_neg hline]; rfl
    | performed hline h =>
        obtain ⟨name, args, command, hwords, hread, htext⟩ := h.exists_read settings
        rw [map_toList_map_ofList] at hwords
        rw [reply, if_pos hline, hwords]
        simp only [hread, htext]
    | refused hline h =>
        obtain ⟨name, args, cause, hwords, hread, htext⟩ := h.exists_read
        rw [map_toList_map_ofList] at hwords
        rw [reply, if_pos hline, hwords]
        simp only [hread, htext]
  refine ⟨fun h => (hreply h).symm, ?_⟩
  rintro rfl
  by_cases hline : line.head? = some ':'
  · obtain ⟨name, args, hwords⟩ := List.exists_cons_of_ne_nil (words_ne_nil hline)
    have hsettled := Command.settled facts frames (String.ofList name) (args.map String.ofList)
    rw [← List.map_cons, ← hwords] at hsettled
    rcases hsettled with ⟨text, h⟩ | ⟨message, h⟩
    · rw [hreply (.performed hline h)]
      exact .performed hline h
    · rw [hreply (.refused hline h)]
      exact .refused hline h
  · rw [hreply (.query hline)]
    exact .query hline

end Console

end

end FrameLog
