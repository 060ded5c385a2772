import FrameLog.Json.Form
import FrameLog.Proofs.Agreement
import FrameLog.Proofs.Json.Text
import FrameLog.Proofs.Query.Printing

/-!
# Decoding what was encoded

Queries, facts, frames and relationships without floats are what decoding their JSON texts gives back.
-/

namespace FrameLog.Json

/-- The form of the thing is plain, and is read as the thing. -/
structure RoundTrips {α : Type} [Form α] (a : α) : Prop where
  plain : (toJson a).Plain
  ofJson? : ofJson? (toJson a) = some a

/-- What the form keeps, the text keeps. -/
theorem RoundTrips.decode?_eq_some {α : Type} [Form α] {a : α} (h : RoundTrips a) :
    decode? α (encode a) = some a := by
  rw [decode?, encode, h.plain.read?_text, Option.bind_some, h.ofJson?]

/-! ## Numbers, texts and lists -/

theorem ofNat_eq_ofInt (n : Nat) : Number.ofNat n = Number.ofInt n := by
  simp [Number.ofNat, Number.ofInt]

theorem toInt?_ofInt (i : Int) : (Number.ofInt i).toInt? = some i := by
  have hvalue : Decimal.ofDigits (Number.ofInt i).whole = i.natAbs := Nat.ofDigitChars_ten_toDigits
  have hwhole : (Number.ofInt i).places.isEmpty ∧ (Number.ofInt i).exponent.isNone := ⟨rfl, rfl⟩
  rw [Number.toInt?, if_pos hwhole]
  by_cases hneg : i < 0
  · have hsign : ¬ (!(Number.ofInt i).negative) = true := by simp [Number.ofInt, hneg]
    have hne : Decimal.ofDigits (Number.ofInt i).whole ≠ 0 := by omega
    rw [if_neg hsign, if_neg hne, hvalue]
    exact congrArg some (by omega)
  · have hsign : (!(Number.ofInt i).negative) = true := by simp [Number.ofInt, hneg]
    rw [if_pos hsign, hvalue]
    exact congrArg some (by omega)

theorem roundTrips_bool (b : Bool) : RoundTrips b := ⟨.bool b, rfl⟩

theorem roundTrips_string (s : String) : RoundTrips s := ⟨.str s, rfl⟩

theorem roundTrips_uint64 (n : UInt64) : RoundTrips n := by
  refine ⟨?_, ?_⟩
  · change (nat n.toNat).Plain
    rw [nat, ofNat_eq_ofInt]
    exact .number _
  · change (Number.ofNat n.toNat).toUInt64? = some n
    have hlt : (n.toNat : Int) < 2 ^ 64 := by exact_mod_cast n.toNat_lt
    rw [ofNat_eq_ofInt, Number.toUInt64?, toInt?_ofInt, Option.bind_some,
      if_pos ⟨Int.natCast_nonneg _, hlt⟩, Int.toNat_natCast, UInt64.ofNat_toNat]

theorem roundTrips_int64 (n : Int64) : RoundTrips n := by
  refine ⟨.number n.toInt, ?_⟩
  change (Number.ofInt n.toInt).toInt64? = some n
  rw [Number.toInt64?, toInt?_ofInt, Option.bind_some, if_pos ⟨n.le_toInt, n.toInt_lt⟩,
    Int64.ofInt_toInt]

variable {α β : Type} [Form α] [Form β]

/-- A form that is not null stands for a present value. -/
theorem RoundTrips.option {a : Option α} (h : ∀ x ∈ a, RoundTrips x ∧ toJson x ≠ null) :
    RoundTrips a := by
  cases a with
  | none => exact ⟨.null, rfl⟩
  | some x =>
      obtain ⟨⟨hplain, hread⟩, hne⟩ := h x rfl
      refine ⟨hplain, ?_⟩
      have hsome : (Form.ofJson? (toJson x)).map some = some (some x) := by rw [hread, Option.map_some]
      change (Form.ofJson? (toJson x) : Option (Option α)) = some (some x)
      cases hform : toJson x with
      | null => exact absurd hform hne
      | _ =>
          rw [hform] at hsome
          exact hsome

theorem mapM_map_eq_some {γ δ ε : Type} {f : γ → δ} {g : δ → Option ε} {k : γ → ε} {cs : List γ}
    (h : ∀ c ∈ cs, g (f c) = some (k c)) : (cs.map f).mapM g = some (cs.map k) := by
  induction cs with
  | nil => rfl
  | cons c cs ih =>
      obtain ⟨hc, hcs⟩ := List.forall_mem_cons.mp h
      simp [List.mapM_cons, hc, ih hcs]

theorem RoundTrips.list {as : List α} (h : ∀ a ∈ as, RoundTrips a) : RoundTrips as := by
  refine ⟨.array fun j hj => ?_, ?_⟩
  · obtain ⟨a, ha, rfl⟩ := List.mem_map.mp hj
    exact (h a ha).plain
  · have hread := mapM_map_eq_some fun a ha => (h a ha).ofJson?
    rwa [List.map_id'] at hread

theorem RoundTrips.pair {p : α × β} (h₁ : RoundTrips p.1) (h₂ : RoundTrips p.2) : RoundTrips p := by
  refine ⟨.array ?_, ?_⟩
  · simp [h₁.plain, h₂.plain]
  · change (do return (← Form.ofJson? (toJson p.1), ← Form.ofJson? (toJson p.2))) = some p
    simp [h₁.ofJson?, h₂.ofJson?]

/-! ## Records -/

theorem filter_named {members : List (String × Json)} (h : (members.map Prod.fst).Nodup)
    {m : String × Json} (hm : m ∈ members) :
    (named members).filter (·.1 == some m.1) = [(some m.1, m.2)] := by
  induction members with
  | nil => cases hm
  | cons n members ih =>
      obtain ⟨hn, hmembers⟩ := List.nodup_cons.mp h
      rcases List.mem_cons.mp hm with rfl | hm
      · have hrest : (named members).filter (·.1 == some m.1) = [] := by
          refine List.filter_eq_nil_iff.mpr fun x hx => ?_
          obtain ⟨k, hk, rfl⟩ := List.mem_map.mp hx
          have hne : k.1 ≠ m.1 := fun heq => hn (heq ▸ List.mem_map_of_mem (f := Prod.fst) hk)
          simpa using hne
        rw [named_cons, List.filter_cons_of_pos (by simp), hrest]
      · have hne : n.1 ≠ m.1 := fun heq => hn (heq ▸ List.mem_map_of_mem (f := Prod.fst) hm)
        rw [named_cons, List.filter_cons_of_neg (by simpa using hne), ih hmembers hm]

theorem fields?_named {members : List (String × Json)} (h : (members.map Prod.fst).Nodup) :
    fields? (members.map Prod.fst) (object (named members)) =
      some (members.map (some ∘ Prod.snd)) := by
  have hall : (named members).all (·.1.isSome) = true := by simp [named]
  rw [fields?, if_pos hall]
  refine mapM_map_eq_some fun m hm => ?_
  rw [List.countP_eq_length_filter, member?, ← List.head?_filter, filter_named h hm]
  rfl

/-- An object that was written with distinct names has the values of its fields. -/
theorem fields?_obj (names : List String) (values : List Json) (hnames : names.Nodup)
    (hlen : names.length = values.length) :
    fields? names (obj (names.zip values)) = some (values.map some) := by
  have hfst : (names.zip values).map Prod.fst = names := List.map_fst_zip (Nat.le_of_eq hlen)
  have hsnd : (names.zip values).map Prod.snd = values := List.map_snd_zip (Nat.le_of_eq hlen.symm)
  have hfields := fields?_named (hfst.symm ▸ hnames)
  rwa [hfst, ← List.map_map, hsnd] at hfields

theorem RoundTrips.required? {a : α} (h : RoundTrips a) : required? (some (toJson a)) = some a :=
  h.ofJson?

theorem RoundTrips.optional? {a : Option α} (h : RoundTrips a) :
    optional? (some (toJson a)) = some a := h.ofJson?

/-- A record is read back when its fields are. -/
theorem RoundTrips.record {a : α} (names : List String) (values : List Json)
    {read : List (Option Json) → Option α} (hform : toJson a = obj (names.zip values))
    (hnames : names.Nodup) (hlen : names.length = values.length)
    (hofJson : ∀ j, Form.ofJson? j = (fields? names j).bind read) (hplain : ∀ j ∈ values, j.Plain)
    (hread : read (values.map some) = some a) : RoundTrips a := by
  constructor
  · rw [hform]
    exact .obj fun m hm => hplain m.2 (List.of_mem_zip hm).2
  · rw [hofJson, hform, fields?_obj names values hnames hlen, Option.bind_some, hread]

/-! ## Variants -/

/-- A variant is read back when its content is. -/
theorem RoundTrips.variant {a : α} {content : β} (name : String) {make : β → α}
    (hform : toJson a = variant name (toJson content))
    (hofJson : ∀ j, Form.ofJson? (Json.variant name j) =
      (Json.required? (some j)).bind fun c => some (make c))
    (hmake : make content = a) (h : RoundTrips content) : RoundTrips a := by
  constructor
  · rw [hform]
    refine .obj fun m hm => ?_
    rw [List.mem_singleton.mp hm]
    exact h.plain
  · rw [hform, hofJson, h.required?, Option.bind_some, hmake]

theorem named?_name {γ : Type} [Named γ] (c : γ) : named? (str (Named.name c)) = some c :=
  Named.find?_name c

theorem roundTrips_predicate (p : Predicate) : RoundTrips p := ⟨.str _, named?_name p⟩

theorem roundTrips_status (s : Status) : RoundTrips s := ⟨.str _, named?_name s⟩

/-! ## Queries -/

theorem roundTrips_value {v : Value} (h : v.isFloat = false) : RoundTrips v := by
  cases v with
  | int n => exact .variant "Int" rfl (fun _ => rfl) rfl (roundTrips_int64 n)
  | float x => cases h
  | atom s => exact .variant "Atom" rfl (fun _ => rfl) rfl (roundTrips_string s)
  | null => exact ⟨.str _, rfl⟩

theorem roundTrips_term {t : Term} (h : ∀ x, t ≠ .const (.float x)) : RoundTrips t := by
  cases t with
  | const v =>
      have hv : RoundTrips v := by
        refine roundTrips_value ?_
        cases v with
        | float x => exact absurd rfl (h x)
        | _ => rfl
      exact .variant "Constant" rfl (fun _ => rfl) rfl hv
  | var name => exact .variant "Variable" rfl (fun _ => rfl) rfl (roundTrips_string name)
  | anonymous => exact ⟨.str _, rfl⟩

theorem roundTrips_goal {g : Goal} (h : ∀ a ∈ g.args, ∀ x, a ≠ .const (.float x)) :
    RoundTrips g := by
  have hpredicate := roundTrips_predicate g.predicate
  have hargs : RoundTrips g.args := .list fun a ha => roundTrips_term (h a ha)
  refine .record ["predicate", "args"] [toJson g.predicate, toJson g.args] rfl (by decide) rfl
    (fun _ => rfl) ?_ ?_
  · simp [hpredicate.plain, hargs.plain]
  · simp only [List.map_cons, List.map_nil, hpredicate.required?, hargs.required?]
    rfl

theorem roundTrips_condition {c : Condition} (h : RoundTrips c.goal) : RoundTrips c := by
  have hnegated := roundTrips_bool c.negated
  refine .record ["goal", "negated"] [toJson c.goal, toJson c.negated] rfl (by decide) rfl
    (fun _ => rfl) ?_ ?_
  · simp [h.plain, hnegated.plain]
  · simp only [List.map_cons, List.map_nil, h.required?, hnegated.required?]
    rfl

theorem roundTrips_conjunction {c : Conjunction} (h : ∀ d ∈ c.conditions, RoundTrips d) :
    RoundTrips c := by
  have hconditions : RoundTrips c.conditions := .list h
  refine .record ["conditions"] [toJson c.conditions] rfl (by decide) rfl (fun _ => rfl) ?_ ?_
  · simp [hconditions.plain]
  · simp only [List.map_cons, List.map_nil, hconditions.required?]
    rfl

theorem roundTrips_question {k : Question} (h : k.FloatFree) : RoundTrips k := by
  have hgoal : ∀ g ∈ k.goals, RoundTrips g := fun g hg => roundTrips_goal (h g hg)
  cases k with
  | simple g => exact .variant "Simple" rfl (fun _ => rfl) rfl (hgoal g (List.mem_singleton_self g))
  | negated g =>
      exact .variant "Negated" rfl (fun _ => rfl) rfl (hgoal g (List.mem_singleton_self g))
  | compound c =>
      have hc : RoundTrips c := roundTrips_conjunction fun d hd =>
        roundTrips_condition (hgoal d.goal (List.mem_map_of_mem hd))
      exact .variant "Compound" rfl (fun _ => rfl) rfl hc

theorem roundTrips_query {q : Query} (h : q.question.FloatFree) : RoundTrips q := by
  have hsource := roundTrips_string q.source
  have hquestion := roundTrips_question h
  refine .record ["source", "kind"] [toJson q.source, toJson q.question] rfl (by decide) rfl
    (fun _ => rfl) ?_ ?_
  · simp [hsource.plain, hquestion.plain]
  · simp only [List.map_cons, List.map_nil, hsource.required?, hquestion.required?]
    rfl

/-! ## Traces -/

theorem roundTrips_fact {f : Fact} (h : ∀ v ∈ f.values, v.isFloat = false) : RoundTrips f := by
  have hpredicate := roundTrips_predicate f.predicate
  have hvalues : RoundTrips f.values := .list fun v hv => roundTrips_value (h v hv)
  refine .record ["predicate", "values"] [toJson f.predicate, toJson f.values] rfl (by decide) rfl
    (fun _ => rfl) ?_ ?_
  · simp [hpredicate.plain, hvalues.plain]
  · simp only [List.map_cons, List.map_nil, hpredicate.required?, hvalues.required?]
    rfl

theorem roundTrips_frameId? (id : Option FrameId) : RoundTrips id :=
  .option fun n _ => ⟨roundTrips_uint64 n, by simp [toJson, nat]⟩

theorem roundTrips_frame {r : Frame} (h : ∀ p ∈ r.parameters, p.2.isFloat = false) :
    RoundTrips r := by
  have hid := roundTrips_uint64 r.id
  have hfunction := roundTrips_string r.function
  have hcaller := roundTrips_frameId? r.caller
  have htimestamp := roundTrips_uint64 r.timestamp
  have hallocated := roundTrips_uint64 r.allocated
  have hstatus := roundTrips_status r.status
  have hparameters : RoundTrips r.parameters := .list fun p hp =>
    .pair (roundTrips_string p.1) (roundTrips_value (h p hp))
  refine .record ["id", "name", "caller", "timestamp", "allocated", "status", "parameters"]
    [toJson r.id, toJson r.function, toJson r.caller, toJson r.timestamp, toJson r.allocated,
      toJson r.status, toJson r.parameters] rfl (by decide) rfl (fun _ => rfl) ?_ ?_
  · simp [hid.plain, hfunction.plain, hcaller.plain, htimestamp.plain, hallocated.plain,
      hstatus.plain, hparameters.plain]
  · simp only [List.map_cons, List.map_nil, hid.required?, hfunction.required?, hcaller.optional?,
      htimestamp.required?, hallocated.required?, hstatus.required?, hparameters.required?]
    rfl

theorem roundTrips_relationship (r : Relationship) : RoundTrips r := by
  have hframe := roundTrips_uint64 r.frame
  have hcaller := roundTrips_frameId? r.directCaller
  have hids : ∀ ids : List FrameId, RoundTrips ids := fun ids =>
    .list fun id _ => roundTrips_uint64 id
  refine .record ["frame", "direct_caller", "direct_callees", "caller_chain", "callee_chain"]
    [toJson r.frame, toJson r.directCaller, toJson r.directCallees, toJson r.callerChain,
      toJson r.calleeChain] rfl (by decide) rfl (fun _ => rfl) ?_ ?_
  · simp [hframe.plain, hcaller.plain, (hids _).plain]
  · simp only [List.map_cons, List.map_nil, hframe.required?, hcaller.optional?, (hids _).required?]
    rfl

/-! ## Decoding -/

/-- Decoding the text of a query, a fact, a frame or a relationship gives back what was encoded, when
there are no floats in it. -/
theorem decode?_encode :
    (∀ q : Query, q.question.FloatFree → decode? Query (encode q) = some q) ∧
    (∀ f : Fact, (∀ v ∈ f.values, v.isFloat = false) → decode? Fact (encode f) = some f) ∧
    (∀ r : Frame, (∀ p ∈ r.parameters, p.2.isFloat = false) → decode? Frame (encode r) = some r) ∧
    (∀ r : Relationship, decode? Relationship (encode r) = some r) :=
  ⟨fun _ h => (roundTrips_query h).decode?_eq_some, fun _ h => (roundTrips_fact h).decode?_eq_some,
    fun _ h => (roundTrips_frame h).decode?_eq_some,
    fun r => (roundTrips_relationship r).decode?_eq_some⟩

/-- A variable that is named like the anonymous one, an atom that is named like the null mark, and the
least integer; the source has a quote and a line break. -/
def deceptiveQuery : Query where
  source := "a \"source\"\n"
  question := .compound
    ⟨[⟨⟨.calls, [.var "_", .anonymous]⟩, false⟩,
      ⟨⟨.param, [.const (.int Int64.minValue), .const (.atom "null"), .const .null]⟩, true⟩]⟩

/-- The greatest words, and two parameters of one name. -/
def extremeFrame : Frame :=
  ⟨18446744073709551615, "main", none, 18446744073709551615, 0, .error,
    [("x", .int Int64.maxValue), ("x", .null)]⟩

theorem decode?_encode_extremes :
    deceptiveQuery.question.FloatFree ∧
    decode? Query (encode deceptiveQuery) = some deceptiveQuery ∧
    (∀ v ∈ [Value.int (-1), .atom ""], v.isFloat = false) ∧
    decode? Fact (encode (Fact.mk .status [.int (-1), .atom ""])) =
      some ⟨.status, [.int (-1), .atom ""]⟩ ∧
    (∀ p ∈ extremeFrame.parameters, p.2.isFloat = false) ∧
    decode? Frame (encode extremeFrame) = some extremeFrame ∧
    decode? Relationship (encode (Relationship.mk 2 (some 1) [3, 3] [1] [3])) =
      some ⟨2, some 1, [3, 3], [1], [3]⟩ := by
  obtain ⟨hquery, hfact, hframe, hrelationship⟩ := decode?_encode
  have hfree : deceptiveQuery.question.FloatFree := by
    simp [deceptiveQuery, Question.FloatFree, Question.goals]
  have hvalues : ∀ v ∈ [Value.int (-1), .atom ""], v.isFloat = false := by decide
  have hparameters : ∀ p ∈ extremeFrame.parameters, p.2.isFloat = false := by decide
  exact ⟨hfree, hquery _ hfree, hvalues, hfact ⟨.status, _⟩ hvalues, hparameters,
    hframe _ hparameters, hrelationship _⟩

end FrameLog.Json
