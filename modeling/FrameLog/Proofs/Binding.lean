import FrameLog.Binding
import FrameLog.Proofs.Agreement
import Mathlib.Data.List.Forall2

/-!
# Bindings as partial functions

A binding is determined by its look-ups. Agreement and merging are told by look-ups as well, and the
part of a binding on some of the variables is defined.
-/

namespace FrameLog.Binding

variable {a b m : Binding} {x : String} {v : Value}

/-! ## Look-ups in sorted entries -/

theorem lookup_cons_if (e : String × Value) (es : List (String × Value)) (x : String) :
    (e :: es).lookup x = if x = e.1 then some e.2 else es.lookup x := by
  obtain ⟨y, w⟩ := e
  by_cases h : x = y
  · simp [h]
  · simp [List.lookup_cons, h, beq_false_of_ne h]

theorem lookup_eq_none_of_lt {es : List (String × Value)} (h : ∀ e ∈ es, x < e.1) :
    es.lookup x = none := by
  rw [List.lookup_eq_none_iff]
  intro e he
  simpa using Std.ne_of_lt (h e he)

/-- A name that sorted entries have does not stand before their first one. -/
theorem not_lt_of_lookup {e : String × Value} {es : List (String × Value)}
    (hes : (e :: es).Pairwise (·.1 < ·.1)) (h : (e :: es).lookup x ≠ none) : ¬ x < e.1 := by
  intro hlt
  refine h (lookup_eq_none_of_lt fun d hd => ?_)
  rcases List.mem_cons.mp hd with rfl | hd
  · exact hlt
  · exact String.lt_trans hlt ((List.pairwise_cons.mp hes).1 d hd)

/-- Sorted entries whose look-ups are related are related one by one. -/
theorem forall₂_of_lookup {R : Value → Value → Prop} {es ds : List (String × Value)}
    (hes : es.Pairwise (·.1 < ·.1)) (hds : ds.Pairwise (·.1 < ·.1))
    (h : ∀ x, Option.Rel R (es.lookup x) (ds.lookup x)) :
    List.Forall₂ (fun e d => e.1 = d.1 ∧ R e.2 d.2) es ds := by
  induction es generalizing ds with
  | nil =>
      cases ds with
      | nil => exact .nil
      | cons d ds =>
          have hd := h d.1
          rw [lookup_cons_if, if_pos rfl] at hd
          cases hd
  | cons e es ih =>
      cases ds with
      | nil =>
          have he := h e.1
          rw [lookup_cons_if, if_pos rfl] at he
          cases he
      | cons d ds =>
          -- the smaller of two different first names would be missing on the other side
          have hed : ¬ e.1 < d.1 := not_lt_of_lookup hds fun hnone => by
            have he := h e.1
            rw [hnone, lookup_cons_if, if_pos rfl] at he
            cases he
          have hde : ¬ d.1 < e.1 := not_lt_of_lookup hes fun hnone => by
            have hd := h d.1
            rw [hnone, lookup_cons_if, if_pos rfl] at hd
            cases hd
          have hname : e.1 = d.1 := Std.le_antisymm (Std.not_lt.mp hde) (Std.not_lt.mp hed)
          obtain ⟨hlte, hes⟩ := List.pairwise_cons.mp hes
          obtain ⟨hltd, hds⟩ := List.pairwise_cons.mp hds
          have hhead := h e.1
          rw [lookup_cons_if, lookup_cons_if, if_pos rfl, if_pos hname] at hhead
          cases hhead with
          | some hvalue =>
              refine .cons ⟨hname, hvalue⟩ (ih hes hds fun x => ?_)
              by_cases hx : x = e.1
              · rw [hx, lookup_eq_none_of_lt hlte, lookup_eq_none_of_lt (hname ▸ hltd)]
                exact .none
              · have htail := h x
                rwa [lookup_cons_if, lookup_cons_if, if_neg hx, if_neg (hname ▸ hx)] at htail

theorem get?_eq_some_iff : b.get? x = some v ↔ (x, v) ∈ b.entries := by
  constructor
  · intro h
    obtain ⟨l₁, l₂, hl, -⟩ := List.lookup_eq_some_iff.mp h
    simp [hl]
  · intro h
    obtain ⟨l₁, l₂, hl⟩ := List.append_of_mem h
    refine List.lookup_eq_some_iff.mpr ⟨l₁, l₂, hl, fun p hp => ?_⟩
    have hsorted := b.sorted
    rw [hl] at hsorted
    have hlt := (List.pairwise_append.mp hsorted).2.2 p hp (x, v) List.mem_cons_self
    simpa using (Std.ne_of_lt hlt).symm

/-- A binding is determined by its look-ups. -/
theorem ext_get? (h : ∀ x, a.get? x = b.get? x) : a = b := by
  have hall : List.Forall₂ (fun e d => e.1 = d.1 ∧ e.2 = d.2) a.entries b.entries :=
    forall₂_of_lookup a.sorted b.sorted fun x => by
      have hx : a.entries.lookup x = b.entries.lookup x := h x
      rw [hx]
      cases b.entries.lookup x with
      | none => exact .none
      | some w => exact .some rfl
  have hentries : a.entries = b.entries := by
    rw [← List.forall₂_eq_eq_eq]
    exact hall.imp fun e d he => Prod.ext he.1 he.2
  cases a
  cases b
  simpa using hentries

/-! ## Variables and values -/

theorem mem_keys_iff : x ∈ b.keys ↔ ∃ v, b.get? x = some v := by
  simp [keys, get?_eq_some_iff]

theorem mem_values_iff : v ∈ b.values ↔ ∃ x, b.get? x = some v := by
  simp [values, get?_eq_some_iff]

theorem get?_eq_none_iff : b.get? x = none ↔ x ∉ b.keys := by
  rw [mem_keys_iff, Option.eq_none_iff_forall_ne_some]
  simp

/-! ## Entries with different names -/

theorem get?_foldl_insert {es : List (String × Value)} (hes : (es.map (·.1)).Nodup) (x : String) :
    (es.foldl (fun b (y, w) => b.insert y w) b).get? x = (es.lookup x).or (b.get? x) := by
  induction es generalizing b with
  | nil => simp
  | cons e es ih =>
      obtain ⟨he, hes⟩ := List.nodup_cons.mp hes
      rw [List.foldl_cons, ih hes, get?_insert, lookup_cons_if]
      split
      · rename_i hx
        -- the name does not come again
        have hnone : es.lookup x = none := by
          rw [List.lookup_eq_none_iff]
          intro d hd
          have hne : x ≠ d.1 := fun heq => he (List.mem_map.mpr ⟨d, hd, heq.symm.trans hx⟩)
          simpa using hne
        rw [hnone, Option.none_or, Option.some_or]
      · rfl

theorem get?_ofList {es : List (String × Value)} (hes : (es.map (·.1)).Nodup) (x : String) :
    (ofList es).get? x = es.lookup x := by
  rw [ofList, get?_foldl_insert hes, get?_empty, Option.or_none]

theorem map_lookup_zip {names : List String} {vs : List Value} (hnames : names.Nodup)
    (hlen : names.length = vs.length) :
    names.map (fun x => (names.zip vs).lookup x) = vs.map some := by
  induction names generalizing vs with
  | nil =>
      obtain rfl := List.length_eq_zero_iff.mp hlen.symm
      rfl
  | cons name names ih =>
      cases vs with
      | nil => cases hlen
      | cons v vs =>
          obtain ⟨hname, hnames⟩ := List.nodup_cons.mp hnames
          have hrest : ∀ x ∈ names,
              ((name, v) :: names.zip vs).lookup x = (names.zip vs).lookup x := by
            intro x hx
            rw [lookup_cons_if, if_neg]
            rintro rfl
            exact hname hx
          rw [List.zip_cons_cons, List.map_cons, List.map_congr_left hrest,
            ih hnames (Nat.succ.inj hlen), lookup_cons_if, if_pos rfl, List.map_cons]

/-- The binding of different names to a list of values is the one that gives them these values and
gives none to other names. -/
theorem eq_ofList_zip_iff {names : List String} {vs : List Value} (hnames : names.Nodup)
    (hlen : names.length = vs.length) : b = ofList (names.zip vs) ↔
      (∀ x ∈ b.keys, x ∈ names) ∧ names.map b.get? = vs.map some := by
  have hzip : ((names.zip vs).map (·.1)).Nodup := by rwa [List.map_fst_zip (Nat.le_of_eq hlen)]
  have hget : (ofList (names.zip vs)).get? = fun x => (names.zip vs).lookup x :=
    funext (get?_ofList hzip)
  have hkeys : ∀ x ∈ (ofList (names.zip vs)).keys, x ∈ names := by
    intro x hx
    obtain ⟨v, hv⟩ := mem_keys_iff.mp hx
    rw [hget] at hv
    obtain ⟨l₁, l₂, hl, -⟩ := List.lookup_eq_some_iff.mp hv
    have hmem : (x, v) ∈ names.zip vs := by simp [hl]
    exact (List.of_mem_zip hmem).1
  have hvalues : names.map (ofList (names.zip vs)).get? = vs.map some := by
    rw [hget]
    exact map_lookup_zip hnames hlen
  constructor
  · rintro rfl
    exact ⟨hkeys, hvalues⟩
  · rintro ⟨hb, hbvalues⟩
    refine ext_get? fun x => ?_
    by_cases hx : x ∈ names
    · exact List.map_inj_left.mp (hbvalues.trans hvalues.symm) x hx
    · rw [get?_eq_none_iff.mpr fun h => hx (hb x h), get?_eq_none_iff.mpr fun h => hx (hkeys x h)]

/-! ## Agreement -/

/-- Bindings agree when they give agreeing values to the same variables. -/
theorem agrees_iff :
    a.agrees b = true ↔ ∀ x, Option.Rel (fun v w => v.agrees w = true) (a.get? x) (b.get? x) := by
  have hzip : a.agrees b = true ↔
      List.Forall₂ (fun e d => e.1 = d.1 ∧ e.2.agrees d.2 = true) a.entries b.entries := by
    simp [agrees, List.forall₂_iff_zip]
  rw [hzip]
  constructor
  · intro h x
    unfold get?
    generalize a.entries = es at h ⊢
    generalize b.entries = ds at h ⊢
    induction h with
    | nil => exact .none
    | cons hed _ ih =>
        obtain ⟨hname, hvalue⟩ := hed
        rw [lookup_cons_if, lookup_cons_if, hname]
        split
        · exact .some hvalue
        · exact ih
  · exact forall₂_of_lookup a.sorted b.sorted

/-- Of bindings that agree, both lack the variable or both have it. -/
theorem get?_cases_of_agrees (h : a.agrees b = true) (x : String) :
    (a.get? x = none ∧ b.get? x = none) ∨
    ∃ v w, a.get? x = some v ∧ b.get? x = some w ∧ v.agrees w = true := by
  have hrel := agrees_iff.mp h x
  cases hx : a.get? x with
  | none =>
      cases hy : b.get? x with
      | none => exact .inl ⟨rfl, rfl⟩
      | some w =>
          rw [hx, hy] at hrel
          cases hrel
  | some v =>
      cases hy : b.get? x with
      | none =>
          rw [hx, hy] at hrel
          cases hrel
      | some w =>
          rw [hx, hy, Option.rel_some_some] at hrel
          exact .inr ⟨v, w, rfl, rfl, hrel⟩

theorem agrees_self {U : Value → Prop} (hU : AgreementOn U) (ha : ∀ v ∈ a.values, U v) :
    a.agrees a = true := by
  rw [agrees_iff]
  intro x
  cases hx : a.get? x with
  | none => exact .none
  | some v => exact .some (hU.refl v (ha v (mem_values_iff.mpr ⟨x, hx⟩)))

theorem agrees_symm {U : Value → Prop} (hU : AgreementOn U) (ha : ∀ v ∈ a.values, U v)
    (hb : ∀ v ∈ b.values, U v) (h : a.agrees b = true) : b.agrees a = true := by
  rw [agrees_iff]
  intro x
  rcases get?_cases_of_agrees h x with ⟨hx, hy⟩ | ⟨v, w, hx, hy, hvw⟩
  · rw [hx, hy]
    exact .none
  · rw [hx, hy]
    have hv := ha v (mem_values_iff.mpr ⟨x, hx⟩)
    have hw := hb w (mem_values_iff.mpr ⟨x, hy⟩)
    exact .some (hU.symm v w hv hw hvw)

theorem agrees_trans {U : Value → Prop} (hU : AgreementOn U) (ha : ∀ v ∈ a.values, U v)
    (hb : ∀ v ∈ b.values, U v) (hm : ∀ v ∈ m.values, U v) (hab : a.agrees b = true)
    (hbm : b.agrees m = true) : a.agrees m = true := by
  rw [agrees_iff]
  intro x
  rcases get?_cases_of_agrees hab x with ⟨hx, hy⟩ | ⟨v, w, hx, hy, hvw⟩
  · have hright := agrees_iff.mp hbm x
    rwa [hy, ← hx] at hright
  · rcases get?_cases_of_agrees hbm x with ⟨hy', -⟩ | ⟨w', u, hy', hz, hwu⟩
    · rw [hy] at hy'
      cases hy'
    · obtain rfl : w = w' := Option.some.inj (hy.symm.trans hy')
      rw [hx, hz]
      have hv := ha v (mem_values_iff.mpr ⟨x, hx⟩)
      have hw := hb w (mem_values_iff.mpr ⟨x, hy⟩)
      have hu := hm u (mem_values_iff.mpr ⟨x, hz⟩)
      exact .some (hU.trans v w u hv hw hu hvw hwu)

/-- The binding gives no variable a floating-point number. -/
def FloatFree (b : Binding) : Prop := ∀ v ∈ b.values, v.isFloat = false

instance (b : Binding) : Decidable b.FloatFree :=
  inferInstanceAs (Decidable (∀ v ∈ b.values, v.isFloat = false))

theorem floatFree_empty : empty.FloatFree := by
  simp [FloatFree, values, empty]

theorem FloatFree.agrees_iff_eq (ha : a.FloatFree) (hb : b.FloatFree) :
    a.agrees b = true ↔ a = b := by
  constructor
  · intro h
    refine ext_get? fun x => ?_
    rcases get?_cases_of_agrees h x with ⟨hx, hy⟩ | ⟨v, w, hx, hy, hvw⟩
    · rw [hx, hy]
    · have hv := ha v (mem_values_iff.mpr ⟨x, hx⟩)
      have hw := hb w (mem_values_iff.mpr ⟨x, hy⟩)
      rw [hx, hy, (Value.agrees_iff_eq hv hw).mp hvw]
  · rintro rfl
    exact agrees_self (AgreementOn.of_floatFree fun _ hv => hv) ha

/-! ## Merging -/

theorem get?_bind? {y : String} (h : b.bind? y v = some m) (x : String) :
    m.get? x = (b.get? x).or (if x = y then some v else none) := by
  unfold bind? at h
  split at h
  · rename_i hnone
    cases h
    rw [get?_insert]
    by_cases hx : x = y
    · simp [hx, hnone]
    · simp [hx]
  · rename_i w hw
    split at h
    · cases h
      by_cases hx : x = y
      · simp [hx, hw]
      · simp [hx]
    · cases h

theorem get?_foldlM_bind? {es : List (String × Value)}
    (h : es.foldlM (fun c (y, w) => bind? c y w) a = some m) (x : String) :
    m.get? x = (a.get? x).or (es.lookup x) := by
  induction es generalizing a with
  | nil =>
      cases h
      simp
  | cons e es ih =>
      obtain ⟨c, hc, hrest⟩ := Option.bind_eq_some_iff.mp h
      rw [ih hrest, get?_bind? hc, lookup_cons_if]
      by_cases hx : x = e.1 <;> cases a.get? x <;> simp [hx]

/-- Merging keeps what the left binding has and takes the rest from the right one. -/
theorem get?_merge? (h : a.merge? b = some m) (x : String) :
    m.get? x = (a.get? x).or (b.get? x) :=
  get?_foldlM_bind? h x

theorem foldlM_bind?_isSome_iff {es : List (String × Value)} (hes : es.Pairwise (·.1 < ·.1)) :
    (es.foldlM (fun c (y, w) => bind? c y w) a).isSome ↔
      ∀ e ∈ es, ∀ v, a.get? e.1 = some v → v.agrees e.2 = true := by
  induction es generalizing a with
  | nil => simp
  | cons e es ih =>
      obtain ⟨hlt, hes⟩ := List.pairwise_cons.mp hes
      rw [List.foldlM_cons]
      cases he : a.get? e.1 with
      | none =>
          have hbind : a.bind? e.1 e.2 = some (a.insert e.1 e.2) := by simp [bind?, he]
          have hother : ∀ d ∈ es, (a.insert e.1 e.2).get? d.1 = a.get? d.1 := by
            intro d hd
            rw [get?_insert, if_neg (Std.ne_of_lt (hlt d hd)).symm]
          simp only [hbind, Option.bind_eq_bind, Option.bind_some]
          rw [ih hes]
          constructor
          · intro h d hd v hv
            rcases List.mem_cons.mp hd with rfl | hd
            · simp [he] at hv
            · exact h d hd v (by rw [hother d hd]; exact hv)
          · intro h d hd v hv
            rw [hother d hd] at hv
            exact h d (List.mem_cons_of_mem _ hd) v hv
      | some w =>
          by_cases hw : w.agrees e.2 = true
          · have hbind : a.bind? e.1 e.2 = some a := by simp [bind?, he, hw]
            simp only [hbind, Option.bind_eq_bind, Option.bind_some]
            rw [ih hes]
            simp [he, hw]
          · have hbind : a.bind? e.1 e.2 = none := by simp [bind?, he, hw]
            simp [hbind, he, hw]

/-- Bindings merge when they agree on the variables that they share. -/
theorem merge?_isSome_iff : (a.merge? b).isSome ↔
    ∀ x v w, a.get? x = some v → b.get? x = some w → v.agrees w = true := by
  have hfold := foldlM_bind?_isSome_iff (a := a) b.sorted
  unfold merge?
  rw [hfold]
  constructor
  · intro h x v w hv hw
    exact h (x, w) (get?_eq_some_iff.mp hw) v hv
  · intro h e he v hv
    exact h e.1 v e.2 hv (get?_eq_some_iff.mpr he)

/-- A merge agrees with what both of its parts agree with. -/
theorem agrees_of_merge? {d e : Binding} (he : m.merge? d = some e)
    (hm : ∀ x v, m.get? x = some v → ∃ w, b.get? x = some w ∧ v.agrees w = true)
    (hd : ∀ x v, d.get? x = some v → ∃ w, b.get? x = some w ∧ v.agrees w = true)
    (hkeys : ∀ x ∈ b.keys, x ∈ e.keys) : e.agrees b = true := by
  rw [agrees_iff]
  intro x
  cases hx : e.get? x with
  | none =>
      have hnone : b.get? x = none := get?_eq_none_iff.mpr fun hkey =>
        get?_eq_none_iff.mp hx (hkeys x hkey)
      rw [hnone]
      exact .none
  | some v =>
      obtain ⟨w, hw, hvw⟩ : ∃ w, b.get? x = some w ∧ v.agrees w = true := by
        rw [get?_merge? he] at hx
        rcases Option.or_eq_some_iff.mp hx with hx | ⟨-, hx⟩
        · exact hm x v hx
        · exact hd x v hx
      rw [hw]
      exact .some hvw

/-- A binding merges into the empty one unchanged. -/
theorem empty_merge? (b : Binding) : empty.merge? b = some b := by
  have hsome : (empty.merge? b).isSome := by simp [merge?_isSome_iff]
  obtain ⟨m, hm⟩ := Option.isSome_iff_exists.mp hsome
  have hmb : m = b := ext_get? fun x => by simp [get?_merge? hm]
  rw [hm, hmb]

/-! ## Restriction -/

/-- The part of a binding that concerns the listed variables. -/
def restrict (b : Binding) (names : List String) : Binding where
  entries := b.entries.filter fun e => names.contains e.1
  sorted := b.sorted.filter _

theorem get?_restrict (b : Binding) (names : List String) (x : String) :
    (b.restrict names).get? x = if x ∈ names then b.get? x else none := by
  refine Option.ext fun v => ?_
  rw [get?_eq_some_iff]
  by_cases hx : x ∈ names
  · simp [restrict, hx, get?_eq_some_iff]
  · simp [restrict, hx]

/-- What was merged into a binding is taken off again by restriction. -/
theorem restrict_of_merge? {d e : Binding} {names : List String} (he : m.merge? d = some e)
    (hm : ∀ x, x ∈ m.keys ↔ x ∈ names) : e.restrict names = m :=
  ext_get? fun x => by
    rw [get?_restrict, get?_merge? he]
    split
    · rename_i hx
      obtain ⟨v, hv⟩ := mem_keys_iff.mp ((hm x).mpr hx)
      rw [hv, Option.some_or]
    · rename_i hx
      exact (get?_eq_none_iff.mpr fun hkey => hx ((hm x).mp hkey)).symm

theorem exists_get?_of_agrees_restrict {names : List String}
    (h : m.agrees (b.restrict names) = true) (hv : m.get? x = some v) :
    ∃ w, b.get? x = some w ∧ v.agrees w = true := by
  rcases get?_cases_of_agrees h x with ⟨hx, -⟩ | ⟨u, w, hx, hw, huw⟩
  · rw [hv] at hx
    cases hx
  · obtain rfl : v = u := Option.some.inj (hv.symm.trans hx)
    rw [get?_restrict] at hw
    split at hw
    · exact ⟨w, hw, huw⟩
    · cases hw

end FrameLog.Binding
