import GraphSurvey.Document.Decode
import GraphSurvey.Proofs.Decimal.Finite
import GraphSurvey.Proofs.Document.Decoded
import Mathlib

/-!
# What decoders accept

Properties of everything that a decoder makes of any tree, however its content is spelled. The
properties may speak of the number of containers that could still be opened, since what a decoder
makes of a tree is nested no deeper than the tree.

## Main definitions

* `GraphSurvey.Decoder.Yields` — a property of all that a decoder accepts.
* `GraphSurvey.RecordField.Keeps` — an invariant of the drafts of a record.

## Main results

* `GraphSurvey.Decoder.size_yields`, `GraphSurvey.Decoder.integer_yields`,
  `GraphSurvey.Decoder.double_yields` — integers fit words, and numbers are finite.
* `GraphSurvey.Decoder.list_yields`, `GraphSurvey.Decoder.entries_yields`,
  `GraphSurvey.Decoder.variant_yields`, `GraphSurvey.Record.decode_yields` — lists, dictionaries,
  variants and records have the properties of their parts.
-/

namespace GraphSurvey

variable {α β σ : Type}

/-- What was computed before, if the whole computation succeeds. -/
theorem bind_ok {x : Except Fault α} {f : α → Except Fault β} {b : β} (h : (x >>= f) = .ok b) :
    ∃ a, x = .ok a ∧ f a = .ok b := by
  cases x with
  | error _ => cases h
  | ok a => exact ⟨a, rfl, h⟩

theorem map_ok {x : Except Fault α} {f : α → β} {b : β} (h : f <$> x = .ok b) :
    ∃ a, x = .ok a ∧ f a = b := by
  cases x with
  | error _ => cases h
  | ok a => exact ⟨a, rfl, Except.ok.inj h⟩

theorem map_error {x : Except Fault α} {f : α → β} {e : Fault} (h : f <$> x = .error e) :
    x = .error e := by
  cases x with
  | error _ => cases h; rfl
  | ok _ => cases h

theorem given_ok {o : Option α} {a : α} (h : given o = .ok a) : o = some a := by
  cases o with
  | none => cases h
  | some b => exact congrArg some (Except.ok.inj h)

theorem forall_mem_some {P : α → Prop} {a : α} (h : P a) : ∀ b ∈ some a, P b := by
  rintro _ ⟨⟩
  exact h

/-! ## Numbers -/

namespace Numeral

/-- A natural number that a numeral stands for fits a word. -/
theorem lt_of_number {n : Numeral} {k : Nat} (h : n.number = .ok (.natural k)) : k < wordBound := by
  simp only [number] at h
  split at h
  case isTrue hword =>
    obtain rfl : digitsValue n.whole = k := by simpa using h
    exact hword.2.2.2
  case isFalse =>
    split at h
    · cases h
    · split at h <;> cases h

/-- A negative integer that a numeral stands for fits a signed word. -/
theorem le_of_number {n : Numeral} {k : Nat} (h : n.number = .ok (.negative k)) :
    k ≤ signedBound := by
  simp only [number] at h
  split at h
  case isTrue => cases h
  case isFalse =>
    split at h
    case isTrue hsigned =>
      obtain rfl : digitsValue n.whole = k := by simpa using h
      exact hsigned.2.2.2.2
    case isFalse => split at h <;> cases h

end Numeral

namespace Decoder

/-- Everything that the decoder accepts has the property. -/
def Yields (d : Decoder α) (P : Nat → α → Prop) : Prop :=
  ∀ ⦃depth : Nat⦄ ⦃t : Tree⦄ ⦃a : α⦄, d depth t = .ok a → P depth a

/-- The property holds when one container less may be opened. -/
def Nested (P : Nat → α → Prop) (depth : Nat) (a : α) : Prop := ∃ n, depth = n + 1 ∧ P n a

theorem yields_true (d : Decoder α) : d.Yields fun _ _ => True := fun _ _ _ _ => trivial

theorem Yields.imp {d : Decoder α} {P Q : Nat → α → Prop} (hd : d.Yields P)
    (h : ∀ depth a, P depth a → Q depth a) : d.Yields Q :=
  fun _ _ _ ha => h _ _ (hd ha)

/-- What holds of all that is nested once holds of all. -/
theorem Yields.of_nested {d : Decoder α} {P : Nat → α → Prop}
    (hd : d.Yields (Nested fun n a => P (n + 1) a)) : d.Yields P := by
  refine hd.imp fun depth a h => ?_
  obtain ⟨n, rfl, h⟩ := h
  exact h

/-- What is accepted of a text has the property for the whole of the nesting limit. -/
theorem Yields.of_ofText {d : Decoder α} {P : Nat → α → Prop} (hd : d.Yields P) {s : String} {a : α}
    (h : d.ofText s = .ok a) : P nestingLimit a := by
  obtain ⟨b, hb, h⟩ := bind_ok h
  split at h
  · cases h
  · cases h
    exact hd hb

theorem Yields.map {d : Decoder α} {f : α → β} {P : Nat → α → Prop} {Q : Nat → β → Prop}
    (hd : d.Yields P) (h : ∀ depth a, P depth a → Q depth (f a)) : (d.map f).Yields Q := by
  intro depth t b hb
  obtain ⟨a, ha, rfl⟩ := map_ok hb
  exact h depth a (hd ha)

theorem number_eq_ok {depth : Nat} {t : Tree} {x : Number} (h : number depth t = .ok x) :
    ∃ n : Numeral, n.number = .ok x := by
  cases t with
  | number n => exact ⟨n, h⟩
  | _ => cases h

/-- A natural number that is read fits a word. -/
theorem size_yields : size.Yields fun _ n => n < wordBound := by
  intro depth t n h
  obtain ⟨x, hx, h⟩ := bind_ok h
  obtain ⟨numeral, hx⟩ := number_eq_ok hx
  cases x with
  | natural k =>
    cases h
    exact Numeral.lt_of_number hx
  | negative k => cases h
  | real x => cases h

/-- An integer that is read fits a signed word. -/
theorem integer_yields : integer.Yields fun _ i => IsSigned i := by
  intro depth t i h
  obtain ⟨x, hx, h⟩ := bind_ok h
  obtain ⟨numeral, hx⟩ := number_eq_ok hx
  cases x with
  | natural k =>
    by_cases hk : k < signedBound
    · obtain rfl : (k : Int) = i := Except.ok.inj ((if_pos hk).symm.trans h)
      exact ⟨by omega, by exact_mod_cast hk⟩
    · cases (if_neg hk).symm.trans h
  | negative k =>
    cases h
    have hk := Numeral.le_of_number hx
    exact ⟨by omega, by simp only [signedBound]; omega⟩
  | real x => cases h

/-- A number of double precision that is read is finite. -/
theorem double_yields : double.Yields fun _ x => x.isFinite = true := by
  intro depth t x h
  obtain ⟨number, hx, h⟩ := bind_ok h
  obtain ⟨numeral, hx⟩ := number_eq_ok hx
  cases number with
  | natural k =>
    cases h
    exact Binary.isFinite_ofRatio (Numeral.lt_of_number hx) false
  | negative k =>
    cases h
    have hk : (-(k : Int)).natAbs ≤ signedBound := by
      rw [Int.natAbs_neg, Int.natAbs_natCast]
      exact Numeral.le_of_number hx
    exact Binary.isFinite_ofRatio (hk.trans_lt (by decide)) _
  | real x =>
    cases h
    exact Numeral.isFinite_of_number hx

/-- A value that may be missing is what is read of it if it is there. -/
theorem optional_yields {d : Decoder α} {P : Nat → α → Prop} (hd : d.Yields P) :
    (optional d).Yields fun depth o => ∀ a ∈ o, P depth a := by
  intro depth t o h
  rw [optional.eq_def] at h
  split at h
  · cases h
    exact nofun
  · obtain ⟨a, ha, rfl⟩ := map_ok h
    exact forall_mem_some (hd ha)

/-! ## Lists and dictionaries -/

theorem forall_of_items {d : Tree → Except Fault α} {P : α → Prop}
    (hd : ∀ ⦃t a⦄, d t = .ok a → P a) {is : Items} {as : List α} (h : items d is = .ok as) :
    ∀ a ∈ as, P a := by
  fun_induction items d is generalizing as with
  | case1 =>
    cases h
    exact List.forall_mem_nil _
  | case2 => cases h
  | case3 t rest ih =>
    obtain ⟨a, ha, h⟩ := bind_ok h
    obtain ⟨bs, hbs, h⟩ := bind_ok h
    cases h
    exact List.forall_mem_cons.mpr ⟨hd ha, ih hbs⟩

theorem forall_of_members {d : Tree → Except Fault α} {P : α → Prop}
    (hd : ∀ ⦃t a⦄, d t = .ok a → P a) {ms : Members} {as : List (String × α)}
    (h : members d ms = .ok as) : ∀ e ∈ as, P e.2 := by
  fun_induction members d ms generalizing as with
  | case1 =>
    cases h
    exact List.forall_mem_nil _
  | case2 => cases h
  | case3 => cases h
  | case4 name t rest ih =>
    obtain ⟨key, -, h⟩ := bind_ok h
    obtain ⟨a, ha, h⟩ := bind_ok h
    obtain ⟨bs, hbs, h⟩ := bind_ok h
    cases h
    exact List.forall_mem_cons.mpr ⟨hd ha, ih hbs⟩

/-- The items of a list that is read are what is read of them. -/
theorem list_yields {d : Decoder α} {P : Nat → α → Prop} (hd : d.Yields P) :
    (list d).Yields (Nested fun n as => ∀ a ∈ as, P n a) := by
  intro depth t as h
  cases depth with
  | zero => cases t <;> cases h
  | succ n =>
    cases t with
    | array is => exact ⟨n, rfl, forall_of_items (@hd n) h⟩
    | _ => cases h

/-- The values of a row that is read are what is read of them. -/
theorem entries_yields {d : Decoder α} {P : Nat → α → Prop} (hd : d.Yields P) :
    (entries d).Yields (Nested fun n as => ∀ e ∈ as, P n e.2) := by
  intro depth t as h
  cases depth with
  | zero => cases t <;> cases h
  | succ n =>
    cases t with
    | object ms => exact ⟨n, rfl, forall_of_members (@hd n) h⟩
    | _ => cases h

/-- The items of a list that is read back are. -/
theorem forall_of_list_map {d : Decoder α} {write : α → Json} {depth : Nat} {as : List α}
    (h : list d depth (Json.array (as.map write)).tree = .ok as) :
    ∃ n, depth = n + 1 ∧ ∀ a ∈ as, d n (write a).tree = .ok a := by
  cases depth with
  | zero => cases h
  | succ n =>
    refine ⟨n, rfl, ?_⟩
    replace h : items (d n) (Json.itemTrees (as.map write)) = .ok as := h
    induction as with
    | nil => exact List.forall_mem_nil _
    | cons a rest ih =>
      obtain ⟨b, hb, h⟩ := bind_ok h
      obtain ⟨bs, hbs, h⟩ := bind_ok h
      cases h
      exact List.forall_mem_cons.mpr ⟨hb, ih hbs⟩

/-- What is read of a row of named values has their names, and the values that are read of them. -/
theorem forall₂_of_entries_map {d : Decoder α} {write : α → Json} {depth : Nat}
    {as bs : List (String × α)}
    (h : entries d depth (Json.object (as.map fun e => (e.1, write e.2))).tree = .ok bs) :
    ∃ n, depth = n + 1 ∧
      List.Forall₂ (fun a b => a.1 = b.1 ∧ d n (write a.2).tree = .ok b.2) as bs := by
  cases depth with
  | zero => cases h
  | succ n =>
    refine ⟨n, rfl, ?_⟩
    replace h : members (d n) (Json.memberTrees (as.map fun e => (e.1, write e.2))) = .ok bs := h
    induction as generalizing bs with
    | nil =>
      cases h
      exact .nil
    | cons a rest ih =>
      obtain ⟨key, hkey, h⟩ := bind_ok h
      obtain ⟨b, hb, h⟩ := bind_ok h
      obtain ⟨more, hmore, h⟩ := bind_ok h
      cases h
      rw [QuotedText.content_written, Except.ok.injEq] at hkey
      exact .cons ⟨hkey, hb⟩ (ih hmore)

/-! ## Variants -/

theorem endVariant_ok {a b : α} {ms : Members} (h : endVariant a ms = .ok b) : a = b := by
  cases ms with
  | close => exact Except.ok.inj h
  | _ => cases h

/-- A variant that is read is what is read of its content. -/
theorem variant_yields {content : String → Option (Decoder α)} {P : Nat → α → Prop}
    (hcontent : ∀ name, ∀ d ∈ content name, d.Yields P) : (variant content).Yields (Nested P) := by
  intro depth t a h
  rw [variant.eq_def] at h
  split at h
  case h_1 n name t rest =>
    obtain ⟨key, -, h⟩ := bind_ok h
    split at h
    case h_1 d hd =>
      obtain ⟨b, hb, h⟩ := bind_ok h
      obtain rfl := endVariant_ok h
      exact ⟨n, rfl, hcontent key d hd hb⟩
    case h_2 => cases h
  case h_2 => cases h

/-- The content of a written variant that is read is what is read. -/
theorem variant_tagged_ok {content : String → Option (Decoder α)} {name : String} {d : Decoder α}
    {j : Json} {depth : Nat} {a : α} (hcontent : content name = some d)
    (h : variant content depth (Json.tagged name j).tree = .ok a) :
    ∃ n, depth = n + 1 ∧ d n j.tree = .ok a := by
  cases depth with
  | zero => cases h
  | succ n =>
    refine ⟨n, rfl, ?_⟩
    rw [tree_tagged, variant, QuotedText.content_written, ok_bind] at h
    simp only [hcontent] at h
    obtain ⟨b, hb, h⟩ := bind_ok h
    obtain rfl := endVariant_ok h
    exact hb

end Decoder

/-! ## Records -/

/-- Reading the field keeps the invariant of the drafts. -/
def RecordField.Keeps (field : RecordField σ) (Inv : Nat → σ → Prop) : Prop :=
  ∀ ⦃depth : Nat⦄ ⦃t : Tree⦄ ⦃s s' : σ⦄, field.read depth t s = .ok s' → Inv depth s → Inv depth s'

/-- A field keeps an invariant if what its decoder accepts may be put into the drafts. -/
theorem RecordField.keeps_of_yields {field : RecordField σ} {d : Decoder α} {set : α → σ → σ}
    {P : Nat → α → Prop} {Inv : Nat → σ → Prop}
    (hread : field.read = fun depth t s => (set · s) <$> d depth t) (hd : d.Yields P)
    (hset : ∀ depth a s, P depth a → Inv depth s → Inv depth (set a s)) : field.Keeps Inv := by
  intro depth t s s' h hinv
  rw [hread] at h
  obtain ⟨a, ha, rfl⟩ := map_ok h
  exact hset depth a s (hd ha) hinv

namespace Record

variable {r : Record σ α} {Inv : Nat → σ → Prop} {depth : Nat}

/-- Going through the members of an object keeps the invariant. -/
theorem keeps_of_readMembers (hfields : ∀ field ∈ r.fields, field.Keeps Inv) {ms : Members}
    {s s' : σ} (h : r.readMembers depth s ms = .ok s') (hinv : Inv depth s) : Inv depth s' := by
  fun_induction r.readMembers depth s ms with
  | case1 s =>
    cases h
    exact hinv
  | case2 => cases h
  | case3 => cases h
  | case4 s name t rest ihgiven ihother =>
    obtain ⟨key, -, h⟩ := bind_ok h
    cases hfound : r.fields.find? (·.name = key) with
    | none =>
      simp only [hfound] at h
      split at h
      · obtain ⟨-, -, h⟩ := bind_ok h
        exact ihother h hinv
      · cases h
    | some field =>
      simp only [hfound] at h
      split at h
      · cases h
      · obtain ⟨s₁, hs₁, h⟩ := bind_ok h
        exact ihgiven s₁ h (hfields field (List.mem_of_find?_eq_some hfound) hs₁ hinv)

/-- Going through the items of an array keeps the invariant. -/
theorem keeps_of_readItems {fields : List (RecordField σ)}
    (hfields : ∀ field ∈ fields, field.Keeps Inv) {is rest : Items} {s s' : σ}
    (h : readItems depth fields s is = .ok (s', rest)) (hinv : Inv depth s) : Inv depth s' := by
  induction fields generalizing s is with
  | nil =>
    cases h
    exact hinv
  | cons field fields ih =>
    obtain ⟨hfield, hrest⟩ := List.forall_mem_cons.mp hfields
    cases is with
    | stop f => cases h
    | close =>
      rw [readItems] at h
      split at h
      · exact ih hrest h hinv
      · cases h
    | item t is =>
      obtain ⟨s₁, hs₁, h⟩ := bind_ok h
      exact ih hrest h (hfield hs₁ hinv)

/-- A record that is read is what is made of a draft with the invariant. -/
theorem decode_yields {P : Nat → α → Prop} (hstart : ∀ depth, Inv depth r.start)
    (hfields : ∀ field ∈ r.fields, field.Keeps Inv)
    (hfinish : ∀ depth s a, r.finish s = .ok a → Inv depth s → P depth a) :
    r.decode.Yields (Decoder.Nested P) := by
  intro depth t a h
  cases depth with
  | zero => cases t <;> cases h
  | succ n =>
    cases t with
    | object ms =>
      obtain ⟨s, hs, h⟩ := bind_ok h
      exact ⟨n, rfl, hfinish n s a h (keeps_of_readMembers hfields hs (hstart n))⟩
    | array is =>
      obtain ⟨⟨s, rest⟩, hs, h⟩ := bind_ok h
      obtain ⟨b, hb, h⟩ := bind_ok h
      cases rest with
      | close =>
        cases h
        exact ⟨n, rfl, hfinish n s a hb (keeps_of_readItems hfields hs (hstart n))⟩
      | stop f => cases h
      | item t is => cases h
    | _ => cases h

/-- What is read of a member of a written record is put into the draft for the rest. -/
theorem exists_of_readMembers_cons {field : RecordField σ} {name : String} {d : Decoder β}
    {set : β → σ → σ} {s s' : σ} {j : Json} {rest : List (String × Json)}
    (hfield : r.fields.find? (·.name = name) = some field) (hnew : field.isGiven s = false)
    (hread : field.read = fun depth t s => (set · s) <$> d depth t)
    (h : r.readMembers depth s (Json.memberTrees ((name, j) :: rest)) = .ok s') :
    ∃ b, d depth j.tree = .ok b ∧
      r.readMembers depth (set b s) (Json.memberTrees rest) = .ok s' := by
  rw [readMembers_member hfield hnew, hread] at h
  obtain ⟨s₁, hs₁, h⟩ := bind_ok h
  obtain ⟨b, hb, rfl⟩ := map_ok hs₁
  exact ⟨b, hb, h⟩

/-- A written record that is read is made of what is read of its members. -/
theorem decode_object_ok {members : List (String × Json)} {a : α}
    (h : r.decode depth (Json.object members).tree = .ok a) :
    ∃ n s, depth = n + 1 ∧ r.readMembers n r.start (Json.memberTrees members) = .ok s ∧
      r.finish s = .ok a := by
  cases depth with
  | zero => cases h
  | succ n =>
    obtain ⟨s, hs, h⟩ := bind_ok h
    exact ⟨n, s, rfl, hs, h⟩

end Record

end GraphSurvey
