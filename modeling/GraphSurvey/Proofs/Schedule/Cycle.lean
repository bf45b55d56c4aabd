import GraphSurvey.Proofs.Schedule.Dependency
import Mathlib

/-!
# Cycles of dependencies

The search for a cycle finishes every pass, and a pass after all that read from it, unless it waits
for them itself. So in the finishing order read backwards an owner that stands behind its reader
waits for it and lies on a cycle. When every owner stands there before its readers, there is no
cycle.

## Main results

* `GraphSurvey.Schedule.mem_finishingOrder` — every pass is finished.
* `GraphSurvey.Schedule.readersFirst_finishingOrder` — the order in which passes are finished.
* `GraphSurvey.Schedule.transGen_of_onCycle?` — the pass that is found lies on a cycle.
* `GraphSurvey.Schedule.onCycle?_eq_none_iff` — no pass is found on a cycle exactly when there is
  none.
-/

open Relation

namespace GraphSurvey.Schedule

variable {n : Nat} {es : List (Fin n × Fin n)} {i o : Fin n}

/-- The pass waits for an owner. -/
def Waits (es : List (Fin n × Fin n)) (i o : Fin n) : Prop := (o, i) ∈ es

/-- A relation of finitely many passes without cycles is well founded. -/
theorem wellFounded_of_acyclic {R : Fin n → Fin n → Prop} (h : ∀ i, ¬ TransGen R i i) :
    WellFounded R := by
  have htrans : IsTrans (Fin n) (TransGen R) := ⟨fun _ _ _ => TransGen.trans⟩
  have hirrefl : Std.Irrefl (TransGen R) := ⟨h⟩
  exact Subrelation.wf TransGen.single (Finite.wellFounded_of_trans_of_irrefl (TransGen R))

/-! ## Owners behind their readers -/

theorem ownerBehind?_eq_none_iff {before l : List (Fin n)} :
    ownerBehind? es before l = none ↔
      ∀ l₁ i l₂, l = l₁ ++ i :: l₂ → ∀ o, Waits es i o → o = i ∨ o ∈ l₁ ∨ o ∈ before := by
  induction l generalizing before with
  | nil => simp [ownerBehind?]
  | cons i rest ih =>
    rw [ownerBehind?]
    split
    case h_1 o hfind =>
      refine iff_of_false (by simp) fun hall => ?_
      have hwaits : Waits es i o := mem_owners_iff.mp (List.mem_of_find?_eq_some hfind)
      have hnot : o ≠ i ∧ o ∉ before := by simpa using List.find?_some hfind
      rcases hall [] i rest rfl o hwaits with heq | hmem | hmem
      · exact hnot.1 heq
      · cases hmem
      · exact hnot.2 hmem
    case h_2 hfind =>
      have hfirst (o : Fin n) (ho : Waits es i o) : o = i ∨ o ∈ before := by
        have hnot := List.find?_eq_none.mp hfind o (mem_owners_iff.mpr ho)
        rw [decide_eq_true_eq, not_not] at hnot
        exact List.mem_cons.mp hnot
      rw [ih]
      constructor
      · intro hall l₁ j l₂ heq o ho
        rcases List.cons_eq_append_iff.mp heq with ⟨rfl, hcons⟩ | ⟨l₁', rfl, hrest⟩
        · cases hcons
          exact (hfirst o ho).imp_right .inr
        · rcases hall l₁' j l₂ hrest o ho with heq | hmem | hmem
          · exact .inl heq
          · exact .inr (.inl (List.mem_cons_of_mem _ hmem))
          · rcases List.mem_cons.mp hmem with rfl | hmem
            · exact .inr (.inl List.mem_cons_self)
            · exact .inr (.inr hmem)
      · intro hall l₁ j l₂ heq o ho
        rcases hall (i :: l₁) j l₂ (by rw [heq]; rfl) o ho with heq | hmem | hmem
        · exact .inl heq
        · rcases List.mem_cons.mp hmem with rfl | hmem
          · exact .inr (.inr List.mem_cons_self)
          · exact .inr (.inl hmem)
        · exact .inr (.inr (List.mem_cons_of_mem _ hmem))

/-- An owner that is found stands behind its reader. -/
theorem exists_of_ownerBehind? {l : List (Fin n)} (h : ownerBehind? es [] l = some o) :
    ∃ l₁ i l₂, l = l₁ ++ i :: l₂ ∧ Waits es i o ∧ o ≠ i ∧ o ∉ l₁ := by
  suffices hall : ∀ before, ownerBehind? es before l = some o →
      ∃ l₁ i l₂, l = l₁ ++ i :: l₂ ∧ Waits es i o ∧ o ≠ i ∧ o ∉ l₁ ∧ o ∉ before by
    obtain ⟨l₁, i, l₂, heq, ho, hne, hnot, -⟩ := hall [] h
    exact ⟨l₁, i, l₂, heq, ho, hne, hnot⟩
  clear h
  induction l with
  | nil => exact fun _ h => by cases h
  | cons i rest ih =>
    intro before h
    rw [ownerBehind?] at h
    split at h
    case h_1 o' hfind =>
      obtain rfl := Option.some.inj h
      have hwaits : Waits es i o' := mem_owners_iff.mp (List.mem_of_find?_eq_some hfind)
      have hnot : o' ≠ i ∧ o' ∉ before := by simpa using List.find?_some hfind
      exact ⟨[], i, rest, rfl, hwaits, hnot.1, List.not_mem_nil, hnot.2⟩
    case h_2 =>
      obtain ⟨l₁, j, l₂, rfl, ho, hne, hnot, hbefore⟩ := ih _ h
      obtain ⟨hfirst, hbefore⟩ := not_or.mp (List.mem_cons.not.mp hbefore)
      refine ⟨i :: l₁, j, l₂, rfl, ho, hne, fun hmem => ?_, hbefore⟩
      exact (List.mem_cons.mp hmem).elim hfirst hnot

/-- When the owners of a list stand before their readers, what a pass at the front waits for lies at
the front. -/
theorem acyclic_of_ownerBehind? {l : List (Fin n)} (hself : ∀ i, ¬ Waits es i i)
    (hall : ∀ i, i ∈ l) (h : ownerBehind? es [] l = none) : ∀ i, ¬ TransGen (Waits es) i i := by
  intro i hcycle
  have hbefore {l₁ l₂ : List (Fin n)} {i o : Fin n} (heq : l = l₁ ++ i :: l₂)
      (ho : Waits es i o) : o ∈ l₁ := by
    rcases ownerBehind?_eq_none_iff.mp h l₁ i l₂ heq o ho with rfl | hmem | hmem
    · exact absurd ho (hself _)
    · exact hmem
    · cases hmem
  -- at the first place of the pass, everything that it waits for stands before it
  obtain ⟨l₁, l₂, heq, hfirst⟩ := List.eq_append_cons_of_mem (hall i)
  have hfront {p o : Fin n} (hp : p ∈ l₁) (ho : Waits es p o) : o ∈ l₁ := by
    obtain ⟨l₃, l₄, rfl⟩ := List.append_of_mem hp
    have hmem : o ∈ l₃ := hbefore (by rw [heq, List.append_assoc, List.cons_append]) ho
    exact List.mem_append_left _ hmem
  have hreach {o : Fin n} (ho : TransGen (Waits es) i o) : o ∈ l₁ := by
    induction ho with
    | single ho => exact hbefore heq ho
    | tail _ ho ih => exact hfront ih ho
  exact hfirst (hreach hcycle)

/-! ## What a search finishes -/

theorem search_of_met {s : Search n} {rest : List (Fin n)} (h : i ∈ s.met) :
    search es (i :: rest) s = search es rest (s.finish i) := by
  rw [search, if_pos h]

theorem search_of_new {s : Search n} {rest : List (Fin n)} (h : i ∉ s.met) :
    search es (i :: rest) s =
      search es ((readers es i).filter (· ∉ (s.meet i).met) ++ i :: rest) (s.meet i) := by
  rw [search, if_neg h]

theorem mem_finish_iff {s : Search n} {x : Fin n} :
    x ∈ (s.finish i).finished ↔ x = i ∨ x ∈ s.finished := by
  unfold Search.finish
  split
  case isTrue h => exact ⟨.inr, fun hx => hx.elim (fun heq => heq ▸ h) id⟩
  case isFalse => exact List.mem_cons

/-- What is on the stack is finished in the end. -/
theorem mem_finished_search {stack : List (Fin n)} {s : Search n}
    (h : o ∈ stack ∨ o ∈ s.finished) : o ∈ (search es stack s).finished := by
  fun_induction search es stack s with
  | case1 s => exact h.resolve_left List.not_mem_nil
  | case2 i rest s hmet ih =>
    refine ih ?_
    rw [mem_finish_iff]
    rcases h with h | h
    · rcases List.mem_cons.mp h with rfl | h
      · exact .inr (.inl rfl)
      · exact .inl h
    · exact .inr (.inr h)
  | case3 i rest s hmet ih => exact ih (h.imp_left (List.mem_append_right _))

/-- What was met is finished in the end, if it was on the stack unless it was finished before. -/
theorem finished_of_met_search {stack : List (Fin n)} {s : Search n}
    (h : ∀ x ∈ s.met, x ∈ s.finished ∨ x ∈ stack) :
    ∀ x ∈ (search es stack s).met, x ∈ (search es stack s).finished := by
  fun_induction search es stack s with
  | case1 s => exact fun x hx => (h x hx).resolve_right List.not_mem_nil
  | case2 i rest s hmet ih =>
    refine ih fun x hx => ?_
    rw [met_finish] at hx
    rw [mem_finish_iff]
    rcases h x hx with hx | hx
    · exact .inl (.inr hx)
    · rcases List.mem_cons.mp hx with rfl | hx
      · exact .inl (.inl rfl)
      · exact .inr hx
  | case3 i rest s hmet ih =>
    refine ih fun x hx => ?_
    rcases List.mem_cons.mp hx with rfl | hx
    · exact .inr (List.mem_append_right _ List.mem_cons_self)
    · exact (h x hx).imp_right (List.mem_append_right _)

theorem searchFrom_finishes {s : Search n} (h : ∀ x ∈ s.met, x ∈ s.finished) (i : Fin n) :
    i ∈ (searchFrom es s i).finished ∧ s.finished ⊆ (searchFrom es s i).finished ∧
      ∀ x ∈ (searchFrom es s i).met, x ∈ (searchFrom es s i).finished := by
  unfold searchFrom
  split
  case isTrue hmet => exact ⟨h i hmet, List.Subset.refl _, h⟩
  case isFalse hnew =>
    exact ⟨mem_finished_search (.inl List.mem_cons_self), fun x hx => mem_finished_search (.inr hx),
      finished_of_met_search fun x hx => .inl (h x hx)⟩

theorem foldl_searchFrom_finishes {l : List (Fin n)} {s : Search n}
    (h : ∀ x ∈ s.met, x ∈ s.finished) :
    l ⊆ (l.foldl (searchFrom es) s).finished ∧
      s.finished ⊆ (l.foldl (searchFrom es) s).finished := by
  induction l generalizing s with
  | nil => exact ⟨List.nil_subset _, List.Subset.refl _⟩
  | cons i rest ih =>
    obtain ⟨hi, hold, hmet⟩ := searchFrom_finishes h i
    obtain ⟨hrest, hfinished⟩ := ih hmet
    exact ⟨List.cons_subset.mpr ⟨hfinished hi, hrest⟩, List.Subset.trans hold hfinished⟩

/-- Every pass is finished. -/
theorem mem_finishingOrder (es : List (Fin n × Fin n)) (i : Fin n) : i ∈ finishingOrder es :=
  (foldl_searchFrom_finishes fun x hx => by cases hx).1 (List.mem_finRange i)

/-! ## The order of a search -/

/-- The passes of a list, the latest first, stand each once and after all that wait for it, apart
from those that it waits for itself. -/
def ReadersFirst (es : List (Fin n × Fin n)) : List (Fin n) → Prop
  | [] => True
  | i :: earlier =>
    i ∉ earlier ∧ (∀ r, Waits es r i → r ∈ earlier ∨ TransGen (Waits es) i r) ∧
      ReadersFirst es earlier

theorem ReadersFirst.suffix {later l : List (Fin n)} (h : ReadersFirst es (later ++ l)) :
    ReadersFirst es l := by
  induction later with
  | nil => exact h
  | cons latest later ih => exact ih h.2.2

/-- The pass was met and is not finished. -/
def Search.OnPath (s : Search n) (i : Fin n) : Prop := i ∈ s.met ∧ i ∉ s.finished

/-- What was finished was met, and after all that wait for it without being waited for. -/
structure Search.Proper (es : List (Fin n × Fin n)) (s : Search n) : Prop where
  finished_subset : s.finished ⊆ s.met
  readersFirst : ReadersFirst es s.finished

/-- A search went on to another one with the same path. -/
structure Search.Extends (es : List (Fin n × Fin n)) (s s' : Search n) : Prop where
  proper : s'.Proper es
  met_subset : s.met ⊆ s'.met
  finished_subset : s.finished ⊆ s'.finished
  onPath_iff : ∀ p, s'.OnPath p ↔ s.OnPath p

theorem Search.Extends.refl {s : Search n} (h : s.Proper es) : s.Extends es s :=
  ⟨h, List.Subset.refl _, List.Subset.refl _, fun _ => Iff.rfl⟩

theorem Search.Extends.trans {s₁ s₂ s₃ : Search n} (h : s₁.Extends es s₂) (h' : s₂.Extends es s₃) :
    s₁.Extends es s₃ where
  proper := h'.proper
  met_subset := List.Subset.trans h.met_subset h'.met_subset
  finished_subset := List.Subset.trans h.finished_subset h'.finished_subset
  onPath_iff p := (h'.onPath_iff p).trans (h.onPath_iff p)

/-- From a pass that is not on the path and that everything on the path is waited for by, the search
comes back with the pass finished. -/
def Search.Finishes (es : List (Fin n × Fin n)) (s : Search n) : Prop :=
  ∀ (i : Fin n) (rest : List (Fin n)), s.Proper es → ¬ s.OnPath i →
    (∀ p, s.OnPath p → TransGen (Waits es) i p) →
      ∃ s', search es (i :: rest) s = search es rest s' ∧ s.Extends es s' ∧ i ∈ s'.finished

theorem search_append {is : List (Fin n)} {s : Search n}
    (hsearch : ∀ s' : Search n, s.met ⊆ s'.met → s'.Finishes es) (rest : List (Fin n))
    (hs : s.Proper es) (hnew : ∀ i ∈ is, ¬ s.OnPath i)
    (hpath : ∀ i ∈ is, ∀ p, s.OnPath p → TransGen (Waits es) i p) :
    ∃ s', search es (is ++ rest) s = search es rest s' ∧ s.Extends es s' ∧ is ⊆ s'.finished := by
  induction is generalizing s with
  | nil => exact ⟨s, rfl, .refl hs, List.nil_subset _⟩
  | cons i is ih =>
    obtain ⟨s₁, heq₁, hext₁, hi⟩ := hsearch s (List.Subset.refl _) i (is ++ rest) hs
      (hnew i List.mem_cons_self) (hpath i List.mem_cons_self)
    obtain ⟨s₂, heq₂, hext₂, his₂⟩ := ih
      (fun s' hmet => hsearch s' (List.Subset.trans hext₁.met_subset hmet)) hext₁.proper
      (fun j hj => (hext₁.onPath_iff j).not.mpr (hnew j (List.mem_cons_of_mem _ hj)))
      (fun j hj p hp => hpath j (List.mem_cons_of_mem _ hj) p ((hext₁.onPath_iff p).mp hp))
    refine ⟨s₂, ?_, hext₁.trans hext₂, List.cons_subset.mpr ⟨hext₂.finished_subset hi, his₂⟩⟩
    rw [List.cons_append, heq₁, heq₂]

theorem onPath_meet_iff {s : Search n} (hs : s.Proper es) (hi : i ∉ s.met) (p : Fin n) :
    (s.meet i).OnPath p ↔ p = i ∨ s.OnPath p := by
  have hnot : i ∉ s.finished := fun h => hi (hs.finished_subset h)
  simp only [Search.OnPath, Search.meet, List.mem_cons]
  constructor
  · rintro ⟨rfl | hmet, hfinished⟩
    · exact .inl rfl
    · exact .inr ⟨hmet, hfinished⟩
  · rintro (rfl | ⟨hmet, hfinished⟩)
    · exact ⟨.inl rfl, hnot⟩
    · exact ⟨.inr hmet, hfinished⟩

theorem onPath_finish_iff {s : Search n} (p : Fin n) :
    (s.finish i).OnPath p ↔ p ≠ i ∧ s.OnPath p := by
  simp only [Search.OnPath, met_finish, mem_finish_iff, not_or]
  exact and_left_comm

theorem countNew_le {s s' : Search n} (h : s.met ⊆ s'.met) : s'.countNew ≤ s.countNew :=
  List.countP_mono_left fun i _ hi => by
    simp only [decide_eq_true_eq] at hi ⊢
    exact fun hmet => hi (h hmet)

/-- A search comes back from every pass, with what waits for it finished before or waited for. -/
theorem search_finishes (s : Search n) : s.Finishes es := by
  induction hk : s.countNew using Nat.strong_induction_on generalizing s with
  | _ k ih =>
  subst hk
  intro i rest hs hnew hpath
  by_cases hi : i ∈ s.met
  case pos =>
    have hfinished : i ∈ s.finished := not_not.mp fun hnot => hnew ⟨hi, hnot⟩
    have hsame : s.finish i = s := if_pos hfinished
    refine ⟨s, ?_, .refl hs, hfinished⟩
    rw [search_of_met hi, hsame]
  case neg =>
    let is := (readers es i).filter (· ∉ (s.meet i).met)
    have hwaits {r : Fin n} (hr : r ∈ is) : Waits es r i :=
      mem_readers_iff.mp (List.mem_filter.mp hr).1
    have hmeet : (s.meet i).Proper es :=
      ⟨fun p hp => List.mem_cons_of_mem _ (hs.finished_subset hp), hs.readersFirst⟩
    have hnew' (r : Fin n) (hr : r ∈ is) : ¬ (s.meet i).OnPath r := fun hon =>
      absurd hon.1 (by simpa using (List.mem_filter.mp hr).2)
    have hpath' (r : Fin n) (hr : r ∈ is) (p : Fin n) (hp : (s.meet i).OnPath p) :
        TransGen (Waits es) r p := by
      rcases (onPath_meet_iff hs hi p).mp hp with rfl | hp
      · exact .single (hwaits hr)
      · exact .head (hwaits hr) (hpath p hp)
    obtain ⟨s', heq, hext, his⟩ := search_append
      (fun s'' hmet => ih _ (lt_of_le_of_lt (countNew_le hmet) (countNew_meet_lt hi)) s'' rfl)
      (i :: rest) hmeet hnew' hpath'
    have honPath (p : Fin n) : s'.OnPath p ↔ p = i ∨ s.OnPath p :=
      (hext.onPath_iff p).trans (onPath_meet_iff hs hi p)
    obtain ⟨hmet, hnot⟩ : s'.OnPath i := (honPath i).mpr (.inl rfl)
    have hfinish : (s'.finish i).finished = i :: s'.finished := by
      rw [Search.finish, if_neg hnot]
    -- a pass that waits for this one is on the path, or was finished before, or was put on the
    -- stack above it
    have hreaders (r : Fin n) (hr : Waits es r i) :
        r ∈ s'.finished ∨ TransGen (Waits es) i r := by
      by_cases hmem : r ∈ (s.meet i).met
      · rcases List.mem_cons.mp hmem with rfl | hold
        · exact .inr (.single hr)
        · by_cases hfinished : r ∈ s.finished
          · exact .inl (hext.finished_subset hfinished)
          · exact .inr (hpath r ⟨hold, hfinished⟩)
      · exact .inl (his (List.mem_filter.mpr ⟨mem_readers_iff.mpr hr, by simpa using hmem⟩))
    refine ⟨s'.finish i, ?_, ⟨⟨?_, ?_⟩, ?_, ?_, fun p => ?_⟩, ?_⟩
    · rw [search_of_new hi, heq, search_of_met hmet]
    · rw [hfinish, met_finish]
      exact List.cons_subset.mpr ⟨hmet, hext.proper.finished_subset⟩
    · rw [hfinish]
      exact ⟨hnot, hreaders, hext.proper.readersFirst⟩
    · rw [met_finish]
      exact fun p hp => hext.met_subset (List.mem_cons_of_mem _ hp)
    · rw [hfinish]
      exact fun p hp => List.mem_cons_of_mem _ (hext.finished_subset hp)
    · rw [onPath_finish_iff, honPath]
      constructor
      · rintro ⟨hne, heq | hp⟩
        · exact absurd heq hne
        · exact hp
      · intro hp
        refine ⟨?_, .inr hp⟩
        rintro rfl
        exact hi hp.1
    · rw [hfinish]
      exact List.mem_cons_self

/-- Every pass is finished after all that wait for it, apart from those that it waits for itself. -/
theorem readersFirst_finishingOrder (es : List (Fin n × Fin n)) :
    ReadersFirst es (finishingOrder es) := by
  have hfold (l : List (Fin n)) (s : Search n) (hs : s.Proper es) (hpath : ∀ p, ¬ s.OnPath p) :
      (l.foldl (searchFrom es) s).Proper es := by
    induction l generalizing s with
    | nil => exact hs
    | cons i rest ih =>
      rw [List.foldl_cons]
      by_cases hi : i ∈ s.met
      · rw [searchFrom, if_pos hi]
        exact ih s hs hpath
      · obtain ⟨s', heq, hext, -⟩ :=
          search_finishes s i [] hs (hpath i) fun p hp => absurd hp (hpath p)
        rw [searchFrom, if_neg hi, heq, search]
        exact ih s' hext.proper fun p hp => hpath p ((hext.onPath_iff p).mp hp)
  have hstart : (⟨[], []⟩ : Search n).Proper es := ⟨List.nil_subset _, trivial⟩
  exact (hfold (List.finRange n) _ hstart fun p hp => by cases hp.1).readersFirst

/-- The owner of a pass is finished after it, unless the owner waits for the pass. -/
theorem transGen_of_finished_before {later earlier : List (Fin n)}
    (heq : finishingOrder es = later ++ i :: earlier) (hmem : o ∈ earlier) (ho : Waits es i o) :
    TransGen (Waits es) o i := by
  obtain ⟨l₁, l₂, rfl⟩ := List.append_of_mem hmem
  have hfirst := readersFirst_finishingOrder es
  rw [heq] at hfirst
  obtain ⟨hnot, -, hrest⟩ := hfirst.suffix
  refine (hrest.suffix.2.1 i ho).resolve_left fun hbehind => ?_
  exact hnot (List.mem_append_right _ (List.mem_cons_of_mem _ hbehind))

/-! ## Passes on a cycle -/

/-- The pass that is found waits for itself: it is waited for by a pass that it waits for. -/
theorem transGen_of_onCycle? (h : onCycle? es = some o) : TransGen (Waits es) o o := by
  obtain ⟨later, i, earlier, heq, ho, hne, hlater⟩ := exists_of_ownerBehind? h
  have hmem := mem_finishingOrder es o
  rw [heq, List.mem_append, List.mem_cons] at hmem
  have hbehind : o ∈ earlier := (hmem.resolve_left hlater).resolve_left hne
  exact (transGen_of_finished_before heq hbehind ho).tail ho

/-- No pass is found on a cycle exactly when there is none. -/
theorem onCycle?_eq_none_iff (hself : ∀ i, ¬ Waits es i i) :
    onCycle? es = none ↔ ∀ i, ¬ TransGen (Waits es) i i := by
  refine ⟨acyclic_of_ownerBehind? hself (mem_finishingOrder es), fun hacyclic => ?_⟩
  exact Option.eq_none_iff_forall_ne_some.mpr fun o ho =>
    hacyclic o (transGen_of_onCycle? ho)

end GraphSurvey.Schedule
