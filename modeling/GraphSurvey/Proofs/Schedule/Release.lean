import GraphSurvey.Proofs.Schedule.Cycle
import Mathlib

/-!
# The release of passes

At every release the queue fits the passes that were placed: each pass waits for as many as it has
owners that are not placed, and those that are ready are the passes that are not placed and have all
owners placed, in increasing order. So each time the first of the passes that may come next is
released. Among the orders in which every pass comes when it may, the one so made is the first in
the order of words, since at the first place where another order differs from it, the other one has
a later pass.

## Main definitions

* `GraphSurvey.Schedule.Ready` — the pass may come next.
* `GraphSurvey.Schedule.ReadyOrder`, `GraphSurvey.Schedule.Greedy` — orders in which every pass
  comes when it may, and the one in which the first such pass always comes.
* `GraphSurvey.Schedule.Queue.Fits` — what every release keeps.

## Main results

* `GraphSurvey.Schedule.greedy_release` — always the first of the ready passes is released.
* `GraphSurvey.Schedule.Greedy.complete` — without cycles no pass is lost.
* `GraphSurvey.Schedule.Greedy.least` — no other order comes before it.
-/

open Relation

namespace GraphSurvey.Schedule

variable {n : Nat} {es : List (Fin n × Fin n)} {placed l : List (Fin n)} {i j o : Fin n}

/-- The pass is not placed, and all that it waits for is. -/
def Ready (es : List (Fin n × Fin n)) (placed : List (Fin n)) (i : Fin n) : Prop :=
  i ∉ placed ∧ ∀ o, Waits es i o → o ∈ placed

/-- After some passes were placed, the passes of a list come each when it is ready. -/
def ReadyOrder (es : List (Fin n × Fin n)) : List (Fin n) → List (Fin n) → Prop
  | _, [] => True
  | placed, i :: rest => Ready es placed i ∧ ReadyOrder es (i :: placed) rest

/-- After some passes were placed, the first pass that is ready comes each time, until none is. -/
def Greedy (es : List (Fin n × Fin n)) : List (Fin n) → List (Fin n) → Prop
  | placed, [] => ∀ i, ¬ Ready es placed i
  | placed, i :: rest =>
    Ready es placed i ∧ (∀ j, Ready es placed j → i ≤ j) ∧ Greedy es (i :: placed) rest

/-! ## Orders in which every pass is ready -/

theorem readyOrder_iff :
    ReadyOrder es placed l ↔ l.Nodup ∧ (∀ i ∈ l, i ∉ placed) ∧
      ∀ before i after, l = before ++ i :: after → ∀ o, Waits es i o → o ∈ before ∨ o ∈ placed := by
  induction l generalizing placed with
  | nil => simp [ReadyOrder]
  | cons i rest ih =>
    rw [ReadyOrder, ih, List.nodup_cons]
    constructor
    · rintro ⟨⟨hnot, howners⟩, hnodup, hfresh, hbefore⟩
      refine ⟨⟨fun hi => hfresh i hi List.mem_cons_self, hnodup⟩, fun j hj => ?_, ?_⟩
      · rcases List.mem_cons.mp hj with rfl | hj
        · exact hnot
        · exact fun hplaced => hfresh j hj (List.mem_cons_of_mem _ hplaced)
      · intro before j after heq o ho
        rcases List.cons_eq_append_iff.mp heq with ⟨rfl, hcons⟩ | ⟨before', rfl, hrest⟩
        · cases hcons
          exact .inr (howners o ho)
        · rcases hbefore before' j after hrest o ho with hmem | hmem
          · exact .inl (List.mem_cons_of_mem _ hmem)
          · rcases List.mem_cons.mp hmem with rfl | hmem
            · exact .inl List.mem_cons_self
            · exact .inr hmem
    · rintro ⟨⟨hnot, hnodup⟩, hfresh, hbefore⟩
      refine ⟨⟨hfresh i List.mem_cons_self, fun o ho => ?_⟩, hnodup, fun j hj hmem => ?_, ?_⟩
      · exact (hbefore [] i rest rfl o ho).resolve_left List.not_mem_nil
      · rcases List.mem_cons.mp hmem with rfl | hmem
        · exact hnot hj
        · exact hfresh j (List.mem_cons_of_mem _ hj) hmem
      · intro before j after heq o ho
        rcases hbefore (i :: before) j after (by rw [heq]; rfl) o ho with hmem | hmem
        · rcases List.mem_cons.mp hmem with rfl | hmem
          · exact .inr List.mem_cons_self
          · exact .inl hmem
        · exact .inr (List.mem_cons_of_mem _ hmem)

theorem Greedy.readyOrder (h : Greedy es placed l) : ReadyOrder es placed l := by
  induction l generalizing placed with
  | nil => trivial
  | cons i rest ih => exact ⟨h.1, ih h.2.2⟩

theorem Greedy.eq {l' : List (Fin n)} (h : Greedy es placed l) (h' : Greedy es placed l') :
    l = l' := by
  induction l generalizing placed l' with
  | nil =>
    cases l' with
    | nil => rfl
    | cons i' rest' => exact absurd h'.1 (h i')
  | cons i rest ih =>
    cases l' with
    | nil => exact absurd h.1 (h' i)
    | cons i' rest' =>
      obtain rfl : i = i' := le_antisymm (h.2.1 i' h'.1) (h'.2.1 i h.1)
      rw [ih h.2.2 h'.2.2]

/-- At the first place where an order differs, it has a later pass. -/
theorem Greedy.least {l' : List (Fin n)} (h : Greedy es placed l) (h' : ReadyOrder es placed l')
    (hlength : l'.length = l.length) : l = l' ∨ List.Lex (· < ·) l l' := by
  induction l generalizing placed l' with
  | nil => exact .inl (List.length_eq_zero_iff.mp hlength).symm
  | cons i rest ih =>
    cases l' with
    | nil => cases hlength
    | cons i' rest' =>
      rcases lt_or_eq_of_le (h.2.1 i' h'.1) with hlt | rfl
      · exact .inr (.rel hlt)
      · rcases ih h.2.2 h'.2 (Nat.succ.inj hlength) with rfl | hlex
        · exact .inl rfl
        · exact .inr (.cons hlex)

theorem wellFounded_owners (hacyclic : ∀ i, ¬ TransGen (Waits es) i i) :
    WellFounded (Function.swap (Waits es)) :=
  wellFounded_of_acyclic fun i h => hacyclic i (transGen_swap.mp h)

/-- Without cycles no pass is left when none is ready. -/
theorem Greedy.complete (h : Greedy es placed l) (hacyclic : ∀ i, ¬ TransGen (Waits es) i i)
    (i : Fin n) : i ∈ placed ∨ i ∈ l := by
  induction l generalizing placed with
  | nil =>
    left
    induction i using (wellFounded_owners hacyclic).induction with
    | _ i ih =>
    by_contra hi
    exact h i ⟨hi, ih⟩
  | cons j rest ih =>
    rcases ih h.2.2 with hmem | hmem
    · rcases List.mem_cons.mp hmem with rfl | hmem
      · exact .inr List.mem_cons_self
      · exact .inl hmem
    · exact .inr (List.mem_cons_of_mem _ hmem)

/-- A pass that is passed over for a later one waits, perhaps through others, for a pass that is no
earlier than that. -/
theorem exists_waits_of_passedOver (hacyclic : ∀ i, ¬ TransGen (Waits es) i i)
    (hmin : ∀ k, Ready es placed k → j ≤ k) (hi : i ∉ placed) (hij : i < j) :
    ∃ k, j ≤ k ∧ TransGen (Waits es) i k := by
  induction i using (wellFounded_owners hacyclic).induction with
  | _ i ih =>
  have hnot : ¬ Ready es placed i := fun hready => absurd (hmin i hready) (not_le.mpr hij)
  obtain ⟨o, ho, hplaced⟩ : ∃ o, Waits es i o ∧ o ∉ placed := by
    by_contra hall
    push Not at hall
    exact hnot ⟨hi, hall⟩
  rcases le_or_gt j o with hjo | hoj
  · exact ⟨o, hjo, .single ho⟩
  · obtain ⟨k, hk, hreach⟩ := ih o ho hplaced hoj
    exact ⟨k, hk, .head ho hreach⟩

/-- In a greedy order a pass stands behind a later one only if it waits, perhaps through others, for
a pass that is no earlier than that. -/
theorem Greedy.exists_waits {before after : List (Fin n)}
    (h : Greedy es placed (before ++ j :: after)) (hacyclic : ∀ i, ¬ TransGen (Waits es) i i)
    (hplaced : i ∉ placed) (hi : i ∉ before) (hij : i < j) :
    ∃ k, j ≤ k ∧ TransGen (Waits es) i k := by
  induction before generalizing placed with
  | nil => exact exists_waits_of_passedOver hacyclic h.2.1 hplaced hij
  | cons p before ih =>
    obtain ⟨hp, hbefore⟩ := not_or.mp (List.mem_cons.not.mp hi)
    exact ih h.2.2 (fun hmem => (List.mem_cons.mp hmem).elim hp hplaced) hbefore

/-- An increasing list of all passes in which every pass is ready is the greedy one. -/
theorem ReadyOrder.greedy_of_sorted (h : ReadyOrder es placed l) (hsorted : l.Pairwise (· < ·))
    (hall : ∀ i, i ∈ placed ∨ i ∈ l) : Greedy es placed l := by
  induction l generalizing placed with
  | nil => exact fun i hi => hi.1 ((hall i).resolve_right List.not_mem_nil)
  | cons i rest ih =>
    obtain ⟨hfirst, hrest⟩ := List.pairwise_cons.mp hsorted
    refine ⟨h.1, fun j hj => ?_, ih h.2 hrest fun j => ?_⟩
    · rcases List.mem_cons.mp ((hall j).resolve_left hj.1) with rfl | hmem
      · exact le_refl _
      · exact (hfirst j hmem).le
    · rcases hall j with hmem | hmem
      · exact .inl (List.mem_cons_of_mem _ hmem)
      · rcases List.mem_cons.mp hmem with rfl | hmem
        · exact .inl List.mem_cons_self
        · exact .inr hmem

/-! ## The queue -/

theorem mem_insertReady {ready : List (Fin n)} : j ∈ insertReady i ready ↔ j = i ∨ j ∈ ready := by
  induction ready with
  | nil => simp [insertReady]
  | cons k rest ih =>
    rw [insertReady]
    split
    · rw [List.mem_cons, ih, List.mem_cons]
      exact or_left_comm
    · exact List.mem_cons

theorem sorted_insertReady {ready : List (Fin n)} (h : ready.Pairwise (· < ·)) (hi : i ∉ ready) :
    (insertReady i ready).Pairwise (· < ·) := by
  induction ready with
  | nil => exact List.pairwise_singleton ..
  | cons k rest ih =>
    obtain ⟨hfirst, hrest⟩ := List.pairwise_cons.mp h
    obtain ⟨hne, hnot⟩ := not_or.mp (List.mem_cons.not.mp hi)
    rw [insertReady]
    split
    case isTrue hlt =>
      refine List.pairwise_cons.mpr ⟨fun m hm => ?_, ih hrest hnot⟩
      rcases mem_insertReady.mp hm with rfl | hm
      · exact hlt
      · exact hfirst m hm
    case isFalse hge =>
      have hlt : i < k := lt_of_le_of_ne (not_lt.mp hge) hne
      refine List.pairwise_cons.mpr ⟨fun m hm => ?_, h⟩
      rcases List.mem_cons.mp hm with rfl | hm
      · exact hlt
      · exact hlt.trans (hfirst m hm)

theorem waiting_notify (q : Queue n) (i j : Fin n) :
    (q.notify i).waiting j = if j = i then q.waiting j - 1 else q.waiting j := by
  unfold Queue.notify
  split
  case h_1 hwait =>
    split
    · next heq => rw [heq, hwait]
    · rfl
  case h_2 hwait =>
    split
    · next heq => rw [heq, hwait]; exact if_pos rfl
    · next hne => exact if_neg hne
  case h_3 k hwait =>
    split
    · next heq => rw [heq, hwait]; exact if_pos rfl
    · next hne => exact if_neg hne

theorem mem_ready_notify (q : Queue n) (i j : Fin n) :
    j ∈ (q.notify i).ready ↔ j ∈ q.ready ∨ j = i ∧ q.waiting i = 1 := by
  unfold Queue.notify
  split
  case h_1 hwait => simp [hwait]
  case h_2 hwait =>
    simp only [hwait, mem_insertReady, and_true]
    exact or_comm
  case h_3 k hwait => simp [hwait, Queue.await]

theorem sorted_ready_notify {q : Queue n} (h : q.ready.Pairwise (· < ·))
    (hi : q.waiting i = 1 → i ∉ q.ready) : (q.notify i).ready.Pairwise (· < ·) := by
  unfold Queue.notify
  split
  case h_1 => exact h
  case h_2 hwait => exact sorted_insertReady h (hi hwait)
  case h_3 => exact h

section Notifications

variable {q : Queue n} {is : List (Fin n)}

/-- Each pass of a list waits for one less. -/
theorem waiting_foldl_notify (his : is.Nodup) (j : Fin n) :
    (is.foldl Queue.notify q).waiting j = if j ∈ is then q.waiting j - 1 else q.waiting j := by
  induction is generalizing q with
  | nil => simp
  | cons i rest ih =>
    obtain ⟨hi, hrest⟩ := List.nodup_cons.mp his
    rw [List.foldl_cons, ih hrest, waiting_notify]
    by_cases hj : j = i
    · subst hj
      simp [hi]
    · simp [hj]

/-- The passes that waited for one are ready after the notifications. -/
theorem mem_ready_foldl_notify (his : is.Nodup) (j : Fin n) :
    j ∈ (is.foldl Queue.notify q).ready ↔ j ∈ q.ready ∨ j ∈ is ∧ q.waiting j = 1 := by
  induction is generalizing q with
  | nil => simp
  | cons i rest ih =>
    obtain ⟨hi, hrest⟩ := List.nodup_cons.mp his
    rw [List.foldl_cons, ih hrest, mem_ready_notify, waiting_notify]
    by_cases hj : j = i
    · subst hj
      simp [hi]
    · simp [hj]

theorem sorted_ready_foldl_notify (his : is.Nodup) (h : q.ready.Pairwise (· < ·))
    (hnot : ∀ j ∈ is, q.waiting j = 1 → j ∉ q.ready) :
    (is.foldl Queue.notify q).ready.Pairwise (· < ·) := by
  induction is generalizing q with
  | nil => exact h
  | cons i rest ih =>
    obtain ⟨hi, hrest⟩ := List.nodup_cons.mp his
    rw [List.foldl_cons]
    refine ih hrest (sorted_ready_notify h (hnot i List.mem_cons_self)) fun j hj hwait => ?_
    have hne : j ≠ i := by
      rintro rfl
      exact hi hj
    rw [waiting_notify, if_neg hne] at hwait
    rw [mem_ready_notify]
    simp [hnot j (List.mem_cons_of_mem _ hj) hwait, hne]

end Notifications

/-- The owners of a pass that are not placed. -/
def openOwners (es : List (Fin n × Fin n)) (placed : List (Fin n)) (i : Fin n) : List (Fin n) :=
  (owners es i).filter fun o => !placed.contains o

theorem mem_openOwners_iff : o ∈ openOwners es placed i ↔ Waits es i o ∧ o ∉ placed := by
  simp [openOwners, mem_owners_iff, Waits]

theorem openOwners_eq_nil_iff :
    openOwners es placed i = [] ↔ ∀ o, Waits es i o → o ∈ placed := by
  simp only [List.eq_nil_iff_forall_not_mem, mem_openOwners_iff, not_and, not_not]

/-- The queue agrees with the passes that were placed. -/
structure Queue.Fits (es : List (Fin n × Fin n)) (placed : List (Fin n)) (q : Queue n) : Prop where
  waiting_eq : ∀ i, q.waiting i = (openOwners es placed i).length
  sorted : q.ready.Pairwise (· < ·)
  mem_ready_iff : ∀ i, i ∈ q.ready ↔ Ready es placed i
  /-- Whatever a placed pass waits for was placed. -/
  closed : ∀ i ∈ placed, ∀ o, Waits es i o → o ∈ placed

theorem nodup_readers (hes : es.Nodup) (i : Fin n) : (readers es i).Nodup := by
  refine List.Nodup.map_on (fun e he e' he' heq => ?_) (hes.filter _)
  have hfst : e.1 = i := by simpa using (List.mem_filter.mp he).2
  have hfst' : e'.1 = i := by simpa using (List.mem_filter.mp he').2
  exact Prod.ext (hfst.trans hfst'.symm) heq

theorem nodup_openOwners (hes : es.Nodup) (placed : List (Fin n)) (i : Fin n) :
    (openOwners es placed i).Nodup := by
  refine (List.Nodup.map_on (fun e he e' he' heq => ?_) (hes.filter _)).filter _
  have hsnd : e.2 = i := by simpa using (List.mem_filter.mp he).2
  have hsnd' : e'.2 = i := by simpa using (List.mem_filter.mp he').2
  exact Prod.ext heq (hsnd.trans hsnd'.symm)

/-- When a pass is placed, the passes that wait for it have one owner less that is not placed. -/
theorem length_openOwners_cons (hes : es.Nodup) (hi : i ∉ placed) (j : Fin n) :
    (openOwners es (i :: placed) j).length =
      if j ∈ readers es i then (openOwners es placed j).length - 1
      else (openOwners es placed j).length := by
  have hopen : openOwners es (i :: placed) j = (openOwners es placed j).erase i := by
    rw [(nodup_openOwners hes placed j).erase_eq_filter, openOwners, openOwners, List.filter_filter]
    refine List.filter_congr fun o _ => ?_
    by_cases heq : o = i <;> simp [heq]
  have hmem : j ∈ readers es i ↔ i ∈ openOwners es placed j := by
    rw [mem_readers_iff, mem_openOwners_iff]
    exact ⟨fun h => ⟨h, hi⟩, fun h => h.1⟩
  rw [hopen]
  split
  case isTrue h => exact List.length_erase_of_mem (hmem.mp h)
  case isFalse h => rw [List.erase_of_not_mem fun h' => h (hmem.mpr h')]

theorem fits_start (es : List (Fin n × Fin n)) : (Queue.start es).Fits es [] where
  waiting_eq i := by simp [Queue.start, openOwners]
  sorted := (List.pairwise_lt_finRange n).filter _
  mem_ready_iff i := by
    simp only [Queue.start, List.mem_filter, List.mem_finRange, true_and, decide_eq_true_eq,
      List.length_eq_zero_iff, Ready, List.not_mem_nil, not_false_eq_true, imp_false,
      List.eq_nil_iff_forall_not_mem, mem_owners_iff, Waits]
  closed _ h := by cases h

/-- A release keeps the queue in agreement with the passes that were placed. -/
theorem Queue.Fits.release {q : Queue n} {rest : List (Fin n)} (h : q.Fits es placed)
    (hes : es.Nodup) (hself : ∀ i, ¬ Waits es i i) (hq : q.ready = i :: rest) :
    ((readers es i).foldl Queue.notify { q with ready := rest }).Fits es (i :: placed) := by
  have hready : Ready es placed i := (h.mem_ready_iff i).mp (by rw [hq]; exact List.mem_cons_self)
  have hsorted : (i :: rest).Pairwise (· < ·) := hq ▸ h.sorted
  obtain ⟨hfirst, hrest⟩ := List.pairwise_cons.mp hsorted
  have hmem (j : Fin n) : j ∈ rest ↔ Ready es placed j ∧ j ≠ i := by
    rw [← h.mem_ready_iff, hq, List.mem_cons]
    constructor
    · exact fun hj => ⟨.inr hj, (hfirst j hj).ne'⟩
    · exact fun ⟨hj, hne⟩ => hj.resolve_left hne
  refine ⟨fun j => ?_, ?_, fun j => ?_, ?_⟩
  · rw [waiting_foldl_notify (nodup_readers hes i), length_openOwners_cons hes hready.1]
    simp only [h.waiting_eq]
  · refine sorted_ready_foldl_notify (nodup_readers hes i) hrest fun j hj _ hin => ?_
    -- a ready pass waits for none, also not for the one that is released
    exact hready.1 (((hmem j).mp hin).1.2 i (mem_readers_iff.mp hj))
  · rw [mem_ready_foldl_notify (nodup_readers hes i), hmem]
    constructor
    · rintro (⟨⟨hj, howners⟩, hne⟩ | ⟨hj, hwait⟩)
      · exact ⟨List.not_mem_cons_of_ne_of_not_mem hne hj,
          fun o ho => List.mem_cons_of_mem _ (howners o ho)⟩
      · have hwaits : Waits es j i := mem_readers_iff.mp hj
        have hne : j ≠ i := by
          rintro rfl
          exact hself j hwaits
        have hnone : openOwners es (i :: placed) j = [] := by
          rw [← List.length_eq_zero_iff, length_openOwners_cons hes hready.1, if_pos hj,
            ← h.waiting_eq]
          exact Nat.sub_eq_zero_of_le (Nat.le_of_eq hwait)
        refine ⟨List.not_mem_cons_of_ne_of_not_mem hne fun hplaced => ?_,
          openOwners_eq_nil_iff.mp hnone⟩
        exact hready.1 (h.closed j hplaced i hwaits)
    · rintro ⟨hj, howners⟩
      obtain ⟨hne, hplaced⟩ := not_or.mp (List.mem_cons.not.mp hj)
      by_cases hwaits : Waits es j i
      · right
        have hj : j ∈ readers es i := mem_readers_iff.mpr hwaits
        have hlength := length_openOwners_cons hes hready.1 j
        rw [openOwners_eq_nil_iff.mpr howners, if_pos hj, List.length_nil] at hlength
        have hpos : 0 < (openOwners es placed j).length :=
          List.length_pos_of_mem (mem_openOwners_iff.mpr ⟨hwaits, hready.1⟩)
        refine ⟨hj, ?_⟩
        rw [h.waiting_eq]
        omega
      · left
        refine ⟨⟨hplaced, fun o ho => ?_⟩, hne⟩
        rcases List.mem_cons.mp (howners o ho) with rfl | hmem
        · exact absurd ho hwaits
        · exact hmem
  · intro j hj o ho
    rcases List.mem_cons.mp hj with rfl | hj
    · exact List.mem_cons_of_mem _ (hready.2 o ho)
    · exact List.mem_cons_of_mem _ (h.closed j hj o ho)

/-- Always the first of the passes that may come next is released. -/
theorem greedy_release {q : Queue n} (h : q.Fits es placed) (hes : es.Nodup)
    (hself : ∀ i, ¬ Waits es i i) : Greedy es placed (release es q) := by
  fun_induction release es q generalizing placed with
  | case1 q hq =>
    intro i hi
    have hmem := (h.mem_ready_iff i).mpr hi
    rw [hq] at hmem
    cases hmem
  | case2 q i rest hq ih =>
    refine ⟨(h.mem_ready_iff i).mp (by rw [hq]; exact List.mem_cons_self), fun j hj => ?_,
      ih (h.release hes hself hq)⟩
    have hmem := (h.mem_ready_iff j).mpr hj
    rw [hq] at hmem
    rcases List.mem_cons.mp hmem with rfl | hmem
    · exact le_refl _
    · exact ((List.pairwise_cons.mp (hq ▸ h.sorted)).1 j hmem).le

end GraphSurvey.Schedule
