import GraphSurvey.Graph.Walk
import Mathlib

/-!
# The course of a walk

Where a walk goes does not depend on the visitor, as long as no visit fails. The nodes that a walk
comes to when nothing fails are its course, and a walk with any visitor is the visits of its course,
one after the other up to the first that fails. If none fails, the walk ends as its course does.

## Main definitions

* `GraphSurvey.Walk.visitAll` — the visits of a list of nodes.
* `GraphSurvey.Walk.course`, `GraphSurvey.Graph.course` — a walk on which no visit fails.

## Main results

* `GraphSurvey.Walk.advance_follows`, `GraphSurvey.Graph.walk_follows` — a walk makes the visits of
  its course.
-/

namespace GraphSurvey

universe u v

variable {σ : Type u} {ε : Type v}

namespace Walk

/-! ## The steps of a walk -/

section Steps

variable {g : Graph} {ofGraph : GraphError → ε} {visit : Visitor σ ε} {id : NodeId} {n : Node}
  {rest : List Step} {t : Trail} {s s' : σ} {e : ε}

@[simp] theorem advance_nil : advance g ofGraph visit [] t s = ⟨t, s, none⟩ := by
  rw [advance]

/-- A node that was visited is passed over. -/
theorem advance_enter_of_visited (h : id ∈ t.visited) :
    advance g ofGraph visit (.enter id :: rest) t s = advance g ofGraph visit rest t s := by
  rw [advance, if_pos h]

/-- A node on the path is the end of the walk. -/
theorem advance_enter_of_onPath (hv : id ∉ t.visited) (hp : id ∈ t.onPath) :
    advance g ofGraph visit (.enter id :: rest) t s = ⟨t, s, some (ofGraph (.cycle id))⟩ := by
  rw [advance, if_neg hv, if_pos hp]

/-- A position without a node is the end of the walk. -/
theorem advance_enter_of_missing (hv : id ∉ t.visited) (hp : id ∉ t.onPath)
    (hn : g.node? id = none) :
    advance g ofGraph visit (.enter id :: rest) t s =
      ⟨t, s, some (ofGraph (.nodeNotFound id))⟩ := by
  rw [advance, if_neg hv, if_neg hp]
  split
  case h_1 => rfl
  case h_2 n hn' => exact absurd (hn.symm.trans hn') (by simp)

/-- Any other node is entered. -/
theorem advance_enter (hv : id ∉ t.visited) (hp : id ∉ t.onPath) (hn : g.node? id = some n) :
    advance g ofGraph visit (.enter id :: rest) t s =
      advance g ofGraph visit (stepsInto t id n ++ rest) (t.enter id) s := by
  rw [advance, if_neg hv, if_neg hp]
  split
  case h_1 hn' => exact absurd (hn.symm.trans hn') (by simp)
  case h_2 n' hn' => rw [Option.some.inj (hn.symm.trans hn')]

theorem advance_leave_of_visited (h : id ∈ t.visited) :
    advance g ofGraph visit (.leave id :: rest) t s =
      advance g ofGraph visit rest (t.leave id) s := by
  rw [advance, if_pos h]

/-- A node is visited when it is left. -/
theorem advance_leave (hv : id ∉ t.visited) (hs : visit id s = (s', none)) :
    advance g ofGraph visit (.leave id :: rest) t s =
      advance g ofGraph visit rest (t.leave id) s' := by
  rw [advance, if_neg hv, hs]

/-- A visit that fails is the end of the walk. -/
theorem advance_leave_of_failed (hv : id ∉ t.visited) (hs : visit id s = (s', some e)) :
    advance g ofGraph visit (.leave id :: rest) t s = ⟨t.leave id, s', some e⟩ := by
  rw [advance, if_neg hv, hs]

/-- The latest node on the path is taken from it when it is left. -/
theorem leave_of_onPath_eq {path : List NodeId} (h : t.onPath = id :: path) :
    t.leave id = ⟨id :: t.visited, path⟩ := by
  rw [Trail.leave, h, List.erase_cons_head]

end Steps

/-! ## Visits without a walk -/

/-- Visits the nodes of a list in their order, up to the first visit that fails. -/
def visitAll (visit : Visitor σ ε) : List NodeId → σ → σ × Option ε
  | [], s => (s, none)
  | id :: rest, s =>
    match visit id s with
    | (s, none) => visitAll visit rest s
    | (s, some e) => (s, some e)

section VisitAll

variable {visit : Visitor σ ε} {id : NodeId} {rest : List NodeId} {s s' : σ} {e : ε}

@[simp] theorem visitAll_nil : visitAll visit [] s = (s, none) := rfl

theorem visitAll_cons (h : visit id s = (s', none)) :
    visitAll visit (id :: rest) s = visitAll visit rest s' := by
  rw [visitAll, h]

theorem visitAll_cons_of_failed (h : visit id s = (s', some e)) :
    visitAll visit (id :: rest) s = (s', some e) := by
  rw [visitAll, h]

theorem visitAll_append (l l' : List NodeId) (h : visitAll visit l s = (s', none)) :
    visitAll visit (l ++ l') s = visitAll visit l' s' := by
  induction l generalizing s with
  | nil =>
    rw [visitAll_nil, Prod.mk.injEq] at h
    rw [List.nil_append, h.1]
  | cons id rest ih =>
    rw [List.cons_append]
    cases hv : visit id s with
    | mk s₁ failure =>
      cases failure with
      | none =>
        rw [visitAll_cons hv] at h ⊢
        exact ih h
      | some e =>
        rw [visitAll_cons_of_failed hv] at h
        exact absurd (congrArg Prod.snd h) (by simp)

theorem visitAll_append_of_failed (l l' : List NodeId) (h : visitAll visit l s = (s', some e)) :
    visitAll visit (l ++ l') s = (s', some e) := by
  induction l generalizing s with
  | nil => exact absurd (congrArg Prod.snd h) (by simp)
  | cons id rest ih =>
    rw [List.cons_append]
    cases hv : visit id s with
    | mk s₁ failure =>
      cases failure with
      | none =>
        rw [visitAll_cons hv] at h ⊢
        exact ih h
      | some e' =>
        rw [visitAll_cons_of_failed hv] at h ⊢
        exact h

/-- What is related before every visit and is related after it, if the first visitor does not fail,
is related after all visits. -/
theorem visitAll_rel {τ : Type u} {visit' : Visitor τ ε} {R : σ → τ → Prop} {l : List NodeId}
    {t : τ}
    (hstep : ∀ id s t s', R s t → visit id s = (s', none) →
      ∃ t', visit' id t = (t', none) ∧ R s' t')
    (hstart : R s t) (h : visitAll visit l s = (s', none)) :
    ∃ t', visitAll visit' l t = (t', none) ∧ R s' t' := by
  induction l generalizing s t with
  | nil =>
    obtain rfl := (Prod.mk.inj h).1
    exact ⟨t, rfl, hstart⟩
  | cons id rest ih =>
    cases hv : visit id s with
    | mk s₁ failure =>
      cases failure with
      | none =>
        rw [visitAll_cons hv] at h
        obtain ⟨t₁, ht₁, hR⟩ := hstep id s t s₁ hstart hv
        rw [visitAll_cons ht₁]
        exact ih hR h
      | some e =>
        rw [visitAll_cons_of_failed hv] at h
        exact absurd (congrArg Prod.snd h) (by simp)

/-- What every visit of a list keeps that does not fail, a statement about the nodes that were
visited before, holds after all of them. -/
theorem visitAll_visited_invariant {l : List NodeId} {motive : List NodeId → σ → Prop}
    (hstep : ∀ done id rest s s', l = done ++ id :: rest → motive done s →
      visit id s = (s', none) → motive (done ++ [id]) s')
    (hstart : motive [] s) (h : visitAll visit l s = (s', none)) : motive l s' := by
  suffices hrest : ∀ rest done s, l = done ++ rest → motive done s →
      visitAll visit rest s = (s', none) → motive l s' from hrest l [] s rfl hstart h
  intro rest
  induction rest with
  | nil =>
    rintro done s rfl hdone h
    obtain rfl := (Prod.mk.inj h).1
    rwa [List.append_nil]
  | cons id rest ih =>
    intro done s heq hdone h
    cases hv : visit id s with
    | mk s₁ failure =>
      cases failure with
      | none =>
        rw [visitAll_cons hv] at h
        exact ih (done ++ [id]) s₁ (by rw [heq, List.append_assoc]; rfl)
          (hstep done id rest s s₁ heq hdone hv) h
      | some e =>
        rw [visitAll_cons_of_failed hv] at h
        exact absurd (congrArg Prod.snd h) (by simp)

/-- What every visit keeps that does not fail holds after all of them. -/
theorem visitAll_invariant {l : List NodeId} {motive : σ → Prop}
    (hstep : ∀ id s s', motive s → visit id s = (s', none) → motive s')
    (hstart : motive s) (h : visitAll visit l s = (s', none)) : motive s' :=
  visitAll_visited_invariant (motive := fun _ => motive)
    (fun _ id _ s s' _ => hstep id s s') hstart h

/-- What every visit of a list keeps, a statement about the nodes that were visited before, holds
after all of them, and no visit fails. -/
theorem visitAll_of_invariant {l : List NodeId} {motive : List NodeId → σ → Prop}
    (hstep : ∀ done id rest s, l = done ++ id :: rest → motive done s →
      ∃ s', visit id s = (s', none) ∧ motive (done ++ [id]) s')
    (hstart : motive [] s) : ∃ s', visitAll visit l s = (s', none) ∧ motive l s' := by
  suffices hrest : ∀ rest done s, l = done ++ rest → motive done s →
      ∃ s', visitAll visit rest s = (s', none) ∧ motive l s' from hrest l [] s rfl hstart
  intro rest
  induction rest with
  | nil =>
    rintro done s rfl hdone
    rw [List.append_nil]
    exact ⟨s, rfl, hdone⟩
  | cons id rest ih =>
    intro done s heq hdone
    obtain ⟨s₁, hv, hs₁⟩ := hstep done id rest s heq hdone
    rw [visitAll_cons hv]
    exact ih (done ++ [id]) s₁ (by rw [heq, List.append_assoc]; rfl) hs₁

end VisitAll

/-! ## The course -/

/-- The walk that only keeps its visits, until the stack is empty. -/
def course (g : Graph) (stack : List Step) (t : Trail) : Outcome (List NodeId) GraphError :=
  advance g id keepVisits stack t []

/-- A property of all stacks and trails is proved along the steps of a walk on which no visit
fails. -/
theorem induction_on_steps {g : Graph} {motive : List Step → Trail → Prop}
    (nil : ∀ t, motive [] t)
    (visited : ∀ id rest t, id ∈ t.visited → motive rest t → motive (.enter id :: rest) t)
    (onPath : ∀ id rest t, id ∉ t.visited → id ∈ t.onPath → motive (.enter id :: rest) t)
    (missing : ∀ id rest t, id ∉ t.visited → id ∉ t.onPath → g.node? id = none →
      motive (.enter id :: rest) t)
    (enter : ∀ id rest t n, id ∉ t.visited → id ∉ t.onPath → g.node? id = some n →
      motive (stepsInto t id n ++ rest) (t.enter id) → motive (.enter id :: rest) t)
    (again : ∀ id rest t, id ∈ t.visited → motive rest (t.leave id) → motive (.leave id :: rest) t)
    (leave : ∀ id rest t, id ∉ t.visited → motive rest (t.leave id) → motive (.leave id :: rest) t)
    (stack : List Step) (t : Trail) : motive stack t :=
  advance.induct g keepVisits (fun stack t _ => motive stack t)
    (fun t _ => nil t)
    (fun id rest t _ => visited id rest t)
    (fun id rest t _ => onPath id rest t)
    (fun id rest t _ => missing id rest t)
    (fun id rest t _ hv hp n hn => enter id rest t n hv hp hn)
    (fun id rest t _ => again id rest t)
    (fun id rest t _ hv _ _ => leave id rest t hv)
    (fun _ _ _ _ _ _ _ hs => absurd (Prod.mk.inj hs).2 (by simp))
    stack t []

theorem keepVisits_eq (id : NodeId) (visits : List NodeId) :
    keepVisits id visits = (visits ++ [id], none) := rfl

/-- The visits that were kept before stand before those of the course. -/
theorem advance_keepVisits (g : Graph) (stack : List Step) (t : Trail) (visits : List NodeId) :
    advance g id keepVisits stack t visits =
      { course g stack t with state := visits ++ (course g stack t).state } := by
  unfold course
  induction stack, t using induction_on_steps (g := g) generalizing visits with
  | nil t => simp only [advance_nil, List.append_nil]
  | visited id rest t hv ih => simpa only [advance_enter_of_visited hv] using ih visits
  | onPath id rest t hv hp => simp only [advance_enter_of_onPath hv hp, List.append_nil]
  | missing id rest t hv hp hn => simp only [advance_enter_of_missing hv hp hn, List.append_nil]
  | enter id rest t n hv hp hn ih => simpa only [advance_enter hv hp hn] using ih visits
  | again id rest t hv ih => simpa only [advance_leave_of_visited hv] using ih visits
  | leave id rest t hv ih =>
    rw [advance_leave hv (keepVisits_eq id visits), advance_leave hv (keepVisits_eq id []),
      ih (visits ++ [id]), ih ([] ++ [id])]
    simp only [List.nil_append, List.append_assoc]

theorem course_leave {g : Graph} {id : NodeId} {rest : List Step} {t : Trail}
    (hv : id ∉ t.visited) :
    course g (.leave id :: rest) t =
      { course g rest (t.leave id) with state := id :: (course g rest (t.leave id)).state } := by
  rw [course, advance_leave hv (keepVisits_eq id []), advance_keepVisits]
  rfl

/-- A walk makes the visits of a course. -/
structure Follows (ofGraph : GraphError → ε) (visit : Visitor σ ε) (s : σ)
    (c : Outcome (List NodeId) GraphError) (o : Outcome σ ε) : Prop where
  state : o.state = (visitAll visit c.state s).1
  /-- A visit that fails comes before the end of the course. -/
  error : o.error = (visitAll visit c.state s).2.or (c.error.map ofGraph)
  trail : (visitAll visit c.state s).2 = none → o.trail = c.trail

/-- Until the stack is empty, a walk makes the visits of its course. -/
theorem advance_follows (g : Graph) (ofGraph : GraphError → ε) (visit : Visitor σ ε)
    (stack : List Step) (t : Trail) (s : σ) :
    Follows ofGraph visit s (course g stack t) (advance g ofGraph visit stack t s) := by
  induction stack, t using induction_on_steps (g := g) generalizing s with
  | nil t =>
    rw [course, advance_nil, advance_nil]
    exact ⟨rfl, rfl, fun _ => rfl⟩
  | visited id rest t hv ih =>
    rw [course, advance_enter_of_visited hv, advance_enter_of_visited hv]
    exact ih s
  | onPath id rest t hv hp =>
    rw [course, advance_enter_of_onPath hv hp, advance_enter_of_onPath hv hp]
    exact ⟨rfl, rfl, fun _ => rfl⟩
  | missing id rest t hv hp hn =>
    rw [course, advance_enter_of_missing hv hp hn, advance_enter_of_missing hv hp hn]
    exact ⟨rfl, rfl, fun _ => rfl⟩
  | enter id rest t n hv hp hn ih =>
    rw [course, advance_enter hv hp hn, advance_enter hv hp hn]
    exact ih s
  | again id rest t hv ih =>
    rw [course, advance_leave_of_visited hv, advance_leave_of_visited hv]
    exact ih s
  | leave id rest t hv ih =>
    rw [course_leave hv]
    cases hs : visit id s with
    | mk s' failure =>
      cases failure with
      | none =>
        rw [advance_leave hv hs]
        have h := ih s'
        refine ⟨?_, ?_, ?_⟩
        · rw [visitAll_cons hs]; exact h.state
        · rw [visitAll_cons hs]; exact h.error
        · rw [visitAll_cons hs]; exact h.trail
      | some e =>
        rw [advance_leave_of_failed hv hs]
        refine ⟨?_, ?_, ?_⟩
        · rw [visitAll_cons_of_failed hs]
        · rw [visitAll_cons_of_failed hs]; rfl
        · rw [visitAll_cons_of_failed hs]; simp

/-! ## From one output after the other -/

/-- The walk from outputs that only keeps its visits. -/
def courseFrom (g : Graph) (outputs : List NodeId) (t : Trail) :
    Outcome (List NodeId) GraphError :=
  fromOutputs g id keepVisits outputs t []

section Outputs

variable {g : Graph} {ofGraph : GraphError → ε} {visit : Visitor σ ε} {output : NodeId}
  {rest : List NodeId} {t : Trail} {s : σ}

theorem fromOutputs_cons
    (h : (advance g ofGraph visit [.enter output] t s).error = none) :
    fromOutputs g ofGraph visit (output :: rest) t s =
      fromOutputs g ofGraph visit rest (advance g ofGraph visit [.enter output] t s).trail
        (advance g ofGraph visit [.enter output] t s).state := by
  rw [fromOutputs]
  split
  case h_1 t' s' heq => rw [heq]
  case h_2 hne => exact (hne _ _ (by rw [← h])).elim

theorem fromOutputs_cons_of_failed {e : ε}
    (h : (advance g ofGraph visit [.enter output] t s).error = some e) :
    fromOutputs g ofGraph visit (output :: rest) t s =
      advance g ofGraph visit [.enter output] t s := by
  rw [fromOutputs]
  split
  case h_1 t' s' heq => rw [heq] at h; exact absurd h (by simp)
  case h_2 => rfl

end Outputs

theorem fromOutputs_keepVisits (g : Graph) (outputs : List NodeId) (t : Trail)
    (visits : List NodeId) :
    fromOutputs g id keepVisits outputs t visits =
      { courseFrom g outputs t with state := visits ++ (courseFrom g outputs t).state } := by
  unfold courseFrom
  induction outputs generalizing t visits with
  | nil => simp only [fromOutputs, List.append_nil]
  | cons output rest ih =>
    have hfrom := advance_keepVisits g [.enter output] t visits
    cases he : (course g [.enter output] t).error with
    | none =>
      rw [fromOutputs_cons (s := visits) (by rw [hfrom]; exact he), fromOutputs_cons he, hfrom, ih,
        ih _ (advance _ _ _ _ _ []).state]
      simp only [course, List.append_assoc]
    | some e =>
      rw [fromOutputs_cons_of_failed (s := visits) (by rw [hfrom]; exact he),
        fromOutputs_cons_of_failed he, hfrom, course]

theorem courseFrom_cons {g : Graph} {output : NodeId} {rest : List NodeId} {t : Trail}
    (h : (course g [.enter output] t).error = none) :
    courseFrom g (output :: rest) t =
      { courseFrom g rest (course g [.enter output] t).trail with
        state := (course g [.enter output] t).state ++
          (courseFrom g rest (course g [.enter output] t).trail).state } := by
  rw [courseFrom, fromOutputs_cons h, fromOutputs_keepVisits]
  rfl

theorem courseFrom_cons_of_failed {g : Graph} {output : NodeId} {rest : List NodeId} {t : Trail}
    {e : GraphError} (h : (course g [.enter output] t).error = some e) :
    courseFrom g (output :: rest) t = course g [.enter output] t :=
  fromOutputs_cons_of_failed h

/-- A walk from outputs makes the visits of its course. -/
theorem fromOutputs_follows (g : Graph) (ofGraph : GraphError → ε) (visit : Visitor σ ε)
    (outputs : List NodeId) (t : Trail) (s : σ) :
    Follows ofGraph visit s (courseFrom g outputs t)
      (fromOutputs g ofGraph visit outputs t s) := by
  induction outputs generalizing t s with
  | nil => exact ⟨rfl, rfl, fun _ => rfl⟩
  | cons output rest ih =>
    have hfirst := advance_follows g ofGraph visit [.enter output] t s
    cases hs : visitAll visit (course g [.enter output] t).state s with
    | mk s' failure =>
      cases failure with
      | some e =>
        -- the failing visit belongs to the first output, whatever the course does later
        have herror : (advance g ofGraph visit [.enter output] t s).error = some e := by
          rw [hfirst.error, hs]; rfl
        have hall : visitAll visit (courseFrom g (output :: rest) t).state s = (s', some e) := by
          cases he : (course g [.enter output] t).error with
          | none => rw [courseFrom_cons he]; exact visitAll_append_of_failed _ _ hs
          | some e' => rw [courseFrom_cons_of_failed he]; exact hs
        rw [fromOutputs_cons_of_failed herror]
        refine ⟨?_, ?_, ?_⟩
        · rw [hall, hfirst.state, hs]
        · rw [hall, herror]; rfl
        · rw [hall]; simp
      | none =>
        have hstate := hfirst.state
        have herror := hfirst.error
        have htrail := hfirst.trail (by rw [hs])
        rw [hs] at hstate herror
        cases he : (course g [.enter output] t).error with
        | none =>
          rw [he] at herror
          rw [fromOutputs_cons herror, courseFrom_cons he, hstate, htrail]
          have h := ih (course g [.enter output] t).trail s'
          refine ⟨?_, ?_, ?_⟩
          · rw [visitAll_append _ _ hs]; exact h.state
          · rw [visitAll_append _ _ hs]; exact h.error
          · rw [visitAll_append _ _ hs]; exact h.trail
        | some e =>
          rw [he] at herror
          rw [fromOutputs_cons_of_failed herror, courseFrom_cons_of_failed he]
          exact hfirst

end Walk

namespace Graph

/-- The walk of a graph that only keeps its visits. -/
def course (g : Graph) : Walk.Outcome (List NodeId) GraphError := g.walk id Walk.keepVisits []

/-- A walk of a graph makes the visits of its course. -/
theorem walk_follows (g : Graph) (ofGraph : GraphError → ε) (visit : Walk.Visitor σ ε) (s : σ) :
    Walk.Follows ofGraph visit s g.course (g.walk ofGraph visit s) :=
  Walk.fromOutputs_follows g ofGraph visit g.outputs .start s

/-- The order of the visits is the course, unless that ends with an error. -/
theorem order_eq_ok_iff {g : Graph} {visits : List NodeId} :
    g.order = .ok visits ↔ g.course.error = none ∧ g.course.state = visits := by
  rw [order, course]
  split
  case h_1 heq => simp [heq]
  case h_2 heq => simp [heq]

theorem order_eq_error_iff {g : Graph} {e : GraphError} :
    g.order = .error e ↔ g.course.error = some e := by
  rw [order, course]
  split
  case h_1 heq => simp [heq]
  case h_2 heq => simp [heq]

end Graph

end GraphSurvey
