import GraphSurvey.Pass.Access

/-!
# The order of passes

Every field has one owner, the pass that declares to write it, and a pass depends on the owners of
the fields that it reads, itself apart. Passes run in an order in which the owners of what a pass
reads come before it; of the passes that may come next always the one goes first that comes first in
the given list.

Dependencies that form a cycle are found by a search along the edges from owners to readers. The
search finishes a pass after all passes that it reaches, so without a cycle every pass finishes
before its owners. Read backwards, the finishing order then has every owner before its readers, and
a pass with an owner behind it lies on a cycle with that owner.

Without a cycle the passes are released one after the other. A pass waits for as many passes as it
depends on; each release lets its readers wait for one less, and a pass that waits for none joins
those that are ready.

## Main definitions

* `GraphSurvey.Schedule.repeatedField?`, `GraphSurvey.Schedule.unmetRead?`,
  `GraphSurvey.Schedule.onCycle?` — what may be wrong with passes.
* `GraphSurvey.Schedule.Queue`, `GraphSurvey.Schedule.release` — the order in which passes run.
* `GraphSurvey.Schedule.order` — the order of passes, or what is wrong with them.
-/

namespace GraphSurvey.Schedule

variable {n : Nat}

/-! ## Owners and readers -/

/-- The declared fields with the positions of the passes that declare them, in the order of
declaration. -/
def declared (passes : Fin n → Access) : List (String × Fin n) :=
  (List.finRange n).flatMap fun i => (passes i).writes.map fun decl => (decl.name, i)

/-- The first field that is declared again, with its first and its second declarer. -/
def repeatedAmong (before : List (String × Fin n)) :
    List (String × Fin n) → Option (String × Fin n × Fin n)
  | [] => none
  | (field, i) :: rest =>
    match before.find? fun e => e.1 = field with
    | some (_, first) => some (field, first, i)
    | none => repeatedAmong (before ++ [(field, i)]) rest

/-- The first field of the passes that is declared again. -/
def repeatedField? (passes : Fin n → Access) : Option (String × Fin n × Fin n) :=
  repeatedAmong [] (declared passes)

/-- The pass that declares to write a field. -/
def owner? (passes : Fin n → Access) (field : String) : Option (Fin n) :=
  ((declared passes).find? fun e => e.1 = field).map Prod.snd

/-- The first read without an owner, with its pass. -/
def unmetRead? (passes : Fin n → Access) : Option (Fin n × String) :=
  (List.finRange n).findSome? fun i =>
    ((passes i).reads.find? fun field => (owner? passes field).isNone).map fun field => (i, field)

/-- The pairs of an owner and another pass that reads one of its fields, each once, in the order of
the reads. -/
def edges (passes : Fin n → Access) : List (Fin n × Fin n) :=
  ((List.finRange n).flatMap fun i =>
    (passes i).reads.filterMap fun field =>
      match owner? passes field with
      | some o => if o = i then none else some (o, i)
      | none => none).eraseDups

/-- The passes that depend on a pass. -/
def readers (es : List (Fin n × Fin n)) (i : Fin n) : List (Fin n) :=
  (es.filter fun e => e.1 = i).map Prod.snd

/-- The passes that a pass depends on. -/
def owners (es : List (Fin n × Fin n)) (i : Fin n) : List (Fin n) :=
  (es.filter fun e => e.2 = i).map Prod.fst

/-! ## Cycles -/

/-- The passes that a search has met and those that it has finished, the latest first. -/
structure Search (n : Nat) where
  met : List (Fin n)
  finished : List (Fin n)

namespace Search

/-- The search after a pass is met. -/
def meet (s : Search n) (i : Fin n) : Search n := { s with met := i :: s.met }

/-- The search after a pass is finished, which counts once. -/
def finish (s : Search n) (i : Fin n) : Search n :=
  if i ∈ s.finished then s else { s with finished := i :: s.finished }

/-- The number of passes that a search has not met. -/
def countNew (s : Search n) : Nat := (List.finRange n).countP fun i => i ∉ s.met

end Search

@[simp] theorem met_finish (s : Search n) (i : Fin n) : (s.finish i).met = s.met := by
  unfold Search.finish
  split <;> rfl

theorem countNew_meet_lt {s : Search n} {i : Fin n} (h : i ∉ s.met) :
    (s.meet i).countNew < s.countNew := by
  have key : ∀ l : List (Fin n), i ∈ l →
      l.countP (fun j => j ∉ i :: s.met) < l.countP (fun j => j ∉ s.met) := by
    intro l hl
    have hle : ∀ m : List (Fin n),
        m.countP (fun j => j ∉ i :: s.met) ≤ m.countP (fun j => j ∉ s.met) := fun m =>
      List.countP_mono_left fun j _ => by grind
    induction l with
    | nil => cases hl
    | cons j rest ih =>
      have hrest := hle rest
      rcases List.mem_cons.mp hl with rfl | hl
      · simp only [List.countP_cons]
        grind
      · have := ih hl
        simp only [List.countP_cons]
        grind
  exact key _ (List.mem_finRange i)

/-- Searches along edges from the passes on the stack. The top of the stack is met, with its readers
put above it, or finished, when it was met before. -/
def search (es : List (Fin n × Fin n)) : List (Fin n) → Search n → Search n
  | [], s => s
  | i :: rest, s =>
    if i ∈ s.met then search es rest (s.finish i)
    else search es ((readers es i).filter (· ∉ (s.meet i).met) ++ i :: rest) (s.meet i)
termination_by stack s => (s.countNew, stack.length)
decreasing_by
  · rw [Search.countNew, met_finish]
    exact Prod.Lex.right _ (Nat.lt_succ_self _)
  · exact Prod.Lex.left _ _ (countNew_meet_lt ‹_›)

/-- Searches from a pass that was not met yet. -/
def searchFrom (es : List (Fin n × Fin n)) (s : Search n) (i : Fin n) : Search n :=
  if i ∈ s.met then s else search es [i] s

/-- The passes, those that a search from all of them finished last at the front. -/
def finishingOrder (es : List (Fin n × Fin n)) : List (Fin n) :=
  ((List.finRange n).foldl (searchFrom es) ⟨[], []⟩).finished

/-- The first owner that does not stand before its reader, the readers taken in the order of a
list. -/
def ownerBehind? (es : List (Fin n × Fin n)) (before : List (Fin n)) :
    List (Fin n) → Option (Fin n)
  | [] => none
  | i :: rest =>
    match (owners es i).find? fun o => o ∉ i :: before with
    | some o => some o
    | none => ownerBehind? es (i :: before) rest

/-- A pass that depends on its own results. -/
def onCycle? (es : List (Fin n × Fin n)) : Option (Fin n) := ownerBehind? es [] (finishingOrder es)

/-! ## The order -/

/-- The number of passes that each pass waits for, and the passes that are ready, the first of them
in front. -/
structure Queue (n : Nat) where
  waiting : Fin n → Nat
  ready : List (Fin n)

/-- Puts a pass among those that are ready. -/
def insertReady (i : Fin n) : List (Fin n) → List (Fin n)
  | [] => [i]
  | j :: rest => if j < i then j :: insertReady i rest else i :: j :: rest

namespace Queue

/-- All passes before the first release. -/
def start (es : List (Fin n × Fin n)) : Queue n where
  waiting i := (owners es i).length
  ready := (List.finRange n).filter fun i => (owners es i).length = 0

/-- The queue with another number for a pass. -/
def await (q : Queue n) (i : Fin n) (k : Nat) : Queue n :=
  { q with waiting := fun j => if j = i then k else q.waiting j }

/-- A pass waits for one less, and is ready if that was the last. -/
def notify (q : Queue n) (i : Fin n) : Queue n :=
  match q.waiting i with
  | 0 => q
  | 1 => { q.await i 0 with ready := insertReady i q.ready }
  | k + 2 => q.await i (k + 1)

/-- The number of releases and notifications that may follow. -/
def size (q : Queue n) : Nat :=
  q.ready.length + (List.finRange n).foldr (fun i k => q.waiting i + k) 0

end Queue

private theorem length_insertReady (i : Fin n) (ready : List (Fin n)) :
    (insertReady i ready).length = ready.length + 1 := by
  induction ready with
  | nil => rfl
  | cons j rest ih =>
    simp only [insertReady]
    split
    · rw [List.length_cons, List.length_cons, ih]
    · rfl

private theorem await_le {q : Queue n} {i : Fin n} {k : Nat} (hk : q.waiting i = k + 1)
    (j : Fin n) : (q.await i k).waiting j ≤ q.waiting j := by
  simp only [Queue.await]
  split
  · next heq => rw [heq, hk]; exact Nat.le_succ k
  · exact Nat.le_refl _

private theorem foldr_await_le {q : Queue n} {i : Fin n} {k : Nat} (hk : q.waiting i = k + 1)
    (l : List (Fin n)) :
    l.foldr (fun j m => (q.await i k).waiting j + m) 0 ≤
      l.foldr (fun j m => q.waiting j + m) 0 := by
  induction l with
  | nil => exact Nat.le_refl _
  | cons j rest ih => exact Nat.add_le_add (await_le hk j) ih

private theorem foldr_await_lt {q : Queue n} {i : Fin n} {k : Nat} (hk : q.waiting i = k + 1)
    {l : List (Fin n)} (hi : i ∈ l) :
    l.foldr (fun j m => (q.await i k).waiting j + m) 0 <
      l.foldr (fun j m => q.waiting j + m) 0 := by
  induction l with
  | nil => cases hi
  | cons j rest ih =>
    simp only [List.foldr_cons]
    rcases List.mem_cons.mp hi with rfl | hmem
    · have hwait : (q.await i k).waiting i = k := if_pos rfl
      have hrest := foldr_await_le hk rest
      omega
    · exact Nat.add_lt_add_of_le_of_lt (await_le hk j) (ih hmem)

/-- A notification leaves no more to be done: who is added to those that are ready waits for one
less. -/
theorem size_notify_le (q : Queue n) (i : Fin n) : (q.notify i).size ≤ q.size := by
  unfold Queue.notify
  split
  case h_1 => exact Nat.le_refl _
  case h_2 hwait =>
    have hsum := foldr_await_lt hwait (List.mem_finRange i)
    simp only [Queue.size, length_insertReady]
    omega
  case h_3 k hwait => exact Nat.add_le_add_left (foldr_await_le hwait _) _

theorem size_foldl_notify_le (q : Queue n) (is : List (Fin n)) :
    (is.foldl Queue.notify q).size ≤ q.size := by
  induction is generalizing q with
  | nil => exact Nat.le_refl _
  | cons i rest ih => exact Nat.le_trans (ih _) (size_notify_le q i)

/-- Releases the passes that are ready, the first of them first. -/
def release (es : List (Fin n × Fin n)) (q : Queue n) : List (Fin n) :=
  match _hq : q.ready with
  | [] => []
  | i :: rest => i :: release es ((readers es i).foldl Queue.notify { q with ready := rest })
termination_by q.size
decreasing_by
  refine Nat.lt_of_le_of_lt (size_foldl_notify_le _ _) ?_
  simp only [Queue.size, _hq, List.length_cons]
  omega

/-- The positions of the passes in the order in which they run. -/
def order (passes : Fin n → Access) : Except AnalysisError (List (Fin n)) :=
  match repeatedField? passes with
  | some (field, first, second) =>
    .error (.duplicateField field (passes first).pass (passes second).pass)
  | none =>
    match unmetRead? passes with
    | some (i, field) => .error (.unmetDependency (passes i).pass field)
    | none =>
      match onCycle? (edges passes) with
      | some i => .error (.dependencyCycle (passes i).pass)
      | none => .ok (release (edges passes) (.start (edges passes)))

end GraphSurvey.Schedule
