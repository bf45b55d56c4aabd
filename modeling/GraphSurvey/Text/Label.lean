/-!
# Labels kept apart

A label that is already taken gets a number: `op`, `op#2`, `op#3` and so on.
-/

namespace GraphSurvey.Text

/-- The label with a number. -/
def numberedLabel (label : String) (n : Nat) : String := label ++ "#" ++ toString n

/-- The label itself if it is free, else the label with the least number from `2` on that is free.
Of the numbers `2, …, taken.length + 1` one is free whenever the label itself is taken. -/
def uniqueLabel (label : String) (taken : List String) : String :=
  if label ∈ taken then
    match (List.range taken.length).find? fun i => numberedLabel label (i + 2) ∉ taken with
    | some i => numberedLabel label (i + 2)
    | none => numberedLabel label (taken.length + 2)
  else label

/-- Replaces every label that repeats an earlier one of the list. -/
def uniqueLabels (labels : List String) : List String :=
  labels.foldl (fun done label => done ++ [uniqueLabel label done]) []

end GraphSurvey.Text
