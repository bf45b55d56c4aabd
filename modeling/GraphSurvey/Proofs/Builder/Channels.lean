import GraphSurvey.Proofs.Builder.Equipment

/-!
# Channels of convolutions

A convolution is made with a number of input channels, which its weight divides among the groups.
An input is not compared with this number but with the weight alone, and so the layer takes the
channels of all groups, which are fewer than were asked for if the groups do not divide them.

## Main definitions

* `GraphSurvey.ConvConfig.groupedInputs` — the input channels that the groups have together.

## Main results

* `GraphSurvey.Session.Equipped.forward_accepted_iff` — a layer succeeds exactly if its first
  operation has a result.
* `GraphSurvey.Session.Equipped.convolution_takes_grouped_inputs` — which images a convolution
  takes.
* `GraphSurvey.Session.undeclared_channels_accepted` — a convolution of three channels that takes
  two.
-/

namespace GraphSurvey

namespace ConvConfig

/-- The input channels that the groups have together. -/
def groupedInputs (config : ConvConfig) : Nat := config.inputs / config.groups * config.groups

variable {config : ConvConfig} {batch channels height width : Nat}

/-- No input channel is left over exactly if the groups divide them. -/
theorem groupedInputs_eq_inputs_iff :
    config.groupedInputs = config.inputs ↔ config.groups ∣ config.inputs :=
  Nat.dvd_iff_div_mul_eq config.inputs config.groups |>.symm

theorem weightShape_of_groups (h : config.groups ≠ 0) : config.weightShape =
    [config.outputs, config.inputs / config.groups, config.window.kernel.1,
      config.window.kernel.2] := by
  rw [weightShape, Nat.max_eq_left (Nat.pos_of_ne_zero h)]

/-- An image with other channels does not go with the weight. -/
theorem conv2d_of_ne (h : config.groups = 0 ∨ channels ≠ config.groupedInputs) :
    Shape.conv2d [batch, channels, height, width] config.weightShape config.window config.groups =
      .error (.incompatibleShapes "conv2d" [batch, channels, height, width]
        config.weightShape) := by
  refine if_pos ?_
  rcases Decidable.eq_or_ne config.groups 0 with hgroups | hgroups
  · exact .inl hgroups
  · rw [Nat.max_eq_left (Nat.pos_of_ne_zero hgroups)]
    exact .inr (h.resolve_left hgroups)

/-- The convolution of an image has a shape exactly if the image has the channels of all groups and
the window fits. -/
theorem exists_conv2d_iff :
    (∃ y, Shape.conv2d [batch, channels, height, width] config.weightShape config.window
      config.groups = .ok y) ↔
    config.groups ≠ 0 ∧ channels = config.groupedInputs ∧
      ¬ (config.window.axes [batch, channels, height, width] config.window.kernel).Blocked := by
  by_cases h : config.groups = 0 ∨ channels ≠ config.groupedInputs
  · rw [conv2d_of_ne h]
    exact iff_of_false nofun fun hall => h.elim hall.1 (not_not_intro hall.2.1)
  · obtain ⟨hgroups, hchannels⟩ := not_or.mp h
    rw [weightShape_of_groups hgroups, Shape.conv2d_eq hgroups (not_not.mp hchannels),
      (Axes.decides_shape _ _ _ _).fits]
    exact ⟨fun hfits => ⟨hgroups, not_not.mp hchannels, hfits⟩, fun hall => hall.2.2⟩

end ConvConfig

/-- The first operation of a convolution has the type of the image's convolution with the weight. -/
theorem Layer.BuiltAs.conv2d_type {c : ContextId} {held : List Tensor} {config : ConvConfig}
    {l : Layer} {x : Tensor} {data : Shape} (h : l.BuiltAs c held (.conv2d config))
    (hx : x.type = .tensor data) :
    (l.first x).type =
      ResultType.tensor <$> Shape.conv2d data config.weightShape config.window config.groups := by
  cases h with
  | @conv2d _ l choices weight =>
    change TypeRule.conv2d x.type l.weight.type l.config.window l.config.groups = _
    rw [hx, weight.type, choices]
    rfl

namespace Session

variable {allowed : Operation → Prop} {s : Session} {held : List Tensor} {fixtures : List Fixture}

/-- A layer succeeds exactly if its first operation has a result. -/
theorem Equipped.forward_accepted_iff (h : s.Equipped allowed held fixtures) {f : Fixture}
    (hf : f ∈ fixtures) {x : Tensor} (hx : x ∈ held) (hcontext : x.context = f.context) :
    (∃ y s', f.layer.forward x s = (.ok y, s')) ↔ ∃ ty, (f.layer.first x).type = .ok ty := by
  constructor
  · rintro ⟨y, s', hforward⟩
    cases hty : (f.layer.first x).type with
    | error e =>
      have herror := Layer.forward_of_error (Operation.perform_of_error hty s)
      cases congrArg Prod.fst (hforward.symm.trans herror)
    | ok ty => exact ⟨ty, rfl⟩
  · rintro ⟨ty, hty⟩
    obtain ⟨_, _, z, s', -, hforward, -⟩ :=
      h.made.coherent.layer_appends (h.builtAs hf) hx hcontext hty
    exact ⟨z, s', hforward⟩

/-- A convolution takes exactly the images with the channels that its groups have together, if its
window fits into them. These are the channels that it was made for exactly if the groups divide
them. All other images are refused, and the session is as it was. -/
theorem Equipped.convolution_takes_grouped_inputs (h : s.Equipped allowed held fixtures)
    {f : Fixture} (hf : f ∈ fixtures) {config : ConvConfig}
    (hconfig : f.blueprint = .conv2d config) {x : Tensor} (hx : x ∈ held)
    (hcontext : x.context = f.context) {batch channels height width : Nat}
    (htype : x.type = .tensor [batch, channels, height, width]) :
    ((∃ y s', f.layer.forward x s = (.ok y, s')) ↔
      config.groups ≠ 0 ∧ channels = config.groupedInputs ∧
        ¬ (config.window.axes [batch, channels, height, width] config.window.kernel).Blocked) ∧
    ((∃ y s', f.layer.forward x s = (.ok y, s')) →
      (channels = config.inputs ↔ config.groups ∣ config.inputs)) ∧
    (config.groups = 0 ∨ channels ≠ config.groupedInputs →
      f.layer.forward x s = (.error (.incompatibleShapes "conv2d" [batch, channels, height, width]
        config.weightShape), s)) := by
  have hbuilt := h.builtAs hf
  rw [hconfig] at hbuilt
  have hfirst := hbuilt.conv2d_type htype
  have haccepted : (∃ y s', f.layer.forward x s = (.ok y, s')) ↔
      config.groups ≠ 0 ∧ channels = config.groupedInputs ∧
        ¬ (config.window.axes [batch, channels, height, width] config.window.kernel).Blocked := by
    rw [h.forward_accepted_iff hf hx hcontext, hfirst, ← ConvConfig.exists_conv2d_iff]
    cases Shape.conv2d [batch, channels, height, width] config.weightShape config.window
      config.groups with
    | error e => exact iff_of_false nofun nofun
    | ok y => exact iff_of_true ⟨_, rfl⟩ ⟨_, rfl⟩
  refine ⟨haccepted, fun hok => ?_, fun hne => ?_⟩
  · rw [(haccepted.mp hok).2.1, ConvConfig.groupedInputs_eq_inputs_iff]
  · rw [ConvConfig.conv2d_of_ne hne] at hfirst
    exact Layer.forward_of_error (Operation.perform_of_error hfirst s)

/-- A convolution of three channels in two groups. -/
def threeInPairs : ConvConfig := (ConvConfig.plain 3 4 (3, 3)).withGroups 2

theorem convolution_takes_grouped_inputs_threeInPairs :
    (∃ y s', (pictureConv threeInPairs [1, 2, 4, 4]).layer.forward (picture [1, 2, 4, 4])
      (convNet threeInPairs [1, 2, 4, 4]) = (.ok y, s')) ∧
    (pictureConv threeInPairs [1, 3, 4, 4]).layer.forward (picture [1, 3, 4, 4])
      (convNet threeInPairs [1, 3, 4, 4]) =
        (.error (.incompatibleShapes "conv2d" [1, 3, 4, 4] [4, 1, 3, 3]),
          convNet threeInPairs [1, 3, 4, 4]) := by
  obtain ⟨haccepted, -, -⟩ :=
    (convNet_equipped threeInPairs [1, 2, 4, 4]).convolution_takes_grouped_inputs
      List.mem_cons_self rfl (picture_mem _ _) rfl rfl
  obtain ⟨-, -, hrefused⟩ :=
    (convNet_equipped threeInPairs [1, 3, 4, 4]).convolution_takes_grouped_inputs
      List.mem_cons_self rfl (picture_mem _ _) rfl rfl
  refine ⟨haccepted.mpr ⟨by decide, rfl, ?_⟩, hrefused (.inr (by decide))⟩
  rw [Axes.Blocked, Axis.blocked_iff, Axis.blocked_iff]
  decide

/-- A convolution that was made for three channels takes an image with two. -/
theorem undeclared_channels_accepted :
    ∃ (s : Session) (held : List Tensor) (f : Fixture) (config : ConvConfig) (x : Tensor),
      s.Equipped (fun _ => True) held [f] ∧ f.blueprint = .conv2d config ∧ config.inputs = 3 ∧
      x ∈ held ∧ x.context = f.context ∧ x.type = .tensor [1, 2, 4, 4] ∧
      ∃ y s', f.layer.forward x s = (.ok y, s') ∧ y.type = .tensor [1, 4, 2, 2] :=
  ⟨convNet threeInPairs [1, 2, 4, 4], convHandles threeInPairs [1, 2, 4, 4],
    pictureConv threeInPairs [1, 2, 4, 4], threeInPairs, picture [1, 2, 4, 4],
    convNet_equipped _ _, rfl, rfl, picture_mem _ _, rfl, rfl, _, _, rfl, rfl⟩

end Session

end GraphSurvey
