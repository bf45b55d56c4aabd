import GraphSurvey.Builder.Catalog
import GraphSurvey.Proofs.Builder.Sequence
import GraphSurvey.Proofs.Shape.Broadcast

/-!
# Residual blocks

A residual block adds the result of two convolutions to what goes around them, which is its input or
a third convolution of it. The kernels are of three by three and of one by one, and the picture is
padded with half of the kernel, so that in either case a window is centred at every place. For this
reason the extents of the results depend on the stride alone, and the two ways have the same shape.

## Main definitions

* `GraphSurvey.Axis.centred`, `GraphSurvey.ConvConfig.centred` — windows that are centred at every
  place.
* `GraphSurvey.mainBranch` — the convolutions of a residual block.

## Main results

* `GraphSurvey.ConvConfig.resultShape_centred_eq_ok_iff` — which pictures a centred convolution
  takes, and the shape of the result.
* `GraphSurvey.Session.Made.mainBranch_runsTyped`, `GraphSurvey.Session.Made.shortcut_runsTyped` —
  the types of the two ways.
* `GraphSurvey.Session.Made.residualBlock_typed` — which pictures a residual block takes, and the
  shape of the result.
-/

namespace GraphSurvey

/-! ## Centred windows -/

namespace Axis

/-- An axis with a window of an odd kernel that is padded with half of it. -/
def centred (size padding stride : Nat) : Axis := ⟨size, 2 * padding + 1, stride, padding, 1⟩

variable {size padding stride n : Nat} {op : String}

theorem blocked_centred_iff : (centred size padding stride).Blocked ↔ size = 0 ∨ stride = 0 := by
  simp only [blocked_iff, padded, Window.span, centred]
  omega

/-- The window is placed at the first place and at every stride from there, whatever its kernel. -/
theorem extent_centred_eq_ok_iff : (centred size padding stride).extent op = .ok n ↔
    0 < size ∧ 0 < stride ∧ n = (size - 1) / stride + 1 := by
  by_cases h : (centred size padding stride).Blocked
  · rw [extent_of_blocked h]
    rw [blocked_centred_iff] at h
    refine iff_of_false nofun fun ⟨hsize, hstride, _⟩ => ?_
    omega
  · have hover : (centred size padding stride).padded -
        Window.span (centred size padding stride).kernel (centred size padding stride).dilation =
          size - 1 := by
      simp only [padded, Window.span, centred]
      omega
    rw [extent_of_not_blocked h, hover, Except.ok.injEq, eq_comm]
    rw [blocked_centred_iff] at h
    refine ⟨fun hn => ⟨?_, ?_, hn⟩, fun hn => hn.2.2⟩ <;> omega

end Axis

namespace ConvConfig

/-- A convolution with an odd kernel, padded with half of it, without a bias. -/
def centred (inputs outputs padding stride : Nat) : ConvConfig :=
  (((plain inputs outputs (2 * padding + 1, 2 * padding + 1)).withStride
    (stride, stride)).withPadding (padding, padding)).withBias false

variable {batch inputs outputs height width padding stride : Nat} {y : Shape}

/-- A centred convolution takes a picture exactly if it has a place and the stride is not zero. The
extents of the result do not depend on the kernel. -/
theorem resultShape_centred_eq_ok_iff :
    (centred inputs outputs padding stride).resultShape [batch, inputs, height, width] = .ok y ↔
      (0 < height ∧ 0 < width ∧ 0 < stride) ∧
        y = [batch, outputs, (height - 1) / stride + 1, (width - 1) / stride + 1] := by
  have hshape : (centred inputs outputs padding stride).resultShape
      [batch, inputs, height, width] =
        Shape.ofExtents batch outputs ((Axis.centred height padding stride).extent "conv2d")
          ((Axis.centred width padding stride).extent "conv2d") :=
    Shape.conv2d_eq Nat.one_ne_zero (by simp [centred, plain, withStride, withPadding, withBias])
  rw [hshape, Shape.ofExtents_eq_ok_iff]
  simp only [Axis.extent_centred_eq_ok_iff]
  constructor
  · rintro ⟨_, _, ⟨hheight, hstride, rfl⟩, ⟨hwidth, -, rfl⟩, rfl⟩
    exact ⟨⟨hheight, hwidth, hstride⟩, rfl⟩
  · rintro ⟨⟨hheight, hwidth, hstride⟩, rfl⟩
    exact ⟨_, _, ⟨hheight, hstride, rfl⟩, ⟨hwidth, hstride, rfl⟩, rfl⟩

/-- The type of the result of a centred convolution. -/
theorem type_centred_eq_ok_iff {ty : ResultType} :
    ResultType.tensor <$> (centred inputs outputs padding stride).resultShape
        [batch, inputs, height, width] = .ok ty ↔
      (0 < height ∧ 0 < width ∧ 0 < stride) ∧
        ty = .tensor [batch, outputs, (height - 1) / stride + 1, (width - 1) / stride + 1] := by
  constructor
  · intro h
    cases hy : (centred inputs outputs padding stride).resultShape
      [batch, inputs, height, width] with
    | error e =>
      rw [hy] at h
      cases h
    | ok y =>
      rw [hy] at h
      obtain ⟨hpos, rfl⟩ := resultShape_centred_eq_ok_iff.mp hy
      exact ⟨hpos, (Except.ok.inj h).symm⟩
  · rintro ⟨hpos, rfl⟩
    rw [resultShape_centred_eq_ok_iff.mpr ⟨hpos, rfl⟩]
    rfl

end ConvConfig

/-- The sum of two tensors of one shape has that shape. -/
theorem TypeRule.binary_self (op : String) (shape : Shape) :
    TypeRule.binary op (.tensor shape) (.tensor shape) = .ok (.tensor shape) := by
  simp only [binary, TypeRule.shape, Shape.broadcast_self, bind, Except.bind, pure, Except.pure]

/-! ## The two ways -/

/-- The convolutions of a residual block. -/
def mainBranch (c : ContextId) (name : String) (x : Tensor) (inputs outputs stride : Nat) :
    Build Tensor := do
  let conv1 ← blockConv c (name ++ ".conv1") inputs outputs stride
  let bn1 ← BatchNorm.create c (name ++ ".bn1") outputs
  let conv2 ← blockConv c (name ++ ".conv2") outputs outputs 1
  let bn2 ← BatchNorm.create c (name ++ ".bn2") outputs
  Layer.sequence x [.conv2d conv1, .batchNorm bn1, .relu, .conv2d conv2, .batchNorm bn2]

/-- A residual block adds the two ways. -/
theorem residualBlock_eq (c : ContextId) (name : String) (x : Tensor)
    (inputs outputs stride : Nat) :
    residualBlock c name x inputs outputs stride = (do
      let branch ← mainBranch c name x inputs outputs stride
      let around ← shortcut c name x inputs outputs stride
      let sum ← branch.add around
      sum.relu) := by
  simp only [residualBlock, mainBranch, bind_assoc]

theorem blockConv_eq (c : ContextId) (name : String) (inputs outputs stride : Nat) :
    blockConv c name inputs outputs stride =
      Conv2d.ofConfig c name (.centred inputs outputs 1 stride) := rfl

/-- Without another stride and other channels the input goes around. -/
theorem shortcut_self (c : ContextId) (name : String) (x : Tensor) (channels : Nat) :
    shortcut c name x channels channels 1 = pure x :=
  if_neg (by simp)

/-- Otherwise a convolution of one by one goes around. -/
theorem shortcut_of_ne {inputs outputs stride : Nat} (h : stride ≠ 1 ∨ inputs ≠ outputs)
    (c : ContextId) (name : String) (x : Tensor) :
    shortcut c name x inputs outputs stride = (do
      let proj ← Conv2d.ofConfig c (name ++ ".downsample") (.centred inputs outputs 0 stride)
      let bn ← BatchNorm.create c (name ++ ".downsample_bn") outputs
      Layer.sequence x [.conv2d proj, .batchNorm bn]) :=
  if_pos h

namespace Layer

variable {c : ContextId} {held : List Tensor} {conv conv' : Conv2d} {norm norm' : BatchNorm}
  {batch inputs outputs height width padding stride : Nat}

/-- A normalisation after a centred convolution keeps the shape. -/
theorem resultTypes_normalised
    (hconv : (Layer.conv2d conv).BuiltAs c held
      (.conv2d (.centred inputs outputs padding stride)))
    (hnorm : (Layer.batchNorm norm).BuiltAs c held (.batchNorm outputs)) :
    resultTypes (.tensor [batch, inputs, height, width]) [.conv2d conv, .batchNorm norm] =
      ResultType.tensor <$> (ConvConfig.centred inputs outputs padding stride).resultShape
        [batch, inputs, height, width] := by
  rw [resultTypes, hconv.resultType_conv2d rfl]
  cases hy : (ConvConfig.centred inputs outputs padding stride).resultShape
    [batch, inputs, height, width] with
  | error e => rfl
  | ok y =>
    obtain ⟨-, rfl⟩ := ConvConfig.resultShape_centred_eq_ok_iff.mp hy
    exact (bind_pure _).trans (hnorm.resultType_batchNorm rfl)

/-- The second convolution keeps the shape of the first one. -/
theorem resultTypes_twice
    (hconv : (Layer.conv2d conv).BuiltAs c held (.conv2d (.centred inputs outputs 1 stride)))
    (hnorm : (Layer.batchNorm norm).BuiltAs c held (.batchNorm outputs))
    (hconv' : (Layer.conv2d conv').BuiltAs c held (.conv2d (.centred outputs outputs 1 1)))
    (hnorm' : (Layer.batchNorm norm').BuiltAs c held (.batchNorm outputs)) :
    resultTypes (.tensor [batch, inputs, height, width])
        [.conv2d conv, .batchNorm norm, .relu, .conv2d conv', .batchNorm norm'] =
      ResultType.tensor <$> (ConvConfig.centred inputs outputs 1 stride).resultShape
        [batch, inputs, height, width] := by
  have hsplit := resultTypes_append (.tensor [batch, inputs, height, width])
    [.conv2d conv, .batchNorm norm] [.relu, .conv2d conv', .batchNorm norm']
  rw [resultTypes_normalised hconv hnorm] at hsplit
  refine hsplit.trans ?_
  cases hy : (ConvConfig.centred inputs outputs 1 stride).resultShape
    [batch, inputs, height, width] with
  | error e => rfl
  | ok y =>
    obtain ⟨-, rfl⟩ := ConvConfig.resultShape_centred_eq_ok_iff.mp hy
    refine (resultTypes_normalised hconv' hnorm').trans (congrArg _ ?_)
    refine ConvConfig.resultShape_centred_eq_ok_iff.mpr
      ⟨⟨Nat.succ_pos _, Nat.succ_pos _, one_pos⟩, ?_⟩
    simp only [Nat.div_one, Nat.add_sub_cancel]

end Layer

namespace Session

variable {s : Session} {held : List Tensor} {c : ContextId} {x : Tensor}
  {batch inputs height width : Nat}

/-- The convolutions have the type of the first one. -/
theorem Made.mainBranch_runsTyped (h : s.Made (fun _ => True) held)
    (hx : x.IsHeld c held [batch, inputs, height, width]) (name : String) (outputs stride : Nat) :
    s.RunsTyped held c (mainBranch c name x inputs outputs stride)
      (ResultType.tensor <$> (ConvConfig.centred inputs outputs 1 stride).resultShape
        [batch, inputs, height, width]) := by
  simp only [mainBranch, blockConv_eq]
  refine h.runsTyped_make (h.context_lt hx) .conv2d (.conv2d _) rfl
    fun conv s₁ held₁ h₁ hsub₁ hconv => ?_
  have hx₁ := hx.mono hsub₁
  refine h₁.runsTyped_make (h₁.context_lt hx₁) .batchNorm (.batchNorm _) rfl
    fun norm s₂ held₂ h₂ hsub₂ hnorm => ?_
  have hx₂ := hx₁.mono hsub₂
  refine h₂.runsTyped_make (h₂.context_lt hx₂) .conv2d (.conv2d _) rfl
    fun conv' s₃ held₃ h₃ hsub₃ hconv' => ?_
  have hx₃ := hx₂.mono hsub₃
  refine h₃.runsTyped_make (h₃.context_lt hx₃) .batchNorm (.batchNorm _) rfl
    fun norm' s₄ held₄ h₄ hsub₄ hnorm' => ?_
  have hx₄ := hx₃.mono hsub₄
  -- the layers that were made first are still there for the sequence
  replace hconv' := hconv'.mono hsub₄
  replace hnorm := hnorm.mono (List.Subset.trans hsub₃ hsub₄)
  replace hconv := hconv.mono (List.Subset.trans hsub₂ (List.Subset.trans hsub₃ hsub₄))
  rw [← Layer.resultTypes_twice hconv hnorm hconv' hnorm', ← hx.type]
  refine h₄.sequence_runsTyped ?_ ⟨hx₄.mem, hx₄.context⟩
  simp only [List.forall_mem_cons]
  exact ⟨hconv.handles_held, hnorm.handles_held, nofun, hconv'.handles_held, hnorm'.handles_held,
    nofun⟩

/-- What goes around a picture with places has the shape of a centred convolution. -/
theorem Made.shortcut_runsTyped (h : s.Made (fun _ => True) held)
    (hx : x.IsHeld c held [batch, inputs, height, width]) (name : String) {outputs stride : Nat}
    (hpos : 0 < height ∧ 0 < width ∧ 0 < stride) :
    s.RunsTyped held c (shortcut c name x inputs outputs stride)
      (.ok (.tensor [batch, outputs, (height - 1) / stride + 1, (width - 1) / stride + 1])) := by
  by_cases hne : stride ≠ 1 ∨ inputs ≠ outputs
  · rw [shortcut_of_ne hne]
    refine h.runsTyped_make (h.context_lt hx) .conv2d (.conv2d _) rfl
      fun proj s₁ held₁ h₁ hsub₁ hproj => ?_
    have hx₁ := hx.mono hsub₁
    refine h₁.runsTyped_make (h₁.context_lt hx₁) .batchNorm (.batchNorm _) rfl
      fun norm s₂ held₂ h₂ hsub₂ hnorm => ?_
    have hx₂ := hx₁.mono hsub₂
    replace hproj := hproj.mono hsub₂
    have htype : Layer.resultTypes (.tensor [batch, inputs, height, width])
        [.conv2d proj, .batchNorm norm] =
          .ok (.tensor [batch, outputs, (height - 1) / stride + 1, (width - 1) / stride + 1]) :=
      (Layer.resultTypes_normalised hproj hnorm).trans
        (ConvConfig.type_centred_eq_ok_iff.mpr ⟨hpos, rfl⟩)
    rw [← htype, ← hx.type]
    refine h₂.sequence_runsTyped ?_ ⟨hx₂.mem, hx₂.context⟩
    simp only [List.forall_mem_cons]
    exact ⟨hproj.handles_held, hnorm.handles_held, nofun⟩
  · obtain ⟨rfl, rfl⟩ : stride = 1 ∧ inputs = outputs := by
      simpa only [not_or, not_not] using hne
    rw [shortcut_self, Nat.div_one, Nat.div_one, Nat.sub_add_cancel hpos.1,
      Nat.sub_add_cancel hpos.2.1, ← hx.type]
    exact h.pure_runsTyped ⟨hx.mem, hx.context⟩

/-- A residual block has the type of its first convolution. -/
theorem Made.residualBlock_runsTyped (h : s.Made (fun _ => True) held)
    (hx : x.IsHeld c held [batch, inputs, height, width]) (name : String) (outputs stride : Nat) :
    s.RunsTyped held c (residualBlock c name x inputs outputs stride)
      (ResultType.tensor <$> (ConvConfig.centred inputs outputs 1 stride).resultShape
        [batch, inputs, height, width]) := by
  rw [residualBlock_eq, ← bind_pure (_ <$> _)]
  refine (h.mainBranch_runsTyped hx name outputs stride).bind fun branch s₁ held₁ h₁ hbranch => ?_
  obtain ⟨hpos, hshape⟩ := ConvConfig.type_centred_eq_ok_iff.mp hbranch
  rw [hshape]
  -- neither the addition nor what follows it changes the type
  refine (h₁.made.shortcut_runsTyped (hx.mono h₁.keeps) name hpos).bind
    (g := .ok) fun around s₂ held₂ h₂ haround => ?_
  have hboth : around.type = branch.type := (Except.ok.inj haround).symm.trans hshape.symm
  have hsum := h₂.made.perform_runsTyped (o := .add branch around) (c := c) rfl
    (by simp [Operation.operands, h₂.keeps h₁.mem, h₁.context, h₂.mem, h₂.context])
  rw [Operation.type, hboth, hshape, TypeRule.binary_self] at hsum
  rw [hboth, hshape]
  refine hsum.bind (g := .ok) fun sum s₃ held₃ h₃ _ => ?_
  exact h₃.made.perform_runsTyped (o := .relu sum) rfl
    (by simp [Operation.operands, h₃.mem, h₃.context])

/-- A residual block takes a picture exactly if it has a place and the stride is not zero. The
extents of the result are the numbers of strides that start in the picture. Whenever the
convolutions succeed, so does what goes around them, and it has the same shape. It is the input
itself if the stride is one and there are as many channels as before. -/
theorem Made.residualBlock_typed (h : s.Made (fun _ => True) held)
    (hx : x.IsHeld c held [batch, inputs, height, width]) (name : String) (outputs stride : Nat) :
    ((∃ y s', residualBlock c name x inputs outputs stride s = (.ok y, s')) ↔
      0 < height ∧ 0 < width ∧ 0 < stride) ∧
    (∀ y s', residualBlock c name x inputs outputs stride s = (.ok y, s') →
      y.type = .tensor [batch, outputs, (height - 1) / stride + 1, (width - 1) / stride + 1] ∧
      ∃ held', Returned held c y.type y s' held') ∧
    ∀ branch s₁, mainBranch c name x inputs outputs stride s = (.ok branch, s₁) →
      ∃ around s₂, shortcut c name x inputs outputs stride s₁ = (.ok around, s₂) ∧
        around.type = branch.type ∧ (stride = 1 ∧ inputs = outputs → around = x) := by
  have hblock := h.residualBlock_runsTyped hx name outputs stride
  refine ⟨?_, fun y s' hrun => ?_, fun branch s₁ hrun => ?_⟩
  · simp only [hblock.accepted_iff, ConvConfig.type_centred_eq_ok_iff, exists_and_left,
      exists_eq, and_true]
  · obtain ⟨hty, hreturned⟩ := hblock.of_run hrun
    exact ⟨(ConvConfig.type_centred_eq_ok_iff.mp hty).2, hreturned⟩
  · obtain ⟨hty, held₁, h₁⟩ := (h.mainBranch_runsTyped hx name outputs stride).of_run hrun
    obtain ⟨hpos, hshape⟩ := ConvConfig.type_centred_eq_ok_iff.mp hty
    obtain ⟨around, s₂, _, haround, h₂⟩ := h₁.made.shortcut_runsTyped (hx.mono h₁.keeps) name hpos
    refine ⟨around, s₂, haround, h₂.type.trans hshape.symm, ?_⟩
    rintro ⟨rfl, rfl⟩
    rw [shortcut_self] at haround
    exact (Except.ok.inj (congrArg Prod.fst haround)).symm

theorem residualBlock_typed_picture :
    (∃ y s', residualBlock ⟨0⟩ "block" (picture [1, 16, 7, 8]) 16 32 2 (pictureNet [1, 16, 7, 8]) =
      (.ok y, s') ∧ y.type = .tensor [1, 32, 4, 4]) ∧
    (∃ y s', residualBlock ⟨0⟩ "block" (picture [1, 16, 7, 8]) 16 16 1 (pictureNet [1, 16, 7, 8]) =
      (.ok y, s') ∧ y.type = .tensor [1, 16, 7, 8]) ∧
    ¬ ∃ y s', residualBlock ⟨0⟩ "block" (picture [1, 16, 7, 8]) 16 16 0
      (pictureNet [1, 16, 7, 8]) = (.ok y, s') := by
  have hmade := (pictureNet_equipped [1, 16, 7, 8]).made
  have hx : (picture [1, 16, 7, 8]).IsHeld ⟨0⟩ [picture [1, 16, 7, 8]] [1, 16, 7, 8] :=
    ⟨List.mem_cons_self, rfl, rfl⟩
  obtain ⟨hstrided, hstridedType, -⟩ := hmade.residualBlock_typed hx "block" 32 2
  obtain ⟨hplain, hplainType, -⟩ := hmade.residualBlock_typed hx "block" 16 1
  obtain ⟨hstill, -, -⟩ := hmade.residualBlock_typed hx "block" 16 0
  refine ⟨?_, ?_, fun hok => absurd (hstill.mp hok).2.2 (lt_irrefl 0)⟩
  · obtain ⟨y, s', hrun⟩ := hstrided.mpr (by decide)
    exact ⟨y, s', hrun, (hstridedType y s' hrun).1⟩
  · obtain ⟨y, s', hrun⟩ := hplain.mpr (by decide)
    exact ⟨y, s', hrun, (hplainType y s' hrun).1⟩

end Session

end GraphSurvey
