import GraphSurvey.Proofs.Builder.Contexts
import GraphSurvey.Proofs.Builder.Layers
import Mathlib

/-!
# Parameters of a normalisation

A normalisation has five operands, but its type is computed from two of them. The input has to be a
tensor with a second axis, and the scale a row with as many places as that axis has. The offset, the
mean and the variance may be of any type, and the result has rows as long as the scale in their
place.

## Main results

* `GraphSurvey.Session.Made.normalisation_checks_scale` — which normalisations are accepted, and
  what they give.
* `GraphSurvey.Session.unchecked_mean_accepted` — a normalisation whose mean is of another length.
-/

namespace GraphSurvey.Session

variable {allowed : Operation → Prop} {s s' : Session} {held : List Tensor}

/-- A normalisation of handles of one context succeeds exactly if its input is a tensor with a
second axis and its scale is a row with as many places. Of the offset, the mean and the variance
nothing is asked. The result is one more call, the tuple of the input's type and twice the type of
the scale; these are the types of the mean and the variance exactly if both have the type of the
scale. A normalisation that fails leaves the session as it is. -/
theorem Made.normalisation_checks_scale (h : s.Made allowed held) {x gamma beta mean var : Tensor}
    (hheld : ∀ y ∈ [x, gamma, beta, mean, var], y ∈ held)
    (hcontext : ∀ y ∈ [x, gamma, beta, mean, var], y.context = x.context) (epsilon : Binary64) :
    ((∃ y s', x.batchNorm gamma beta mean var epsilon s = (.ok y, s')) ↔
      ∃ data channels, x.type = .tensor data ∧ data[1]? = some channels ∧
        gamma.type = .tensor [channels]) ∧
    (∀ y s', x.batchNorm gamma beta mean var epsilon s = (.ok y, s') →
      y.type = .tuple [x.type, gamma.type, gamma.type] ∧
      (∃ call, s.GrowsBy s' x.context (.call call)) ∧
      (y.type = .tuple [x.type, mean.type, var.type] ↔
        mean.type = gamma.type ∧ var.type = gamma.type)) ∧
    ∀ e s', x.batchNorm gamma beta mean var epsilon s = (.error e, s') → s' = s := by
  let o : Operation := .batchNorm x gamma beta mean var epsilon
  have haccepted := h.coherent.perform_accepted_iff (o := o) rfl hheld hcontext
  refine ⟨?_, fun y s' hrun => ?_, fun e s' hrun => ?_⟩
  · refine haccepted.trans ⟨?_, ?_⟩
    · rintro ⟨ty, hty⟩
      obtain ⟨data, channels, hx, hchannels, hgamma, -⟩ := TypeRule.batchNorm_eq_ok_iff.mp hty
      exact ⟨data, channels, hx, hchannels, hgamma⟩
    · rintro ⟨data, channels, hx, hchannels, hgamma⟩
      exact ⟨_, TypeRule.batchNorm_eq_ok_iff.mpr ⟨data, channels, hx, hchannels, hgamma, rfl⟩⟩
  · obtain ⟨ty, hty⟩ := haccepted.mp ⟨y, s', hrun⟩
    have hperform := h.coherent.perform_operation (o := o) rfl hheld hcontext hty
    obtain ⟨hy, rfl⟩ := Prod.mk.inj (hrun.symm.trans hperform)
    obtain rfl := Except.ok.inj hy
    obtain ⟨-, -, -, -, -, rfl⟩ := TypeRule.batchNorm_eq_ok_iff.mp hty
    have hx : x.context.index < s.graphs.size :=
      h.coherent.context x (hheld x List.mem_cons_self)
    refine ⟨rfl, ⟨_, growsBy_append hx _⟩, ?_⟩
    simp [eq_comm]
  · rcases o.perform_cases s with ⟨_, hfailed⟩ | ⟨_, _, _, -, -, -, hok⟩
    · exact (congrArg Prod.snd (hrun.symm.trans hfailed))
    · cases congrArg Prod.fst (hrun.symm.trans hok)

/-! ## A normalisation with another mean -/

/-- A session with an image of eight channels and the parameters of a normalisation, the mean being
of a given type. -/
def normNet (mean : ResultType) : Session :=
  ⟨#[⟨"net", #[⟨⟨0⟩, .var "image" .input (.tensor [2, 8, 4, 4])⟩,
    ⟨⟨1⟩, .var "gamma" .parameter (.tensor [8])⟩, ⟨⟨2⟩, .var "beta" .parameter (.tensor [8])⟩,
    ⟨⟨3⟩, .var "mean" .parameter mean⟩, ⟨⟨4⟩, .var "var" .parameter (.tensor [8])⟩], []⟩]⟩

/-- The handle of a node of the session. -/
def normHandle (i : Nat) (ty : ResultType) : Tensor := ⟨⟨0⟩, ⟨i⟩, ty⟩

/-- The handles of the session, the latest first. -/
def normHandles (mean : ResultType) : List Tensor :=
  [normHandle 4 (.tensor [8]), normHandle 3 mean, normHandle 2 (.tensor [8]),
    normHandle 1 (.tensor [8]), normHandle 0 (.tensor [2, 8, 4, 4])]

/-- The normalisation of the image. -/
def normImage (mean : ResultType) : Build Tensor :=
  (normHandle 0 (.tensor [2, 8, 4, 4])).batchNorm (normHandle 1 (.tensor [8]))
    (normHandle 2 (.tensor [8])) (normHandle 3 mean) (normHandle 4 (.tensor [8]))
    BatchNorm.standardEpsilon

theorem normNet_made (mean : ResultType) :
    (normNet mean).Made (fun _ => True) (normHandles mean) := by
  have hopen : Made (fun _ => True) _ _ := Made.act (a := .openContext "net") .empty trivial
  have himage := hopen.act (a := .addVar ⟨0⟩ "image" .input (.tensor [2, 8, 4, 4]))
    (by exact Nat.one_pos)
  have hgamma := himage.act (a := .addVar ⟨0⟩ "gamma" .parameter (.tensor [8]))
    (by exact Nat.one_pos)
  have hbeta := hgamma.act (a := .addVar ⟨0⟩ "beta" .parameter (.tensor [8]))
    (by exact Nat.one_pos)
  have hmean := hbeta.act (a := .addVar ⟨0⟩ "mean" .parameter mean) (by exact Nat.one_pos)
  exact hmean.act (a := .addVar ⟨0⟩ "var" .parameter (.tensor [8])) (by exact Nat.one_pos)

theorem normOperands (mean : ResultType) :
    ∀ y ∈ [normHandle 0 (.tensor [2, 8, 4, 4]), normHandle 1 (.tensor [8]),
        normHandle 2 (.tensor [8]), normHandle 3 mean, normHandle 4 (.tensor [8])],
      y ∈ normHandles mean ∧ y.context = ⟨0⟩ := by
  simp [normHandles, normHandle]

theorem normalisation_checks_scale_normNet :
    (∃ y s', normImage (.tensor [8]) (normNet (.tensor [8])) = (.ok y, s') ∧
      y.type = .tuple [.tensor [2, 8, 4, 4], .tensor [8], .tensor [8]]) ∧
    ∃ y s', normImage (.named "Pair") (normNet (.named "Pair")) = (.ok y, s') ∧
      y.type ≠ .tuple [.tensor [2, 8, 4, 4], .named "Pair", .tensor [8]] := by
  have hchecks (mean : ResultType) := (normNet_made mean).normalisation_checks_scale
    (fun y hy => (normOperands mean y hy).1) (fun y hy => (normOperands mean y hy).2)
    BatchNorm.standardEpsilon
  have haccepted (mean : ResultType) : ∃ y s', normImage mean (normNet mean) = (.ok y, s') :=
    (hchecks mean).1.mpr ⟨[2, 8, 4, 4], 8, rfl, rfl, rfl⟩
  obtain ⟨y, s', hy⟩ := haccepted (.tensor [8])
  obtain ⟨z, t, hz⟩ := haccepted (.named "Pair")
  refine ⟨⟨y, s', hy, ?_⟩, z, t, hz, fun htype => ?_⟩
  · exact ((hchecks _).2.1 y s' hy).1
  · cases (((hchecks _).2.1 z t hz).2.2.mp htype).1

/-- A normalisation of an image of eight channels is accepted although its mean is a row of three.
The row in the place of the mean has eight places. -/
theorem unchecked_mean_accepted :
    ∃ (s : Session) (held : List Tensor) (x gamma beta mean var y : Tensor) (s' : Session),
      s.Made (fun _ => True) held ∧ (∀ z ∈ [x, gamma, beta, mean, var], z ∈ held) ∧
      (∀ z ∈ [x, gamma, beta, mean, var], z.context = x.context) ∧
      x.type = .tensor [2, 8, 4, 4] ∧ mean.type = .tensor [3] ∧
      x.batchNorm gamma beta mean var BatchNorm.standardEpsilon s = (.ok y, s') ∧
      y.type = .tuple [.tensor [2, 8, 4, 4], .tensor [8], .tensor [8]] :=
  ⟨normNet (.tensor [3]), normHandles (.tensor [3]), _, _, _, _, _, _, _, normNet_made _,
    fun z hz => (normOperands (.tensor [3]) z hz).1,
    fun z hz => (normOperands (.tensor [3]) z hz).2, rfl, rfl, rfl, rfl⟩

end GraphSurvey.Session
