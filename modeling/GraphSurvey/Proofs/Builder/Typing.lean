import GraphSurvey.Proofs.Builder.History
import GraphSurvey.Proofs.Dictionary

/-!
# What a call tells of its type

The type of a call that was built is computed anew from its operator, its attributes and the types
of its arguments. All parameters that the type depends on are among the attributes, as integers with
the same bits, with one exception: a transposed convolution does not record its dilation. With
another dilation the same call has another type.

## Main definitions

* `GraphSurvey.inferType` — the type of a call, given the dilation of transposed convolutions.
* `GraphSurvey.Operation.Recordable` — operations on handles of one context with sizes of 64 bits.
* `GraphSurvey.Graph.InfersCall` — the type of a call is inferred from its graph.

## Main results

* `GraphSurvey.Operation.type_eq_inferType` — what an operation records suffices for its type.
* `GraphSurvey.Session.Made.infersCalls` — the types of all calls are inferred.
* `GraphSurvey.Session.call_result_determined` — which calls have the same type.
-/

namespace GraphSurvey

/-! ## Sizes read back -/

/-- The natural number with the bits of an integer. -/
def unsignedWord (i : Int) : Nat := (i % wordBound).toNat

/-- A size of 64 bits is read back. -/
theorem unsignedWord_signedWord {n : Nat} (h : n < wordBound) :
    unsignedWord (signedWord n) = n := by
  rw [unsignedWord, signedWord, Int.bmod_emod, Int.emod_eq_of_lt (by omega) (by omega),
    Int.toNat_natCast]

namespace Attr

/-- The size that an attribute was made of. -/
def size : Option Attr → Nat
  | some (.int i) => unsignedWord i
  | _ => 0

/-- The row of sizes that an attribute was made of. -/
def sizes : Option Attr → List Nat
  | some (.ints is) => is.map unsignedWord
  | _ => []

/-- The pair of sizes that an attribute was made of. -/
def pair (a : Option Attr) : Nat × Nat := ((sizes a).getD 0 0, (sizes a).getD 1 0)

theorem size_ofSize {n : Nat} (h : n < wordBound) : size (some (.ofSize n)) = n :=
  unsignedWord_signedWord h

theorem sizes_ofSizes {ns : List Nat} (h : ∀ n ∈ ns, n < wordBound) :
    sizes (some (.ofSizes ns)) = ns := by
  have hid : ∀ n ∈ ns, (unsignedWord ∘ signedWord) n = n := fun n hn => by
    rw [Function.comp_apply, unsignedWord_signedWord (h n hn)]
  rw [ofSizes, sizes, List.map_map, List.map_congr_left hid, List.map_id']

theorem pair_ofPair {p : Nat × Nat} (h : p.1 < wordBound ∧ p.2 < wordBound) :
    pair (some (.ofPair p)) = p := by
  rw [pair, ofPair, sizes_ofSizes (by simpa using h)]
  rfl

end Attr

/-! ## Types inferred -/

/-- The sizes of a window. -/
def Window.sizes (w : Window) : List Nat :=
  [w.kernel.1, w.kernel.2, w.stride.1, w.stride.2, w.padding.1, w.padding.2, w.dilation.1,
    w.dilation.2]

/-- The type of a call of an operator other than a transposed convolution, from its attributes and
the types of its arguments. -/
def inferRecorded (op : String) (attrs : Dictionary Attr) (args : List ResultType) :
    Except BuildError ResultType :=
  let size key := Attr.size (attrs.get? key)
  let pair key := Attr.pair (attrs.get? key)
  let pooling : Window := .dense (pair "pool_size") (pair "strides") (pair "padding")
  match op, args with
  | "add", [x, y] => TypeRule.binary "add" x y
  | "multiply", [x, y] => TypeRule.binary "multiply" x y
  | "nn.relu", [x] | "sigmoid", [x] | "tanh", [x] => .ok x
  | "nn.leaky_relu", [x] | "nn.softmax", [x] => .ok x
  | "nn.dense", [x, weight] => TypeRule.dense x weight
  | "nn.bias_add", [x, bias] => TypeRule.biasAdd x bias (size "axis")
  | "nn.conv2d", [x, weight] =>
    TypeRule.conv2d x weight ⟨(0, 0), pair "strides", pair "padding", pair "dilation"⟩
      (size "groups")
  | "nn.max_pool2d", [x] => TypeRule.pool2d "nn.max_pool2d" x pooling
  | "nn.avg_pool2d", [x] => TypeRule.pool2d "nn.avg_pool2d" x pooling
  | "nn.adaptive_avg_pool2d", [x] => TypeRule.adaptiveAvgPool2d x (pair "output_size")
  | "nn.batch_norm", [x, gamma, _, _, _] => TypeRule.batchNorm x gamma
  | "TupleGetItem", [x] => TypeRule.tupleGetItem x (size "index")
  | "nn.batch_flatten", [x] => TypeRule.batchFlatten x
  | "reshape", [x] => TypeRule.reshape x (Attr.sizes (attrs.get? "newshape"))
  | "concatenate", parts => TypeRule.concatenate parts (size "axis")
  | _, _ => .error (.unknownModel op)

/-- The type of a transposed convolution with a given dilation, from its attributes and the types of
its arguments. -/
def inferTransposed (dilation : Nat × Nat) (attrs : Dictionary Attr) (args : List ResultType) :
    Except BuildError ResultType :=
  match args with
  | [x, weight] =>
    TypeRule.conv2dTranspose x weight
      ⟨(0, 0), Attr.pair (attrs.get? "strides"), Attr.pair (attrs.get? "padding"), dilation⟩
      (Attr.pair (attrs.get? "output_padding"))
  | _ => .error (.unknownModel "nn.conv2d_transpose")

/-- The type of a call of any operator. Only for a transposed convolution the dilation matters. -/
def inferType (dilation : Nat × Nat) (op : String) (attrs : Dictionary Attr)
    (args : List ResultType) : Except BuildError ResultType :=
  if op = "nn.conv2d_transpose" then inferTransposed dilation attrs args
  else inferRecorded op attrs args

namespace Operation

/-- The sizes that the operation is given. -/
def sizes : Operation → List Nat
  | biasAdd _ _ axis | concatenate _ axis => [axis]
  | conv2d _ _ window groups => groups :: window.sizes
  | conv2dTranspose _ _ window outputPadding =>
    outputPadding.1 :: outputPadding.2 :: window.sizes
  | maxPool2d _ window | avgPool2d _ window => window.sizes
  | adaptiveAvgPool2d _ size => [size.1, size.2]
  | tupleGetItem _ index => [index]
  | reshape _ target => target
  | add .. | multiply .. | relu .. | sigmoid .. | tanh .. | leakyRelu .. | softmax .. | dense ..
  | batchNorm .. | batchFlatten .. => []

/-- The dilation of a transposed convolution. -/
def transposedDilation? : Operation → Option (Nat × Nat)
  | conv2dTranspose _ _ window _ => some window.dilation
  | _ => none

/-- The names of the attributes are distinct. -/
theorem nodup_attrEntries (o : Operation) : (o.attrEntries.map Prod.fst).Nodup := by
  cases o <;> simp [attrEntries]

variable {o : Operation}

/-- The attribute of a name. -/
theorem get?_attrs {key : String} {a : Attr} (h : (key, a) ∈ o.attrEntries) :
    (Dictionary.ofList o.attrEntries).get? key = some a :=
  Dictionary.get?_insertAll_of_mem o.nodup_attrEntries h

theorem size_attrs (key : String) (n : Nat) (hwords : ∀ m ∈ o.sizes, m < wordBound)
    (h : (key, .ofSize n) ∈ o.attrEntries) (hn : n ∈ o.sizes) :
    Attr.size ((Dictionary.ofList o.attrEntries).get? key) = n := by
  rw [get?_attrs h, Attr.size_ofSize (hwords n hn)]

theorem pair_attrs (key : String) (p : Nat × Nat) (hwords : ∀ m ∈ o.sizes, m < wordBound)
    (h : (key, .ofPair p) ∈ o.attrEntries) (hp : p.1 ∈ o.sizes ∧ p.2 ∈ o.sizes) :
    Attr.pair ((Dictionary.ofList o.attrEntries).get? key) = p := by
  rw [get?_attrs h, Attr.pair_ofPair ⟨hwords _ hp.1, hwords _ hp.2⟩]

/-- The window that a pooling records. The dilation does not count. -/
theorem pooling_attrs {window : Window} (hwords : ∀ n ∈ o.sizes, n < wordBound)
    (hsizes : o.sizes = window.sizes)
    (hpool : ("pool_size", .ofPair window.kernel) ∈ o.attrEntries)
    (hstrides : ("strides", .ofPair window.stride) ∈ o.attrEntries)
    (hpadding : ("padding", .ofPair window.padding) ∈ o.attrEntries) (op : String)
    (ty : ResultType) :
    TypeRule.pool2d op ty (.dense
      (Attr.pair ((Dictionary.ofList o.attrEntries).get? "pool_size"))
      (Attr.pair ((Dictionary.ofList o.attrEntries).get? "strides"))
      (Attr.pair ((Dictionary.ofList o.attrEntries).get? "padding"))) =
        TypeRule.pool2d op ty window := by
  rw [pair_attrs _ _ hwords hpool (by simp [hsizes, Window.sizes]),
    pair_attrs _ _ hwords hstrides (by simp [hsizes, Window.sizes]),
    pair_attrs _ _ hwords hpadding (by simp [hsizes, Window.sizes])]
  rfl

/-- An operation other than a transposed convolution records all that its type depends on. -/
theorem type_eq_inferRecorded (hwords : ∀ n ∈ o.sizes, n < wordBound)
    (hnone : o.transposedDilation? = none) :
    o.type = inferRecorded o.name (Dictionary.ofList o.attrEntries)
      (o.operands.map Tensor.type) := by
  cases o with
  | add | multiply | relu | sigmoid | tanh | leakyRelu | softmax | dense | batchNorm
  | batchFlatten => rfl
  | biasAdd x bias axis =>
    have haxis := size_attrs "axis" axis hwords (by simp [attrEntries]) (by simp [sizes])
    exact congrArg (TypeRule.biasAdd x.type bias.type) haxis.symm
  | conv2d x weight window groups =>
    have hstrides := pair_attrs "strides" window.stride hwords (by simp [attrEntries])
      (by simp [sizes, Window.sizes])
    have hpadding := pair_attrs "padding" window.padding hwords (by simp [attrEntries])
      (by simp [sizes, Window.sizes])
    have hdilation := pair_attrs "dilation" window.dilation hwords (by simp [attrEntries])
      (by simp [sizes, Window.sizes])
    have hgroups := size_attrs "groups" groups hwords (by simp [attrEntries]) (by simp [sizes])
    -- the extents of the kernel are those of the weight
    have hwindow := congr (congr (congrArg (Window.mk (0, 0)) hstrides) hpadding) hdilation
    exact (congrArg₂ (TypeRule.conv2d x.type weight.type) hwindow hgroups).symm
  | conv2dTranspose => cases hnone
  | maxPool2d x window =>
    exact (pooling_attrs hwords rfl (by simp [attrEntries]) (by simp [attrEntries])
      (by simp [attrEntries]) "nn.max_pool2d" x.type).symm
  | avgPool2d x window =>
    exact (pooling_attrs hwords rfl (by simp [attrEntries]) (by simp [attrEntries])
      (by simp [attrEntries]) "nn.avg_pool2d" x.type).symm
  | adaptiveAvgPool2d x size =>
    have hsize := pair_attrs "output_size" size hwords (by simp [attrEntries]) (by simp [sizes])
    exact congrArg (TypeRule.adaptiveAvgPool2d x.type) hsize.symm
  | tupleGetItem x index =>
    have hindex := size_attrs "index" index hwords (by simp [attrEntries]) (by simp [sizes])
    exact congrArg (TypeRule.tupleGetItem x.type) hindex.symm
  | reshape x target =>
    have htarget : Attr.sizes ((Dictionary.ofList (reshape x target).attrEntries).get? "newshape") =
        target := by
      rw [get?_attrs List.mem_cons_self, Attr.sizes_ofSizes (show ∀ n ∈ target, _ from hwords)]
    exact congrArg (TypeRule.reshape x.type) htarget.symm
  | concatenate parts axis =>
    have haxis := size_attrs "axis" axis hwords (by simp [attrEntries]) (by simp [sizes])
    exact congrArg (TypeRule.concatenate (parts.map Tensor.type)) haxis.symm

/-- A transposed convolution records all that its type depends on but its dilation. -/
theorem type_eq_inferTransposed {x weight : Tensor} {window : Window} {outputPadding : Nat × Nat}
    (hwords : ∀ n ∈ (conv2dTranspose x weight window outputPadding).sizes, n < wordBound) :
    (conv2dTranspose x weight window outputPadding).type =
      inferTransposed window.dilation
        (Dictionary.ofList (conv2dTranspose x weight window outputPadding).attrEntries)
        [x.type, weight.type] := by
  have hstrides := pair_attrs "strides" window.stride hwords
    (by simp [attrEntries]) (by simp [sizes, Window.sizes])
  have hpadding := pair_attrs "padding" window.padding hwords
    (by simp [attrEntries]) (by simp [sizes, Window.sizes])
  have houtput := pair_attrs "output_padding" outputPadding hwords
    (by simp [attrEntries]) (by simp [sizes])
  simp only [type, inferTransposed, hstrides, hpadding, houtput]
  rfl

/-- The operator of a transposed convolution is that of no other operation. -/
theorem name_eq_iff : o.name = "nn.conv2d_transpose" ↔ o.transposedDilation? ≠ none := by
  cases o <;> simp [name, transposedDilation?]

/-- What an operation records, with the dilation of a transposed convolution, is enough to infer the
type of its result, or why it has none. -/
theorem type_eq_inferType {d : Nat × Nat} (hwords : ∀ n ∈ o.sizes, n < wordBound)
    (hd : ∀ e ∈ o.transposedDilation?, e = d) :
    o.type = inferType d o.name (Dictionary.ofList o.attrEntries) (o.operands.map Tensor.type) := by
  rw [inferType]
  split
  case isFalse hname =>
    exact type_eq_inferRecorded hwords (not_not.mp (mt name_eq_iff.mpr hname))
  case isTrue hname =>
    have hsome := name_eq_iff.mp hname
    cases o with
    | conv2dTranspose x weight window outputPadding =>
      obtain rfl : window.dilation = d := hd _ rfl
      exact type_eq_inferTransposed hwords
    | _ => exact absurd rfl hsome

/-- The operands are of one context and the sizes have 64 bits. The dilation of a transposed
convolution is one of the given ones. -/
structure Recordable (dilations : Set (Nat × Nat)) (o : Operation) : Prop where
  oneContext : ∀ x ∈ o.operands, ∀ y ∈ o.operands, x.context = y.context
  words : ∀ n ∈ o.sizes, n < wordBound
  dilation : ∀ d ∈ o.transposedDilation?, d ∈ dilations

end Operation

/-! ## The calls of a session -/

namespace Graph

/-- The arguments of the call are in the graph, and its type is inferred from their types, with one
of the given dilations for a transposed convolution. -/
def InfersCall (g : Graph) (dilations : Set (Nat × Nat)) (c : Call) : Prop :=
  ∃ d types, (c.op = "nn.conv2d_transpose" → d ∈ dilations) ∧
    c.args.map g.typeOf? = types.map some ∧ inferType d c.op c.attrs types = .ok c.result

variable {g g' : Graph} {dilations : Set (Nat × Nat)} {c : Call}

/-- A call is still inferred in a graph that extends its graph. -/
theorem InfersCall.mono (h : g.Extends g') (hc : g.InfersCall dilations c) :
    g'.InfersCall dilations c := by
  obtain ⟨d, types, hd, htypes, hinfer⟩ := hc
  refine ⟨d, types, hd, ?_, hinfer⟩
  rw [← htypes]
  refine List.map_congr_left fun id hid => ?_
  obtain ⟨ty, -, hty⟩ := List.mem_map.mp (htypes ▸ List.mem_map_of_mem hid)
  rw [h.typeOf? hty.symm, hty]

end Graph

namespace Session

variable {dilations : Set (Nat × Nat)} {s : Session} {held : List Tensor} {a : Act}

/-- The call of an operation is inferred where its operands have their types. -/
theorem infersCall_call {g : Graph} {o : Operation} {ty : ResultType} (ho : o.Recordable dilations)
    (hty : o.type = .ok ty) (hoperands : ∀ x ∈ o.operands, g.typeOf? x.node = some x.type) :
    g.InfersCall dilations (o.call ty) := by
  obtain ⟨d, hmem, hd⟩ : ∃ d, (o.name = "nn.conv2d_transpose" → d ∈ dilations) ∧
      ∀ e ∈ o.transposedDilation?, e = d := by
    cases hdilation : o.transposedDilation? with
    | none => exact ⟨(1, 1), fun h => absurd hdilation (Operation.name_eq_iff.mp h), nofun⟩
    | some d => exact ⟨d, fun _ => ho.dilation d hdilation, fun e he => (Option.some.inj he).symm⟩
  refine ⟨d, o.operands.map Tensor.type, hmem, ?_, ?_⟩
  · rw [Operation.call, List.map_map, List.map_map]
    exact List.map_congr_left hoperands
  · exact (Operation.type_eq_inferType ho.words hd).symm.trans hty

/-- The types of all calls are inferred. -/
def InfersCalls (s : Session) (dilations : Set (Nat × Nat)) : Prop :=
  ∀ k id label c, (s.graph k).node? id = some ⟨label, .call c⟩ →
    (s.graph k).InfersCall dilations c

/-- An act keeps the types of all calls inferred. -/
theorem InfersCalls.run (hs : s.Coherent held)
    (ha : a.Legal (Operation.Recordable dilations) s held) (h : s.InfersCalls dilations) :
    (a.run s).2.InfersCalls dilations := by
  intro k id label call hcall
  have hextends := hs.extends_run ha k
  rcases a.run_cases s with hrun | ⟨name, hrun⟩ | ⟨c, kind, happends, hrun⟩
  · rw [hrun] at hcall
    exact (h k id label call hcall).mono hextends
  · rw [hrun, node?_opened] at hcall
    exact (h k id label call hcall).mono hextends
  · rw [hrun] at hcall
    rcases of_node?_append (hs.context_of_appends ha happends) hcall with ⟨rfl, hnode⟩ | hold
    · -- only an operation adds a call, and its operands are of the context that gets the call
      obtain rfl : kind = .call call := (congrArg Node.kind hnode).symm
      refine Graph.InfersCall.mono hextends ?_
      cases happends with
      | @call o x rest ty hoperands hty =>
        obtain ⟨ho, hheld⟩ := ha
        refine infersCall_call ho hty fun y hy => ?_
        rw [ho.oneContext x (by simp [hoperands]) y hy]
        exact hs.type y (hheld y hy)
    · exact (h k id label call hold).mono hextends

/-- The types of all calls of a session that is made are inferred. -/
theorem Made.infersCalls (h : s.Made (Operation.Recordable dilations) held) :
    s.InfersCalls dilations := by
  induction h with
  | empty => exact fun k id label c hc => by cases hc
  | act hs ha ih => exact ih.run hs.coherent ha

/-- In sessions whose operations have operands of one context each, two calls of the same operator
with the same attributes and arguments of the same types have the same type, provided that, for
transposed convolutions, all transposed convolutions of the sessions have the same dilation. -/
theorem call_result_determined {s s' : Session} {held held' : List Tensor}
    (hs : s.Made (Operation.Recordable dilations) held)
    (hs' : s'.Made (Operation.Recordable dilations) held') {k k' : ContextId} {e e' : NodeId × Call}
    (he : e ∈ (s.graph k).calls) (he' : e' ∈ (s'.graph k').calls) (hop : e.2.op = e'.2.op)
    (hattrs : e.2.attrs = e'.2.attrs)
    (htypes : e.2.args.map (s.graph k).typeOf? = e'.2.args.map (s'.graph k').typeOf?)
    (hdilations : e.2.op = "nn.conv2d_transpose" → dilations.Subsingleton) :
    e.2.result = e'.2.result := by
  obtain ⟨id, hid⟩ := Graph.mem_calls_iff.mp he
  obtain ⟨id', hid'⟩ := Graph.mem_calls_iff.mp he'
  obtain ⟨d, types, hd, hargs, hinfer⟩ := hs.infersCalls k id _ _ hid
  obtain ⟨d', types', hd', hargs', hinfer'⟩ := hs'.infersCalls k' id' _ _ hid'
  obtain rfl : types = types' := by
    rw [hargs, hargs'] at htypes
    exact List.map_injective_iff.mpr (Option.some_injective _) htypes
  have hsame : inferType d e.2.op e.2.attrs types = inferType d' e.2.op e.2.attrs types := by
    by_cases htransposed : e.2.op = "nn.conv2d_transpose"
    · rw [hdilations htransposed (hd htransposed) (hd' (hop ▸ htransposed))]
    · rw [inferType, inferType, if_neg htransposed, if_neg htransposed]
  rw [← hop, ← hattrs, ← hsame, hinfer] at hinfer'
  exact Except.ok.inj hinfer'

/-! ## Two transposed convolutions -/

/-- A session with an image and a kernel. -/
def imageSession : Session :=
  ⟨#[⟨"net", #[⟨⟨0⟩, .var "image" .input (.tensor [1, 1, 4, 4])⟩,
    ⟨⟨1⟩, .var "kernel" .parameter (.tensor [1, 1, 3, 3])⟩], []⟩]⟩

/-- The handles of the kernel and the image. -/
def imageHandles : List Tensor :=
  [⟨⟨0⟩, ⟨1⟩, .tensor [1, 1, 3, 3]⟩, ⟨⟨0⟩, ⟨0⟩, .tensor [1, 1, 4, 4]⟩]

/-- The transposed convolution of the image with the kernel and a dilation. -/
def dilated (d : Nat × Nat) : Operation :=
  .conv2dTranspose ⟨⟨0⟩, ⟨0⟩, .tensor [1, 1, 4, 4]⟩ ⟨⟨0⟩, ⟨1⟩, .tensor [1, 1, 3, 3]⟩
    ⟨(3, 3), (1, 1), (0, 0), d⟩ (0, 0)

theorem dilated_type_one : (dilated (1, 1)).type = .ok (.tensor [1, 1, 6, 6]) := rfl

theorem dilated_type_two : (dilated (2, 2)).type = .ok (.tensor [1, 1, 8, 8]) := rfl

theorem imageSession_made (allowed : Operation → Prop) :
    imageSession.Made allowed imageHandles := by
  have hopen : Made allowed _ _ := Made.act (a := .openContext "net") .empty trivial
  have himage := hopen.act (a := .addVar ⟨0⟩ "image" .input (.tensor [1, 1, 4, 4]))
    (by exact Nat.one_pos)
  exact himage.act (a := .addVar ⟨0⟩ "kernel" .parameter (.tensor [1, 1, 3, 3]))
    (by exact Nat.one_pos)

/-- Two transposed convolutions of the image, one after the other. -/
theorem exists_dilated_twice {dilations : Set (Nat × Nat)} {d d' : Nat × Nat} {ty ty' : ResultType}
    (hd : (dilated d).Recordable dilations) (hd' : (dilated d').Recordable dilations)
    (hty : (dilated d).type = .ok ty) (hty' : (dilated d').type = .ok ty') :
    ∃ (s : Session) (held : List Tensor), s.Made (Operation.Recordable dilations) held ∧
      (⟨2⟩, (dilated d).call ty) ∈ (s.graph ⟨0⟩).calls ∧
      (⟨3⟩, (dilated d').call ty') ∈ (s.graph ⟨0⟩).calls := by
  have hstart := imageSession_made (Operation.Recordable dilations)
  have hrun := hstart.coherent.run_operation (o := dilated d) rfl
    (by simp [dilated, Operation.operands, imageHandles])
    (by simp [dilated, Operation.operands]) hty
  have hone := hstart.act (a := .operation (dilated d))
    ⟨hd, by simp [dilated, Operation.operands, imageHandles]⟩
  rw [hrun] at hone
  have hrun' := hone.coherent.run_operation (o := dilated d') rfl
    (by simp [dilated, Operation.operands, imageHandles])
    (by simp [dilated, Operation.operands]) hty'
  have htwo := hone.act (a := .operation (dilated d'))
    ⟨hd', by simp [dilated, Operation.operands, imageHandles]⟩
  rw [hrun'] at htwo
  have hsize : 0 < imageSession.graphs.size := Nat.one_pos
  have hsize' : 0 < (imageSession.append ⟨0⟩ (.call ((dilated d).call ty))).graphs.size := by
    rwa [size_append]
  exact ⟨_, _, htwo,
    Graph.mem_calls_iff.mpr ⟨⟨2⟩, extends_append hsize' _ _ _ _ (node?_append_self hsize)⟩,
    mem_calls_append_self hsize'⟩

theorem dilated_recordable {dilations : Set (Nat × Nat)} {d : Nat × Nat} (hd : d ∈ dilations)
    (hwords : d.1 < wordBound ∧ d.2 < wordBound) : (dilated d).Recordable dilations where
  oneContext := by simp [dilated, Operation.operands]
  words n hn := by
    have hn : n ∈ [0, 3, 1, d.1, d.2] := by
      simp only [dilated, Operation.sizes, Window.sizes, List.mem_cons] at hn ⊢
      tauto
    simp only [List.mem_cons, List.not_mem_nil, or_false] at hn
    rcases hn with rfl | rfl | rfl | rfl | rfl
    · decide
    · decide
    · decide
    · exact hwords.1
    · exact hwords.2
  dilation := by simpa [dilated, Operation.transposedDilation?] using hd

theorem call_result_determined_dilated :
    ∃ (s : Session) (held : List Tensor) (e e' : NodeId × Call),
      s.Made (Operation.Recordable {(1, 1)}) held ∧ e ∈ (s.graph ⟨0⟩).calls ∧
      e' ∈ (s.graph ⟨0⟩).calls ∧ e.1 ≠ e'.1 ∧ e.2.op = "nn.conv2d_transpose" ∧
      e.2.result = e'.2.result := by
  have hrecordable : (dilated (1, 1)).Recordable {(1, 1)} :=
    dilated_recordable rfl ⟨by decide, by decide⟩
  obtain ⟨s, held, hmade, he, he'⟩ :=
    exists_dilated_twice hrecordable hrecordable dilated_type_one dilated_type_one
  exact ⟨s, held, _, _, hmade, he, he', by decide, rfl,
    call_result_determined hmade hmade he he' rfl rfl rfl fun _ => Set.subsingleton_singleton⟩

/-- Transposed convolutions of one context with the same attributes and arguments have different
types if their dilations differ. -/
theorem dilation_not_recorded :
    ∃ (s : Session) (held : List Tensor) (e e' : NodeId × Call),
      s.Made (Operation.Recordable Set.univ) held ∧ e ∈ (s.graph ⟨0⟩).calls ∧
      e' ∈ (s.graph ⟨0⟩).calls ∧ e.2.op = e'.2.op ∧ e.2.attrs = e'.2.attrs ∧
      e.2.args = e'.2.args ∧ e.2.result = .tensor [1, 1, 6, 6] ∧
      e'.2.result = .tensor [1, 1, 8, 8] := by
  obtain ⟨s, held, hmade, he, he'⟩ :=
    exists_dilated_twice (dilated_recordable (Set.mem_univ (1, 1)) ⟨by decide, by decide⟩)
      (dilated_recordable (Set.mem_univ (2, 2)) ⟨by decide, by decide⟩) dilated_type_one
      dilated_type_two
  exact ⟨s, held, _, _, hmade, he, he', rfl, rfl, rfl, rfl, rfl⟩

end Session

end GraphSurvey
