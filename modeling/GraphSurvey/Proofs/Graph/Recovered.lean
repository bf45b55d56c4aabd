import GraphSurvey.Proofs.Document.Accepted
import GraphSurvey.Proofs.Graph.RoundTrip
import Mathlib

/-!
# Graphs that are recovered have numbers that are

Where the document of a graph is read as the graph, its numbers are finite and their digits are read
as the numbers. So nothing makes up for a number that is misread: a graph is recovered from its text
exactly if all of its numbers are.

## Main definitions

* `GraphSurvey.StoredNumber.Recovered` — a finite number whose digits are read as the number.

## Main results

* `GraphSurvey.Graph.decode_tree_eq_ok_iff` — the graphs that are recovered from their documents.
-/

namespace GraphSurvey

open Decoder

variable {depth : Nat}

/-- The number is finite, and its digits are read as the number. -/
def StoredNumber.Recovered (x : StoredNumber) : Prop := x.isFinite = true ∧ x.ReadsBack

instance : DecidablePred StoredNumber.Recovered := fun x =>
  inferInstanceAs (Decidable (x.isFinite = true ∧ x.ReadsBack))

/-- A number that is read back from its document is finite and is read back from its text. -/
theorem Decoder.recovered_of_tree {f : BinaryFormat} {layout : Layout} {d : Decoder (Binary f)}
    {x : Binary f} {j : Json} (hj : j.tree = Json.realTree layout x)
    (hdepth : ∀ n m t, d n t = d m t) (hnull : ∀ n, d n .null = .error .mismatch)
    (h : d depth j.tree = .ok x) : x.isFinite = true ∧ d.ofText j.compact = .ok x := by
  refine ⟨?_, by rw [ofText_compact, hdepth nestingLimit depth, h]⟩
  by_contra hinfinite
  rw [hj, Json.realTree, if_neg hinfinite, hnull] at h
  cases h

theorem Attr.recovered {a : Attr} (h : Attr.decode depth a.toJson.tree = .ok a) :
    ∀ x ∈ a.numbers, x.Recovered := by
  cases a with
  | float x =>
    obtain ⟨n, -, h⟩ := variant_tagged_ok rfl h
    obtain ⟨y, hy, heq⟩ := map_ok h
    cases heq
    exact List.forall_mem_singleton.mpr
      (Decoder.recovered_of_tree rfl double_depth (fun _ => rfl) hy)
  | _ => exact List.forall_mem_nil _

/-- A dictionary that is read back has the entries that were written, since their names increase. -/
theorem Attr.entries_recovered {attrs : Dictionary Attr}
    (h : decodeAll depth (Json.object (attrs.entries.map fun e => (e.1, e.2.toJson))).tree =
      .ok attrs) : ∀ e ∈ attrs.entries, ∀ x ∈ e.2.numbers, x.Recovered := by
  obtain ⟨bs, hbs, hof⟩ := map_ok h
  obtain ⟨n, -, hpairs⟩ := forall₂_of_entries_map hbs
  have hnames : attrs.entries.map Prod.fst = bs.map Prod.fst :=
    List.forall₂_eq_eq_eq ▸ List.forall₂_map_left_iff.mpr
      (List.forall₂_map_right_iff.mpr (hpairs.imp fun _ _ => And.left))
  have hincreasing : Increasing bs := by
    have hwritten := List.pairwise_map.mpr attrs.increasing
    rw [hnames] at hwritten
    exact List.pairwise_map.mp hwritten
  have hsame : attrs.entries = bs := by rw [← hof, Dictionary.entries_ofList hincreasing]
  rw [← hsame] at hpairs
  intro e he
  exact Attr.recovered (List.forall₂_same.mp hpairs e he).2

theorem Call.recovered {c : Call} (h : Call.record.decode depth c.toJson.tree = .ok c) :
    ∀ x ∈ c.numbers, x.Recovered := by
  obtain ⟨n, s, -, h, hfinish⟩ := Record.decode_object_ok h
  obtain ⟨op, -, h⟩ := Record.exists_of_readMembers_cons rfl rfl rfl h
  obtain ⟨args, -, h⟩ := Record.exists_of_readMembers_cons rfl rfl rfl h
  obtain ⟨attrs, hattrs, h⟩ := Record.exists_of_readMembers_cons rfl rfl rfl h
  obtain ⟨result, -, h⟩ := Record.exists_of_readMembers_cons rfl rfl rfl h
  cases h
  cases hfinish
  exact List.forall_mem_flatMap.mpr (Attr.entries_recovered hattrs)

theorem Literal.recovered {l : Literal} (h : Literal.decode depth l.toJson.tree = .ok l) :
    ∀ x ∈ l.numbers, x.Recovered := by
  obtain ⟨n, s, -, h, hfinish⟩ := Record.decode_object_ok h
  obtain ⟨version, -, h⟩ := Record.exists_of_readMembers_cons rfl rfl rfl h
  obtain ⟨shape, -, h⟩ := Record.exists_of_readMembers_cons rfl rfl rfl h
  obtain ⟨data, hdata, h⟩ := Record.exists_of_readMembers_cons rfl rfl rfl h
  cases h
  have hparts : Literal.ofParts shape data = .ok l := hfinish
  have hsame : data = l.data := by
    rw [ofParts] at hparts
    split at hparts
    · split at hparts
      · cases hparts
        rfl
      · cases hparts
    · cases hparts
  rw [hsame] at hdata
  obtain ⟨m, -, hitems⟩ := forall_of_list_map hdata
  exact List.forall_mem_map.mpr fun x hx =>
    Decoder.recovered_of_tree rfl single_depth (fun _ => rfl) (hitems x hx)

theorem NodeKind.recovered {k : NodeKind} (h : NodeKind.decode depth k.toJson.tree = .ok k) :
    ∀ x ∈ k.numbers, x.Recovered := by
  cases k with
  | call c =>
    obtain ⟨n, -, h⟩ := variant_tagged_ok rfl h
    obtain ⟨d, hd, heq⟩ := map_ok h
    cases heq
    exact Call.recovered hd
  | var name role ty => exact List.forall_mem_nil _
  | constant name value =>
    obtain ⟨n, -, h⟩ := variant_tagged_ok rfl h
    obtain ⟨m, s, -, h, hfinish⟩ := Record.decode_object_ok h
    obtain ⟨_, -, h⟩ := Record.exists_of_readMembers_cons rfl rfl rfl h
    obtain ⟨l, hl, h⟩ := Record.exists_of_readMembers_cons rfl rfl rfl h
    cases h
    cases hfinish
    exact Literal.recovered hl

theorem Node.recovered {n : Node} (h : Node.record.decode depth n.toJson.tree = .ok n) :
    ∀ x ∈ n.kind.numbers, x.Recovered := by
  obtain ⟨m, s, -, h, hfinish⟩ := Record.decode_object_ok h
  obtain ⟨id, -, h⟩ := Record.exists_of_readMembers_cons rfl rfl rfl h
  obtain ⟨kind, hkind, h⟩ := Record.exists_of_readMembers_cons rfl rfl rfl h
  cases h
  cases hfinish
  exact NodeKind.recovered hkind

theorem Graph.recovered {g : Graph} (h : Graph.decode depth g.toJson.tree = .ok g) :
    ∀ x ∈ g.numbers, x.Recovered := by
  obtain ⟨m, s, -, h, hfinish⟩ := Record.decode_object_ok h
  obtain ⟨name, -, h⟩ := Record.exists_of_readMembers_cons rfl rfl rfl h
  obtain ⟨nodes, hnodes, h⟩ := Record.exists_of_readMembers_cons rfl rfl rfl h
  obtain ⟨outputs, -, h⟩ := Record.exists_of_readMembers_cons rfl rfl rfl h
  cases h
  cases hfinish
  obtain ⟨n, -, hitems⟩ := forall_of_list_map hnodes
  exact List.forall_mem_flatMap.mpr fun node hnode => Node.recovered (hitems node hnode)

/-- A graph is recovered from its document exactly if all its numbers are. -/
theorem Graph.decode_tree_eq_ok_iff {g : Graph} (hfits : g.Fits)
    (hnesting : g.toJson.nesting ≤ depth) :
    Graph.decode depth g.toJson.tree = .ok g ↔ ∀ x ∈ g.numbers, x.Recovered := by
  refine ⟨Graph.recovered, fun h => ?_⟩
  rw [decode_tree hfits hnesting fun x hx _ => (h x hx).2,
    List.all_eq_true.mpr fun x hx => (h x hx).1, readBack_true]

end GraphSurvey
