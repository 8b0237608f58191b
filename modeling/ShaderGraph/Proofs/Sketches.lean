import ShaderGraph.Proofs.Definitions
import ShaderGraph.Proofs.Layouts

/-!
# Sketches

A sketch is what is drawn one after another: each composition takes a block of ids above those of the
shapes that it is made of. The nodes of a sketch form a graph of functions of a position, in which the
home of a node is the function of its block. `Composed` relates a drawing to the shapes drawn with it, in
whatever way they share others.
-/

namespace ShaderGraph

open List

variable {n m : Node} {i : NodeId} {name : String} {d : Drawing} {drawn : List (Shape × Composition)}
  {s t : Shape}

/-! ## Outlines -/

/-- A composition that is drawn from the id `base` on. -/
structure Outline where
  base : NodeId
  number : Nat
  composition : Composition

namespace Outline

def id (e : Outline) : NodeId := e.base + e.composition.size

def shape (e : Outline) : Shape := e.composition.shape e.base e.number

def body (e : Outline) : Node := e.composition.body e.base

/-- The nodes that are drawn, the function last. -/
def block (e : Outline) : List Node := e.composition.nodes e.base ++ [e.shape.fn]

theorem shape_fn (e : Outline) :
    e.shape.fn = .defun e.id (e.composition.kind ++ toString e.number) e.body := rfl

theorem ids_block (e : Outline) : e.block.map (·.id) = List.range' e.base (e.composition.size + 1) := by
  rw [block, map_append, Composition.ids_nodes, range'_concat]
  simp [shape_fn, Node.id, id]

theorem mem_block {e : Outline} (hn : n ∈ e.block) : e.base ≤ n.id ∧ n.id ≤ e.id := by
  have hid : n.id ∈ e.block.map (·.id) := mem_map_of_mem hn
  rw [ids_block, mem_range'_1] at hid
  exact ⟨hid.1, Nat.le_of_lt_succ hid.2⟩

theorem mem_nodes {e : Outline} (hn : n ∈ e.composition.nodes e.base) : e.base ≤ n.id ∧ n.id < e.id := by
  have hid : n.id ∈ (e.composition.nodes e.base).map (·.id) := mem_map_of_mem hn
  rw [Composition.ids_nodes, mem_range'_1] at hid
  exact hid

theorem eq_of_id_eq {e : Outline} (hm : m ∈ e.block) (hn : n ∈ e.block) (h : m.id = n.id) : m = n := by
  have hnodup : (e.block.map (·.id)).Nodup := e.ids_block ▸ nodup_range'
  exact inj_on_of_nodup_map hnodup hm hn h

/-- The function whose body a node belongs to, or else `r`. -/
def home (es : List Outline) (r : NodeId) (i : NodeId) : NodeId :=
  match es.find? fun e => e.base ≤ i ∧ i < e.id with
  | some e => e.id
  | none => r

end Outline

/-- What is drawn one after another, each composition from shapes drawn before. -/
structure Sketch (es : List Outline) : Prop where
  accepted : ∀ e ∈ es, e.composition.Accepted
  parts : ∀ e ∈ es, ∀ s ∈ e.composition.parts, ∃ k ∈ es, k.shape = s ∧ k.id < e.base
  apart : ∀ e ∈ es, ∀ k ∈ es, e = k ∨ (e.id < k.base ∧ e.number < k.number) ∨ (k.id < e.base ∧ k.number < e.number)
  low : ∀ e ∈ es, 31 ≤ e.base

namespace Sketch

variable {es : List Outline} {e k : Outline} {r : NodeId}

theorem isFunction_part (h : Sketch es) (he : e ∈ es) : ∀ s ∈ e.composition.parts, s.fn.isFunction := by
  intro s hs
  obtain ⟨k, -, rfl, -⟩ := h.parts e he s hs
  rfl

theorem typed_body (h : Sketch es) (he : e ∈ es) : e.body.type? = some .float ∧ e.body.isPlain :=
  Composition.typed_body (h.accepted e he) (h.isFunction_part he) e.base

/-- What is inside of a body is drawn with it, the function of a part or a uniform. -/
theorem inline_cases (h : Sketch es) (he : e ∈ es) (hn : n.Inline e.body) :
    n ∈ e.composition.nodes e.base ∨ (∃ k ∈ es, k.id < e.base ∧ k.shape ∈ e.composition.parts ∧ n = k.shape.fn) ∨
      ∃ t, n.IsUniform t := by
  have hc := h.accepted e he
  have hgiven : ∀ g ∈ e.composition.given, g.operands = [] := by
    intro g hg
    rcases Composition.mem_given hc hg with ⟨s, hs, rfl⟩ | ⟨t, i, u, rfl, -⟩
    · obtain ⟨k, -, rfl, -⟩ := h.parts e he s hs
      rfl
    · rfl
  refine (Composition.mem_of_inline hgiven hn (.inl (Composition.body_mem hc.sized e.base))).imp_right fun hg => ?_
  rcases Composition.mem_given hc hg with ⟨s, hs, rfl⟩ | hu
  · obtain ⟨k, hk, rfl, hlt⟩ := h.parts e he s hs
    exact .inl ⟨k, hk, hlt, hs, rfl⟩
  · exact .inr hu

/-- The distance from a shape of the sketch at the place of the fragment. -/
def root (r : NodeId) (e : Outline) : Node := .call r e.shape.fn [.uv]

def graph (h : Sketch es) (r : NodeId) (he : e ∈ es) : Graph where
  nodes := { n | n = root r e ∨ n = .uv ∨ ∃ k ∈ es, n = k.shape.fn ∨ n.Inline k.body }
  closed := by
    rintro n (rfl | rfl | ⟨k, hk, rfl | hn⟩) m hm
    · have hm : m ∈ [Node.uv, e.shape.fn] := hm
      rcases mem_pair.mp hm with rfl | rfl
      · exact .inr (.inl rfl)
      · exact .inr (.inr ⟨e, he, .inl rfl⟩)
    · cases hm
    · have hm : m ∈ [k.body] := hm
      rw [mem_singleton.mp hm]
      exact .inr (.inr ⟨k, hk, .inr .refl⟩)
    · refine .inr (.inr ?_)
      rcases h.inline_cases hk hn with hmem | ⟨j, hj, -, -, rfl⟩ | ⟨t, i, u, rfl, -⟩
      · rw [Node.children_of_isInner (Composition.inner_nodes _ _ n hmem)] at hm
        exact ⟨k, hk, .inr ((Node.Inline.operand hm .refl).trans hn)⟩
      · have hm : m ∈ [j.body] := hm
        rw [mem_singleton.mp hm]
        exact ⟨j, hj, .inr .refl⟩
      · cases hm

theorem eq_of_name (h : Sketch es) (he : e ∈ es) (hk : k ∈ es)
    (hname : e.composition.kind ++ toString e.number = k.composition.kind ++ toString k.number) : e = k := by
  have hnumber := (append_numeral_inj e.composition.kind_ends k.composition.kind_ends hname).2
  rcases h.apart e he k hk with heq | ⟨-, hlt⟩ | ⟨-, hlt⟩
  · exact heq
  · exact absurd hnumber hlt.ne
  · exact absurd hnumber hlt.ne'

theorem graph_cases {h : Sketch es} {he : e ∈ es} (hn : n ∈ (h.graph r he).nodes) :
    n = root r e ∨ n = .uv ∨ (∃ k ∈ es, n = k.shape.fn) ∨
      (∃ k ∈ es, n ∈ k.composition.nodes k.base ∧ n.Inline k.body) ∨ ∃ t, n.IsUniform t := by
  rcases hn with rfl | rfl | ⟨k, hk, rfl | hn⟩
  · exact .inl rfl
  · exact .inr (.inl rfl)
  · exact .inr (.inr (.inl ⟨k, hk, rfl⟩))
  · rcases h.inline_cases hk hn with hmem | ⟨j, hj, -, -, rfl⟩ | hu
    · exact .inr (.inr (.inr (.inl ⟨k, hk, hmem, hn⟩)))
    · exact .inr (.inr (.inl ⟨j, hj, rfl⟩))
    · exact .inr (.inr (.inr (.inr hu)))

theorem eq_of_overlap (h : Sketch es) (he : e ∈ es) (hk : k ∈ es) (hi : e.base ≤ i ∧ i ≤ e.id)
    (hi' : k.base ≤ i ∧ i ≤ k.id) : e = k := by
  rcases h.apart e he k hk with heq | ⟨hlt, -⟩ | ⟨hlt, -⟩
  · exact heq
  · exact absurd (hi'.1.trans hi.2) (Nat.not_le_of_lt hlt)
  · exact absurd (hi.1.trans hi'.2) (Nat.not_le_of_lt hlt)

theorem home_eq (h : Sketch es) (hk : k ∈ es) (r : NodeId) (hi : k.base ≤ i ∧ i < k.id) :
    Outline.home es r i = k.id := by
  unfold Outline.home
  split
  · next e hfind =>
    have hsome : e.base ≤ i ∧ i < e.id := by simpa using find?_some hfind
    have heq := h.eq_of_overlap (mem_of_find?_eq_some hfind) hk ⟨hsome.1, hsome.2.le⟩ ⟨hi.1, hi.2.le⟩
    rw [heq]
  · next hnone =>
    have := find?_eq_none.mp hnone k hk
    exact absurd (decide_eq_true hi) this

theorem home_outside (hi : ∀ e ∈ es, ¬ (e.base ≤ i ∧ i < e.id)) (r : NodeId) : Outline.home es r i = r := by
  have hnone : (es.find? fun e => e.base ≤ i ∧ i < e.id) = none :=
    find?_eq_none.mpr fun e he heq => hi e he (of_decide_eq_true heq)
  rw [Outline.home, hnone]

section
variable (h : Sketch es) (he : e ∈ es) (hr : ∀ k ∈ es, k.id < r)
include hr

theorem home_root : Outline.home es r r = r :=
  home_outside (fun k hk hi => Nat.lt_asymm hi.2 (hr k hk)) r

omit hr in
include h in
theorem home_uv (r : NodeId) : Outline.home es r Node.uv.id = r :=
  home_outside (fun k hk hi => Nat.not_lt_of_le ((h.low k hk).trans hi.1) (by decide)) r

theorem shared (hm : m ∈ (h.graph r he).nodes) (hn : n ∈ (h.graph r he).nodes) (him : ¬ m.isImmediate)
    (hin : ¬ n.isImmediate) (hid : m.id = n.id) : m = n := by
  have hplace {n : Node} (hn : n ∈ (h.graph r he).nodes) (hi : ¬ n.isImmediate) :
      (n = root r e ∧ n.id = r) ∨ (n = .uv ∧ n.id = 1) ∨ ∃ k ∈ es, n ∈ k.block := by
    rcases graph_cases hn with rfl | rfl | ⟨k, hk, rfl⟩ | ⟨k, hk, hn, -⟩ | ⟨t, i, u, rfl, -⟩
    · exact .inl ⟨rfl, rfl⟩
    · exact .inr (.inl ⟨rfl, rfl⟩)
    · exact .inr (.inr ⟨k, hk, mem_concat_self⟩)
    · exact .inr (.inr ⟨k, hk, mem_append_left _ hn⟩)
    · exact absurd rfl hi
  have hblock {k : Outline} (hk : k ∈ es) {n : Node} (hn : n ∈ k.block) : 1 < n.id ∧ n.id < r :=
    have hb := Outline.mem_block hn
    ⟨Nat.lt_of_lt_of_le (by decide) ((h.low k hk).trans hb.1), hb.2.trans_lt (hr k hk)⟩
  have hroot : 1 < r :=
    have hb := hblock he mem_concat_self
    hb.1.trans hb.2
  rcases hplace hm him with ⟨rfl, hmi⟩ | ⟨rfl, hmi⟩ | ⟨j, hj, hmj⟩
  · rcases hplace hn hin with ⟨rfl, hni⟩ | ⟨rfl, hni⟩ | ⟨k, hk, hnk⟩
    · rfl
    · exact absurd (hmi.symm.trans (hid.trans hni)) hroot.ne'
    · exact absurd (hid.symm.trans hmi) (hblock hk hnk).2.ne
  · rcases hplace hn hin with ⟨rfl, hni⟩ | ⟨rfl, hni⟩ | ⟨k, hk, hnk⟩
    · exact absurd (hmi.symm.trans (hid.trans hni)) hroot.ne
    · rfl
    · exact absurd (hid.symm.trans hmi) (hblock hk hnk).1.ne'
  · rcases hplace hn hin with ⟨rfl, hni⟩ | ⟨rfl, hni⟩ | ⟨k, hk, hnk⟩
    · exact absurd (hid.trans hni) (hblock hj hmj).2.ne
    · exact absurd (hid.trans hni) (hblock hj hmj).1.ne'
    · have hjk := h.eq_of_overlap hj hk (Outline.mem_block hmj) (hid ▸ Outline.mem_block hnk)
      subst hjk
      exact Outline.eq_of_id_eq hmj hnk hid

omit hr in
theorem eq_of_defun {h : Sketch es} {he : e ∈ es} {body : Node} (hn : .defun i name body ∈ (h.graph r he).nodes) :
    ∃ k ∈ es, i = k.id ∧ name = k.composition.kind ++ toString k.number ∧ body = k.body := by
  rcases graph_cases hn with heq | heq | ⟨k, hk, heq⟩ | ⟨k, hk, hmem, -⟩ | ⟨t, i, u, heq, -⟩
  · cases heq
  · cases heq
  · cases heq
    exact ⟨k, hk, rfl, rfl, rfl⟩
  · exact absurd (Composition.inner_nodes _ _ _ hmem) Bool.false_ne_true
  · cases heq

theorem positional : (h.graph r he).Positional where
  typed n hn := by
    rcases hn with rfl | rfl | ⟨k, hk, rfl | hn⟩
    · exact .inr ⟨.float, rfl⟩
    · exact .inr ⟨.vec2, rfl⟩
    · exact .inl rfl
    · exact Node.typed_of_inline hn (.inr ⟨.float, (h.typed_body hk).1⟩)
  shared m hm n hn him hin hid := h.shared he hr hm hn him hin hid
  body {i name body} hn := by
    obtain ⟨k, hk, -, -, rfl⟩ := eq_of_defun hn
    exact ⟨(h.typed_body hk).1, Composition.position_inline (h.accepted k hk) k.base⟩

theorem layered : (h.graph r he).Layered (Outline.home es r) where
  operand {n m} hn hp hm hmp := by
    rcases graph_cases hn with rfl | rfl | ⟨k, hk, rfl⟩ | ⟨k, hk, hmem, hin⟩ | ⟨t, i, u, rfl, -⟩
    · have hm : m ∈ [Node.uv, e.shape.fn] := hm
      rcases mem_pair.mp hm with rfl | rfl
      · exact (h.home_uv r).trans (home_root hr).symm
      · cases hmp
    · cases hm
    · cases hp
    · rcases h.inline_cases hk ((Node.Inline.operand hm .refl).trans hin) with
        hmem' | ⟨j, hj, -, -, rfl⟩ | ⟨t, i, u, rfl, -⟩
      · rw [h.home_eq hk r (Outline.mem_nodes hmem), h.home_eq hk r (Outline.mem_nodes hmem')]
      · cases hmp
      · cases hmp
    · cases hp
  callee {n i name body} hn hp hm := by
    rcases graph_cases hn with rfl | rfl | ⟨k, hk, rfl⟩ | ⟨k, hk, hmem, hin⟩ | ⟨t, j, u, rfl, -⟩
    · have hm : Node.defun i name body ∈ [Node.uv, e.shape.fn] := hm
      rcases mem_pair.mp hm with heq | heq
      · cases heq
      · cases heq
        exact Nat.lt_of_lt_of_eq (hr e he) (home_root hr).symm
    · cases hm
    · cases hp
    · rw [h.home_eq hk r (Outline.mem_nodes hmem)]
      rcases h.inline_cases hk ((Node.Inline.operand hm .refl).trans hin) with
        hmem' | ⟨j, hj, hlt, -, heq⟩ | ⟨t, j, u, heq, -⟩
      · exact absurd (Composition.inner_nodes _ _ _ hmem') Bool.false_ne_true
      · cases heq
        exact hlt.trans_le (Nat.le_add_right ..)
      · cases heq
    · cases hp
  body {i name body} hn := by
    obtain ⟨k, hk, rfl, -, rfl⟩ := eq_of_defun hn
    have hmem := Composition.body_mem (h.accepted k hk).sized k.base
    exact ⟨(h.typed_body hk).2, h.home_eq hk r (Outline.mem_nodes hmem)⟩
  coordinate {i c j name body} hn hd := by
    obtain ⟨k, hk, rfl, -, -⟩ := eq_of_defun hd
    rcases graph_cases hn with heq | heq | ⟨k', hk', heq⟩ | ⟨k', hk', hmem, -⟩ | ⟨t, i, u, heq, -⟩
    · cases heq
    · cases heq
      exact (Nat.lt_of_lt_of_eq (hr k hk) (h.home_uv r).symm).ne'
    · cases heq
    · exact absurd (Composition.inner_nodes _ _ _ hmem) Bool.false_ne_true
    · cases heq

theorem at_root : (root r e).At (Outline.home es r) r where
  plain _ := home_root hr
  function hd := by cases hd

theorem argument_home {index : Int} {type : GlType} (hn : .argument i name index type ∈ (h.graph r he).nodes) :
    Outline.home es r i ≠ r := by
  rcases graph_cases hn with heq | heq | ⟨k, hk, heq⟩ | ⟨k, hk, hmem, -⟩ | ⟨t, j, u, heq, -⟩
  · cases heq
  · cases heq
  · cases heq
  · have hhome := h.home_eq hk r (Outline.mem_nodes hmem)
    exact hhome.trans_ne (hr k hk).ne
  · cases heq

end

theorem named (h : Sketch es) (r : NodeId) (he : e ∈ es) : (h.graph r he).Named where
  unique {i j name body body'} hi hj := by
    obtain ⟨k, hk, rfl, hname, -⟩ := eq_of_defun hi
    obtain ⟨k', hk', rfl, hname', -⟩ := eq_of_defun hj
    rw [h.eq_of_name hk hk' (hname.symm.trans hname')]
  builtin {i name body} hn f := by
    obtain ⟨k, -, -, rfl, -⟩ := eq_of_defun hn
    exact k.composition.builtin_ne k.number f
  construct {i name body} hn t := by
    obtain ⟨k, -, -, rfl, -⟩ := eq_of_defun hn
    exact k.composition.construct_ne k.number t

end Sketch

/-! ## Drawings -/

/-- What may happen to a workspace: numbers go up, and swizzles are of nodes that are made. -/
structure Workspace.Continues (w w' : Workspace) : Prop where
  nextId : w.nextId ≤ w'.nextId
  shapes : w.shapes ≤ w'.shapes
  ready : w'.Ready

/-- The outlines of what is drawn. -/
structure Sketched (d : Drawing) (drawn : List (Shape × Composition)) (es : List Outline) : Prop where
  sketch : Sketch es
  drawn : drawn = es.map fun e => (e.shape, e.composition)
  below : ∀ e ∈ es, e.id < d.work.nextId ∧ e.number ≤ d.work.shapes
  low : 31 ≤ d.work.nextId
  ready : d.work.Ready

namespace Sketched

variable {d' : Drawing} {es : List Outline} {c : Composition} (h : Sketched d drawn es)
include h

theorem exists_outline (hs : (s, c) ∈ drawn) : ∃ e ∈ es, e.shape = s ∧ e.composition = c := by
  rw [h.drawn] at hs
  obtain ⟨e, he, heq⟩ := mem_map.mp hs
  cases heq
  exact ⟨e, he, rfl, rfl⟩

theorem mem_drawn {e : Outline} (he : e ∈ es) : (e.shape, e.composition) ∈ drawn :=
  h.drawn ▸ mem_map_of_mem he

theorem exists_shape (ht : t ∈ drawn.map (·.1)) : ∃ e ∈ es, e.shape = t := by
  obtain ⟨⟨s, c⟩, hs, rfl⟩ := mem_map.mp ht
  obtain ⟨e, he, heq, -⟩ := h.exists_outline hs
  exact ⟨e, he, heq⟩

theorem given_present (hc : c.Accepted) (hparts : ∀ t ∈ c.parts, t ∈ drawn.map (·.1)) :
    ∀ n ∈ c.given, n.isAbsent = false := by
  intro n hn
  rcases Composition.mem_given hc hn with ⟨t, ht, rfl⟩ | ⟨type, i, u, rfl, -⟩
  · obtain ⟨e, -, rfl⟩ := h.exists_shape (hparts t ht)
    rfl
  · rfl

theorem draw (hc : c.Accepted) (hparts : ∀ t ∈ c.parts, t ∈ drawn.map (·.1)) :
    ∃ w e, c.draw.run.run d = (.ok e.shape, { d with work := w }) ∧ e.composition = c ∧
      Sketched { d with work := w } ((e.shape, c) :: drawn) (e :: es) := by
  obtain ⟨w, hrun, hid, hshapes, hready⟩ := Composition.drawnBy hc.sized (h.given_present hc hparts) d h.ready
  refine ⟨w, ⟨d.work.nextId, d.work.shapes + 1, c⟩, hrun, rfl, ⟨?_, ?_, ?_, ?_⟩, ?_, ?_, ?_, hready⟩
  · exact forall_mem_cons.mpr ⟨hc, h.sketch.accepted⟩
  · intro e he t ht
    rcases mem_cons.mp he with rfl | he
    · obtain ⟨k, hk, heq⟩ := h.exists_shape (hparts t ht)
      exact ⟨k, mem_cons_of_mem _ hk, heq, (h.below k hk).1⟩
    · obtain ⟨k, hk, hlt⟩ := h.sketch.parts e he t ht
      exact ⟨k, mem_cons_of_mem _ hk, hlt⟩
  · intro e he k hk
    rcases mem_cons.mp he with rfl | he
    · rcases mem_cons.mp hk with rfl | hk
      · exact .inl rfl
      · exact .inr (.inr ⟨(h.below k hk).1, Nat.lt_succ_of_le (h.below k hk).2⟩)
    · rcases mem_cons.mp hk with rfl | hk
      · exact .inr (.inl ⟨(h.below e he).1, Nat.lt_succ_of_le (h.below e he).2⟩)
      · exact h.sketch.apart e he k hk
  · exact forall_mem_cons.mpr ⟨h.low, h.sketch.low⟩
  · rw [map_cons, ← h.drawn]
  · refine forall_mem_cons.mpr ⟨⟨?_, Nat.le_of_eq hshapes.symm⟩, fun e he => ?_⟩
    · exact Nat.lt_of_lt_of_eq (Nat.lt_succ_self _) hid.symm
    · obtain ⟨hlt, hle⟩ := h.below e he
      refine ⟨Nat.lt_of_lt_of_le hlt ?_, Nat.le_trans hle ?_⟩
      · rw [hid]
        exact Nat.le_add_right _ (c.size + 1)
      · rw [hshapes]
        exact Nat.le_succ _
  · rw [hid]
    exact h.low.trans (Nat.le_add_right _ (c.size + 1))

end Sketched

/-- The first shape is made of the second, directly, through others or by being it. -/
inductive MadeOf (drawn : List (Shape × Composition)) : Shape → Shape → Prop where
  | refl {s : Shape} : MadeOf drawn s s
  | part {s t u : Shape} {c : Composition} (hs : (s, c) ∈ drawn) (ht : t ∈ c.parts) (h : MadeOf drawn t u) :
    MadeOf drawn s u

section
variable {es : List Outline}

theorem MadeOf.trans {u : Shape} (h : MadeOf drawn s t) (h' : MadeOf drawn t u) : MadeOf drawn s u := by
  induction h with
  | refl => exact h'
  | part hs ht _ ih => exact .part hs ht (ih h')

theorem MadeOf.within (h : MadeOf drawn s t) (hes : Sketched d drawn es) : t.fn.Within s.fn := by
  induction h with
  | refl => exact .refl
  | part hs ht _ ih =>
    obtain ⟨e, he, rfl, rfl⟩ := hes.exists_outline hs
    have hin := Composition.part_inline (hes.sketch.accepted e he) e.base ht
    have hbody : e.body.Within e.shape.fn := .child mem_cons_self .refl
    exact (ih.trans hin.within).trans hbody

theorem MadeOf.mem (h : MadeOf drawn s t) (hes : Sketched d drawn es) (hs : s ∈ drawn.map (·.1)) :
    t ∈ drawn.map (·.1) := by
  induction h with
  | refl => exact hs
  | part hs' ht _ ih =>
    obtain ⟨e, he, rfl, rfl⟩ := hes.exists_outline hs'
    obtain ⟨k, hk, rfl, -⟩ := hes.sketch.parts e he _ ht
    exact ih (mem_map_of_mem (hes.mem_drawn hk))

theorem madeOf_of_within (hes : Sketched d drawn es) (h : m.Within n) (hm : m.isFunction) {e : Outline}
    (he : e ∈ es) (hn : n = e.shape.fn ∨ n.Inline e.body) : ∃ t, MadeOf drawn e.shape t ∧ t.fn = m := by
  induction h generalizing e with
  | refl =>
    rcases hn with rfl | hn
    · exact ⟨e.shape, .refl, rfl⟩
    · rcases hes.sketch.inline_cases he hn with hmem | ⟨k, hk, -, hpart, rfl⟩ | ⟨t, i, u, rfl, -⟩
      · have hinner := Composition.inner_nodes _ _ _ hmem
        cases m with
        | defun => cases hinner
        | _ => cases hm
      · exact ⟨k.shape, .part (hes.mem_drawn he) hpart .refl, rfl⟩
      · cases hm
  | @child j n hj _ ih =>
    rcases hn with rfl | hn
    · have hj : j ∈ [e.body] := hj
      exact ih he (.inr (mem_singleton.mp hj ▸ .refl))
    · rcases hes.sketch.inline_cases he hn with hmem | ⟨k, hk, -, hpart, rfl⟩ | ⟨t, i, u, rfl, -⟩
      · rw [Node.children_of_isInner (Composition.inner_nodes _ _ n hmem)] at hj
        exact ih he (.inr ((Node.Inline.operand hj .refl).trans hn))
      · have hj : j ∈ [k.body] := hj
        obtain ⟨t, ht, heq⟩ := ih hk (.inr (mem_singleton.mp hj ▸ .refl))
        exact ⟨t, .part (hes.mem_drawn he) hpart ht, heq⟩
      · cases hj

end

end ShaderGraph
