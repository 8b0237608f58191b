import ShaderGraph.Proofs.Compositions

/-!
# Layouts of bodies

The nodes of a composition have the ids of a block, one after another. Their operands are among them or
given, so what is inside of the body is known. The body of an accepted composition is a float, reads the
position and calls every part. Names of shapes are told apart by their numbers, and no function of the
language has one.
-/

namespace ShaderGraph

open List

variable {m n k d : Node} {ks es : List Node} {s : Shape} {ss : List Shape} {b : NodeId} {v : String}

/-! ## Nodes inside of a node -/

theorem Node.Inline.first (h : m.Inline k) (hn : n.operands = k :: ks) : m.Inline n :=
  .operand (hn ▸ mem_cons_self) h

theorem Node.Inline.second {j : Node} (h : m.Inline k) (hn : n.operands = j :: k :: ks) : m.Inline n :=
  .operand (hn ▸ mem_cons_of_mem j mem_cons_self) h

/-- Whether a node can belong to the body of a shape: a literal, or a plain node that does not read the
place of the fragment. -/
def Node.isInner : Node → Bool
  | .float .. => true
  | .coordinate .. => false
  | n => n.isPlain

theorem Node.children_of_isInner (h : n.isInner) : n.children = n.operands := by
  cases n with
  | sumLoop | accumulator | defun | varying => cases h
  | _ => rfl

theorem Node.Inline.trans (h : k.Inline m) (h' : m.Inline n) : k.Inline n := by
  induction h' with
  | refl => exact h
  | operand hk _ ih => exact .operand hk ih

theorem Node.typed_operand {t : GlType} (ht : n.type? = some t) (hm : m ∈ n.operands) :
    m.isFunction ∨ ∃ t, m.type? = some t := by
  have hargs {args : List Node} {ts : List GlType} (hts : types? args = some ts) (hmem : m ∈ args) :
      m.isFunction ∨ ∃ t, m.type? = some t := by
    obtain ⟨t, -, ht⟩ := exists_of_forall₂_left (types?_eq_some hts) hmem
    exact .inr ⟨t, ht⟩
  cases n with
  | operator id op args | builtin id f args | construct id k args =>
    obtain ⟨ts, hts, -⟩ := bind_guard_eq_some.mp ht
    exact hargs hts hm
  | swizzle id k fields =>
    obtain ⟨u, hu, -⟩ := bind_guard_eq_some.mp ht
    rw [mem_singleton.mp hm]
    exact .inr ⟨u, hu⟩
  | call id fn args =>
    cases fn with
    | defun fid name body =>
      rw [type?, Option.ite_none_right_eq_some] at ht
      rcases mem_append.mp hm with hm | hm
      · exact hargs ht.1 hm
      · rw [mem_singleton.mp hm]
        exact .inl rfl
    | _ => cases ht
  | float | uniform | coordinate | argument | constant => cases hm
  | _ => cases ht

theorem Node.typed_of_inline (h : m.Inline n) (hn : n.isFunction ∨ ∃ t, n.type? = some t) :
    m.isFunction ∨ ∃ t, m.type? = some t := by
  induction h with
  | refl => exact hn
  | @operand k n hk _ ih =>
    rcases hn with hf | ⟨t, ht⟩
    · cases n with
      | defun => cases hk
      | _ => cases hf
    · exact ih (typed_operand ht hk)

theorem Shape.eq_defun (hs : s.fn.isFunction) : ∃ id name body, s = ⟨.defun id name body⟩ := by
  obtain ⟨fn⟩ := s
  cases fn with
  | defun id name body => exact ⟨id, name, body, rfl⟩
  | _ => cases hs

/-! ## Unions -/

namespace Shape

theorem distancesAt_subset (ss : List Shape) (b : NodeId) : distancesAt ss b ⊆ distanceNodes ss b := by
  induction ss generalizing b with
  | nil => exact List.Subset.refl _
  | cons s ss ih =>
    exact List.Subset.trans (cons_subset_cons _ (ih (b + 2))) (subset_cons_self ..)

theorem ids_distanceNodes (ss : List Shape) (b : NodeId) :
    (distanceNodes ss b).map (·.id) = List.range' b (2 * ss.length) := by
  induction ss generalizing b with
  | nil => rfl
  | cons s ss ih => 
    rw [distanceNodes, map_cons, map_cons, ih, length_cons, Nat.mul_succ]
    rfl

theorem ids_leastNodes (d : Node) (es : List Node) (b : NodeId) :
    (leastNodes d es b).map (·.id) = List.range' b es.length := by
  induction es generalizing d b with
  | nil => rfl
  | cons e es ih =>
    rw [leastNodes, map_cons, ih]
    rfl

theorem operands_distanceNodes (hn : n ∈ distanceNodes ss b) (hm : m ∈ n.operands) :
    m ∈ distanceNodes ss b ∨ m ∈ ss.map (·.fn) := by
  induction ss generalizing b with
  | nil => cases hn
  | cons s ss ih =>
    rw [distanceNodes, mem_cons, mem_cons] at hn
    rcases hn with rfl | rfl | hn
    · cases hm
    · have hm : m ∈ [Node.position b, s.fn] := hm
      simp only [mem_cons, not_mem_nil, or_false] at hm
      rcases hm with rfl | rfl
      · exact .inl mem_cons_self
      · exact .inr mem_cons_self
    · exact (ih hn).imp (fun h => mem_cons_of_mem _ (mem_cons_of_mem _ h)) (mem_cons_of_mem _)

theorem operands_leastNodes (hn : n ∈ leastNodes d es b) (hm : m ∈ n.operands) :
    m = d ∨ m ∈ es ∨ m ∈ leastNodes d es b := by
  induction es generalizing d b with
  | nil => cases hn
  | cons e es ih =>
    rcases mem_cons.mp hn with rfl | hn
    · have hm : m ∈ [d, e] := hm
      simp only [mem_cons, not_mem_nil, or_false] at hm
      rcases hm with rfl | rfl
      · exact .inl rfl
      · exact .inr (.inl mem_cons_self)
    · rcases ih hn with rfl | h | h
      · exact .inr (.inr mem_cons_self)
      · exact .inr (.inl (mem_cons_of_mem _ h))
      · exact .inr (.inr (mem_cons_of_mem _ h))

theorem distanceNode_mem (hs : s ∈ ss) : ∃ i, s.distanceNode i ∈ distancesAt ss b := by
  induction ss generalizing b with
  | nil => cases hs
  | cons t ss ih =>
    rcases mem_cons.mp hs with rfl | hs
    · exact ⟨b, mem_cons_self⟩
    · obtain ⟨i, hi⟩ := ih hs
      exact ⟨i, mem_cons_of_mem _ hi⟩

theorem type_distancesAt (hss : ∀ s ∈ ss, s.fn.isFunction) : ∀ e ∈ distancesAt ss b, e.type? = some .float := by
  induction ss generalizing b with
  | nil => exact forall_mem_nil _
  | cons s ss ih =>
    obtain ⟨hs, hrest⟩ := forall_mem_cons.mp hss
    obtain ⟨id, name, body, rfl⟩ := eq_defun hs
    exact forall_mem_cons.mpr ⟨rfl, ih hrest⟩

theorem inner_distanceNodes : ∀ n ∈ distanceNodes ss b, n.isInner := by
  induction ss generalizing b with
  | nil => exact forall_mem_nil _
  | cons s ss ih => exact forall_mem_cons.mpr ⟨rfl, forall_mem_cons.mpr ⟨rfl, ih⟩⟩

theorem inner_leastNodes : ∀ n ∈ leastNodes d es b, n.isInner := by
  induction es generalizing d b with
  | nil => exact forall_mem_nil _
  | cons e es ih => exact forall_mem_cons.mpr ⟨rfl, ih⟩

theorem inline_least (h : m.Inline d ∨ ∃ e ∈ es, m.Inline e) : m.Inline ((leastNodes d es b).getLastD d) := by
  induction es generalizing d b with
  | nil =>
    rcases h with h | ⟨e, he, -⟩
    · exact h
    · cases he
  | cons e es ih =>
    rw [leastNodes, getLastD_cons]
    refine ih ?_
    rcases h with h | ⟨k, hk, h⟩
    · exact .inl (h.first rfl)
    · rcases mem_cons.mp hk with rfl | hk
      · exact .inl (h.second rfl)
      · exact .inr ⟨k, hk, h⟩

theorem typed_least (hd : d.type? = some .float) (hp : d.isPlain) (hes : ∀ e ∈ es, e.type? = some .float) :
    ((leastNodes d es b).getLastD d).type? = some .float ∧ ((leastNodes d es b).getLastD d).isPlain := by
  induction es generalizing d b with
  | nil => exact ⟨hd, hp⟩
  | cons e es ih =>
    obtain ⟨he, hes⟩ := forall_mem_cons.mp hes
    have hl : d.isLiteral = false := by
      cases d with
      | float => cases hp
      | _ => rfl
    rw [leastNodes, getLastD_cons]
    refine ih ?_ rfl hes
    simp [Node.type?, Node.types?, hd, he, hl]
    decide

end Shape

/-! ## Bodies -/

namespace Composition

variable {c : Composition}

theorem union_closed (ss : List Shape) (b : NodeId) : ∀ n ∈ (union ss).nodes b, ∀ m ∈ n.operands,
    m ∈ (union ss).nodes b ∨ m ∈ (union ss).given := by
  intro n hn m hm
  obtain _ | ⟨s, ss⟩ := ss
  · cases hn
  · rcases mem_append.mp hn with hn | hn
    · exact (Shape.operands_distanceNodes hn hm).imp_left (mem_append_left _)
    · refine .inl ?_
      rcases Shape.operands_leastNodes hn hm with rfl | h | h
      · exact mem_append_left _ (Shape.distancesAt_subset _ _ mem_cons_self)
      · exact mem_append_left _ (Shape.distancesAt_subset _ _ (mem_cons_of_mem _ h))
      · exact mem_append_right _ h

theorem closed (c : Composition) (b : NodeId) : ∀ n ∈ c.nodes b, ∀ m ∈ n.operands,
    m ∈ c.nodes b ∨ m ∈ c.given := by
  cases c with
  | union ss => exact union_closed ss b
  | _ => simp [nodes, given, parts, Node.operands, Node.position, Shape.distanceNode]

theorem ids_nodes (c : Composition) (b : NodeId) : (c.nodes b).map (·.id) = List.range' b c.size := by
  cases c with
  | union ss =>
    obtain _ | ⟨s, ss⟩ := ss
    · rfl
    · rw [union_size, nodes, map_append, Shape.ids_distanceNodes, Shape.ids_leastNodes,
        Shape.length_distancesAt, ← range'_append]
      simp
  | _ => rfl

theorem inner_nodes (c : Composition) (b : NodeId) : ∀ n ∈ c.nodes b, n.isInner := by
  cases c with
  | union ss =>
    obtain _ | ⟨s, ss⟩ := ss
    · exact forall_mem_nil _
    · exact forall_mem_append.mpr ⟨Shape.inner_distanceNodes, Shape.inner_leastNodes⟩
  | _ => exact all_eq_true.mp rfl

theorem mem_given (hc : c.Accepted) (hn : n ∈ c.given) : (∃ s ∈ c.parts, n = s.fn) ∨ ∃ t, n.IsUniform t := by
  cases c with
  | translate s k | scale s k | rotate s k =>
    rcases mem_pair.mp hn with rfl | rfl
    · exact .inl ⟨s, mem_singleton_self s, rfl⟩
    · exact .inr ⟨_, hc⟩
  | circle | rectangle | line | hexagon => cases hn
  | union | intersection | difference | smoothUnion | annulus =>
    obtain ⟨s, hs, rfl⟩ := mem_map.mp hn
    exact .inl ⟨s, hs, rfl⟩

theorem mem_of_inline (hgiven : ∀ n ∈ c.given, n.operands = []) (h : m.Inline n)
    (hn : n ∈ c.nodes b ∨ n ∈ c.given) : m ∈ c.nodes b ∨ m ∈ c.given := by
  induction h with
  | refl => exact hn
  | @operand k n hk _ ih =>
    rcases hn with hn | hn
    · exact ih (c.closed b n hn k hk)
    · rw [hgiven n hn] at hk
      cases hk

theorem two_of_accepted (hc : (union ss).Accepted) : ∃ s t ts, ss = s :: t :: ts := by
  have hlen : 2 ≤ ss.length := hc
  obtain _ | ⟨s, _ | ⟨t, ss⟩⟩ := ss
  · cases hlen
  · simp at hlen
  · exact ⟨s, t, ss, rfl⟩

theorem body_mem (hc : c.Sized) (b : NodeId) : c.body b ∈ c.nodes b := by
  have hne : c.nodes b ≠ [] := by
    cases c with
    | union ss =>
      obtain ⟨s, t, ss, rfl⟩ := two_of_accepted hc
      exact cons_ne_nil _ _
    | _ => exact cons_ne_nil _ _
  rw [body, getLastD_eq_getLast?, getLast?_eq_some_getLast hne]
  exact List.getLast_mem hne

theorem position_inline (hc : c.Accepted) (b : NodeId) : ∃ m : Node, m.IsPosition ∧ m.Inline (c.body b) := by
  have hpos (i : NodeId) : (Node.position i).IsPosition := ⟨i, rfl⟩
  have here (i : NodeId) : (Node.position i).Inline (.position i) := .refl
  cases c with
  | circle r => exact ⟨_, hpos b, ((here b).first rfl).first rfl⟩
  | rectangle x y =>
    exact ⟨_, hpos b, (((((here b).first rfl).first rfl).first rfl).first rfl).first rfl⟩
  | line e f w => exact ⟨_, hpos (b + 1), ((((here _).first rfl).first rfl).first rfl).first rfl⟩
  | hexagon s =>
    exact ⟨_, hpos (b + 1), (((((here _).first rfl).first rfl).first rfl).first rfl).first rfl⟩
  | union ss =>
    obtain ⟨s, t, ss, rfl⟩ := two_of_accepted hc
    rw [union_body]
    exact ⟨_, hpos b, Shape.inline_least (.inl ((here b).first rfl))⟩
  | intersection s t => exact ⟨_, hpos b, ((here b).first rfl).first rfl⟩
  | difference s t => exact ⟨_, hpos b, ((here b).first rfl).first rfl⟩
  | smoothUnion k s t => exact ⟨_, hpos (b + 2), (((here _).first rfl).first rfl).first rfl⟩
  | annulus s t => exact ⟨_, hpos b, (((here b).first rfl).first rfl).first rfl⟩
  | translate s n => exact ⟨_, hpos b, ((here b).first rfl).first rfl⟩
  | scale s n => exact ⟨_, hpos b, (((here b).first rfl).first rfl).first rfl⟩
  | rotate s n =>
    exact ⟨_, hpos (b + 2), (((((here _).first rfl).second rfl).first rfl).first rfl).first rfl⟩

theorem part_inline (hc : c.Accepted) (b : NodeId) (hs : s ∈ c.parts) : s.fn.Inline (c.body b) := by
  -- a call has its argument before the function
  have called (i : NodeId) : s.fn.Inline (s.distanceNode i) := Node.Inline.refl.second rfl
  cases c with
  | circle | rectangle | line | hexagon => cases hs
  | union ss =>
    obtain ⟨t, t', ss, rfl⟩ := two_of_accepted hc
    rw [union_body]
    refine Shape.inline_least ?_
    rcases mem_cons.mp hs with rfl | hs
    · exact .inl (called b)
    · obtain ⟨i, hi⟩ := Shape.distanceNode_mem hs
      exact .inr ⟨_, hi, called i⟩
  | intersection t t' =>
    rcases mem_pair.mp hs with rfl | rfl
    · exact (called b).first rfl
    · exact (called (b + 2)).second rfl
  | difference t t' =>
    rcases mem_pair.mp hs with rfl | rfl
    · exact (called b).first rfl
    · exact ((called (b + 2)).first rfl).second rfl
  | smoothUnion k t t' =>
    rcases mem_pair.mp hs with rfl | rfl
    · exact ((called b).second rfl).first rfl
    · exact ((called (b + 2)).first rfl).first rfl
  | annulus t thickness =>
    obtain rfl := mem_singleton.mp hs
    exact ((called b).first rfl).first rfl
  | translate t n =>
    obtain rfl := mem_singleton.mp hs
    exact Node.Inline.refl.second rfl
  | scale t n =>
    obtain rfl := mem_singleton.mp hs
    exact (Node.Inline.refl.second rfl).first rfl
  | rotate t n =>
    obtain rfl := mem_singleton.mp hs
    exact Node.Inline.refl.second rfl

theorem typed_body (hc : c.Accepted) (hparts : ∀ s ∈ c.parts, s.fn.isFunction) (b : NodeId) :
    (c.body b).type? = some .float ∧ (c.body b).isPlain := by
  cases c with
  | circle | rectangle | line | hexagon => exact ⟨rfl, rfl⟩
  | union ss =>
    obtain ⟨s, t, ss, rfl⟩ := two_of_accepted hc
    rw [union_body]
    obtain ⟨hs, hss⟩ := forall_mem_cons.mp hparts
    obtain ⟨id, name, body, rfl⟩ := Shape.eq_defun hs
    exact Shape.typed_least rfl rfl (Shape.type_distancesAt hss)
  | intersection s t | difference s t | smoothUnion k s t =>
    obtain ⟨id, name, body, rfl⟩ := Shape.eq_defun (hparts s mem_cons_self)
    obtain ⟨id', name', body', rfl⟩ := Shape.eq_defun (hparts t (mem_cons_of_mem _ mem_cons_self))
    exact ⟨rfl, rfl⟩
  | annulus s t =>
    obtain ⟨id, name, body, rfl⟩ := Shape.eq_defun (hparts s (mem_singleton_self s))
    exact ⟨rfl, rfl⟩
  | translate s n | scale s n | rotate s n =>
    obtain ⟨id, name, body, rfl⟩ := Shape.eq_defun (hparts s (mem_singleton_self s))
    obtain ⟨i, ⟨_, _, _, _⟩, rfl, rfl, rfl⟩ : Node.IsUniform _ n := hc
    exact ⟨rfl, rfl⟩

end Composition

/-! ## Names -/

namespace Composition

def kinds : List String :=
  ["circle", "rect", "line", "hex", "union", "intersect", "diff", "smoothUnion", "annulus", "translate",
    "scale", "rotate"]

variable (c : Composition) (k : Nat)

theorem kind_mem : c.kind ∈ kinds := by
  cases c <;> simp [kind, kinds]

theorem kind_ends : ∃ x, c.kind.toList.getLast? = some x ∧ ¬ x.isDigit := by
  have hall : ∀ v ∈ kinds, v.toList.getLast?.any (!·.isDigit) := by decide
  simpa using (Option.any_eq_true _ _).mp (hall c.kind c.kind_mem)

/-- A name that does not end in a digit is no name of a shape. -/
theorem ne_of_ends (hv : v.toList.getLast?.any (!·.isDigit)) : v ≠ c.kind ++ toString k := by
  rintro rfl
  have hends : ∃ x, (c.kind ++ toString k).toList.getLast? = some x ∧ ¬ x.isDigit := by
    simpa using (Option.any_eq_true _ _).mp hv
  have heq : c.kind.toList ++ (toString k).toList = (c.kind ++ toString k).toList ++ [] := by simp
  obtain ⟨-, hnil⟩ := append_digits_inj (fun _ => numeral_isDigit) (forall_mem_nil _) c.kind_ends hends heq
  rw [toList_numeral] at hnil
  exact Nat.toDigits_ne_nil hnil

theorem ne_of_kind (j : Nat) (x : Char) (hx : v.toList.getLast? = some x) (hd : ¬ x.isDigit)
    (hv : v ∉ kinds) : v ++ toString j ≠ c.kind ++ toString k := by
  intro heq
  obtain ⟨rfl, -⟩ := append_numeral_inj ⟨x, hx, hd⟩ c.kind_ends heq
  exact hv c.kind_mem

theorem builtin_ne (f : Builtin) : f.name ≠ c.kind ++ toString k := by
  cases f with
  | exp2 => exact c.ne_of_kind (v := "exp") k 2 'p' (by decide) (by decide) (by decide)
  | _ => exact c.ne_of_ends k (by decide)

theorem construct_ne (t : Constructed) : t.type.name ≠ c.kind ++ toString k := by
  have hvec (j : Nat) : "vec" ++ toString j ≠ c.kind ++ toString k :=
    c.ne_of_kind k j 'c' (by decide) (by decide) (by decide)
  have hmat (j : Nat) : "mat" ++ toString j ≠ c.kind ++ toString k :=
    c.ne_of_kind k j 't' (by decide) (by decide) (by decide)
  cases t with
  | vec2 => exact hvec 2
  | vec3 => exact hvec 3
  | vec4 => exact hvec 4
  | mat2 => exact hmat 2
  | mat3 => exact hmat 3
  | mat4 => exact hmat 4

end Composition

end ShaderGraph
