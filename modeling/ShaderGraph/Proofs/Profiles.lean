import ShaderGraph.Proofs.Derivations

/-!
# Profiles of nodes

The type of a node follows from the types of its operands, except that a loop takes the type of its
sum from the initial value of an accumulator, which may stand anywhere in its body. The profile of a
node is its type together with the accumulators that it leaves to the loops around it, each with the
profile of its initial value, so that the profile of a node follows from the profiles of its parts.
-/

namespace ShaderGraph

open List

/-! ## Profiles -/

mutual

/-- The type of a node, the type of its calls if it is a function, and the accumulators that are left
to the loops around it. -/
inductive Profile where
  | mk (type : GlType) (returns : Option GlType) (slots : List Slot)

/-- An accumulator that a loop has to bind, and the profile of its initial value. -/
inductive Slot where
  | mk (id : NodeId) (initial : Profile)

end

namespace Slot

def id : Slot → NodeId
  | mk id _ => id

def initial : Slot → Profile
  | mk _ initial => initial

end Slot

instance : BEq Slot := ⟨fun a b => a.id == b.id⟩

namespace Profile

def type : Profile → GlType
  | mk type _ _ => type

def returns : Profile → Option GlType
  | mk _ returns _ => returns

def slots : Profile → List Slot
  | mk _ _ slots => slots

def gather (type : GlType) (os : List Profile) : Profile :=
  mk type none (os.foldl (fun acc o => adjoin acc o.slots) [])

/-- The profile of the initial value of a loop, with the first accumulator of its body or else the
value it is given. -/
def opening (body start : Profile) : Profile :=
  match body.slots with
  | l :: _ => l.initial
  | [] => start

def sumLoop (body count start : Profile) : Profile :=
  let first := body.opening start
  let o := gather (GlType.promote [body.type, first.type]) [first, count]
  mk o.type none (adjoin o.slots body.slots.tail)

theorem mem_slots_gather {type : GlType} {os : List Profile} {l : Slot}
    (h : l ∈ (gather type os).slots) : ∃ o ∈ os, l ∈ o.slots := by
  rcases mem_foldl_adjoin h with h | h
  · cases h
  · exact h

theorem mem_slots_opening {body start : Profile} {l : Slot} (h : l ∈ (body.opening start).slots) :
    (∃ m ∈ body.slots, l ∈ m.initial.slots) ∨ l ∈ start.slots := by
  unfold opening at h
  split at h
  · next m rest hm => exact .inl ⟨m, hm ▸ mem_cons_self, h⟩
  · exact .inr h

/-- A loop leaves what its initial value and its count leave, and all of its body but the first. -/
theorem mem_slots_sumLoop {body count start : Profile} {l : Slot}
    (h : l ∈ (sumLoop body count start).slots) :
    l ∈ (body.opening start).slots ∨ l ∈ count.slots ∨ l ∈ body.slots := by
  rcases mem_adjoin h with h | h
  · obtain ⟨o, ho, hl⟩ := mem_slots_gather h
    rcases mem_pair.mp ho with rfl | rfl
    · exact .inl hl
    · exact .inr (.inl hl)
  · exact .inr (.inr (mem_of_mem_tail h))

end Profile

namespace Node

def combine : Node → List Profile → Profile
  | coordinate _ k, _ => .gather k.type []
  | resolution _, _ => .gather .vec2 []
  | operator _ op _, os => .gather (if os.isEmpty then .float else op.resultType (os.map (·.type))) os
  | builtin _ f _, os => .gather (f.resultType (os.map (·.type))) os
  | construct _ k _, os => .gather k.type os
  | constant _ k, _ => .gather k.type []
  | swizzle _ _ fields, os => .gather ((GlType.ofLength? fields.utf8ByteSize).getD .float) os
  | switch .., [cond, yes, no] => .gather (GlType.promote [yes.type, no.type]) [cond, yes, no]
  | breakIf .., [cond, value] => .gather value.type [cond, value]
  | call .., os => .gather ((os.getLast?.bind (·.returns)).getD .float) os.dropLast
  | argument _ _ _ type, _ => .gather type []
  | _, _ => .gather .float []

mutual

def profile : Node → Profile
  | absent => .gather .float []
  | float .. => .gather .float []
  | bool .. => .gather .bool []
  | uniform _ u => .gather u.type []
  | .attribute _ a => .gather a.type []
  | coordinate id k => (coordinate id k).combine []
  | resolution id => (resolution id).combine []
  | operator id op args => (operator id op args).combine (profiles args)
  | builtin id f args => (builtin id f args).combine (profiles args)
  | construct id k args => (construct id k args).combine (profiles args)
  | constant id k => (constant id k).combine []
  | swizzle id n fields => (swizzle id n fields).combine [n.profile]
  | switch id cond yes no => (switch id cond yes no).combine [cond.profile, yes.profile, no.profile]
  | sumLoop _ body count start => .sumLoop body.profile count.profile start.profile
  | breakIf id cond value => (breakIf id cond value).combine [cond.profile, value.profile]
  | accumulator id _ start => .mk start.profile.type none [.mk id start.profile]
  | defun _ _ body => .mk .function (some body.profile.type) []
  | call id fn args => (call id fn args).combine (profiles args ++ [fn.profile])
  | argument id name index type => (argument id name index type).combine []
  | varying _ n => .gather n.profile.type []

def profiles : List Node → List Profile
  | [] => []
  | n :: ns => n.profile :: profiles ns

end

/-- The type of a node, wherever it is evaluated. -/
def type (n : Node) : GlType := n.profile.type

theorem profiles_eq_map (ns : List Node) : profiles ns = ns.map profile := by
  induction ns with
  | nil => rfl
  | cons n ns ih => rw [profiles, ih, map_cons]

theorem profile_plain {n : Node} (h : n.isPlain) : n.profile = n.combine (n.operands.map profile) := by
  cases n with
  | operator | builtin | construct => rw [profile, profiles_eq_map]; rfl
  | call id fn args => rw [profile, profiles_eq_map, operands, map_append, map_singleton]
  | coordinate | resolution | constant | swizzle | switch | breakIf | argument => rfl
  | _ => cases h

theorem profile_immediate {n : Node} (h : n.isImmediate) : n.profile = .gather n.leafType [] := by
  cases n with
  | absent | float | bool | uniform | «attribute» => rfl
  | _ => cases h

theorem mem_slots_combine {n : Node} {os : List Profile} {l : Slot} (h : l ∈ (n.combine os).slots) :
    ∃ o ∈ os, l ∈ o.slots := by
  unfold combine at h
  split at h
  all_goals obtain ⟨o, ho, hl⟩ := Profile.mem_slots_gather h
  all_goals first
    | exact ⟨o, ho, hl⟩
    | exact ⟨o, dropLast_subset _ ho, hl⟩
    | exact absurd ho not_mem_nil

theorem mem_slots {n : Node} {l : Slot} (h : l ∈ n.profile.slots) :
    ∃ name start, (accumulator l.id name start).Within n ∧ l.initial = start.profile := by
  -- the initial value of an accumulator is no child of the loop, so the induction is on the size
  induction hsize : sizeOf n using Nat.strong_induction_on generalizing n l with
  | h size ih =>
    subst hsize
    have hchild {m : Node} (hm : m ∈ n.children) (hl : l ∈ m.profile.slots) :
        ∃ name start, (accumulator l.id name start).Within n ∧ l.initial = start.profile := by
      obtain ⟨name, start, hw, hi⟩ := ih _ (sizeOf_child_lt hm) hl rfl
      exact ⟨name, start, .child hm hw, hi⟩
    by_cases hp : n.isPlain
    · rw [profile_plain hp] at h
      obtain ⟨o, ho, hl⟩ := mem_slots_combine h
      obtain ⟨m, hm, rfl⟩ := mem_map.mp ho
      exact hchild (children_of_isPlain hp ▸ hm) hl
    by_cases hi : n.isImmediate
    · rw [profile_immediate hi] at h
      cases h
    cases n with
    | accumulator id name start =>
      rw [profile] at h
      obtain rfl := mem_singleton.mp h
      exact ⟨name, start, .refl, rfl⟩
    | sumLoop id body count start =>
      rw [profile] at h
      have hbody : body ∈ (sumLoop id body count start).children := by simp [children]
      rcases Profile.mem_slots_sumLoop h with hl | hl | hl
      · rcases Profile.mem_slots_opening hl with ⟨m, hm, hl⟩ | hl
        · have hlt := sizeOf_child_lt hbody
          obtain ⟨name, first, hw, hinitial⟩ := ih _ hlt hm rfl
          have hfirst : first.Within body := .trans (.child mem_cons_self .refl) hw
          rw [hinitial] at hl
          obtain ⟨name', start', hw', hinitial'⟩ := ih _ (hfirst.sizeOf_le.trans_lt hlt) hl rfl
          exact ⟨name', start', .child hbody (hw'.trans hfirst), hinitial'⟩
        · exact hchild (m := start) (by simp [children]) hl
      · exact hchild (m := count) (by simp [children]) hl
      · exact hchild hbody hl
    | defun id name body => cases h
    | varying id m =>
      rw [profile] at h
      cases h
    | absent | float | bool | uniform | «attribute» => exact absurd rfl hi
    | _ => exact absurd rfl hp

end Node

/-! ## Graphs -/

/-- Nodes are made after those that they are made of. -/
def Graph.Ascending (G : Graph) : Prop := ∀ n ∈ G.nodes, ∀ m ∈ n.children, m.id < n.id

theorem Graph.Ascending.id_le {G : Graph} (hG : G.Ascending) {m n : Node} (hn : n ∈ G.nodes)
    (h : m.Within n) : m.id ≤ n.id := by
  induction h with
  | refl => exact Nat.le_refl _
  | child hk _ ih => exact (ih (G.closed _ hn _ hk)).trans (hG _ hn _ hk).le

end ShaderGraph
