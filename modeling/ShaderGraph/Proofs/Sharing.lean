import Mathlib.Data.List.Nodup
import Mathlib.Data.Set.Basic
import ShaderGraph.Proofs.Growth

/-!
# Graphs

A graph is a set of nodes that holds the children of its nodes. Nodes are shared by having one
id, so in a graph that is built by handing out ids, an id stands for one node.
-/

namespace ShaderGraph

/-- The nodes that a node is made of. -/
def Node.children : Node → List Node
  | sumLoop _ body count start => [count, body, start]
  | accumulator _ _ start => [start]
  | defun _ _ body => [body]
  | varying _ n => [n]
  | n => n.operands

theorem Node.children_of_isPlain {n : Node} (h : n.isPlain) : n.children = n.operands := by
  cases n with
  | sumLoop | accumulator | defun | varying => cases h
  | _ => rfl

structure Graph where
  nodes : Set Node
  closed : ∀ n ∈ nodes, ∀ m ∈ n.children, m ∈ nodes

/-- Nodes with one id are one node. -/
def Graph.Shared (G : Graph) : Prop := ∀ m ∈ G.nodes, ∀ n ∈ G.nodes, m.id = n.id → m = n

theorem Graph.operand_mem (G : Graph) {n m : Node} (hp : n.isPlain) (hn : n ∈ G.nodes)
    (hm : m ∈ n.operands) : m ∈ G.nodes :=
  G.closed n hn m (Node.children_of_isPlain hp ▸ hm)

/-- The only part of a node. -/
theorem Graph.only_mem (G : Graph) {n m : Node} (hn : n ∈ G.nodes) (h : n.children = [m]) : m ∈ G.nodes :=
  G.closed n hn m (h ▸ List.mem_singleton_self m)

theorem Graph.loop_mem (G : Graph) {id : NodeId} {body count start : Node}
    (hn : .sumLoop id body count start ∈ G.nodes) : count ∈ G.nodes ∧ body ∈ G.nodes ∧ start ∈ G.nodes := by
  have h := G.closed _ hn
  exact ⟨h count (by simp [Node.children]), h body (by simp [Node.children]), h start (by simp [Node.children])⟩

def Graph.IsFunction (G : Graph) (r : String) : Prop := ∃ id body, Node.defun id r body ∈ G.nodes

def Graph.IsParameter (G : Graph) (r : String) : Prop :=
  ∃ id index type, Node.argument id r index type ∈ G.nodes

def Graph.ofList (ns : List Node) (h : ∀ n ∈ ns, ∀ m ∈ n.children, m ∈ ns) : Graph where
  nodes := { n | n ∈ ns }
  closed := h

theorem Graph.shared_ofList {ns : List Node} {h : ∀ n ∈ ns, ∀ m ∈ n.children, m ∈ ns}
    (hids : (ns.map Node.id).Nodup) : (Graph.ofList ns h).Shared :=
  fun _ hm _ hn hid => List.inj_on_of_nodup_map hids hm hn hid

end ShaderGraph
