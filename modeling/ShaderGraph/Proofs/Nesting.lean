import ShaderGraph.Proofs.Growth

/-!
# Nested scopes

Evaluation in the body of a loop or function declares nothing in the scopes around it.
-/

namespace ShaderGraph

open List

variable {s s' : Session}

/-- A scope and the scopes around it, the innermost first. Inner scopes are opened later. -/
inductive Scope.Nested : Scope → List Scope → Prop where
  | main (stage : Stage) : Nested (.main stage) []
  | lone (stage : Stage) : Nested (.lone stage) []
  | loopBody {c : Scope} {outer : List Scope} {id : ScopeId} (hc : c.Nested outer)
      (hid : ∀ e ∈ c :: outer, e.id < id) : Nested (c.loopBody id) (c :: outer)
  | functionBody {c : Scope} {outer : List Scope} {id : ScopeId} (hc : c.Nested outer)
      (hid : ∀ e ∈ c :: outer, e.id < id) : Nested (c.functionBody id) (c :: outer)

namespace Scope.Nested

variable {c d e : Scope} {outer : List Scope}

theorem visible (h : c.Nested outer) {i : ScopeId} (hi : i ∈ c.visible) : ∃ e ∈ c :: outer, e.id = i := by
  induction h with
  | main stage => cases stage <;> exact ⟨_, mem_cons_self, (mem_singleton.mp hi).symm⟩
  | lone => exact ⟨_, mem_cons_self, (mem_singleton.mp hi).symm⟩
  | loopBody _ _ ih =>
    rcases mem_cons.mp hi with rfl | hi
    · exact ⟨_, mem_cons_self, rfl⟩
    · obtain ⟨e, he, hid⟩ := ih hi
      exact ⟨e, mem_cons_of_mem _ he, hid⟩
  | functionBody => exact ⟨_, mem_cons_self, (mem_singleton.mp hi).symm⟩

/-- The vertex stage is around no scope of a fragment stage. -/
theorem apart (h : c.Nested outer) (hp : c.Paired) : ∀ e ∈ c :: outer, e.id ≠ Scope.vertexMain.id := by
  induction h with
  | main stage =>
    cases stage with
    | vertex => cases hp.1
    | fragment => exact forall_mem_singleton.mpr (by decide)
  | lone => cases hp.2
  | loopBody _ hid ih | functionBody _ hid ih =>
    exact forall_mem_cons.mpr ⟨Nat.ne_of_gt (Nat.lt_of_le_of_lt (Nat.zero_le _) (hid _ mem_cons_self)), ih hp⟩

theorem lt (h : d.Nested outer) (he : e ∈ outer) : e.id < d.id := by
  cases h with
  | main | lone => cases he
  | loopBody _ hid | functionBody _ hid => exact hid e he

theorem parent (h : d.Nested (c :: outer)) : c.Nested outer := by
  cases h with
  | loopBody hc | functionBody hc => exact hc

end Scope.Nested

/-- Evaluation in a scope leaves what is declared in the scopes around it. -/
theorem Session.Spreads.outer_marks {d e : Scope} {outer : List Scope} (h : s.Spreads d s') (hd : d.Nested outer)
    (hs : d.id < s.nextScope) (he : e ∈ outer) (v : String) : (e.id, v) ∈ s'.emitted ↔ (e.id, v) ∈ s.emitted := by
  have hlt := hd.lt he
  refine ⟨fun hv => (h.marks _ hv).resolve_right fun ht => ?_, fun hv => h.emitted.subset hv⟩
  rcases ht with ht | ⟨hle, -⟩ | ⟨ht, hp⟩
  · exact absurd ht (Nat.ne_of_lt hlt)
  · exact absurd (Nat.lt_of_le_of_lt hle hlt) (Nat.lt_asymm hs)
  · exact hd.apart hp e (mem_cons_of_mem _ he) ht

/-- Evaluation in the body of a loop or function leaves the sets of what is declared in the scope `c` that it
stands in and in those around it, and so all that `c` sees. What the body of a function sees depends on none
of these sets. -/
theorem nested_generate_outer {c d : Scope} {outer : List Scope} (hd : d.Nested (c :: outer)) (n : Node)
    {s s' : Session} {g : Generated} (hs : d.id < s.nextScope) (hr : (n.generate d).run s = (g, s')) :
    (∀ e ∈ c :: outer, ∀ v, (e.id, v) ∈ s'.emitted ↔ (e.id, v) ∈ s.emitted) ∧
    (∀ v, s'.isEmitted c v ↔ s.isEmitted c v) ∧
    (d = c.functionBody d.id → ∀ (t u : Session) (v : String),
      (∀ p, p.1 ∉ (c :: outer).map Scope.id → (p ∈ t.emitted ↔ p ∈ u.emitted)) →
      (t.isEmitted d v ↔ u.isEmitted d v)) := by
  have hmarks (e : Scope) (he : e ∈ c :: outer) := (spreads_of_generate hr).outer_marks hd hs he
  refine ⟨hmarks, fun v => ?_, fun hbody t u v htu => ?_⟩
  · simp only [Session.isEmitted_iff]
    refine exists_congr fun i => and_congr_right fun hi => ?_
    obtain ⟨e, he, rfl⟩ := hd.parent.visible hi
    exact hmarks e he v
  · have hvisible : d.visible = [d.id] := by rw [hbody]; rfl
    have hself : d.id ∉ (c :: outer).map Scope.id := fun hm => by
      obtain ⟨e, he, hid⟩ := mem_map.mp hm
      exact absurd hid (Nat.ne_of_lt (hd.lt he))
    simpa [Session.isEmitted_iff, hvisible] using htu (d.id, v) hself

/-- A value of the vertex stage in the body of a function that is defined in a loop. -/
def passedSine : Node := .varying 4 (.builtin 3 .sin [.builtin 2 .sin [.float 1 0.5]])

/-- The body of a loop in the fragment stage. -/
def ringBody : Scope := Scope.fragmentMain.loopBody 2

/-- A session in which the loop declared `a` and the stage around it declared `b`. -/
def ringSession : Session := { nextId := 5, nextScope := 4, emitted := [(2, "a"), (1, "b")] }

/-- The vertex stage declares its sine, and the loop knows what it knew before. -/
theorem passedSine_outer : ∃ r, (passedSine.generate (ringBody.functionBody 3)).run ringSession = r ∧
    (0, "sinVal1") ∈ r.2.emitted ∧ (3, "varying4") ∈ r.2.emitted ∧
    ∀ v, r.2.isEmitted ringBody v ↔ v = "a" ∨ v = "b" := by
  have hloop : ringBody.Nested [.fragmentMain] := .loopBody (.main .fragment) (by decide)
  have hbody : (ringBody.functionBody 3).Nested [ringBody, .fragmentMain] := .functionBody hloop (by decide)
  refine ⟨_, rfl, by decide +kernel, by decide +kernel, fun v => ?_⟩
  rw [(nested_generate_outer hbody passedSine (by decide) (Prod.eta _).symm).2.1 v]
  simp [Session.isEmitted_iff, ringSession, ringBody, Scope.loopBody, Scope.fragmentMain]

end ShaderGraph
