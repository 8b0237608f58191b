import ShaderGraph.Proofs.Programs

/-!
# The order of functions

A stage writes each function once, after the functions that it calls. Functions are told apart by
their ids, so what is said here of a list of functions is said of their ids.
-/

namespace ShaderGraph

open List

/-! ## Lists of functions by id -/

theorem map_adjoin {α β : Type} [BEq α] [BEq β] (key : α → β)
    (h : ∀ a b : α, (a == b) = (key a == key b)) (xs ys : List α) :
    (adjoin xs ys).map key = adjoin (xs.map key) (ys.map key) := by
  induction ys generalizing xs with
  | nil => rfl
  | cons y ys ih =>
    have hcontains : (xs.map key).contains (key y) = xs.contains y := by
      induction xs with
      | nil => rfl
      | cons x xs ihx => simp only [map_cons, contains_cons, h, ihx]
    rw [adjoin_cons, ih, map_cons, adjoin_cons, hcontains]
    split <;> simp

namespace Function

def ids (fs : List Function) : List NodeId := fs.map (·.id)

theorem contains_iff {fs : List Function} {f : Function} : fs.contains f ↔ f.id ∈ ids fs := by
  induction fs with
  | nil => simp [ids]
  | cons g fs ih =>
    have hbeq : (f == g) = (f.id == g.id) := rfl
    rw [contains_cons, Bool.or_eq_true, ih, hbeq, beq_iff_eq]
    exact mem_cons.symm

theorem ids_adjoin (fs gs : List Function) : ids (adjoin fs gs) = adjoin (ids fs) (ids gs) :=
  map_adjoin (fun f : Function => f.id) (fun _ _ => rfl) fs gs

theorem mem_ids_adjoin {fs gs : List Function} {i : NodeId} :
    i ∈ ids (adjoin fs gs) ↔ i ∈ ids fs ∨ i ∈ ids gs := by
  rw [ids_adjoin, mem_adjoin_iff]

theorem mem_ids_foldl {α : Type} {l : α → List Function} {xs : List α} {acc : List Function} {i : NodeId} :
    i ∈ ids (xs.foldl (fun acc x => adjoin acc (l x)) acc) ↔ i ∈ ids acc ∨ ∃ x ∈ xs, i ∈ ids (l x) := by
  induction xs generalizing acc with
  | nil => simp
  | cons x xs ih => simp [ih, mem_ids_adjoin, or_assoc]

/-- Each function is listed once, and after those that it calls. -/
structure Ordered (fs : List Function) : Prop where
  nodup : (ids fs).Nodup
  callees : ∀ {before after : List Function} {f : Function}, fs = before ++ f :: after →
    ∀ k ∈ f.functions, k.id ∈ ids before

theorem ordered_nil : Ordered [] := ⟨nodup_nil, fun h => by simp at h⟩

theorem Ordered.concat {fs : List Function} (h : Ordered fs) {f : Function} (hf : f.id ∉ ids fs)
    (hcallees : ∀ k ∈ f.functions, k.id ∈ ids fs) : Ordered (fs ++ [f]) where
  nodup := by
    rw [ids, map_append, nodup_append]
    refine ⟨h.nodup, by simp, ?_⟩
    rintro i hi _ hj rfl
    rw [map_singleton, mem_singleton] at hj
    exact hf (hj ▸ hi)
  callees := by
    intro before after g hsplit
    rcases eq_nil_or_concat after with rfl | ⟨after, a, rfl⟩
    · obtain ⟨rfl, hlast⟩ := append_inj' hsplit rfl
      cases hlast
      exact hcallees
    · have hsplit : fs ++ [f] = (before ++ g :: after) ++ [a] := by simpa using hsplit
      exact h.callees (append_inj' hsplit rfl).1

mutual

/-- A function is listed after the functions that it calls, and so are these. -/
theorem ordered_flatten {fs : List Function} (h : Ordered fs) : ∀ (f : Function),
    Ordered (flatten fs f) ∧ ids fs ⊆ ids (flatten fs f) ∧ ∀ k : Function, k.Below f → k.id ∈ ids (flatten fs f)
  | ⟨id, name, returns, params, body, result, uniforms, callees⟩ => by
    obtain ⟨hordered, hsubset, hbelow⟩ := ordered_flattenAll h callees
    unfold flatten
    generalize hf : (⟨id, name, returns, params, body, result, uniforms, callees⟩ : Function) = f
    have hcallees : f.functions = callees := by rw [← hf]
    have hfirst : ∀ k ∈ f.functions, k.id ∈ ids (flattenAll fs callees) := fun k hk =>
      hbelow k (hcallees ▸ hk) k .refl
    refine ⟨?_, fun i hi => mem_ids_adjoin.mpr (.inl (hsubset hi)), fun k hk => mem_ids_adjoin.mpr ?_⟩
    · by_cases hmem : f.id ∈ ids (flattenAll fs callees)
      · rw [show adjoin (flattenAll fs callees) [f] = flattenAll fs callees from
          if_pos (contains_iff.mpr hmem)]
        exact hordered
      · rw [show adjoin (flattenAll fs callees) [f] = flattenAll fs callees ++ [f] from
          if_neg fun h => hmem (contains_iff.mp h)]
        exact hordered.concat hmem hfirst
    · cases hk with
      | refl => exact .inr mem_cons_self
      | callee hm hk => exact .inl (hbelow _ (hcallees ▸ hm) k hk)

theorem ordered_flattenAll {fs : List Function} (h : Ordered fs) : ∀ (gs : List Function),
    Ordered (flattenAll fs gs) ∧ ids fs ⊆ ids (flattenAll fs gs) ∧
      ∀ g ∈ gs, ∀ k : Function, k.Below g → k.id ∈ ids (flattenAll fs gs)
  | [] => ⟨h, List.Subset.refl _, fun _ hg => by cases hg⟩
  | g :: gs => by
    obtain ⟨hfirst, hsub, hbelow⟩ := ordered_flatten h g
    obtain ⟨hrest, hsub', hbelow'⟩ := ordered_flattenAll hfirst gs
    exact ⟨hrest, List.Subset.trans hsub hsub',
      forall_mem_cons.mpr ⟨fun k hk => hsub' (hbelow k hk), hbelow'⟩⟩

end

end Function

end ShaderGraph
