import Mathlib.Data.List.Forall2
import ShaderGraph.Proofs.Evaluation

/-!
# Sessions that advance

What evaluation adds to lists and registries, and `Session.Advance`: what a step may do to a
session besides marking variables in its scope.
-/

namespace ShaderGraph

open List

/-! ## Lists without repetition -/

section
variable {α β : Type} [BEq α] {xs ys : List α} {a : α} {f : β → List α} {bs : List β}

theorem adjoin_cons (xs ys : List α) (y : α) :
    adjoin xs (y :: ys) = adjoin (if xs.contains y then xs else xs ++ [y]) ys := rfl

theorem subset_adjoin (xs ys : List α) : xs ⊆ adjoin xs ys := by
  induction ys generalizing xs with
  | nil => exact List.Subset.refl _
  | cons y ys ih =>
    rw [adjoin_cons]
    refine List.Subset.trans ?_ (ih _)
    split
    · exact List.Subset.refl _
    · exact subset_append_left ..

theorem mem_adjoin (h : a ∈ adjoin xs ys) : a ∈ xs ∨ a ∈ ys := by
  induction ys generalizing xs with
  | nil => exact .inl h
  | cons y ys ih =>
    rw [adjoin_cons] at h
    have h := ih h
    split at h
    · exact h.imp_right (mem_cons_of_mem _)
    · rcases h with h | h
      · rcases mem_append.mp h with h | h
        · exact .inl h
        · exact .inr (mem_singleton.mp h ▸ mem_cons_self)
      · exact .inr (mem_cons_of_mem _ h)

/-- With a lawful equality nothing is left out. -/
theorem mem_adjoin_iff [LawfulBEq α] : a ∈ adjoin xs ys ↔ a ∈ xs ∨ a ∈ ys := by
  refine ⟨mem_adjoin, ?_⟩
  induction ys generalizing xs with
  | nil => simp [adjoin]
  | cons y ys ih =>
    rintro (h | h)
    · exact subset_adjoin _ _ h
    · rcases mem_cons.mp h with rfl | h
      · rw [adjoin_cons]
        refine ih (.inl ?_)
        split
        · next hc => simpa using hc
        · simp
      · exact ih (.inr h)

theorem mem_foldl_adjoin (h : a ∈ bs.foldl (fun acc b => adjoin acc (f b)) xs) : a ∈ xs ∨ ∃ b ∈ bs, a ∈ f b := by
  induction bs generalizing xs with
  | nil => exact .inl h
  | cons b bs ih =>
    rcases ih h with h | ⟨d, hd, ha⟩
    · exact (mem_adjoin h).imp_right fun ha => ⟨b, mem_cons_self, ha⟩
    · exact .inr ⟨d, mem_cons_of_mem _ hd, ha⟩

theorem mem_adjoin_foldl (h : a ∈ adjoin (bs.foldl (fun acc b => adjoin acc (f b)) []) ys) :
    (∃ b ∈ bs, a ∈ f b) ∨ a ∈ ys :=
  (mem_adjoin h).imp_left fun h => (mem_foldl_adjoin h).resolve_left not_mem_nil

theorem mem_foldl_adjoin_iff [LawfulBEq α] :
    a ∈ bs.foldl (fun acc b => adjoin acc (f b)) xs ↔ a ∈ xs ∨ ∃ b ∈ bs, a ∈ f b := by
  induction bs generalizing xs with
  | nil => simp
  | cons b bs ih => simp [ih, mem_adjoin_iff, or_assoc]

theorem mem_adjoin_foldl_iff [LawfulBEq α] :
    a ∈ adjoin (bs.foldl (fun acc b => adjoin acc (f b)) []) ys ↔ (∃ b ∈ bs, a ∈ f b) ∨ a ∈ ys := by
  rw [mem_adjoin_iff, mem_foldl_adjoin_iff, or_iff_right not_mem_nil]

end

/-! ## Lists that correspond -/

section
variable {α β : Type*} {γ δ : Type} {R : α → β → Prop} {xs : List α} {ys : List β}

theorem map_eq_of_forall₂ (h : Forall₂ R xs ys) {f : α → γ} {k : β → γ} (hf : ∀ {x y}, R x y → f x = k y) :
    xs.map f = ys.map k := by
  induction h with
  | nil => rfl
  | cons hxy _ ih => rw [map_cons, map_cons, hf hxy, ih]

theorem exists_of_forall₂_left (h : Forall₂ R xs ys) {x : α} (hx : x ∈ xs) : ∃ y ∈ ys, R x y := by
  induction h with
  | nil => cases hx
  | cons hr _ ih =>
    rcases mem_cons.mp hx with rfl | hx
    · exact ⟨_, mem_cons_self, hr⟩
    · obtain ⟨y, hy, hr⟩ := ih hx
      exact ⟨y, mem_cons_of_mem _ hy, hr⟩

theorem exists_of_forall₂_right (h : Forall₂ R xs ys) {y : β} (hy : y ∈ ys) : ∃ x ∈ xs, R x y :=
  exists_of_forall₂_left h.flip hy

theorem forall₂_getLast? (h : Forall₂ R xs ys) : Option.Rel R xs.getLast? ys.getLast? := by
  induction h with
  | nil => exact .none
  | cons hxy hrest ih =>
    cases hrest with
    | nil => exact .some hxy
    | cons _ _ =>
      rw [getLast?_cons_cons, getLast?_cons_cons]
      exact ih

theorem forall₂_concat {x : α} (h : Forall₂ R (xs ++ [x]) ys) :
    ∃ ys' y, ys = ys' ++ [y] ∧ Forall₂ R xs ys' ∧ R x y := by
  induction xs generalizing ys with
  | nil =>
    rcases h with _ | ⟨hxy, _ | _⟩
    exact ⟨[], _, rfl, .nil, hxy⟩
  | cons a xs ih =>
    rcases h with _ | ⟨hab, h⟩
    obtain ⟨ys', y, rfl, hrest, hxy⟩ := ih h
    exact ⟨_ :: ys', y, rfl, .cons hab hrest, hxy⟩

theorem forall₂_dropLast (h : Forall₂ R xs ys) : Forall₂ R xs.dropLast ys.dropLast := by
  induction h with
  | nil => exact .nil
  | cons hxy hrest ih =>
    cases hrest with
    | nil => exact .nil
    | cons _ _ => exact .cons hxy ih

variable [BEq γ] [BEq δ] {f : α → List γ}

theorem gathered_eq_of_forall₂ {k : β → List γ} (h : Forall₂ R xs ys) (hf : ∀ {x y}, R x y → f x = k y)
    (acc : List γ) : xs.foldl (fun acc x => adjoin acc (f x)) acc = ys.foldl (fun acc y => adjoin acc (k y)) acc := by
  induction h generalizing acc with
  | nil => rfl
  | cons hxy _ ih => rw [foldl_cons, foldl_cons, hf hxy, ih]

variable {S : γ → δ → Prop} {as as' : List γ} {bs bs' : List δ}
  (hS : ∀ {a b a' b'}, S a b → S a' b' → (a == a') = (b == b'))
include hS

theorem contains_of_forall₂ (h : Forall₂ S as bs) {a : γ} {b : δ} (hab : S a b) :
    as.contains a = bs.contains b := by
  induction h with
  | nil => rfl
  | cons hxy _ ih => rw [contains_cons, contains_cons, hS hab hxy, ih]

theorem forall₂_adjoin (h : Forall₂ S as bs) (h' : Forall₂ S as' bs') :
    Forall₂ S (adjoin as as') (adjoin bs bs') := by
  induction h' generalizing as bs with
  | nil => exact h
  | cons hab _ ih =>
    rw [adjoin_cons, adjoin_cons, contains_of_forall₂ hS h hab]
    apply ih
    split
    · exact h
    · exact rel_append h (.cons hab .nil)

theorem forall₂_gathered {k : β → List δ} (h : Forall₂ R xs ys) (hf : ∀ {x y}, R x y → Forall₂ S (f x) (k y))
    (has : Forall₂ S as bs) :
    Forall₂ S (xs.foldl (fun acc x => adjoin acc (f x)) as) (ys.foldl (fun acc y => adjoin acc (k y)) bs) := by
  induction h generalizing as bs with
  | nil => exact has
  | cons hxy _ ih => exact ih (forall₂_adjoin hS has (hf hxy))

end

/-! ## Registries -/

/-- A registry with more in it. -/
structure Registry.Grows (r r' : Registry) : Prop where
  uniforms : r.uniforms ⊆ r'.uniforms
  attributes : r.attributes ⊆ r'.attributes
  varyings : r.varyings <+: r'.varyings
  errors : r.errors <+: r'.errors

namespace Registry.Grows

theorem refl (r : Registry) : r.Grows r :=
  ⟨List.Subset.refl _, List.Subset.refl _, prefix_refl _, prefix_refl _⟩

theorem trans {r r' r'' : Registry} (h : r.Grows r') (h' : r'.Grows r'') : r.Grows r'' :=
  ⟨List.Subset.trans h.uniforms h'.uniforms, List.Subset.trans h.attributes h'.attributes,
    h.varyings.trans h'.varyings, h.errors.trans h'.errors⟩

theorem errors_nil {r r' : Registry} (h : r.Grows r') (he : r'.errors = []) : r.errors = [] := by
  have := h.errors
  rw [he, prefix_nil] at this
  exact this

end Registry.Grows

namespace Registry
variable (r : Registry) (us : List Uniform)

theorem grows_addUniform (u : Uniform) : r.Grows (r.addUniform u) :=
  ⟨subset_adjoin .., List.Subset.refl _, prefix_refl _, prefix_refl _⟩

theorem grows_addUniforms : r.Grows (r.addUniforms us) := by
  induction us generalizing r with
  | nil => exact .refl r
  | cons u us ih => exact (r.grows_addUniform u).trans (ih _)

theorem subset_addUniforms : us ⊆ (r.addUniforms us).uniforms := by
  induction us generalizing r with
  | nil => exact nil_subset _
  | cons u us ih =>
    refine cons_subset.mpr ⟨?_, ih _⟩
    exact ((r.addUniform u).grows_addUniforms us).uniforms (mem_adjoin_iff.mpr (.inr (by simp)))

theorem addUniforms_errors : (r.addUniforms us).errors = r.errors := by
  induction us generalizing r with
  | nil => rfl
  | cons u us ih => exact ih (r.addUniform u)

theorem grows_addErrors (es : List GraphError) : r.Grows (r.addErrors es) :=
  ⟨List.Subset.refl _, List.Subset.refl _, prefix_refl _, prefix_append ..⟩

theorem grows_addAttribute (a : Attribute) : r.Grows (r.addAttribute a) :=
  ⟨List.Subset.refl _, subset_adjoin .., prefix_refl _, prefix_refl _⟩

theorem grows_addVarying (v : VaryingDef) : r.Grows (r.addVarying v) := by
  unfold addVarying
  split
  · exact .refl r
  · exact ⟨List.Subset.refl _, List.Subset.refl _, prefix_append .., prefix_refl _⟩

theorem addUniforms_varyings : (r.addUniforms us).varyings = r.varyings := by
  induction us generalizing r with
  | nil => rfl
  | cons u us ih => exact ih (r.addUniform u)

end Registry

namespace Session
variable (s : Session) (c : Scope) (stage : Stage) (f : Registry → Registry) (es : List GraphError)

@[simp] theorem registry_update_self : (s.updateRegistry stage f).registry stage = f (s.registry stage) := by
  cases stage <;> rfl

theorem useUniforms_errors (us : List Uniform) (o : Stage) :
    ((s.updateRegistry stage (·.addUniforms us)).registry o).errors = (s.registry o).errors := by
  have hadd (r : Registry) := r.addUniforms_errors us
  cases stage <;> cases o <;> simp [updateRegistry, registry, hadd]

theorem updateRegistry_same :
    (s.updateRegistry stage f).counter = s.counter ∧ (s.updateRegistry stage f).nextScope = s.nextScope ∧
      (s.updateRegistry stage f).memo = s.memo ∧ (s.updateRegistry stage f).functions = s.functions ∧
      (s.updateRegistry stage f).emitted = s.emitted := by
  cases stage <;> exact ⟨rfl, rfl, rfl, rfl, rfl⟩

@[simp] theorem registry_mark (vs : List String) (stage : Stage) :
    (s.mark c vs).registry stage = s.registry stage := by
  cases stage <;> rfl

@[simp] theorem registry_bump : s.bump.registry stage = s.registry stage := by
  cases stage <;> rfl

@[simp] theorem registry_remember (id : NodeId) (g : Generated) (stage : Stage) :
    (s.remember c id g).registry stage = s.registry stage := by
  cases stage <;> rfl

/-! ## Reports -/

@[simp] theorem report_nil : s.report c [] = s := by
  cases hc : c.stage <;> simp [report, updateRegistry, hc, Registry.addErrors]

@[simp] theorem report_report (fs : List GraphError) : (s.report c es).report c fs = s.report c (es ++ fs) := by
  cases hc : c.stage <;> simp [report, updateRegistry, hc, Registry.addErrors]

@[simp] theorem report_bump : s.bump.report c es = (s.report c es).bump := by
  cases hc : c.stage <;> simp [report, updateRegistry, hc, bump]

@[simp] theorem report_counter : (s.report c es).counter = s.counter := by
  cases hc : c.stage <;> simp [report, updateRegistry, hc]

@[simp] theorem report_folding : (s.report c es).folding = s.folding := by
  cases hc : c.stage <;> simp [report, updateRegistry, hc]

@[simp] theorem bump_folding : s.bump.folding = s.folding := rfl

end Session

/-! ## Steps -/

/-- The session with a function in its table. -/
abbrev Session.define (s : Session) (id : NodeId) (f : Function) : Session :=
  { s with functions := (id, f) :: s.functions }

/-- What a step may do to a session besides marking variables in its scope: take numbers and
ids, and add to the registries. -/
structure Session.Advance (c : Scope) (vs : List String) (s s' : Session) : Prop where
  counter : s.counter ≤ s'.counter
  nextScope : s'.nextScope = s.nextScope
  folding : s'.folding = s.folding
  memo : s'.memo = s.memo
  functions : s'.functions = s.functions
  emitted : s'.emitted = (vs.filter (· ≠ "")).map (c.id, ·) ++ s.emitted
  varyings : ∀ stage, (s'.registry stage).varyings = (s.registry stage).varyings
  registry : ∀ stage, (s.registry stage).Grows (s'.registry stage)

namespace Session.Advance

section
variable (c : Scope) (s : Session)

theorem refl : s.Advance c [] s :=
  ⟨Nat.le_refl _, rfl, rfl, rfl, rfl, rfl, fun _ => rfl, fun _ => .refl _⟩

theorem update (stage : Stage) {f : Registry → Registry}
    (hf : ∀ r : Registry, r.Grows (f r)) (hv : ∀ r, (f r).varyings = r.varyings) :
    s.Advance c [] (s.updateRegistry stage f) := by
  cases stage with
  | fragment =>
    exact ⟨Nat.le_refl _, rfl, rfl, rfl, rfl, rfl,
      fun | .fragment => hv _ | .vertex => rfl, fun | .fragment => hf _ | .vertex => .refl _⟩
  | vertex =>
    exact ⟨Nat.le_refl _, rfl, rfl, rfl, rfl, rfl,
      fun | .fragment => rfl | .vertex => hv _, fun | .fragment => .refl _ | .vertex => hf _⟩

theorem report (es : List GraphError) : s.Advance c [] (s.report c es) :=
  update c s c.stage (·.grows_addErrors es) fun _ => rfl

theorem useUniforms (stage : Stage) (us : List Uniform) :
    s.Advance c [] (s.updateRegistry stage (·.addUniforms us)) :=
  update c s stage (·.grows_addUniforms us) (·.addUniforms_varyings us)

theorem addAttribute (a : Attribute) : s.Advance c [] (s.updateRegistry c.stage (·.addAttribute a)) :=
  update c s c.stage (·.grows_addAttribute a) fun _ => rfl

theorem bump : s.Advance c [] s.bump :=
  ⟨Nat.le_succ _, rfl, rfl, rfl, rfl, rfl, fun o => by cases o <;> rfl,
    fun o => by cases o <;> exact .refl _⟩

theorem skipId (id : NodeId) : s.Advance c [] { s with nextId := id } :=
  ⟨Nat.le_refl _, rfl, rfl, rfl, rfl, rfl, fun o => by cases o <;> rfl,
    fun o => by cases o <;> exact .refl _⟩

theorem mark (vs : List String) : s.Advance c vs (s.mark c vs) :=
  ⟨Nat.le_refl _, rfl, rfl, rfl, rfl, rfl, fun o => by cases o <;> rfl,
    fun o => by cases o <;> exact .refl _⟩

end

variable {c : Scope} {vs ws : List String} {s s1 s2 : Session}

theorem trans (h : s.Advance c vs s1) (h' : s1.Advance c ws s2) : s.Advance c (ws ++ vs) s2 where
  counter := Nat.le_trans h.counter h'.counter
  nextScope := h'.nextScope.trans h.nextScope
  folding := h'.folding.trans h.folding
  memo := h'.memo.trans h.memo
  functions := h'.functions.trans h.functions
  emitted := by rw [h'.emitted, h.emitted]; simp
  varyings stage := (h'.varyings stage).trans (h.varyings stage)
  registry stage := (h.registry stage).trans (h'.registry stage)

theorem thenMark (h : s.Advance c [] s1) (vs : List String) : s.Advance c vs (s1.mark c vs) := by
  simpa using h.trans (mark c s1 vs)

theorem define {id : NodeId} {f : Function} (h : s.Advance c vs s1) :
    (s.define id f).Advance c vs (s1.define id f) :=
  ⟨h.counter, h.nextScope, h.folding, h.memo, congrArg (cons _) h.functions, h.emitted, h.varyings, h.registry⟩

end Session.Advance

/-- Registries with the same uniforms and textures. -/
def Registry.SameStock (r r' : Registry) : Prop := r'.uniforms = r.uniforms ∧ r'.textures = r.textures

theorem Registry.SameStock.trans {r r' r'' : Registry} (h : r.SameStock r') (h' : r'.SameStock r'') :
    r.SameStock r'' :=
  ⟨h'.1.trans h.1, h'.2.trans h.2⟩

/-- A step that registers no resources and takes `k` numbers. -/
structure Session.Writes (c : Scope) (vs : List String) (k : Nat) (s s' : Session) : Prop
    extends s.Advance c vs s' where
  taken : s'.counter = s.counter + k
  stock : ∀ stage, (s.registry stage).SameStock (s'.registry stage)

namespace Session.Writes

variable {c : Scope} {vs ws : List String} {j k : Nat} {s s1 s2 : Session}

theorem refl (c : Scope) (s : Session) : s.Writes c [] 0 s := ⟨.refl c s, rfl, fun _ => ⟨rfl, rfl⟩⟩

theorem trans (h : s.Writes c vs j s1) (h' : s1.Writes c ws k s2) : s.Writes c (ws ++ vs) (j + k) s2 where
  toAdvance := h.toAdvance.trans h'.toAdvance
  taken := by rw [h'.taken, h.taken, Nat.add_assoc]
  stock stage := (h.stock stage).trans (h'.stock stage)

theorem report (c : Scope) (s : Session) (es : List GraphError) : s.Writes c [] 0 (s.report c es) where
  toAdvance := .report c s es
  taken := s.report_counter c es
  stock o := by
    unfold Session.report
    cases c.stage <;> cases o <;> exact ⟨rfl, rfl⟩

theorem bump (c : Scope) (s : Session) : s.Writes c [] 1 s.bump :=
  ⟨.bump c s, rfl, fun o => by cases o <;> exact ⟨rfl, rfl⟩⟩

theorem skipId (c : Scope) (s : Session) (id : NodeId) : s.Writes c [] 0 { s with nextId := id } :=
  ⟨.skipId c s id, rfl, fun o => by cases o <;> exact ⟨rfl, rfl⟩⟩

theorem thenMark (h : s.Writes c [] k s1) (vs : List String) : s.Writes c vs k (s1.mark c vs) where
  toAdvance := h.toAdvance.thenMark vs
  taken := h.taken
  stock o := s1.registry_mark c vs o ▸ h.stock o

end Session.Writes

end ShaderGraph
