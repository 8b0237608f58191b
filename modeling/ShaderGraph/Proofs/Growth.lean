import ShaderGraph.Proofs.Judgements

/-!
# Growth of sessions

Evaluation only ever adds to a session.
-/

namespace ShaderGraph

open Eval List

variable {s s' : Session} {c : Scope} {v : String} {vs : List String} {id : NodeId} {g r body : Generated}
  {n start m : Node} {gs : List Generated} {M : Judgement} {ns : List Node} {t : Trace}
  {bind : Generated → Step.Binding}

/-! ## Growth -/

/-- A session with more in it. -/
structure Session.Grows (s s' : Session) : Prop where
  counter : s.counter ≤ s'.counter
  nextScope : s.nextScope ≤ s'.nextScope
  folding : s'.folding = s.folding
  memo : s.memo <:+ s'.memo
  functions : s.functions <:+ s'.functions
  emitted : s.emitted <:+ s'.emitted
  registry : ∀ stage, (s.registry stage).Grows (s'.registry stage)

namespace Session.Grows

variable {s1 s2 : Session}

theorem refl (s : Session) : s.Grows s :=
  ⟨Nat.le_refl _, Nat.le_refl _, rfl, suffix_refl _, suffix_refl _, suffix_refl _,
    fun _ => .refl _⟩

theorem trans (h : s.Grows s1) (h' : s1.Grows s2) : s.Grows s2 where
  counter := Nat.le_trans h.counter h'.counter
  nextScope := Nat.le_trans h.nextScope h'.nextScope
  folding := h'.folding.trans h.folding
  memo := h.memo.trans h'.memo
  functions := h.functions.trans h'.functions
  emitted := h.emitted.trans h'.emitted
  registry stage := (h.registry stage).trans (h'.registry stage)

theorem advance (h : s.Advance c vs s1) : s.Grows s1 where
  counter := h.counter
  nextScope := h.nextScope ▸ Nat.le_refl _
  folding := h.folding
  memo := h.memo ▸ suffix_refl _
  functions := h.functions ▸ suffix_refl _
  emitted := h.emitted ▸ suffix_append ..
  registry := h.registry

theorem remember (s : Session) (c : Scope) (id : NodeId) (g : Generated) :
    s.Grows (s.remember c id g) :=
  { refl s with
    memo := suffix_cons ..
    registry := fun | .fragment => .refl _ | .vertex => .refl _ }

theorem openScope (s : Session) : s.Grows s.openScope :=
  { refl s with
    nextScope := Nat.le_succ _
    registry := fun | .fragment => .refl _ | .vertex => .refl _ }

theorem define (s : Session) (id : NodeId) (f : Function) :
    s.Grows { s with functions := (id, f) :: s.functions } :=
  { refl s with
    functions := suffix_cons ..
    registry := fun | .fragment => .refl _ | .vertex => .refl _ }

theorem addVarying (s : Session) (stage : Stage) (v : VaryingDef) :
    s.Grows (s.updateRegistry stage (·.addVarying v)) := by
  cases stage with
  | fragment =>
    exact { refl s with registry := fun | .fragment => s.fragment.grows_addVarying v | .vertex => .refl _ }
  | vertex =>
    exact { refl s with registry := fun | .fragment => .refl _ | .vertex => s.vertex.grows_addVarying v }

end Session.Grows

theorem Session.Advance.grows (h : s.Advance c vs s') : s.Grows s' := .advance h

/-! ## Marks -/

/-- The scopes that an evaluation can touch: its own, new ones, and the vertex stage if it passes
on varyings. -/
def Touched (c : Scope) (s s' : Session) (id : ScopeId) : Prop :=
  id = c.id ∨ s.nextScope ≤ id ∧ id < s'.nextScope ∨ id = Scope.vertexMain.id ∧ c.Paired

section
variable {s1 s2 : Session} {i : ScopeId}

theorem Touched.after (h : Touched c s s1 i) (hg : s1.Grows s2) : Touched c s s2 i :=
  h.imp_right fun h => h.imp_left fun ⟨h, h'⟩ => ⟨h, Nat.lt_of_lt_of_le h' hg.nextScope⟩

theorem Touched.before (h : Touched c s1 s2 i) (hg : s.Grows s1) : Touched c s s2 i :=
  h.imp_right fun h => h.imp_left fun ⟨h, h'⟩ => ⟨Nat.le_trans hg.nextScope h, h'⟩

/-- The scope of a body is new. -/
theorem Touched.inner {d : Scope} (h : Touched d s.openScope s1 i) (hg : s.openScope.Grows s1)
    (hd : d.id = s.nextScope) (hp : d.Paired → c.Paired) : Touched c s s1 i := by
  rcases h with hi | ⟨hle, hlt⟩ | ⟨hi, hpaired⟩
  · exact .inr (.inl ⟨Nat.le_of_eq (hi.trans hd).symm, hi ▸ hd ▸ hg.nextScope⟩)
  · exact .inr (.inl ⟨Nat.le_of_succ_le hle, hlt⟩)
  · exact .inr (.inr ⟨hi, hp hpaired⟩)

theorem Touched.vertex (h : Touched .vertexMain s s1 i) (hc : c.Paired) : Touched c s s1 i := by
  rcases h with hi | hi | ⟨-, hp, -⟩
  · exact .inr (.inr ⟨hi, hc⟩)
  · exact .inr (.inl hi)
  · cases hp

end

/-- A session with more in it, and marks only in the scopes that an evaluation can touch. -/
structure Session.Spreads (c : Scope) (s s' : Session) : Prop extends s.Grows s' where
  marks : ∀ p ∈ s'.emitted, p ∈ s.emitted ∨ Touched c s s' p.1

namespace Session.Spreads

variable {s1 s2 : Session}

theorem advance (h : s.Advance c vs s1) : s.Spreads c s1 :=
  ⟨.advance h, fun _ hp => (h.of_mem_emitted hp).imp_right fun h => .inl h.1⟩

theorem trans (h : s.Spreads c s1) (h' : s1.Spreads c s2) : s.Spreads c s2 where
  toGrows := h.toGrows.trans h'.toGrows
  marks p hp := by
    rcases h'.marks p hp with hp | hp
    · exact (h.marks p hp).imp_right (·.after h'.toGrows)
    · exact .inr (hp.before h.toGrows)

theorem quiet (h : s.Grows s1) (he : s1.emitted = s.emitted) : s.Spreads c s1 :=
  ⟨h, fun _ hp => .inl (he ▸ hp)⟩

theorem inner {d : Scope} (h : s.openScope.Spreads d s1) (hd : d.id = s.nextScope) (hp : d.Paired → c.Paired) :
    s.Spreads c s1 :=
  ⟨(Grows.openScope s).trans h.toGrows, fun p hm => (h.marks p hm).imp_right (·.inner h.toGrows hd hp)⟩

theorem vertex (h : s.Spreads .vertexMain s1) (hc : c.Paired) : s.Spreads c s1 :=
  ⟨h.toGrows, fun p hm => (h.marks p hm).imp_right (·.vertex hc)⟩

end Session.Spreads

theorem Step.readVarying_grows (h : (readVarying c id g).run s = (r, s')) : s.Grows s' := by
  obtain ⟨s1, h1, -, rfl⟩ := readVarying_eq h
  exact h1.grows.trans (.addVarying s1 c.stage _)

theorem Step.readVarying_varyings (hc : c.stage = .fragment) (h : (readVarying c id g).run s = (r, s')) :
    s'.fragment.varyings = if s.hasVarying c.stage (varyingName id) then s.fragment.varyings
      else s.fragment.varyings ++ [varyingDef id g] := by
  obtain ⟨s1, h1, -, rfl⟩ := readVarying_eq h
  have hv := h1.varyings .fragment
  rw [hc]
  change (s1.fragment.addVarying (varyingDef id g)).varyings = _
  rw [Registry.addVarying, apply_ite Registry.varyings, show s1.fragment.varyings = _ from hv]
  rfl

theorem Step.readVarying_same (h : (readVarying c id g).run s = (r, s')) :
    s'.memo = s.memo ∧ s'.functions = s.functions ∧ r.code.stmts = [] := by
  obtain ⟨s1, h1, rfl, rfl⟩ := readVarying_eq h
  obtain ⟨-, -, hmemo, hfunctions, -⟩ := s1.updateRegistry_same c.stage (·.addVarying (varyingDef id g))
  exact ⟨hmemo.trans h1.memo, hfunctions.trans h1.functions, rfl⟩

theorem Step.mem_varyings_of_readVarying (hc : c.stage = .fragment) (h : (readVarying c id g).run s = (r, s'))
    {v : VaryingDef} (hv : v ∈ s'.fragment.varyings) : v ∈ s.fragment.varyings ∨ v = varyingDef id g := by
  rw [readVarying_varyings hc h] at hv
  split at hv
  · exact .inl hv
  · exact (mem_append.mp hv).imp_right mem_singleton.mp

namespace Outcome
variable (h : Outcome n c gs s g s')
include h

theorem writes : ∃ vs k, s.Writes c vs k s' := by
  cases h with
  | declared φ hφ hg hs => exact ⟨_, _, hs ▸ φ.writes c _ s⟩
  | broken hn hgs hg hs => exact ⟨_, _, hs ▸ Session.Writes.thenMark (.report c s _) _⟩
  | failed herr hg hs => exact ⟨_, _, hs⟩

theorem advance : ∃ vs, s.Advance c vs s' := by
  obtain ⟨vs, k, hw⟩ := h.writes
  exact ⟨vs, hw.toAdvance⟩

theorem grows : s.Grows s' := by
  obtain ⟨vs, ha⟩ := h.advance
  exact ha.grows

theorem varyings (stage : Stage) : (s'.registry stage).varyings = (s.registry stage).varyings := by
  obtain ⟨vs, ha⟩ := h.advance
  exact ha.varyings stage

end Outcome

theorem Threads.growing (h : Threads M c ns s gs s' t) (hM : ∀ {n s g s' t}, M n c s g s' t → s.Grows s') :
    s.Grows s' := by
  induction h with
  | nil => exact .refl _
  | cons h _ ih => exact (hM h).trans ih

theorem Threads.imp {N : Judgement} (h : Threads M c ns s gs s' t)
    (hMN : ∀ {n s g s' t}, M n c s g s' t → N n c s g s' t) : Threads N c ns s gs s' t := by
  induction h with
  | nil => exact .nil
  | cons hn _ ih => exact .cons (hMN hn) ih

/-- What evaluations give of their results stays, while what they need of the session is passed on. -/
theorem Threads.carry {P : Session → Prop} {Q : Session → Generated → Prop} (h : Threads M c ns s gs s' t)
    (hM : ∀ {n s g s' t}, M n c s g s' t → s.Grows s') (hQ : ∀ {s s' g}, s.Grows s' → Q s g → Q s' g)
    (hstep : ∀ n ∈ ns, ∀ {s g s' t}, M n c s g s' t → P s → Q s' g ∧ P s') (hs : P s) : (∀ g ∈ gs, Q s' g) ∧ P s' := by
  induction h with
  | nil => exact ⟨forall_mem_nil _, hs⟩
  | cons hn hrest ih =>
    obtain ⟨hfirst, hstep⟩ := forall_mem_cons.mp hstep
    obtain ⟨hg, hs1⟩ := hfirst hn hs
    obtain ⟨hgs, hs'⟩ := ih hstep hs1
    exact ⟨forall_mem_cons.mpr ⟨hQ (hrest.growing hM) hg, hgs⟩, hs'⟩

def grows : Judgement := fun _ _ s _ s' _ => s.Grows s'

namespace Opens
variable (h : Opens body start s m s' bind)
include h

theorem grows : s.Grows s' := by
  cases h with
  | accumulated | parameter => exact .refl s
  | own => exact .advance (.bump .vertexMain s)

theorem varyings : s'.fragment.varyings = s.fragment.varyings := by
  cases h <;> rfl

theorem memo : s'.memo = s.memo := by
  cases h <;> rfl

theorem functions : s'.functions = s.functions := by
  cases h <;> rfl

theorem captured (gm : Generated) :
    (∀ a ∈ (bind gm).arguments, a ∈ body.arguments) ∧ ∀ a ∈ (bind gm).accumulators, a ∈ body.accumulators := by
  cases h with
  | accumulated h => exact ⟨fun _ h => h, fun b hb => h ▸ mem_cons_of_mem _ hb⟩
  | parameter => exact ⟨fun b hb => (mem_filter.mp hb).1, forall_mem_nil _⟩
  | own => exact ⟨forall_mem_nil _, forall_mem_nil _⟩

end Opens

def spreads : Judgement := fun _ c s _ s' _ => s.Spreads c s'

theorem Threads.spreading (h : Threads M c ns s gs s' t) (hM : ∀ {n s g s' t}, M n c s g s' t → s.Spreads c s') :
    s.Spreads c s' := by
  induction h with
  | nil => exact .quiet (.refl _) rfl
  | cons h _ ih => exact (hM h).trans ih

theorem spreads_rules : Rules .trivial spreads where
  immediate _ _ _ _ ha _ := .advance ha
  reuse _ _ _ ha _ := .advance ha
  compute _ _ ht _ ho _ := by
    have h1 := ht.spreading And.right
    obtain ⟨vs, h2⟩ := ho.advance
    exact (h1.trans (.advance h2)).trans (.quiet (.remember _ _ _ _) rfl)
  loop _ hc _ ha2 hb ho hm _ _ ha6 _ := by
    have h3 := (hc.2.trans (.advance ha2)).trans (hb.2.inner rfl fun h => h)
    have h4 := h3.trans (.quiet ho.grows (by cases ho <;> rfl))
    exact ((h4.trans hm.2).trans (.advance ha6)).trans (.quiet (.remember _ _ _ _) rfl)
  accumulator _ _ _ _ ha _ hs _ := by
    subst hs
    have h2 := Session.Spreads.advance (ha.trans (.bump _ _))
    exact (h2.trans (.advance (Form.advance _ _ _ _))).trans (.quiet (.remember _ _ _ _) rfl)
  knownFunction _ _ _ ha _ := .advance ha
  newFunction _ hb _ _ _ _ ha _ := by
    refine .trans (.trans (hb.2.inner rfl fun h => h) ?_) (.advance ha)
    exact .quiet (.define _ _ _) rfl
  varying hp hn hr _ := by
    obtain ⟨s3, h3, -, rfl⟩ := Step.readVarying_eq hr
    obtain ⟨-, -, -, -, he⟩ := s3.updateRegistry_same _ (·.addVarying _)
    exact ((hn.2.vertex hp).trans (.advance h3)).trans (.quiet (.addVarying s3 _ _) he)
  strayVarying _ hn _ := (Session.Spreads.advance (.report _ _ _)).trans hn.2
  exhausted hr _ := by
    cases hr
    exact .advance (.report _ _ _)

theorem spreads_everywhere : spreads.Everywhere := spreads_rules.everywhere Judgement.everywhere_trivial

theorem grows_everywhere : grows.Everywhere := spreads_everywhere.mono (·.toGrows)

theorem spreads_of_generate (hr : (n.generate c).run s = (g, s')) : s.Spreads c s' := by
  have h := spreads_everywhere.eval n.id n c s
  change s.Spreads c ((n.generate c).run s).2 at h
  rwa [hr] at h

theorem grows_of_generate (hr : (n.generate c).run s = (g, s')) : s.Grows s' := (spreads_of_generate hr).toGrows

end ShaderGraph
