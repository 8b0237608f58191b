import ShaderGraph.Proofs.Ledger
import ShaderGraph.Proofs.Programs

/-!
# Accounts of scopes

Code is closed when each statement reads only what is declared before. A scope takes over whole
results that were evaluated elsewhere, and then counts all that they list as declared, even what
their code leaves out; and it counts what a repeated varying declares, although that code is
dropped. `Trace.lost` lists the variables that are lost in this way. The accounts of a scope say
that the code it is given is closed but for them.
-/

namespace ShaderGraph

open Eval List

/-! ## Closed code -/

/-- Every name that a statement reads is in `P` or is declared by a statement before. -/
inductive ClosedUnder : (String → Prop) → List Stmt → Prop where
  | nil {P : String → Prop} : ClosedUnder P []
  | cons {P : String → Prop} {st : Stmt} {ss : List Stmt} (hst : ∀ r, .name r ∈ st.sources → P r)
      (hss : ClosedUnder (fun r => P r ∨ r ∈ st.declares) ss) : ClosedUnder P (st :: ss)

section
variable {P Q : String → Prop} {ss ts : List Stmt} {st : Stmt} {r : String}

theorem declares_cons : declares (st :: ss) = st.declares ++ declares ss := rfl

theorem ClosedUnder.imp (h : ClosedUnder P ss)
    (hPQ : ∀ r, .name r ∈ Stmt.allSources ss → P r → Q r) : ClosedUnder Q ss := by
  induction h generalizing Q with
  | nil => exact .nil
  | cons hst _ ih =>
    refine .cons (fun r hr => hPQ r (mem_append_left _ hr) (hst r hr)) (ih fun r hr hP => ?_)
    exact hP.imp_left (hPQ r (mem_append_right _ hr))

theorem ClosedUnder.reads (h : ClosedUnder P ss) (hr : .name r ∈ Stmt.allSources ss) :
    P r ∨ r ∈ declares ss := by
  induction h with
  | nil => cases hr
  | cons hst _ ih =>
    rw [declares_cons, mem_append]
    rcases mem_append.mp hr with hr | hr
    · exact .inl (hst r hr)
    · exact (ih hr).elim (fun h => h.imp_right .inl) fun h => .inr (.inr h)

theorem ClosedUnder.append (h : ClosedUnder P ss) (h' : ClosedUnder (fun r => P r ∨ r ∈ declares ss) ts) :
    ClosedUnder P (ss ++ ts) := by
  induction h with
  | nil => exact h'.imp fun r _ hr => hr.resolve_right (nomatch ·)
  | cons hst _ ih =>
    refine .cons hst (ih (h'.imp fun r _ hr => ?_))
    rw [declares_cons, mem_append] at hr
    exact or_assoc.mpr hr

theorem closedUnder_singleton : ClosedUnder P [st] ↔ ∀ r, .name r ∈ st.sources → P r :=
  ⟨fun | .cons hst _ => hst, fun h => .cons h .nil⟩

end

/-! ## Lost variables -/

mutual
/-- The variables that a scope counts as declared although it is not given their declarations: a
result that is taken over whole lists more than its code declares, and the code of a repeated
varying is dropped. -/
def Reuse.lost : Reuse → List (ScopeId × String)
  | .taken c g =>
    if g.isReference then [] else
      (g.declared.filter (· ∉ declares g.code.stmts)).map ((c.id, ·))
  | .discarded g t => (declares g.code.stmts).map ((Scope.vertexMain.id, ·)) ++ Trace.lost t

def Trace.lost : Trace → List (ScopeId × String)
  | [] => []
  | e :: t => e.lost ++ Trace.lost t
end

def Trace.Loses (t : Trace) (id : ScopeId) (v : String) : Prop := (id, v) ∈ t.lost

section
variable {t t' u : Trace} {c : Scope} {g : Generated} {id : ScopeId} {v : String}

theorem not_loses_nil : ¬ Trace.Loses [] id v := not_mem_nil

theorem Trace.lost_append : Trace.lost (t ++ t') = t.lost ++ t'.lost := by
  induction t with
  | nil => rfl
  | cons e t ih => rw [cons_append, Trace.lost, Trace.lost, ih, append_assoc]

theorem loses_append : (t ++ t').Loses id v ↔ t.Loses id v ∨ t'.Loses id v := by
  rw [Trace.Loses, Trace.lost_append, mem_append]
  rfl

theorem loses_taken : Trace.Loses [.taken c g] id v ↔
    id = c.id ∧ ¬ g.isReference ∧ v ∈ g.declared ∧ v ∉ declares g.code.stmts := by
  rw [Trace.Loses, Trace.lost, Trace.lost, append_nil, Reuse.lost]
  split
  · next h => simp [h]
  · next h =>
    simp only [mem_map, mem_filter, decide_eq_true_eq, Prod.mk.injEq]
    exact ⟨fun ⟨_, hv, hid, hw⟩ => hw ▸ ⟨hid.symm, h, hv⟩, fun ⟨hid, _, hv⟩ => ⟨v, hv, hid.symm, rfl⟩⟩

theorem loses_discarded : Trace.Loses [.discarded g u] id v ↔
    id = Scope.vertexMain.id ∧ v ∈ declares g.code.stmts ∨ u.Loses id v := by
  rw [Trace.Loses, Trace.lost, Trace.lost, append_nil, Reuse.lost, mem_append]
  simp [Trace.Loses, and_comm, eq_comm]

end

/-! ## Accounts of a scope -/

/-- What is known in all scopes: resources and functions. -/
def Graph.Outer (G : Graph) (r : String) : Prop := IsResource r ∨ G.IsFunction r

/-- Between two sessions the scope of an id is given the statements `ss`: they are closed, up to
`Q`, what is marked before and what is lost; and all that is marked is accounted for. -/
structure Accounts (G : Graph) (Q : String → Prop) (id : ScopeId) (s : Session) (ss : List Stmt)
    (s' : Session) (t : Trace) : Prop where
  placed : Placed (fun _ => True) (.only id) s (declares ss) s'
  closed : ClosedUnder (fun r => Q r ∨ (id, r) ∈ s.emitted ∨ t.Loses id r) ss
  marked : ∀ v, (id, v) ∈ s'.emitted →
    (id, v) ∈ s.emitted ∨ v ∈ declares ss ∨ t.Loses id v ∨ G.Outer v
  lost : ∀ v, t.Loses id v → v ∉ declares ss ∧ Newly (fun _ => True) (.only id) s v s'

theorem Session.isEmitted_only {s : Session} {id : ScopeId} {v : String} :
    s.isEmitted (.only id) v ↔ (id, v) ∈ s.emitted := by
  simp [Session.isEmitted_iff, Scope.only]

namespace Accounts

variable {G : Graph} {Q Q' : String → Prop} {id : ScopeId} {s s1 s' : Session} {ss ts : List Stmt}
  {t t' : Trace}

theorem nothing (hg : s.Grows s') (hm : ∀ v, (id, v) ∈ s'.emitted → (id, v) ∈ s.emitted ∨ G.Outer v)
    (ht : ∀ v, ¬ t.Loses id v) : Accounts G Q id s [] s' t where
  placed := .nil hg
  closed := .nil
  marked v hv := (hm v hv).imp_right fun h => .inr (.inr h)
  lost v hv := absurd hv (ht v)

theorem imp (h : Accounts G Q id s ss s' t) (hQ : ∀ r, Q r → Q' r) : Accounts G Q' id s ss s' t :=
  { h with closed := h.closed.imp fun r _ hr => hr.imp_left (hQ r) }

theorem after (h : Accounts G Q id s ss s1 t) (hg : s1.Grows s')
    (hm : ∀ v, (id, v) ∈ s'.emitted → (id, v) ∈ s1.emitted ∨ G.Outer v) :
    Accounts G Q id s ss s' t where
  placed := h.placed.after hg
  closed := h.closed
  marked v hv := (hm v hv).elim (h.marked v) fun ho => .inr (.inr (.inr ho))
  lost v hv := (h.lost v hv).imp_right (·.after hg)

theorem before (h : Accounts G Q id s1 ss s' t) (hg : s.Grows s1)
    (hm : ∀ v, (id, v) ∈ s1.emitted → (id, v) ∈ s.emitted) : Accounts G Q id s ss s' t where
  placed := h.placed.before hg
  closed := h.closed.imp fun r _ hr => hr.imp_right fun hr => hr.imp_left (hm r)
  marked v hv := (h.marked v hv).imp_left (hm v)
  lost v hv := (h.lost v hv).imp_right (·.before hg)

theorem trans (hQ : ∀ r, G.Outer r → Q r) (h : Accounts G Q id s ss s1 t)
    (h' : Accounts G Q id s1 ts s' t') : Accounts G Q id s (ss ++ ts) s' (t ++ t') where
  placed := by
    rw [declares_append]
    exact h.placed.append mem_cons_self h'.placed
  closed := by
    refine ClosedUnder.append (h.closed.imp fun r _ hr => ?_) (h'.closed.imp fun r _ hr => ?_)
    · exact hr.imp_right fun hr => hr.imp_right fun hl => loses_append.mpr (.inl hl)
    · rcases hr with hr | hr | hr
      · exact .inl (.inl hr)
      · rcases h.marked r hr with hr | hr | hr | hr
        · exact .inl (.inr (.inl hr))
        · exact .inr hr
        · exact .inl (.inr (.inr (loses_append.mpr (.inl hr))))
        · exact .inl (.inl (hQ r hr))
      · exact .inl (.inr (.inr (loses_append.mpr (.inr hr))))
  marked v hv := by
    rw [declares_append, mem_append, loses_append]
    rcases h'.marked v hv with hv | hv | hv | hv
    · rcases h.marked v hv with hv | hv | hv | hv
      · exact .inl hv
      · exact .inr (.inl (.inl hv))
      · exact .inr (.inr (.inl (.inl hv)))
      · exact .inr (.inr (.inr hv))
    · exact .inr (.inl (.inr hv))
    · exact .inr (.inr (.inl (.inr hv)))
    · exact .inr (.inr (.inr hv))
  lost v hv := by
    rw [declares_append, mem_append, not_or]
    rcases loses_append.mp hv with hv | hv
    · obtain ⟨hd, hnew⟩ := h.lost v hv
      exact ⟨⟨hd, fun hd' => hnew.ne mem_cons_self (h'.placed.newly v hd') rfl⟩, hnew.after h'.placed.grows⟩
    · obtain ⟨hd, hnew⟩ := h'.lost v hv
      exact ⟨⟨fun hd' => (h.placed.newly v hd').ne mem_cons_self hnew rfl, hd⟩, hnew.before h.placed.grows⟩

theorem assign {a : Atom} (h : Accounts G Q id s ss s' t) (hQ : ∀ r, G.Outer r → Q r) (x : String)
    (ha : ∀ r, a = .name r → Q r ∨ (id, r) ∈ s'.emitted) : Accounts G Q id s (ss ++ [.assign x a]) s' t := by
  have hread : Accounts G Q id s' [.assign x a] s' [] := by
    refine ⟨.nil (.refl s'), closedUnder_singleton.mpr fun r hr => ?_, fun _ => .inl, fun v hv => absurd hv not_loses_nil⟩
    obtain ⟨q, hq, hr⟩ := Atom.mem_sources.mp hr
    cases hq
    exact (ha r hr).imp_right .inl
  have hall := h.trans hQ hread
  rwa [append_nil] at hall

end Accounts

/-- A whole body that is given to the scope of an id is closed but for what is lost, and is closed if
and only if it reads nothing that is lost. -/
structure Trace.Closes (t : Trace) (id : ScopeId) (P : String → Prop) (ss : List Stmt) : Prop where
  closed : ClosedUnder (fun r => P r ∨ t.Loses id r) ss
  closed_iff : ClosedUnder P ss ↔ ∀ r, .name r ∈ Stmt.allSources ss → t.Loses id r → P r

section
variable {G : Graph} {P Q : String → Prop} {id : ScopeId} {s s' : Session} {ss : List Stmt} {t t' : Trace}

theorem Accounts.closes (h : Accounts G Q id s ss s' t) (hnew : ∀ v, (id, v) ∉ s.emitted)
    (hQ : ∀ r, Q r → P r) : t.Closes id P ss := by
  have hclosed : ClosedUnder (fun r => P r ∨ t.Loses id r) ss :=
    h.closed.imp fun r _ hr => hr.imp (hQ r) fun hr => hr.resolve_left (hnew r)
  refine ⟨hclosed, fun hc r hr hl => ?_, fun hl => ?_⟩
  · exact (hc.reads hr).resolve_right (h.lost r hl).1
  · exact hclosed.imp fun r hr hP => hP.elim (fun h => h) (hl r hr)

theorem Trace.Closes.congr (h : t.Closes id P ss) (ht : ∀ v, t'.Loses id v ↔ t.Loses id v) :
    t'.Closes id P ss where
  closed := h.closed.imp fun r _ hr => hr.imp_right (ht r).mpr
  closed_iff := by
    simp only [ht]
    exact h.closed_iff

end

/-! ## Sealed results -/

/-- What a result may read without a declaration: what is known everywhere and the parameters that
it captures. -/
def Graph.Free (G : Graph) (args : List ArgumentDef) (r : String) : Prop :=
  G.Outer r ∨ ∃ a ∈ args, a.name = r

theorem Accounts.outer {G : Graph} {args : List ArgumentDef} {id : ScopeId} {s s' : Session}
    {ss : List Stmt} {t : Trace} (h : Accounts G (G.Free args) id s ss s' t) (hargs : args = []) :
    Accounts G G.Outer id s ss s' t :=
  h.imp fun r hr => hr.resolve_right fun ⟨a, ha, _⟩ => by
    rw [hargs] at ha
    cases ha

/-- Wherever the code of a result is placed, it is closed but for what it lists and does not
declare. -/
structure Sealed (G : Graph) (bound : Nat) (g : Generated) : Prop where
  closed : ClosedUnder (fun r => G.Free g.arguments r ∨ r ∈ g.declared ∧ r ∉ declares g.code.stmts)
    g.code.stmts
  var : ∀ r, g.var = .name r → G.Outer r ∨ r ∈ g.declared
  named : ¬ g.isReference → ∃ r, g.var = .name r
  declared : ∀ v ∈ g.declared, Named (fun _ => True) bound v
  parameters : ∀ a ∈ g.arguments, G.IsParameter a.name
  function : g.function ≠ none → g.code.stmts = [] ∧ g.arguments = []

/-- A remembered result declares its own variable. -/
structure Settled (G : Graph) (s : Session) : Prop where
  ledger : Ledger G (fun _ => True) s
  scopes : ∀ p ∈ s.emitted, p.1 < s.nextScope
  memo : ∀ p ∈ s.memo, Sealed G s.counter p.2.generated ∧
    ∃ r, p.2.generated.var = .name r ∧ r ∈ declares p.2.generated.code.stmts

/-- A scope of the session that sees itself only. -/
structure Scope.In (c : Scope) (s : Session) : Prop where
  visible : c.visible = [c.id]
  lt : c.id < s.nextScope
  apart : c.Paired → c.id ≠ Scope.vertexMain.id

section
variable {G : Graph} {bound : Nat} {g : Generated} {c : Scope} {s s' : Session} {vs : List String}

theorem Sealed.mono (h : Sealed G bound g) {n : Nat} (hn : bound ≤ n) : Sealed G n g :=
  { h with declared := fun v hv => (h.declared v hv).mono hn fun _ _ => id }

theorem Sealed.reference (h : Sealed G bound g) (hf : g.function = none) : Sealed G bound g.reference where
  closed := .nil
  var := h.var
  named hn := absurd rfl hn
  declared := h.declared
  parameters := h.parameters
  function hne := absurd hf hne

theorem sealed_of_bare (h : g.Bare) : Sealed G bound g where
  closed := by rw [h.code]; exact .nil
  var r hr := .inl (.inl (h.var r hr))
  named := h.named
  declared v hv := by rw [h.declared] at hv; cases hv
  parameters a ha := by rw [h.arguments] at ha; cases ha
  function hne := absurd h.function hne

theorem sealed_functionResult {f : Function} (hf : G.IsFunction f.name) :
    Sealed G bound (Step.functionResult f) where
  closed := .nil
  var r hr := by cases hr; exact .inl (.inr hf)
  named _ := ⟨f.name, rfl⟩
  declared v hv := by cases hv
  parameters a ha := by cases ha
  function _ := ⟨rfl, rfl⟩

theorem Scope.In.isEmitted (h : c.In s) {v : String} : s'.isEmitted c v ↔ (c.id, v) ∈ s'.emitted := by
  simp [Session.isEmitted_iff, h.visible]

theorem Scope.In.mem_visible (h : c.In s) : c.id ∈ c.visible := h.visible ▸ mem_cons_self

theorem Scope.In.mono (h : c.In s) (hg : s.Grows s') : c.In s' :=
  { h with lt := h.lt.trans_le hg.nextScope }

theorem Settled.advance (h : Settled G s) (hc : c.In s) (ha : s.Advance c vs s')
    (hl : Ledger G (fun _ => True) s') : Settled G s' where
  ledger := hl
  scopes p hp := by
    rw [ha.nextScope]
    rcases ha.of_mem_emitted hp with hp | ⟨hp, -⟩
    · exact h.scopes p hp
    · exact hp ▸ hc.lt
  memo p hp := by
    rw [ha.memo] at hp
    exact (h.memo p hp).imp_left (·.mono ha.counter)

theorem Settled.congr (h : Settled G s) (hg : s.Grows s') (he : s'.emitted = s.emitted)
    (hm : s'.memo = s.memo) (hl : Ledger G (fun _ => True) s') : Settled G s' where
  ledger := hl
  scopes p hp := (h.scopes p (he ▸ hp)).trans_le hg.nextScope
  memo p hp := (h.memo p (hm ▸ hp)).imp_left (·.mono hg.counter)

theorem Settled.remember (h : Settled G s) (id : NodeId) (hg : Sealed G s.counter g)
    (hr : ∃ r, g.var = .name r ∧ r ∈ declares g.code.stmts)
    (hl : Ledger G (fun _ => True) (s.remember c id g)) : Settled G (s.remember c id g) where
  ledger := hl
  scopes := h.scopes
  memo := forall_mem_cons.mpr ⟨⟨hg, hr⟩, h.memo⟩

end

/-! ## Where an evaluation loses variables -/

def Confined (c : Scope) (s s' : Session) (t : Trace) : Prop := ∀ id v, t.Loses id v → Touched c s s' id

section
variable {c : Scope} {s s1 s2 : Session} {t t' : Trace} {id : ScopeId}

theorem Confined.trans (h : Confined c s s1 t) (h' : Confined c s1 s2 t') (hg : s.Grows s1)
    (hg' : s1.Grows s2) : Confined c s s2 (t ++ t') := by
  intro id v hv
  rcases loses_append.mp hv with hv | hv
  · exact (h id v hv).after hg'
  · exact (h' id v hv).before hg

theorem Touched.eq_of_lt (h : Touched c s s1 id) (hlt : id < s.nextScope)
    (hne : c.Paired → id ≠ Scope.vertexMain.id) : id = c.id := by
  rcases h with h | ⟨h, -⟩ | ⟨h, hp⟩
  · exact h
  · exact absurd h (Nat.not_le.mpr hlt)
  · exact absurd h (hne hp)

theorem Touched.new_of_lt (h : Touched c s s1 id) (hlt : c.id < id) :
    s.nextScope ≤ id ∧ id < s1.nextScope := by
  rcases h with rfl | h | ⟨rfl, -⟩
  · exact absurd hlt (Nat.lt_irrefl _)
  · exact h
  · exact absurd hlt (Nat.not_lt_zero _)

end

/-! ## Functions -/

def Function.statements (f : Function) : List Stmt := f.body ++ [.assign f.name f.result]

/-- The names that the body of a function may read without a declaration. -/
def Function.Outer (f : Function) (G : Graph) (r : String) : Prop :=
  G.Outer r ∨ ∃ d ∈ f.params, d.name = r

/-- Every function that is new has a scope of its own, which its body is given to. -/
def Defines (G : Graph) (s s' : Session) (t : Trace) : Prop :=
  ∃ bodies : List (ScopeId × Function), (bodies.map Prod.fst).Nodup ∧
    (∀ b ∈ bodies, s.nextScope ≤ b.1 ∧ b.1 < s'.nextScope ∧
      t.Closes b.1 (b.2.Outer G) b.2.statements) ∧
    ∀ p ∈ s'.functions, p ∈ s.functions ∨ p.2 ∈ bodies.map Prod.snd

section
variable {G : Graph} {c c' : Scope} {s s1 s2 : Session} {t t' : Trace}

theorem Defines.same (h : s1.functions = s.functions) : Defines G s s1 t :=
  ⟨[], nodup_nil, forall_mem_nil _, fun _ hp => .inl (h ▸ hp)⟩

theorem Defines.after (h : Defines G s s1 t) (hg : s1.Grows s2) (hf : s2.functions = s1.functions) :
    Defines G s s2 t := by
  obtain ⟨bodies, hnodup, hcl, hall⟩ := h
  refine ⟨bodies, hnodup, fun b hb => ?_, hf ▸ hall⟩
  obtain ⟨hle, hlt, h⟩ := hcl b hb
  exact ⟨hle, hlt.trans_le hg.nextScope, h⟩

theorem Defines.congr (h : Defines G s s1 t)
    (ht : ∀ id v, s.nextScope ≤ id → (t'.Loses id v ↔ t.Loses id v)) : Defines G s s1 t' := by
  obtain ⟨bodies, hnodup, hcl, hall⟩ := h
  refine ⟨bodies, hnodup, fun b hb => ?_, hall⟩
  obtain ⟨hle, hlt, h⟩ := hcl b hb
  exact ⟨hle, hlt, h.congr fun v => ht b.1 v hle⟩

theorem Defines.trans (h : Defines G s s1 t) (h' : Defines G s1 s2 t') (hc : c.id < s.nextScope)
    (hc' : c'.id < s.nextScope) (ht : Confined c s s1 t) (ht' : Confined c' s1 s2 t')
    (hg : s.Grows s1) (hg' : s1.Grows s2) : Defines G s s2 (t ++ t') := by
  obtain ⟨bodies, hnodup, hcl, hall⟩ := h
  obtain ⟨bodies', hnodup', hcl', hall'⟩ := h'
  have happ : ((bodies ++ bodies').map Prod.fst).Nodup := by
    rw [map_append]
    refine hnodup.append hnodup' fun i hi hi' => ?_
    obtain ⟨b, hb, rfl⟩ := mem_map.mp hi
    obtain ⟨b', hb', heq⟩ := mem_map.mp hi'
    exact absurd (hcl b hb).2.1 (Nat.not_lt.mpr (heq ▸ (hcl' b' hb').1))
  refine ⟨bodies ++ bodies', happ, fun b hb => ?_, fun p hp => ?_⟩
  · rcases mem_append.mp hb with hb | hb
    · obtain ⟨hle, hlt, h⟩ := hcl b hb
      refine ⟨hle, hlt.trans_le hg'.nextScope, h.congr fun v => ?_⟩
      refine ⟨fun hv => (loses_append.mp hv).resolve_right fun hv => ?_,
        fun hv => loses_append.mpr (.inl hv)⟩
      have hnew := (ht' b.1 v hv).new_of_lt (hc'.trans_le hle)
      exact absurd hlt (Nat.not_lt.mpr hnew.1)
    · obtain ⟨hle, hlt, h⟩ := hcl' b hb
      have hle0 := hg.nextScope.trans hle
      refine ⟨hle0, hlt, h.congr fun v => ?_⟩
      refine ⟨fun hv => (loses_append.mp hv).resolve_left fun hv => ?_,
        fun hv => loses_append.mpr (.inr hv)⟩
      have hnew := (ht b.1 v hv).new_of_lt (hc.trans_le hle0)
      exact absurd hle (Nat.not_le.mpr hnew.2)
  · rw [map_append, mem_append]
    rcases hall' p hp with hp | hp
    · exact (hall p hp).imp_right .inl
    · exact .inr (.inr hp)

theorem Step.exists_parameter {name : String} {params : List Glsl.Declaration} {as : List ArgumentDef} :
    (∀ d ∈ params, d ∈ (parameters name params as).1) ∧
      ∀ a ∈ as, ∃ d ∈ (parameters name params as).1, d.name = a.name := by
  induction as generalizing params with
  | nil => exact ⟨fun d hd => hd, fun a ha => (nomatch ha)⟩
  | cons a as ih =>
    unfold parameters
    split
    · obtain ⟨hparams, hargs⟩ := @ih (params ++ [⟨a.type, a.name⟩])
      refine ⟨fun d hd => hparams d (mem_append_left _ hd), fun b hb => ?_⟩
      rcases mem_cons.mp hb with rfl | hb
      · exact ⟨_, hparams _ mem_concat_self, rfl⟩
      · exact hargs b hb
    · next p hp =>
      obtain ⟨hparams, hargs⟩ := @ih params
      refine ⟨hparams, fun b hb => ?_⟩
      rcases mem_cons.mp hb with rfl | hb
      · exact ⟨p, hparams p (mem_of_find?_eq_some hp), by simpa using find?_some hp⟩
      · exact hargs b hb

theorem Step.exists_param_functionOf {id : NodeId} {name : String} {g : Generated} {a : ArgumentDef}
    (ha : a ∈ g.arguments) : ∃ d ∈ (functionOf id name g).params, d.name = a.name :=
  exists_parameter.2 a (mem_mergeSort.mpr ha)

end

end ShaderGraph
