import ShaderGraph.Proofs.Proper

/-!
# How the results of a session were made

Seen from the end of a session, every result has a history: it was made of the results of the operands
of its node, and what was made of it is remembered, or kept as a function or a varying. `Session.Made`
is this history. Whatever the code of a result is to have, in view of all that the session ends up with,
can be shown by induction on it.
-/

namespace ShaderGraph

open Eval List

/-- A result is taken over by a scope, perhaps in what is discarded later. -/
inductive Trace.Takes (c : Scope) (g : Generated) : Trace → Prop where
  | here {t : Trace} (h : .taken c g ∈ t) : Takes c g t
  | discarded {t u : Trace} {d : Generated} (h : .discarded d u ∈ t) (hu : Takes c g u) : Takes c g t

/-- What the first trace takes over is taken over in the second. -/
def Trace.Within (t t' : Trace) : Prop := ∀ c g, t.Takes c g → t'.Takes c g

/-- A varying of the name is registered. -/
def Session.Lists (s : Session) (r : String) : Prop := ∃ v ∈ s.fragment.varyings, v.name = r

/-- The result was made for the node in the scope, in a session without errors that ended as `S` and took
results over as in `T`. -/
inductive Session.Made (G : Graph) (T : Trace) (S : Session) : Scope → Node → Generated → Prop where
  | immediate {c : Scope} {n : Node} {s s' : Session} {g : Generated} (hn : n.isImmediate)
      (hr : (n.step c []).run s = (g, s')) (hclean : s'.Clean) (hS : s'.Grows S) (hk : S.Knows n g) :
      Made G T S c n g
  | taken {c c' : Scope} {n : Node} {g : Generated} (ht : T.Takes c g) (h : Made G T S c' n g) : Made G T S c n g
  | reference {c c' : Scope} {n : Node} {e : MemoEntry} (hn : n.isMemoized) (he : (n.id, e) ∈ S.memo)
      (ht : T.Takes c e.generated.reference) (h : Made G T S c' n e.generated) :
      Made G T S c n e.generated.reference
  | declared {c : Scope} {n : Node} {gs : List Generated} {φ : Form} {k : Nat} {e : MemoEntry}
      (hn : n ∈ G.nodes) (hp : n.isPlain) (hlen : n.operands.length = gs.length)
      (hgs : ∀ p ∈ n.operands.zip gs, Made G T S c p.1 p.2)
      (hφ : n.form? S.folding gs = some φ) (hfits : φ.Fits n c gs) (he : (n.id, e) ∈ S.memo)
      (hg : e.generated = φ.result k) : Made G T S c n (φ.result k)
  | broken {c : Scope} {id : NodeId} {a b : Node} {cond value : Generated} {e : MemoEntry} (hc : c.inLoop)
      (hn : .breakIf id a b ∈ G.nodes) (ha : Made G T S c a cond) (hb : Made G T S c b value)
      (he : (id, e) ∈ S.memo)
      (hg : e.generated = .gather value.type [.breakIf cond.var] value.var [cond, value]) :
      Made G T S c (.breakIf id a b) (.gather value.type [.breakIf cond.var] value.var [cond, value])
  | loop {c c' : Scope} {id : NodeId} {body count start m : Node} {gi gb gm : Generated} {s s' : Session}
      {bind : Generated → Step.Binding} {k : Nat} {e : MemoEntry} (hn : .sumLoop id body count start ∈ G.nodes)
      (hcount : Made G T S c count gi) (hbody : Made G T S c' body gb) (hopens : Opens gb start s m s' bind)
      (hinit : Made G T S c m gm) (he : (id, e) ∈ S.memo)
      (hg : e.generated = Step.loopResult gi gb (bind gm) k) :
      Made G T S c (.sumLoop id body count start) (Step.loopResult gi gb (bind gm) k)
  | accumulator {c : Scope} {id : NodeId} {name : String} {start : Node} {type : GlType} {k : Nat} {e : MemoEntry}
      (hn : .accumulator id name start ∈ G.nodes) (he : (id, e) ∈ S.memo)
      (hg : e.generated = (Step.accumulatorForm name start type k).result (k + 1)) :
      Made G T S c (.accumulator id name start) ((Step.accumulatorForm name start type k).result (k + 1))
  | function {c c' : Scope} {id : NodeId} {name : String} {body : Node} {gb : Generated}
      (hn : .defun id name body ∈ G.nodes) (hf : (id, Step.functionOf id name gb) ∈ S.functions)
      (hbody : Made G T S c' body gb) :
      Made G T S c (.defun id name body) (Step.functionResult (Step.functionOf id name gb))
  | varying {c : Scope} {id : NodeId} {n : Node} {g : Generated} (hn : .varying id n ∈ G.nodes)
      (hlisted : S.Lists (Step.varyingName id)) (h : Made G T S .vertexMain n g) :
      Made G T S c (.varying id n) (.resource g.type (Step.varyingName id))

/-- What a session holds was made so. -/
structure Session.Past (G : Graph) (T : Trace) (s S : Session) : Prop where
  memo : ∀ p ∈ s.memo, ∃ n ∈ G.nodes, n.id = p.1 ∧ ∃ c, S.Made G T c n p.2.generated
  functions : ∀ p ∈ s.functions, ∃ name body gb, .defun p.1 name body ∈ G.nodes ∧
    p.2 = Step.functionOf p.1 name gb ∧ ∃ c, ¬ c.inLoop ∧ S.Made G T c body gb
  varyings : ∀ v ∈ s.fragment.varyings, ∃ id n g, .varying id n ∈ G.nodes ∧ v = Step.varyingDef id g ∧
    S.Made G T .vertexMain n g ∧ Step.interpolates g.type ∧ g.uniforms ⊆ S.vertex.uniforms
  nodup : (s.fragment.varyings.map (·.name)).Nodup
  vertex : s.vertex.varyings = []

theorem forall_mem_of_zip {α β : Type} {P : β → Prop} {xs : List α} {ys : List β} (hlen : xs.length = ys.length)
    (h : ∀ p ∈ xs.zip ys, P p.2) : ∀ y ∈ ys, P y := by
  intro y hy
  rw [← map_snd_zip (Nat.le_of_eq hlen.symm)] at hy
  obtain ⟨p, hp, rfl⟩ := mem_map.mp hy
  exact h p hp

theorem exists_mem_zip {α β : Type} {xs : List α} {ys : List β} {x : α} (hlen : xs.length = ys.length) (h : x ∈ xs) :
    ∃ y, (x, y) ∈ xs.zip ys := by
  rw [← map_fst_zip (Nat.le_of_eq hlen)] at h
  obtain ⟨p, hp, rfl⟩ := mem_map.mp h
  exact ⟨p.2, hp⟩

section
variable {G : Graph} {T t u : Trace} {S s s' : Session} {c : Scope} {n : Node} {g : Generated} {id : NodeId}

theorem Trace.Takes.mono (h : t.Takes c g) (hsub : t ⊆ u) : u.Takes c g := by
  cases h with
  | here h => exact .here (hsub h)
  | discarded h hu => exact .discarded (hsub h) hu

theorem Trace.Within.append (h : (t ++ u).Within T) : t.Within T ∧ u.Within T :=
  ⟨fun c g ht => h c g (ht.mono (subset_append_left ..)), fun c g hu => h c g (hu.mono (subset_append_right ..))⟩

theorem Session.Made.knows (h : S.Made G T c n g) : S.Knows n g := by
  induction h with
  | immediate _ _ _ _ hk => exact hk
  | taken _ _ ih => exact ih
  | reference hn he => exact .remembered hn he ⟨rfl, rfl, rfl, rfl⟩
  | declared _ hp _ _ _ _ he hg => exact .remembered (isMemoized_of_isPlain hp) he (hg ▸ .refl _)
  | broken _ _ _ _ he hg => exact .remembered rfl he (hg ▸ .refl _)
  | loop _ _ _ _ _ he hg => exact .remembered rfl he (hg ▸ .refl _)
  | accumulator _ he hg => exact .remembered rfl he (hg ▸ .refl _)
  | function _ hf => exact .function hf
  | varying _ _ _ ih => exact .varying ih

namespace Session.Past

theorem congr (h : s.Past G T S) (hm : s'.memo = s.memo) (hf : s'.functions = s.functions)
    (hv : s'.fragment.varyings = s.fragment.varyings) (hvertex : s'.vertex.varyings = s.vertex.varyings) :
    s'.Past G T S :=
  ⟨hm ▸ h.memo, hf ▸ h.functions, hv ▸ h.varyings, hv ▸ h.nodup, hvertex.trans h.vertex⟩

theorem advance {vs : List String} (h : s.Past G T S) (ha : s.Advance c vs s') : s'.Past G T S :=
  h.congr ha.memo ha.functions (ha.varyings .fragment) (ha.varyings .vertex)

theorem remember (h : s.Past G T S) (hn : n ∈ G.nodes) (hg : S.Made G T c n g) : (s.remember c n.id g).Past G T S :=
  { h with memo := forall_mem_cons.mpr ⟨⟨n, hn, rfl, c, hg⟩, h.memo⟩ }

end Session.Past

/-! ## Every evaluation -/

theorem Step.readVarying_vertex {r : Generated} (hc : c.stage = .fragment)
    (hr : (readVarying c id g).run s = (r, s')) (hclean : s'.Clean) :
    interpolates g.type ∧ g.uniforms ⊆ s'.vertex.uniforms ∧ s'.vertex.varyings = s.vertex.varyings := by
  have hvaryings : s'.vertex.varyings = s.vertex.varyings := by
    obtain ⟨s1, ha, -, rfl⟩ := readVarying_eq hr
    rw [hc]
    exact ha.varyings .vertex
  rw [run_readVarying] at hr
  cases hr
  refine ⟨?_, ?_, hvaryings⟩
  · have hgrows := ((Session.Grows.advance (.useUniforms c (s.report c (checkVarying id g.type)) .vertex
      g.uniforms)).trans (.addVarying _ c.stage (varyingDef id g))).trans (.advance (.mark c _ [varyingName id]))
    have hnil := (hclean.of_grows hgrows).report
    unfold checkVarying at hnil
    split at hnil
    next => cases hnil
    next h => simpa using h
  · rw [hc]
    exact Registry.subset_addUniforms _ g.uniforms

/-- A varying that is read is registered, once under its name. -/
theorem Step.readVarying_listed {r : Generated} (hc : c.stage = .fragment)
    (hr : (readVarying c id g).run s = (r, s')) (hs : (s.fragment.varyings.map (·.name)).Nodup) :
    (s'.fragment.varyings.map (·.name)).Nodup ∧ s'.Lists (varyingName id) := by
  have hvaryings := readVarying_varyings hc hr
  split at hvaryings
  next hhas =>
    rw [hc] at hhas
    obtain ⟨v, hv, hname⟩ := any_eq_true.mp hhas
    exact ⟨hvaryings ▸ hs, v, hvaryings ▸ hv, eq_of_beq hname⟩
  next hhas =>
    rw [hc] at hhas
    refine ⟨?_, varyingDef id g, by simp [hvaryings], rfl⟩
    rw [hvaryings, map_append, map_singleton, ← concat_eq_append]
    refine List.Nodup.concat (fun hmem => hhas ?_) hs
    obtain ⟨v, hv, hname⟩ := mem_map.mp hmem
    exact any_eq_true.mpr ⟨v, hv, beq_iff_eq.mpr hname⟩

/-- What an evaluation makes, and the session it leaves, in view of where the session ends. -/
def made (G : Graph) (T : Trace) (S : Session) : Judgement := fun n c s g s' t =>
  s'.Grows S → t.Within T → s.Past G T S → s'.Past G T S ∧ S.Made G T c n g

theorem made_threads {ns : List Node} {gs : List Generated}
    (h : Threads ((made G T S).properly G) c ns s gs s' t) (hS : s'.Grows S) (hT : t.Within T)
    (hs : s.Past G T S) : s'.Past G T S ∧ ∀ p ∈ ns.zip gs, S.Made G T c p.1 p.2 := by
  induction h with
  | nil => exact ⟨hs, forall_mem_nil _⟩
  | cons hn hrest ih =>
    obtain ⟨hs1, hg⟩ := hn.2 (hrest.grows.trans hS) hT.append.1 hs
    obtain ⟨hs2, hgs⟩ := ih hS hT.append.2 hs1
    exact ⟨hs2, forall_mem_cons.mpr ⟨hg, hgs⟩⟩

theorem made_rules (hG : G.Shared) : ProperRules G (made G T S) where
  immediate hi hr _ _ ha hp hS _ hs :=
    ⟨hs.advance ha, .immediate hi hr hp.clean hS (hp.operand.known.mono hS)⟩
  reuse := by
    intro n c s g s' vs hn ht ha hp hS hT hs
    have htakes := hT c g (.here mem_cons_self)
    have hmade {e : MemoEntry} (he : s.memo.lookup n.id = some e) :
        (n.id, e) ∈ S.memo ∧ ∃ c, S.Made G T c n e.generated := by
      obtain ⟨m, hm, hid, h⟩ := hs.memo _ (mem_of_lookup he)
      exact ⟨(hp.grows.trans hS).memo.subset (mem_of_lookup he), hG m hm n hp.mem hid ▸ h⟩
    refine ⟨hs.advance ha, ?_⟩
    cases ht with
    | reference he =>
      obtain ⟨he, c', h⟩ := hmade he
      exact .reference hn he htakes h
    | again he | whole he =>
      obtain ⟨-, c', h⟩ := hmade he
      exact .taken htakes h
  declared := by
    intro n c s gs s1 t φ hn ht hφ hfits hp hS hT hs
    have ha := φ.advance c [] s1
    have hS1 : s1.Grows S := (ha.grows.trans (.remember ..)).trans hS
    obtain ⟨hs1, hgs⟩ := made_threads ht hS1 hT hs
    have hg : S.Made G T c n (φ.result s1.counter) :=
      .declared hp.mem hn ht.length.symm hgs (hS1.folding ▸ hφ) hfits (hS.memo.subset mem_cons_self) rfl
    exact ⟨(hs1.advance ha).remember hp.mem hg, hg⟩
  broken := by
    intro id a b c s cond value s1 t g s2 hc ht hg ha hp hS hT hs
    obtain ⟨hs1, hgs⟩ := made_threads ht ((ha.grows.trans (.remember ..)).trans hS) hT hs
    subst hg
    have hg := Session.Made.broken hc hp.mem (hgs (a, cond) (by simp)) (hgs (b, value) (by simp))
      (hS.memo.subset mem_cons_self) rfl
    exact ⟨(hs1.advance ha).remember hp.mem hg, hg⟩
  loop := by
    intro id body count start c s gi s1 t1 s2 gb s3 t2 m s4 bind gm s5 t3 g s6
      _ hcount ha2 hbody hopens hinit hg ha6 hp hS hT hs
    obtain ⟨hT1, hT'⟩ := hT.append
    have hS5 : s5.Grows S := (ha6.grows.trans (.remember ..)).trans hS
    have hS3 : s3.Grows S := (hopens.grows.trans hinit.1.grows).trans hS5
    obtain ⟨hs1, hgi⟩ :=
      hcount.2 ((ha2.grows.trans (.openScope s2)).trans (hbody.1.grows.trans hS3)) hT1 hs
    obtain ⟨hs3, hgb⟩ := hbody.2 hS3 hT'.append.1 ((hs1.advance ha2).congr rfl rfl rfl rfl)
    obtain ⟨hs5, hgm⟩ := hinit.2 hS5 hT'.append.2 (hs3.advance (hopens.advance c))
    subst hg
    have hg := Session.Made.loop hp.mem hgi hgb hopens hgm (hS.memo.subset mem_cons_self) rfl
    exact ⟨(hs5.advance ha6).remember hp.mem hg, hg⟩
  accumulator := by
    intro id name start c s s1 type g s2 ha hg hs2 hp hS _ hs
    subst hg hs2
    have hg := Session.Made.accumulator (T := T) (c := c) hp.mem (hS.memo.subset mem_cons_self) rfl
    exact ⟨((hs.advance (ha.trans (.bump c s1))).advance (Form.advance ..)).remember hp.mem hg, hg⟩
  knownFunction := by
    intro id name body c s f s' hf ha hp hS _ hs
    obtain ⟨name', body', gb, hn, hfunction, c', -, hb⟩ := hs.functions _ hf
    cases hG _ hn _ hp.mem rfl
    dsimp only at hfunction
    subst hfunction
    exact ⟨hs.advance ha, .function hp.mem ((hp.grows.trans hS).functions.subset hf) hb⟩
  newFunction := by
    intro id name body c s gb s1 t f s3 hb hf ha hp hS hT hs
    have hS2 := ha.grows.trans hS
    obtain ⟨hs1, hgb⟩ := hb.2 ((Session.Grows.define s1 id f).trans hS2) hT (hs.congr rfl rfl rfl rfl)
    subst hf
    have hdefined : (s1.define id (Step.functionOf id name gb)).Past G T S :=
      { hs1 with
        functions := forall_mem_cons.mpr ⟨⟨name, body, gb, hp.mem, rfl, _, Bool.false_ne_true, hgb⟩, hs1.functions⟩ }
    exact ⟨hdefined.advance ha, .function hp.mem (hS2.functions.subset mem_cons_self) hgb⟩
  varying := by
    intro id n c s g s1 t r s2 hc hop hr hp hS hT hs
    -- what a discarded evaluation takes over is still taken over
    have hT : t.Within T := by
      split at hT
      · exact fun d r h => hT d r (.discarded mem_cons_self h)
      · exact hT
    obtain ⟨hs1, hg⟩ := hop.2 ((Step.readVarying_grows hr).trans hS) hT hs
    obtain ⟨hmemo, hfunctions, -⟩ := Step.readVarying_same hr
    obtain ⟨htype, huniforms, hvertex⟩ := Step.readVarying_vertex hc.1 hr hp.clean
    obtain ⟨hnodup, w, hw, hname⟩ := Step.readVarying_listed hc.1 hr hs1.nodup
    refine ⟨⟨hmemo ▸ hs1.memo, hfunctions ▸ hs1.functions, fun v hv => ?_, hnodup, hvertex.trans hs1.vertex⟩, ?_⟩
    · rcases Step.mem_varyings_of_readVarying hc.1 hr hv with hv | rfl
      · exact hs1.varyings v hv
      · exact ⟨id, n, g, hp.mem, rfl, hg, htype, fun u hu => (hS.registry .vertex).uniforms (huniforms hu)⟩
    · obtain ⟨-, -, rfl, -⟩ := Step.readVarying_eq hr
      exact .varying hp.mem ⟨w, (hS.registry .fragment).varyings.subset hw, hname⟩ hg

/-- The session of a job without errors, at its end. -/
structure Session.Finished (G : Graph) (T : Trace) (s : Session) : Prop where
  sound : s.Sound G
  coherent : s.Coherent G
  past : s.Past G T s

theorem compiled_made (hG : G.Shared) {vertex fragment : Node} (hv : vertex ∈ G.nodes)
    (hf : fragment ∈ G.nodes) {o : CompileOptions} {nextId : NodeId} {r : Compiled}
    (hr : compiled vertex fragment o.folding nextId = r)
    (herr : (compilePair vertex fragment o nextId).error? = none) :
    r.session.Finished G r.trace ∧ r.session.Made G r.trace .vertexMain vertex r.vertex ∧
      r.session.Made G r.trace .fragmentMain fragment r.fragment := by
  obtain ⟨gv, gf, s1, s2, tv, tf, rfl, hvertex, hfragment⟩ :=
    compiled_properly hG ((made_rules (T := r.trace) (S := r.session) hG).everywhere hG) hv hf hr herr
  have hT : Trace.Within (tv ++ tf) (tv ++ tf) := fun _ _ h => h
  obtain ⟨hs1, hgv⟩ := hvertex.2 hfragment.1.grows hT.append.1
    ⟨forall_mem_nil _, forall_mem_nil _, forall_mem_nil _,
      nodup_nil, rfl⟩
  obtain ⟨hs2, hgf⟩ := hfragment.2 (.refl s2) hT.append.2 hs1
  exact ⟨⟨hfragment.1.sound', hfragment.1.coherent', hs2⟩, hgv, hgf⟩

end

end ShaderGraph
