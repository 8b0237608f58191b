import ShaderGraph.Proofs.Captures

/-!
# Stock of registries

A registry lists a uniform once, however often and on whatever way a stage comes by it, and its
textures are those of its uniforms in the same order. Uniforms are told apart by their ids and a
texture has the id of its sampler uniform, so this comes down to where registries take their
uniforms from: the nodes of the graph.
-/

namespace ShaderGraph

open Eval List

variable {us : List Uniform} {n : Node} {c : Scope} {gs : List Generated} {s s' : Session} {g : Generated}
  {id : NodeId} {G : Graph}

/-! ## Uniforms of a graph -/

def Graph.HasUniform (G : Graph) (u : Uniform) : Prop := ∃ id, Node.uniform id u ∈ G.nodes

/-- A uniform takes an id of its own when it is made, and a texture has the id of its uniform. -/
structure Graph.Identifies (G : Graph) : Prop where
  uniforms : ∀ u v, G.HasUniform u → G.HasUniform v → u.id = v.id → u = v
  textures : ∀ u t, G.HasUniform u → u.texture = some t → t.id = u.id

/-- The uniforms are those of the graph, each listed once, and the textures are theirs. -/
structure Registry.Stocked (G : Graph) (r : Registry) : Prop where
  origin : ∀ u ∈ r.uniforms, G.HasUniform u
  once : (r.uniforms.map (·.name)).Nodup
  textures : r.textures = r.uniforms.filterMap (·.texture)

namespace Registry.Stocked

variable {r r' : Registry}

theorem empty (G : Graph) : Registry.Stocked G {} where
  origin u hu := by cases hu
  once := nodup_nil
  textures := rfl

theorem congr (h : r.Stocked G) (hs : r.SameStock r') : r'.Stocked G where
  origin := hs.1 ▸ h.origin
  once := hs.1 ▸ h.once
  textures := by rw [hs.2, hs.1, h.textures]

theorem addUniform (hG : G.Identifies) (h : r.Stocked G) {u : Uniform} (hu : G.HasUniform u) :
    (r.addUniform u).Stocked G := by
  by_cases hmem : u ∈ r.uniforms
  · -- the uniform and its texture are there already
    have huniforms : adjoin r.uniforms [u] = r.uniforms := if_pos (by simpa using hmem)
    have htextures : adjoin r.textures u.texture.toList = r.textures := by
      cases ht : u.texture with
      | none => rfl
      | some t =>
        refine if_pos ?_
        rw [h.textures]
        simpa using ⟨u, hmem, ht⟩
    exact h.congr ⟨huniforms, htextures⟩
  · have hnew : ∀ v ∈ r.uniforms, v.id ≠ u.id := fun v hv hid =>
      hmem (hG.uniforms v u (h.origin v hv) hu hid ▸ hv)
    have huniforms : adjoin r.uniforms [u] = r.uniforms ++ [u] := if_neg (by simpa using hmem)
    have htextures : adjoin r.textures u.texture.toList = r.textures ++ u.texture.toList := by
      cases ht : u.texture with
      | none => exact (append_nil _).symm
      | some t =>
        refine if_neg ?_
        rw [h.textures]
        simp only [contains_eq_mem, mem_filterMap, decide_eq_true_eq]
        rintro ⟨v, hv, hvt⟩
        have hid := hG.textures v t (h.origin v hv) hvt
        exact hnew v hv (hid.symm.trans (hG.textures u t hu ht))
    refine ⟨?_, ?_, ?_⟩
    · change ∀ v ∈ adjoin r.uniforms [u], _
      rw [huniforms]
      exact forall_mem_append.mpr ⟨h.origin, forall_mem_singleton.mpr hu⟩
    · change ((adjoin r.uniforms [u]).map (·.name)).Nodup
      rw [huniforms, map_append, nodup_append]
      refine ⟨h.once, by simp, ?_⟩
      rintro _ hv _ hu' rfl
      obtain ⟨v, hv, hname⟩ := mem_map.mp hv
      rw [map_singleton, mem_singleton] at hu'
      exact hnew v hv (uniformName_inj (hname.trans hu'))
    · change adjoin r.textures u.texture.toList = (adjoin r.uniforms [u]).filterMap (·.texture)
      rw [huniforms, htextures, filterMap_append, ← h.textures]
      cases ht : u.texture <;> simp [ht]

theorem addUniforms (hG : G.Identifies) (h : r.Stocked G) (hus : ∀ u ∈ us, G.HasUniform u) :
    (r.addUniforms us).Stocked G := by
  induction us generalizing r with
  | nil => exact h
  | cons u us ih =>
    obtain ⟨hu, hus⟩ := forall_mem_cons.mp hus
    exact ih (h.addUniform hG hu) hus

end Registry.Stocked

/-! ## Uniforms of results -/

/-- The uniforms of a result are those of the graph. -/
structure Generated.Stocked (G : Graph) (g : Generated) : Prop where
  uniforms : ∀ u ∈ g.uniforms, G.HasUniform u
  function : ∀ f, g.function = some f → ∀ u ∈ f.uniforms, G.HasUniform u
  initial : ∀ a ∈ g.accumulators, a.initial ∈ G.nodes

theorem Generated.Stocked.of_nil (hu : g.uniforms = []) (hf : g.function = none) (ha : g.accumulators = []) :
    g.Stocked G where
  uniforms u h := by simp [hu] at h
  function f h := by simp [hf] at h
  initial a h := by simp [ha] at h

theorem stocked_gather {type : GlType} {own : List Stmt} {v : Atom} {deps : List Generated} {x : Extras}
    (hdeps : ∀ d ∈ deps, d.Stocked G) (hx : ∀ u ∈ x.uniforms, G.HasUniform u)
    (ha : ∀ a ∈ x.accumulators, a.initial ∈ G.nodes) :
    ((Generated.gather type own v deps).extend x).Stocked G where
  uniforms u hu := by
    rcases mem_adjoin_foldl hu with ⟨d, hd, hu⟩ | hu
    · exact (hdeps d hd).uniforms u hu
    · exact hx u hu
  function f hf := by cases hf
  initial a h := by
    rcases mem_adjoin_foldl h with ⟨d, hd, h⟩ | h
    · exact (hdeps d hd).initial a h
    · exact ha a h

/-- The trait of having uniforms of the graph. -/
def Trait.stocked (G : Graph) : Trait where
  node n := n ∈ G.nodes
  result _ g := g.Stocked G
  function _ f := ∀ u ∈ f.uniforms, G.HasUniform u
  varying _ _ := True

theorem Trait.stocked_inherited (G : Graph) : (Trait.stocked G).Inherited where
  child hn hm := G.closed _ hn _ hm
  grows _ h := h
  growsFunction _ h := h
  growsVarying _ _ := trivial
  zero := .of_nil rfl rfl rfl
  immediate {n _ _ _ _} hn hi hr := by
    cases n with
    | absent | float | bool =>
      cases hr
      exact .of_nil rfl rfl rfl
    | «attribute» =>
      obtain ⟨rfl, -⟩ := Step.readAttribute_eq hr
      exact .of_nil rfl rfl rfl
    | uniform id u =>
      cases hr
      exact ⟨forall_mem_singleton.mpr ⟨id, hn⟩, fun f hf => (by cases hf), fun a ha => by cases ha⟩
    | _ => cases hi
  reference h := ⟨h.uniforms, h.function, h.initial⟩
  form _ hgs _ hfits := by
    refine stocked_gather (fun d hd => hgs d (hfits.deps.subset hd)) (fun u hu => ?_) fun a ha => ?_
    · rw [hfits.uniforms] at hu
      obtain ⟨f, hf, hu⟩ := mem_flatMap.mp hu
      obtain ⟨d, hd, hdf⟩ := hfits.functions f hf
      exact (hgs d hd).function f hdf u hu
    · rw [hfits.accumulators] at ha
      cases ha
  broken hcond hvalue :=
    stocked_gather (x := {}) (forall_mem_cons.mpr ⟨hcond, forall_mem_singleton.mpr hvalue⟩)
      (fun u hu => (by cases hu)) fun a ha => by cases ha
  initial hg ha := hg.initial _ ha
  loop hgi hgb hinit _ haccs :=
    stocked_gather (forall_mem_cons.mpr ⟨hinit, forall_mem_singleton.mpr hgi⟩) hgb.uniforms
      fun a ha => hgb.initial a (haccs a ha)
  accumulator hn :=
    stocked_gather (fun d hd => (by cases hd)) (fun u hu => by cases hu)
      (forall_mem_singleton.mpr (G.only_mem hn rfl))
  define _ hgb := hgb.uniforms
  function _ hf := ⟨hf, fun f h => (by cases h; exact hf), fun a ha => by cases ha⟩
  varying _ := trivial
  passed := .of_nil rfl rfl rfl

/-! ## Every evaluation -/

/-- The registries of a session are stocked from the graph. -/
def Session.Stocked (G : Graph) (s : Session) : Prop := ∀ stage, (s.registry stage).Stocked G

namespace Session.Stocked

theorem same (h : s.Stocked G) (hs : ∀ stage, (s.registry stage).SameStock (s'.registry stage)) :
    s'.Stocked G :=
  fun stage => (h stage).congr (hs stage)

theorem congr (h : s.Stocked G) (hv : s'.vertex = s.vertex) (hf : s'.fragment = s.fragment) : s'.Stocked G := by
  refine h.same fun stage => ?_
  cases stage with
  | vertex => exact ⟨congrArg _ hv, congrArg _ hv⟩
  | fragment => exact ⟨congrArg _ hf, congrArg _ hf⟩

theorem useUniforms (hG : G.Identifies) (h : s.Stocked G) (stage : Stage) (hus : ∀ u ∈ us, G.HasUniform u) :
    (s.updateRegistry stage (·.addUniforms us)).Stocked G := by
  intro o
  cases stage <;> cases o
  · exact (h .fragment).addUniforms hG hus
  · exact h .vertex
  · exact h .fragment
  · exact (h .vertex).addUniforms hG hus

end Session.Stocked

theorem Step.readVarying_stock {r : Generated} (h : (readVarying c id g).run s = (r, s')) (stage : Stage) :
    (((s.report c (checkVarying id g.type)).updateRegistry .vertex (·.addUniforms g.uniforms)).registry
      stage).SameStock (s'.registry stage) := by
  rw [run_readVarying] at h
  cases h
  rw [Session.registry_mark]
  have hadd (r : Registry) : r.SameStock (r.addVarying (varyingDef id g)) := by
    unfold Registry.addVarying
    split <;> exact ⟨rfl, rfl⟩
  cases c.stage <;> cases stage
  all_goals first | exact hadd _ | exact ⟨rfl, rfl⟩

/-- Registries of the graph's uniforms stay so. -/
def stocked (G : Graph) : Judgement := fun n _ s _ s' _ =>
  n ∈ G.nodes → s.Carries (.stocked G) → s.Stocked G → s'.Stocked G

theorem stocked_threads {ns : List Node} {t : Trace}
    (h : Threads ((Trait.stocked G).judgement.both (stocked G)) c ns s gs s' t) (hns : ∀ n ∈ ns, n ∈ G.nodes)
    (hc : s.Carries (.stocked G)) (hs : s.Stocked G) : s'.Stocked G := by
  induction h with
  | nil => exact hs
  | cons hn _ ih =>
    obtain ⟨hmem, hns⟩ := forall_mem_cons.mp hns
    exact ih hns (hn.1 hmem hc).2 (hn.2 hmem hc hs)

theorem stocked_immediate (hG : G.Identifies) (hi : n.isImmediate) (hr : (n.step c []).run s = (g, s'))
    (hn : n ∈ G.nodes) (hs : s.Stocked G) : s'.Stocked G := by
  have hreport (es : List GraphError) := hs.same (Session.Writes.report c s es).stock
  cases n with
  | absent =>
    cases hr
    exact hreport _
  | float | bool =>
    cases hr
    exact hs
  | uniform id u =>
    obtain ⟨-, es, rfl⟩ := Step.readUniform_eq hr
    exact ((hreport es).useUniforms hG c.stage (forall_mem_singleton.mpr ⟨id, hn⟩)).congr rfl rfl
  | «attribute» id a =>
    obtain ⟨-, es, -, rfl⟩ := Step.readAttribute_eq hr
    refine (hreport es).same fun stage => ?_
    rw [Session.registry_mark]
    cases c.stage <;> cases stage <;> exact ⟨rfl, rfl⟩
  | _ => cases hi

theorem stocked_rules (hG : G.Identifies) : Rules (Trait.stocked G).judgement (stocked G) where
  immediate hi hr _ _ _ _ hn _ hs := stocked_immediate hG hi hr hn hs
  reuse _ _ ht _ _ _ hc hs := by
    cases ht with
    | reference | again => exact hs
    | whole he =>
      refine .useUniforms hG ?_ _ (hc.memo _ (mem_of_lookup he)).uniforms
      exact hs.congr rfl rfl
  compute hp _ ht _ ho _ hn hc hs := by
    obtain ⟨vs, k, hw⟩ := ho.writes
    exact ((stocked_threads ht (fun m hm => G.operand_mem hp hn hm) hc hs).same hw.stock).congr rfl rfl
  loop := by
    intro id body count start c s gi s1 t1 s2 gb s3 t2 m s4 bind gm s5 t3 g s6
      _ hcount hcheck _ hbody hopens hinit hr _ _ _ hn hc hs
    have hT := Trait.stocked_inherited G
    obtain ⟨hcount_mem, hbody_mem, hstart⟩ := G.loop_mem hn
    have hw2 := Step.checkCount_writes hcheck
    have hs2 := (hcount.2 hcount_mem hc hs).same hw2.stock
    have hc2 := hT.openScope (hT.advance (hcount.1 hcount_mem hc).2 hw2.toAdvance)
    obtain ⟨hgb, hc3⟩ := hbody.1 hbody_mem hc2
    have hs3 := hbody.2 hbody_mem hc2 (hs2.congr rfl rfl)
    have hm : m ∈ G.nodes := by
      cases hopens with
      | accumulated heq => exact hgb.initial _ (heq ▸ mem_cons_self)
      | parameter | own => exact hstart
    have hs4 : s4.Stocked G := by cases hopens <;> exact hs3.congr rfl rfl
    have hs5 := hinit.2 hm (hT.congr hc3 hopens.grows hopens.memo hopens.functions hopens.varyings) hs4
    exact (hs5.same (Step.sumLoop_writes hr).2.stock).congr rfl rfl
  accumulator := by
    intro id name start c s s1 g0 s0 t0 g s2 _ _ hs1 _ hr _ _ _ _ _ _ hs
    obtain ⟨s3, hw, rfl, rfl⟩ := Step.accumulator_writes hs1 hr
    have hform := (Step.accumulatorForm name start g0.type s3.counter).writes c [] s3.bump
    exact (((hs.same hw.stock).congr rfl rfl).same hform.stock).congr rfl rfl
  knownFunction hf hr _ _ _ _ hc hs := by
    cases hr
    exact hs.useUniforms hG _ (hc.functions _ (mem_of_lookup hf))
  newFunction := by
    intro id name body c s gb s1 t f s2 g s3 _ hb hf hr _ _ _ _ hn hc hs
    have hmem := G.only_mem hn rfl
    have hc0 := (Trait.stocked_inherited G).openScope hc
    obtain ⟨rfl, hw⟩ := Step.function_writes hf
    cases hr
    have hs2 := (hb.2 hmem hc0 (hs.congr rfl rfl)).same hw.stock
    refine .useUniforms hG ?_ c.stage (hb.1 hmem hc0).1.uniforms
    exact hs2.congr rfl rfl
  varying := by
    intro id n c s g s1 t r s2 _ hop hr _ hn hc hs
    have hmem := G.only_mem hn rfl
    have hs1 := (hop.2 hmem hc hs).same (Session.Writes.report c s1 (Step.checkVarying id g.type)).stock
    exact (hs1.useUniforms hG .vertex (hop.1 hmem hc).1.uniforms).same (Step.readVarying_stock hr)
  strayVarying _ hop _ hn hc hs :=
    hop.2 (G.only_mem hn rfl) ((Trait.stocked_inherited G).advance hc (.report _ _ _))
      (hs.same (Session.Writes.report _ _ _).stock)
  exhausted hr _ _ _ hs := by
    cases hr
    exact hs.same (Session.Writes.report _ _ _).stock

theorem stocked_everywhere (hG : G.Identifies) : ((Trait.stocked G).judgement.both (stocked G)).Everywhere :=
  have h := (Trait.stocked_inherited G).everywhere
  h.both ((stocked_rules hG).everywhere h)

end ShaderGraph
