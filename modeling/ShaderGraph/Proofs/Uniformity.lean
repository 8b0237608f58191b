import ShaderGraph.Proofs.Profiles
import ShaderGraph.Proofs.Redeclaration

/-!
# Types do not depend on the place of evaluation

Whatever a session holds, a node evaluates to a result with the type of its profile, and what the
result leaves to the loops around it are the accumulators of the profile, in order. A session keeps
one record for each accumulator node, under a serial number of its own, since a remembered
accumulator can be used in every scope.
-/

namespace ShaderGraph

open Eval List

variable {a : AccumulatorDef} {l : Slot} {vs : List String} {id : NodeId} {name : String}
  {body m start n : Node} {type : GlType} {os : List Profile} {gs : List Generated} {s1 s2 s s' : Session}
  {bind : Generated → Step.Binding} {G : Graph} {bound : Nat} {g : Generated} {c : Scope}

/-! ## What a session holds of accumulators -/

/-- The record of an accumulator node in a session. -/
structure Session.Stands (G : Graph) (s : Session) (a : AccumulatorDef) (l : Slot) : Prop where
  node : ∃ name, Node.accumulator l.id name a.initial ∈ G.nodes
  initial : l.initial = a.initial.profile
  type : a.type = a.initial.type
  entry : ∃ e, (l.id, e) ∈ s.memo ∧ e.generated.accumulators = [a]

/-- A result has a profile. -/
structure Session.Fits (G : Graph) (s : Session) (o : Profile) (g : Generated) : Prop where
  type : g.type = o.type
  returns : ∀ t, o.returns = some t → ∃ f, g.function = some f ∧ f.returns = t
  accumulators : Forall₂ (s.Stands G) g.accumulators o.slots

/-- What a session holds has the profiles of the nodes it stands for. -/
structure Session.Profiled (G : Graph) (s : Session) : Prop where
  memo : ∀ n ∈ G.nodes, n.isMemoized → ∀ e, (n.id, e) ∈ s.memo → s.Fits G n.profile e.generated
  functions : ∀ id name body, Node.defun id name body ∈ G.nodes → ∀ f, (id, f) ∈ s.functions →
    f.returns = body.type
  /-- An accumulator declares one variable. -/
  alone : ∀ id name start, Node.accumulator id name start ∈ G.nodes → ∀ e, (id, e) ∈ s.memo →
    e.generated.declared = [e.generated.var.text]
  serials : ∀ {a b l m}, s.Stands G a l → s.Stands G b m → (a.serial = b.serial ↔ l.id = m.id)
  counter : ∀ {a l}, s.Stands G a l → a.serial < s.counter

section
variable {o : Profile}

theorem Session.Stands.mono (hm : s.memo ⊆ s'.memo) (h : s.Stands G a l) : s'.Stands G a l := by
  obtain ⟨e, he, ha⟩ := h.entry
  exact { h with entry := ⟨e, hm he, ha⟩ }

theorem Session.Fits.mono (hm : s.memo ⊆ s'.memo) (h : s.Fits G o g) : s'.Fits G o g :=
  { h with accumulators := h.accumulators.imp fun _ _ ha => ha.mono hm }

theorem Session.Fits.reference (h : s.Fits G o g) : s.Fits G o g.reference := ⟨h.type, h.returns, h.accumulators⟩

theorem Session.profiled_new (nextId : NodeId) (folding : Bool) :
    Session.Profiled G { nextId, folding } where
  memo _ _ _ _ he := absurd he not_mem_nil
  functions _ _ _ _ _ hf := absurd hf not_mem_nil
  alone _ _ _ _ _ he := absurd he not_mem_nil
  serials ha := by
    obtain ⟨e, he, -⟩ := ha.entry
    exact absurd he not_mem_nil
  counter ha := by
    obtain ⟨e, he, -⟩ := ha.entry
    exact absurd he not_mem_nil

theorem Session.Fits.bare (hg : g.Bare) (ht : g.type = type) : s.Fits G (.gather type []) g where
  type := ht
  returns t ht := by cases ht
  accumulators := by
    rw [hg.accumulators]
    exact .nil

theorem Session.Fits.opening {body : Profile} (hb : s.Fits G body g) (ho : Opens g start s1 m s2 bind) :
    m.profile = body.opening start.profile ∧
      ∀ gm, Forall₂ (s.Stands G) (bind gm).accumulators body.slots.tail := by
  have haccs := hb.accumulators
  unfold Profile.opening
  cases ho with
  | accumulated ha =>
    rw [ha] at haccs
    cases hslots : body.slots with
    | nil =>
      rw [hslots] at haccs
      cases haccs
    | cons l rest =>
      rw [hslots] at haccs
      rcases haccs with _ | ⟨hfirst, hrest⟩
      exact ⟨hfirst.initial.symm, fun _ => hrest⟩
  | parameter ha | own ha =>
    rw [ha, forall₂_nil_left_iff] at haccs
    rw [haccs]
    exact ⟨rfl, fun _ => .nil⟩

namespace Session.Profiled

variable (h : s.Profiled G)
include h

theorem congr (hm : s'.memo = s.memo)
    (hf : ∀ id name body, Node.defun id name body ∈ G.nodes → ∀ f, (id, f) ∈ s'.functions → f.returns = body.type)
    (hc : s.counter ≤ s'.counter) : s'.Profiled G := by
  have hstands {a : AccumulatorDef} {l : Slot} (ha : s'.Stands G a l) : s.Stands G a l :=
    ha.mono (hm ▸ List.Subset.refl _)
  exact {
    memo := fun n hn hp e he => (h.memo n hn hp e (hm ▸ he)).mono (hm ▸ List.Subset.refl _)
    functions := hf
    alone := hm ▸ h.alone
    serials := fun ha hb => h.serials (hstands ha) (hstands hb)
    counter := fun ha => (h.counter (hstands ha)).trans_le hc }

theorem advance (ha : s.Advance c vs s') : s'.Profiled G :=
  h.congr ha.memo (ha.functions ▸ h.functions) ha.counter

theorem openScope : s.openScope.Profiled G := h.congr rfl h.functions (Nat.le_refl _)

theorem define (hG : G.Shared) (hn : .defun id name body ∈ G.nodes) {f : Function}
    (hf : f.returns = body.type) : Session.Profiled G { s with functions := (id, f) :: s.functions } := by
  refine h.congr rfl ?_ (Nat.le_refl _)
  intro id' name' body' hn' f' hf'
  rcases mem_cons.mp hf' with heq | hf'
  · cases heq
    cases hG _ hn _ hn' rfl
    exact hf
  · exact h.functions id' name' body' hn' f' hf'

theorem beq_eq {b : AccumulatorDef} {m : Slot} (ha : s.Stands G a l) (hb : s.Stands G b m) :
    (a == b) = (l == m) := by
  show (a.serial == b.serial) = (l.id == m.id)
  rw [Bool.eq_iff_iff, beq_iff_eq, beq_iff_eq]
  exact h.serials ha hb

theorem not_mem_of_lookup (hn : .accumulator id name start ∈ G.nodes) (hl : s.lookup? c id = none)
    (e : MemoEntry) : (id, e) ∉ s.memo := by
  intro he
  have hsome : (s.memo.lookup id).isSome := by
    rw [lookup_isSome_iff]
    exact ⟨(id, e), he, by simp⟩
  obtain ⟨e, he⟩ := Option.isSome_iff_exists.mp hsome
  have hdeclared := h.alone id name start hn e (mem_of_lookup he)
  simp only [lookup?, he, hdeclared, any_cons, any_nil, Bool.or_false] at hl
  split_ifs at hl

theorem remember (hG : G.Shared) (hn : n ∈ G.nodes) (hne : ∀ id name start, n ≠ .accumulator id name start)
    (hg : s.Fits G n.profile g) (c : Scope) : (s.remember c n.id g).Profiled G := by
  have hsub : s.memo ⊆ (s.remember c n.id g).memo := subset_cons_self ..
  have hold {id : NodeId} {name : String} {start : Node} {e : MemoEntry}
      (ha : .accumulator id name start ∈ G.nodes) (he : (id, e) ∈ (s.remember c n.id g).memo) :
      (id, e) ∈ s.memo := by
    rcases mem_cons.mp he with heq | he
    · cases heq
      exact absurd (hG _ hn _ ha rfl) (hne _ _ _)
    · exact he
  have hstands {a : AccumulatorDef} {l : Slot} (ha : (s.remember c n.id g).Stands G a l) :
      s.Stands G a l := by
    obtain ⟨name, hnode⟩ := ha.node
    obtain ⟨e, he, hacc⟩ := ha.entry
    exact { ha with entry := ⟨e, hold hnode he, hacc⟩ }
  exact {
    memo := by
      intro m hm hp e he
      rcases mem_cons.mp he with heq | he
      · obtain ⟨hid, rfl⟩ := Prod.mk.inj heq
        rw [hG m hm n hn hid]
        exact hg.mono hsub
      · exact (h.memo m hm hp e he).mono hsub
    functions := h.functions
    alone := fun id name start ha e he => h.alone id name start ha e (hold ha he)
    serials := fun ha hb => h.serials (hstands ha) (hstands hb)
    counter := fun ha => h.counter (hstands ha) }

theorem rememberAccumulator (hG : G.Shared) (hn : .accumulator id name start ∈ G.nodes)
    (hnew : ∀ e, (id, e) ∉ s.memo) (htype : type = start.type) (hadv : s.Advance c vs s')
    (hcounter : s.counter < s'.counter) {k : Nat}
    (hg : g = (Step.accumulatorForm name start type s.counter).result k) :
    (s'.remember c id g).Profiled G ∧
      (s'.remember c id g).Fits G (Node.accumulator id name start).profile g := by
  have hs' := h.advance hadv
  generalize ha : (⟨s.counter, name ++ toString s.counter, type, start⟩ : AccumulatorDef) = a
  have haccs : g.accumulators = [a] := by rw [hg, ← ha]; rfl
  have hserial : a.serial = s.counter := by rw [← ha]
  have hsub : s'.memo ⊆ (s'.remember c id g).memo := subset_cons_self ..
  have hstands {b : AccumulatorDef} {l : Slot} (hb : (s'.remember c id g).Stands G b l) :
      b = a ∧ l.id = id ∨ s.Stands G b l ∧ l.id ≠ id := by
    obtain ⟨e, he, hacc⟩ := hb.entry
    rcases mem_cons.mp he with heq | he
    · obtain ⟨hid, rfl⟩ := Prod.mk.inj heq
      exact .inl ⟨singleton_inj.mp (hacc.symm.trans haccs), hid⟩
    · rw [hadv.memo] at he
      refine .inr ⟨{ hb with entry := ⟨e, he, hacc⟩ }, ?_⟩
      rintro hid
      exact hnew e (hid ▸ he)
  have hfits : (s'.remember c id g).Fits G (Node.accumulator id name start).profile g := by
    refine ⟨by rw [hg]; exact htype, fun t ht => (by cases ht), ?_⟩
    rw [haccs]
    exact .cons {
      node := ⟨name, by rw [← ha]; exact hn⟩
      initial := by rw [← ha]; rfl
      type := by rw [← ha]; exact htype
      entry := ⟨⟨c.id, g⟩, mem_cons_self, haccs⟩ } .nil
  refine ⟨?_, hfits⟩
  exact {
    memo := by
      intro m hm hp e he
      rcases mem_cons.mp he with heq | he
      · obtain ⟨hid, rfl⟩ := Prod.mk.inj heq
        rw [hG m hm _ hn hid]
        exact hfits
      · exact (hs'.memo m hm hp e he).mono hsub
    functions := hs'.functions
    alone := by
      intro id' name' start' hn' e he
      rcases mem_cons.mp he with heq | he
      · cases heq
        rw [hg]
        rfl
      · exact hs'.alone id' name' start' hn' e he
    serials := by
      intro b b' l l' hb hb'
      rcases hstands hb with ⟨rfl, hl⟩ | ⟨hb, hl⟩ <;> rcases hstands hb' with ⟨rfl, hl'⟩ | ⟨hb', hl'⟩
      · exact iff_of_true rfl (hl.trans hl'.symm)
      · have hlt := h.counter hb'
        refine iff_of_false (fun heq => ?_) (fun heq => hl' (heq ▸ hl))
        omega
      · have hlt := h.counter hb
        refine iff_of_false (fun heq => ?_) (fun heq => hl (heq ▸ hl'))
        omega
      · exact h.serials hb hb'
    counter := by
      intro b l hb
      show b.serial < s'.counter
      rcases hstands hb with ⟨rfl, -⟩ | ⟨hb, -⟩
      · exact hserial ▸ hcounter
      · exact (h.counter hb).trans hcounter }

/-! ## Results of steps -/

theorem gathered (hgs : Forall₂ (s.Fits G) os gs) :
    Forall₂ (s.Stands G) (gs.foldl (fun acc d => adjoin acc d.accumulators) [])
      (os.foldl (fun acc o => adjoin acc o.slots) []) :=
  forall₂_gathered h.beq_eq hgs.flip (fun hg => hg.accumulators) .nil

theorem gather (hgs : Forall₂ (s.Fits G) os gs) {type' : GlType} (htype : type = type') {own : List Stmt}
    {v : Atom} {x : Extras} (hx : x.accumulators = []) :
    s.Fits G (.gather type' os) ((Generated.gather type own v gs).extend x) where
  type := htype
  returns t ht := by cases ht
  accumulators := by
    show Forall₂ _ (adjoin _ x.accumulators) _
    rw [hx]
    exact h.gathered hgs

section
variable (hlen : gs.length = n.operands.length) (hgs : Forall₂ (s.Fits G) os gs)
  (hcall : ∀ id fn args, n = .call id fn args → ∃ os' o t, os = os' ++ [o] ∧ o.returns = some t)
include hlen hgs hcall

theorem form {folding : Bool} {φ : Form} (hφ : n.form? folding gs = some φ) (k : Nat) :
    s.Fits G (n.combine os) (φ.result k) := by
  have htypes := (map_eq_of_forall₂ hgs fun hg => hg.type.symm).symm
  have hfold {χ : Form} {fold? : List Float32 → Option Float32} {type : GlType} (hχ : χ.extras = {})
      (htype : χ.type = type) (hdeps : χ.deps = gs) :
      s.Fits G (.gather type os) ((χ.fold folding fold?).result k) := by
    refine h.gather ?_ ((χ.fold_type folding fold?).trans htype) (χ.fold_captures folding fold? hχ).2
    rwa [χ.fold_deps, hdeps]
  cases n with
  | coordinate id q | resolution id | constant id q | argument id name index type =>
    cases hφ
    exact h.gather .nil rfl rfl
  | operator id op args =>
    obtain ⟨hne, rfl⟩ := Node.form_operator hφ
    cases hgs with
    | nil => exact absurd rfl hne
    | cons => exact hfold rfl (congrArg op.resultType htypes) rfl
  | builtin id f args =>
    cases hφ
    exact hfold rfl (congrArg f.resultType htypes) rfl
  | construct id q args =>
    cases hφ
    exact h.gather hgs rfl rfl
  | swizzle id m fields =>
    obtain ⟨g, rfl⟩ := length_eq_one_iff.mp hlen
    cases hφ
    exact h.gather hgs rfl rfl
  | switch id cond yes no =>
    obtain ⟨gc, ga, gb, rfl⟩ := length_eq_three.mp hlen
    rcases hgs with _ | ⟨hc, _ | ⟨ha, _ | ⟨hb, _ | _⟩⟩⟩
    cases hφ
    refine h.gather (.cons hc (.cons ha (.cons hb .nil))) ?_ rfl
    rw [ha.type, hb.type]
  | call id fn args =>
    obtain ⟨os', o, t, rfl, ho⟩ := hcall id fn args rfl
    obtain ⟨gs', gf, rfl, hrest, hgf⟩ := forall₂_concat hgs
    obtain ⟨f, hf, hreturns⟩ := hgf.returns t ho
    simp only [Node.form?, getLast?_concat, Option.bind_some, hf, dropLast_concat] at hφ
    cases hφ
    simp only [Node.combine, getLast?_concat, Option.bind_some, ho, Option.getD_some,
      dropLast_concat]
    exact h.gather hrest hreturns rfl
  | _ => cases hφ

theorem step (hp : n.isPlain) (hr : (n.step c gs).run s = (g, s')) : s.Fits G (n.combine os) g := by
  cases hφ : n.form? s.folding gs with
  | some φ =>
    rw [Node.run_step hφ c] at hr
    cases hr
    exact h.form hlen hgs hcall hφ s.counter
  | none =>
    cases Node.formless hp hlen hφ with
    | operator =>
      cases hgs
      cases hr
      exact .bare (Generated.bare_float 0) rfl
    | broken =>
      rcases hgs with _ | ⟨hc, _ | ⟨hv, _ | _⟩⟩
      simp only [Node.step, Step.breakIf] at hr
      rw [run_report_then, run_report_then] at hr
      cases hr
      exact h.gather (.cons hc (.cons hv .nil)) hv.type (x := {}) rfl
    | call hf =>
      obtain ⟨os', o, t, rfl, ho⟩ := hcall _ _ _ rfl
      obtain ⟨gs', gf, heq, -, hgf⟩ := forall₂_concat hgs
      cases (append_inj' heq rfl).2
      obtain ⟨f, hf', -⟩ := hgf.returns t ho
      cases hf.symm.trans hf'

end

theorem loop {body count start : Profile} {gb gi : Generated} {b : Step.Binding} (hb : s.Fits G body gb)
    (hi : s.Fits G count gi) (hm : s.Fits G (body.opening start) b.initial)
    (hrest : Forall₂ (s.Stands G) b.accumulators body.slots.tail) (k : Nat) :
    s.Fits G (.sumLoop body count start) (Step.loopResult gi gb b k) where
  type := by
    show GlType.promote _ = GlType.promote _
    rw [hb.type, hm.type]
  returns t ht := by cases ht
  accumulators := forall₂_adjoin h.beq_eq (h.gathered (.cons hm (.cons hi .nil))) hrest

end Session.Profiled

end

/-! ## Every evaluation -/

/-- Graphs that are built node after node, in which what is called is defined and no accumulator is
handed from stage to stage. -/
structure Graph.Uniform (G : Graph) : Prop where
  shared : G.Shared
  ascending : G.Ascending
  calls : ∀ id fn args, Node.call id fn args ∈ G.nodes → ∃ i name body, fn = .defun i name body
  varyings : ∀ id m, Node.varying id m ∈ G.nodes → ∀ i name start,
    ¬ (Node.accumulator i name start).Within m

theorem Graph.Uniform.child (hG : G.Uniform) (hn : n ∈ G.nodes) (hm : m ∈ n.children) :
    m ∈ G.nodes ∧ m.id < n.id :=
  ⟨G.closed n hn m hm, hG.ascending n hn m hm⟩

/-- The result has the profile of the node, and so has all that the session holds. -/
def profiled (G : Graph) : Judgement := fun n _ s g s' _ =>
  n ∈ G.nodes → s.Profiled G → s'.Profiled G ∧ s'.Fits G n.profile g

theorem profiled_threads {ns : List Node} {t : Trace}
    (h : Threads (grows.both ((profiled G).below bound)) c ns s gs s' t)
    (hns : ∀ n ∈ ns, n ∈ G.nodes ∧ n.id < bound) (hs : s.Profiled G) :
    s'.Profiled G ∧ Forall₂ (s'.Fits G) (ns.map Node.profile) gs := by
  induction h with
  | nil => exact ⟨hs, .nil⟩
  | cons hn hrest ih =>
    obtain ⟨⟨hmem, hid⟩, hns⟩ := forall_mem_cons.mp hns
    obtain ⟨hs1, hg⟩ := hn.2 hid hmem hs
    obtain ⟨hs2, hgs⟩ := ih hns hs1
    have hgrows := hrest.growing fun h => h.1
    exact ⟨hs2, .cons (hg.mono hgrows.memo.subset) hgs⟩

theorem Opens.below (hG : G.Uniform) (ho : Opens g start s1 m s2 bind) (hb : s.Fits G body.profile g)
    (hbody : body ∈ G.nodes ∧ body.id < bound) (hstart : start ∈ G.nodes ∧ start.id < bound) :
    m ∈ G.nodes ∧ m.id < bound := by
  cases ho with
  | parameter | own => exact hstart
  | @accumulated a rest ha =>
    have haccs := hb.accumulators
    rw [ha] at haccs
    cases hslots : body.profile.slots with
    | nil =>
      rw [hslots] at haccs
      cases haccs
    | cons l ls =>
      rw [hslots] at haccs
      rcases haccs with _ | ⟨hstands, -⟩
      obtain ⟨name, hnode⟩ := hstands.node
      obtain ⟨name', start', hw, -⟩ := Node.mem_slots (hslots ▸ mem_cons_self)
      have hlt : a.initial.id < l.id := hG.ascending _ hnode a.initial mem_cons_self
      have hle : l.id ≤ body.id := hG.ascending.id_le hbody.1 hw
      exact ⟨G.only_mem hnode rfl, (hlt.trans_le hle).trans hbody.2⟩

theorem profiled_rules (hG : G.Uniform) (bound : Nat) :
    OpenRules (grows.both ((profiled G).below bound)) grows ((profiled G).below (bound + 1)) where
  immediate := by
    intro n c s g s' vs hi hr hbare _ ha _ _ hn hs
    refine ⟨hs.advance ha, ?_⟩
    rw [Node.profile_immediate hi]
    refine .bare hbare ?_
    cases n with
    | absent | float | bool | uniform => cases hr; rfl
    | «attribute» id a => rw [(Step.readAttribute_eq hr).1]; rfl
    | _ => cases hi
  reuse := by
    intro n c s g s' vs hm _ ht ha hA _ hn hs
    refine ⟨hs.advance ha, ?_⟩
    cases ht with
    | reference he => exact (hs.memo n hn hm _ (mem_of_lookup he)).reference
    | again he | whole he => exact (hs.memo n hn hm _ (mem_of_lookup he)).mono hA.memo.subset
  compute := by
    intro n c s gs s1 t g s2 hp _ ht hr ho _ hid hn hs
    have hops : ∀ m ∈ n.operands, m ∈ G.nodes ∧ m.id < bound + 1 := fun m hm =>
      ⟨G.operand_mem hp hn hm,
        (hG.ascending n hn m (Node.children_of_isPlain hp ▸ hm)).trans hid⟩
    obtain ⟨hs1, hgs⟩ := profiled_threads ht hops hs
    have hcall : ∀ id fn args, n = .call id fn args →
        ∃ os' o t, n.operands.map Node.profile = os' ++ [o] ∧ o.returns = some t := by
      rintro id fn args rfl
      obtain ⟨i, name, body, rfl⟩ := hG.calls id fn args hn
      exact ⟨args.map Node.profile, _, _, by rw [Node.operands, map_append, map_singleton], rfl⟩
    have hg := hs1.step ht.length hgs hcall hp hr
    rw [← Node.profile_plain hp] at hg
    obtain ⟨vs, ha⟩ := ho.advance
    have hg2 : s2.Fits G n.profile g := hg.mono (ha.memo ▸ List.Subset.refl _)
    refine ⟨(hs1.advance ha).remember hG.shared hn ?_ hg2 c, hg2.mono (subset_cons_self ..)⟩
    rintro id name start rfl
    cases hp
  loop := by
    rintro id body count start c s gi s1 t1 s2 gb s3 t2 m s4 bind gm s5 t3 g s6
      _ hcount _ ha2 hbody hopens hinit _ rfl ha6 _ hid hn hs
    have hpart (m : Node) (hm : m ∈ [count, body, start]) : m ∈ G.nodes ∧ m.id < bound :=
      ⟨G.closed _ hn m hm, (hG.ascending _ hn m hm).trans_le (Nat.le_of_lt_succ hid)⟩
    have hcountPart := hpart count (by simp)
    have hbodyPart := hpart body (by simp)
    obtain ⟨hs1, hgi⟩ := hcount.2 (Nat.lt_succ_of_lt hcountPart.2) hcountPart.1 hs
    obtain ⟨hs3, hgb⟩ := hbody.2 (Nat.lt_succ_of_lt hbodyPart.2) hbodyPart.1 (hs1.advance ha2).openScope
    have hs4 := hs3.congr hopens.memo (hopens.functions ▸ hs3.functions) hopens.grows.counter
    obtain ⟨hmMem, hmId⟩ := hopens.below hG hgb hbodyPart (hpart start (by simp))
    obtain ⟨hs5, hgm⟩ := hinit.2 hmId hmMem hs4
    -- what was found about the parts still holds after the initial value
    have hlater : s3.memo ⊆ s5.memo := hopens.memo ▸ hinit.1.memo.subset
    have hearlier : s1.memo ⊆ s3.memo := ha2.memo ▸ hbody.1.memo.subset
    obtain ⟨hm, hrest⟩ := (hgb.mono hlater).opening hopens
    have hg : s5.Fits G (Node.sumLoop id body count start).profile _ :=
      hs5.loop (hgb.mono hlater) (hgi.mono (List.Subset.trans hearlier hlater))
        (by rw [hopens.initial, ← hm]; exact hgm) (hrest gm) s5.counter
    have hg6 : s6.Fits G _ _ := hg.mono (ha6.memo ▸ List.Subset.refl _)
    refine ⟨(hs5.advance ha6).remember hG.shared hn ?_ hg6 c, hg6.mono (subset_cons_self ..)⟩
    intro i name start' h
    cases h
  accumulator := by
    rintro id name start c s s1 g0 s0 t0 g s2 s3 hl _ hprobe _ ha hg rfl _ hid hn hs
    obtain ⟨hchild, hlt⟩ := hG.child hn (mem_singleton_self start)
    obtain ⟨-, hstart⟩ := hprobe.2 (hlt.trans hid) hchild (Session.profiled_new ..)
    have hform := Form.advance (Step.accumulatorForm name start g0.type s3.counter) c [] s3.bump
    refine (hs.advance ha).rememberAccumulator hG.shared hn ?_ hstart.type ((Session.Advance.bump c s3).trans hform)
      ?_ hg
    · rw [ha.memo]
      exact hs.not_mem_of_lookup hn hl
    · rw [Form.session_counter]
      exact Nat.lt_succ_of_lt (Nat.lt_succ_self _)
  knownFunction := by
    rintro id name body c s f g s' hf _ rfl ha _ _ hn hs
    have hreturns := hs.functions id name body hn f (mem_of_lookup hf)
    exact ⟨hs.advance ha, rfl, fun t ht => ⟨f, rfl, hreturns.trans (Option.some.inj ht)⟩, .nil⟩
  newFunction := by
    rintro id name body c s gb s1 t f s2 g s3 _ hb _ _ rfl rfl ha _ hid hn hs
    obtain ⟨hchild, hlt⟩ := hG.child hn (mem_singleton_self body)
    obtain ⟨hs1, hgb⟩ := hb.2 (hlt.trans hid) hchild hs.openScope
    have hreturns : (Step.functionOf id name gb).returns = body.type := hgb.type
    exact ⟨(hs1.define hG.shared hn hreturns).advance ha, rfl,
      fun t ht => ⟨_, rfl, hreturns.trans (Option.some.inj ht)⟩, .nil⟩
  varying := by
    intro id n c s g s1 t r s2 _ hop hr _ hid hn hs
    obtain ⟨hchild, hlt⟩ := hG.child hn (mem_singleton_self n)
    obtain ⟨hs1, hg⟩ := hop.2 (hlt.trans hid) hchild hs
    obtain ⟨s3, ha, rfl, rfl⟩ := Step.readVarying_eq hr
    obtain ⟨hcounter, -, hmemo, hfunctions, -⟩ :=
      s3.updateRegistry_same c.stage (·.addVarying (Step.varyingDef id g))
    have hs3 := hs1.advance ha
    refine ⟨hs3.congr hmemo (hfunctions ▸ hs3.functions) (Nat.le_of_eq hcounter.symm), hg.type, ?_, .nil⟩
    intro t ht
    cases ht
  strayVarying := by
    intro id n c s g s1 t _ hop _ hid hn hs
    obtain ⟨hchild, hlt⟩ := hG.child hn (mem_singleton_self n)
    obtain ⟨hs1, hg⟩ := hop.2 (hlt.trans hid) hchild (hs.advance (.report _ _ _))
    -- an accumulator would be left to the loops around the varying
    have hnone : n.profile.slots = [] := by
      rw [eq_nil_iff_forall_not_mem]
      intro l hl
      obtain ⟨name, start, hw, -⟩ := Node.mem_slots hl
      exact hG.varyings id n hn _ _ _ hw
    have haccs := hg.accumulators
    rw [hnone] at haccs
    exact ⟨hs1, hg.type, fun t ht => (by cases ht), haccs⟩

theorem profiled_of_generate (hG : G.Uniform) (hr : (n.generate c).run s = (g, s')) (hn : n ∈ G.nodes)
    (hs : s.Profiled G) : s'.Profiled G ∧ s'.Fits G n.profile g := by
  have h := OpenRules.graded (profiled_rules hG) grows_everywhere n.id n c s (Nat.lt_succ_self _) hn hs
  change ((n.generate c).run s).2.Profiled G ∧ ((n.generate c).run s).2.Fits G n.profile ((n.generate c).run s).1 at h
  rwa [hr] at h

theorem type_of_probe (hG : G.Uniform) (hn : n ∈ G.nodes) (c : Scope) (s : Session) :
    ((probe c n.generate).run s).1 = n.type :=
  (profiled_of_generate hG (c := .lone c.stage) rfl hn (Session.profiled_new s.nextId s.folding)).2.type

theorem Usage.Reachable.profiled (hG : G.Uniform) {u : Usage} (hu : u.Reachable G) : u.session.Profiled G := by
  obtain ⟨u0, hinit, hsteps⟩ := hu
  induction hsteps with
  | refl => cases hinit <;> exact Session.profiled_new ..
  | tail _ hstep ih =>
    cases hstep with
    | functionBody | loopBody => exact ih.openScope
    | call _ hn => exact (profiled_of_generate hG rfl hn ih).1

/-- In a graph that is built node after node, in which every call is of a function that is defined and
no accumulator stands below a varying, a node has one type: in every scope of every session, folding or
not and whatever was evaluated before, it evaluates to a result of that type, and so do the probes of
its type before and after. An accumulator has the type of its initial value. -/
theorem Usage.Reachable.types_uniform (hshared : G.Shared) (hascending : G.Ascending)
    (hcalls : ∀ id fn args, Node.call id fn args ∈ G.nodes → ∃ i name body, fn = .defun i name body)
    (hvaryings : ∀ id m, Node.varying id m ∈ G.nodes → ∀ i name start,
      ¬ (Node.accumulator i name start).Within m)
    {u : Usage} (hu : u.Reachable G) {n : Node} (hn : n ∈ G.nodes) (c : Scope) {g : Generated}
    {s : Session} (hr : (n.generate c).run u.session = (g, s)) :
    g.type = n.type ∧ ((probe c n.generate).run u.session).1 = n.type ∧
      ((probe c n.generate).run s).1 = n.type ∧
      ∀ a ∈ g.accumulators, a.initial ∈ G.nodes ∧ a.type = a.initial.type := by
  have hG : G.Uniform := ⟨hshared, hascending, hcalls, hvaryings⟩
  obtain ⟨-, hg⟩ := profiled_of_generate hG hr hn (hu.profiled hG)
  refine ⟨hg.type, type_of_probe hG hn c _, type_of_probe hG hn c _, fun a ha => ?_⟩
  obtain ⟨i, hi, rfl⟩ := List.getElem_of_mem ha
  have hstands := hg.accumulators.get hi (hg.accumulators.length_eq ▸ hi)
  obtain ⟨name, hnode⟩ := hstands.node
  exact ⟨G.closed _ hnode _ List.mem_cons_self, hstands.type⟩

/-! ## A loop that sums vectors -/

/-- A running sum that starts at a vector. -/
def driftSum : Node := .accumulator 2 "drift" (.uniform 1 { id := 1, type := .vec2 })

/-- The loop is given a float to start from, but binds the running sum. -/
def driftLoop : Node := .sumLoop 6 (.operator 4 .add [driftSum, .float 3 1]) (.float 5 4) (.float 3 1)

/-- The loop in a function, whose value the fragment stage adds to one of the vertex stage. -/
def driftFunction : Node := .defun 7 "drift" driftLoop

def driftCall : Node := .call 8 driftFunction []

def driftTotal : Node := .operator 10 .add [driftCall, .varying 9 (.float 3 1)]

def driftNodes : List Node :=
  [.uniform 1 { id := 1, type := .vec2 }, driftSum, .float 3 1, .operator 4 .add [driftSum, .float 3 1],
    .float 5 4, driftLoop, driftFunction, driftCall, .varying 9 (.float 3 1), driftTotal]

def driftGraph : Graph := .ofList driftNodes <| by
  simp [driftNodes, driftTotal, driftCall, driftFunction, driftLoop, driftSum, Node.children, Node.operands]

/-- The fragment stage evaluates the total, then a loop in the vertex stage is opened. -/
def driftUsage : Usage :=
  let u0 : Usage := ⟨{ nextId := 11, folding := true }, [.vertexMain, .fragmentMain], []⟩
  let u1 := u0.call .fragmentMain driftTotal
  u1.enter (Scope.vertexMain.loopBody u1.session.nextScope)

theorem driftUsage_reachable : driftUsage.Reachable driftGraph := by
  have h0 : Usage.Reachable ⟨{ nextId := 11, folding := true }, [.vertexMain, .fragmentMain], []⟩
      driftGraph := ⟨_, .pair 11 true, .refl⟩
  have hn : driftTotal ∈ driftNodes := by simp [driftNodes]
  have h1 := h0.step (.call (c := .fragmentMain) (by decide) hn)
  exact h1.step (.loopBody (c := .vertexMain) (by decide))

/-- The loop has the type of the running sum, in a loop of the vertex stage as in the function. -/
theorem driftUsage_types_uniform :
    driftLoop.type = .vec2 ∧ driftTotal.type = .vec2 ∧ ∀ n ∈ driftGraph.nodes, ∀ c g s,
      (n.generate c).run driftUsage.session = (g, s) →
      g.type = n.type ∧ ((probe c n.generate).run driftUsage.session).1 = n.type ∧
        ((probe c n.generate).run s).1 = n.type ∧
        ∀ a ∈ g.accumulators, a.initial ∈ driftGraph.nodes ∧ a.type = a.initial.type := by
  have hshared : driftGraph.Shared := Graph.shared_ofList (by decide)
  have hascending : ∀ n ∈ driftNodes, ∀ m ∈ n.children, m.id < n.id := by decide
  have hcalls : ∀ id fn args, Node.call id fn args ∈ driftNodes → ∃ i name body, fn = .defun i name body := by
    intro id fn args h
    have hfn : fn = driftFunction := by
      simp [driftNodes, driftTotal, driftCall, driftFunction, driftLoop, driftSum] at h
      simp [h, driftFunction, driftLoop, driftSum]
    exact ⟨_, _, _, hfn⟩
  have hvaryings : ∀ id m, Node.varying id m ∈ driftNodes → ∀ i name start,
      ¬ (Node.accumulator i name start).Within m := by
    intro id m h i name start hw
    have hm : m = .float 3 1 := by
      simp [driftNodes, driftTotal, driftCall, driftFunction, driftLoop, driftSum] at h
      exact h.2
    rw [hm] at hw
    rcases hw with _ | ⟨hk, -⟩
    exact absurd hk List.not_mem_nil
  refine ⟨by decide, by decide, fun n hn c g s hr => ?_⟩
  exact Usage.Reachable.types_uniform hshared hascending hcalls hvaryings driftUsage_reachable hn c hr

end ShaderGraph
