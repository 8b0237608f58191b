import Mathlib.Order.Nat
import ShaderGraph.Proofs.Objects
import ShaderGraph.Proofs.Readiness

/-!
# Mounting

Linking takes handles that no earlier object has: `Rig.Linked` says that what is linked already is
left alone. It is carried along by `Link.Ensures`, whether linking succeeds or fails, and so is whether a
call has failed. Jobs are tried in turn, and `Trial` is what is left of a try. A successful mount leaves
jobs that are ready.
-/

namespace ShaderGraph

open Render List

variable {n p h : Handle} {g g1 g2 g' : Rig} {w : Workspace} {cs : List DeviceCall} {c : DeviceCall}
  {call : Handle → DeviceCall} {t : Texture} {unit number : Nat} {job : Job} {m : MountedJob}
  {surface : Surface} {jobs given : List (Option Nat)} {E : LinkError → Prop}

/-- Every uniform and attribute was staged when it was made. -/
structure Workspace.Started (w : Workspace) : Prop where
  uniforms : ∀ u, 0 < (w.uniformState u).version
  attributes : ∀ a, 0 < (w.attributeState a).version

/-! ## Linking -/

/-- The state has changed neither programs and buffers before `n` nor textures and framebuffers
before `k`. -/
structure Gpu.Spares (n k : Handle) (g g' : Gpu) : Prop where
  uniforms : ∀ h < n, g'.uniforms h = g.uniforms h
  buffers : ∀ h < n, g'.buffers h = g.buffers h
  images : ∀ h < k, g'.images h = g.images h
  attached : ∀ h < k, g'.attached h = g.attached h

/-- Renderers that differ only in the lists of what was created and in what they show to callers. -/
structure Renderer.Alike (r r' : Renderer) : Prop where
  jobs : r'.jobs = r.jobs
  dropped : r'.dropped = r.dropped
  width : r'.width = r.width
  height : r'.height = r.height
  plains : r'.plains = r.plains
  pairs : r'.pairs = r.pairs

def FeedbackPair.textures (p : FeedbackPair) : List Handle := [p.first.texture, p.second.texture]

/-- Before the first frame: every pair starts with its first buffer, and no two buffers are the same. -/
structure Renderer.Unturned (r : Renderer) : Prop where
  frame : r.frame = 0
  fed : ∀ p ∈ r.pairs, p.texture.feedback = true
  even : ∀ p ∈ r.pairs, p.odd = false
  textures : (r.pairs.flatMap (·.textures)).Nodup

/-- From one rig to another by linking, which leaves alone the programs and buffers before handle
`n` and the textures that exist. -/
structure Rig.Linked (w : Workspace) (n : Handle) (g g' : Rig) : Prop where
  stored : g'.Stored w
  quietly : g.Quietly g'
  gpu : g.gpu.Spares n g.device.nextHandle g'.gpu
  jobs : g'.renderer.jobs = g.renderer.jobs
  dropped : g'.renderer.dropped = g.renderer.dropped
  width : g'.renderer.width = g.renderer.width
  height : g'.renderer.height = g.renderer.height
  plains : g.renderer.plains <+: g'.renderer.plains
  pairs : g.renderer.pairs <+: g'.renderer.pairs
  unturned : g.renderer.Unturned → g'.renderer.Unturned

theorem Gpu.Spares.refl (n k : Handle) (g : Gpu) : g.Spares n k g :=
  ⟨fun _ _ => rfl, fun _ _ => rfl, fun _ _ => rfl, fun _ _ => rfl⟩

theorem Gpu.Spares.trans {k k' : Handle} {g g1 g2 : Gpu} (h : g.Spares n k g1) (h' : g1.Spares n k' g2)
    (hk : k ≤ k') : g.Spares n k g2 where
  uniforms i hi := (h'.uniforms i hi).trans (h.uniforms i hi)
  buffers i hi := (h'.buffers i hi).trans (h.buffers i hi)
  images i hi := (h'.images i (hi.trans_le hk)).trans (h.images i hi)
  attached i hi := (h'.attached i (hi.trans_le hk)).trans (h.attached i hi)

theorem Renderer.Alike.refl (r : Renderer) : r.Alike r := ⟨rfl, rfl, rfl, rfl, rfl, rfl⟩

theorem Renderer.Alike.trans {r r1 r2 : Renderer} (h : r.Alike r1) (h' : r1.Alike r2) : r.Alike r2 :=
  ⟨h'.jobs.trans h.jobs, h'.dropped.trans h.dropped, h'.width.trans h.width, h'.height.trans h.height,
    h'.plains.trans h.plains, h'.pairs.trans h.pairs⟩

/-- The program in use and what programs hold stay the same. -/
structure Gpu.Quiet (g g' : Gpu) : Prop where
  program : g'.program = g.program
  uniforms : g'.uniforms = g.uniforms

theorem Gpu.Quiet.refl (g : Gpu) : g.Quiet g := ⟨rfl, rfl⟩

theorem Gpu.Quiet.trans {g g1 g2 : Gpu} (h : g.Quiet g1) (h' : g1.Quiet g2) : g.Quiet g2 :=
  ⟨h'.program.trans h.program, h'.uniforms.trans h.uniforms⟩

namespace Rig.Linked

theorem calls (h : g.Linked w n g1) : g.device.calls <+: g1.device.calls := by
  obtain ⟨cs, hm, -⟩ := h.quietly
  exact ⟨cs, hm.calls.symm⟩

theorem next (h : g.Linked w n g1) : g.device.nextHandle ≤ g1.device.nextHandle := by
  obtain ⟨cs, hm, -⟩ := h.quietly
  exact hm.next

theorem refl (h : g.Stored w) : g.Linked w n g :=
  ⟨h, .logged g g.log, .refl .., rfl, rfl, rfl, rfl, prefix_refl _, prefix_refl _, id⟩

theorem trans (h : g.Linked w n g1) (h' : g1.Linked w n g2) : g.Linked w n g2 where
  stored := h'.stored
  quietly := h.quietly.trans h'.quietly
  gpu := h.gpu.trans h'.gpu h.next
  jobs := h'.jobs.trans h.jobs
  dropped := h'.dropped.trans h.dropped
  width := h'.width.trans h.width
  height := h'.height.trans h.height
  plains := h.plains.trans h'.plains
  pairs := h.pairs.trans h'.pairs
  unturned hu := h'.unturned (h.unturned hu)

theorem spared (h : g.Stored w) (hr : g.renderer.Alike g1.renderer) (hq : g.Quietly g1)
    (hs : g.gpu.Spares n g.device.nextHandle g1.gpu) : g.Linked w n g1 := by
  obtain ⟨cs, hm, -, hframe⟩ := id hq
  exact
    { stored := h.keep hr.plains hr.pairs hm.next (fun p hp => hs.images _ (h.plains p hp).1) hs.attached
      quietly := hq
      gpu := hs
      jobs := hr.jobs
      dropped := hr.dropped
      width := hr.width
      height := hr.height
      plains := hr.plains ▸ prefix_refl _
      pairs := hr.pairs ▸ prefix_refl _
      unturned := fun hu => ⟨hframe.trans hu.frame, hr.pairs ▸ hu.fed, hr.pairs ▸ hu.even, hr.pairs ▸ hu.textures⟩ }

theorem addPair {p : FeedbackPair} (hg : g.Stored w) (hf : p.first.Sound g) (hs : p.second.Sound g)
    (hfed : p.texture.feedback = true) (hodd : p.odd = false) (hlt : p.first.texture < p.second.texture)
    (hnew : ∀ q ∈ g.renderer.pairs, ∀ t ∈ q.textures, t < p.first.texture) :
    g.Linked w n { g with renderer := { g.renderer with pairs := g.renderer.pairs ++ [p] } } where
  stored :=
    { next := hg.next
      plains := hg.plains
      apart := hg.apart
      targets := by
        have htargets : ∀ q ∈ g.renderer.pairs ++ [p], q.first.Sound g ∧ q.second.Sound g :=
          forall_mem_append.mpr ⟨hg.targets, forall_mem_singleton.mpr ⟨hf, hs⟩⟩
        exact fun q hq => ⟨(htargets q hq).1.keep rfl (Nat.le_refl _) fun _ _ => rfl,
          (htargets q hq).2.keep rfl (Nat.le_refl _) fun _ _ => rfl⟩ }
  quietly := .unchanged rfl rfl rfl
  gpu := .refl ..
  jobs := rfl
  dropped := rfl
  width := rfl
  height := rfl
  plains := prefix_refl _
  pairs := prefix_append _ _
  unturned hu := by
    refine ⟨hu.frame, forall_mem_append.mpr ⟨hu.fed, forall_mem_singleton.mpr hfed⟩,
      forall_mem_append.mpr ⟨hu.even, forall_mem_singleton.mpr hodd⟩, ?_⟩
    rw [flatMap_append, flatMap_singleton]
    refine nodup_append.mpr ⟨hu.textures, by simp [FeedbackPair.textures, hlt.ne], ?_⟩
    intro a ha b hb
    obtain ⟨q, hq, ha⟩ := mem_flatMap.mp ha
    have hle : p.first.texture ≤ b := by
      rcases mem_pair.mp hb with rfl | rfl
      · exact Nat.le_refl _
      · exact hlt.le
    exact ((hnew q hq a ha).trans_le hle).ne

end Rig.Linked

theorem Rig.Linked.addPlain {p : PlainTexture} (hg : g.Stored w) (hlt : p.handle < g.device.nextHandle)
    (hh : p.Holds w g.gpu.images) (hplains : ∀ q ∈ g.renderer.plains, q.handle ≠ p.handle)
    (hpairs : ∀ q ∈ g.renderer.pairs, p.handle ≠ q.first.texture ∧ p.handle ≠ q.second.texture) :
    g.Linked w n { g with renderer := { g.renderer with plains := g.renderer.plains ++ [p] } } where
  stored :=
    { next := hg.next
      plains q hq := by
        rcases mem_append.mp hq with hq | hq
        · exact hg.plains q hq
        · rw [mem_singleton.mp hq]
          exact ⟨hlt, hh⟩
      apart q hq q' hq' heq := by
        rcases mem_append.mp hq with hq | hq <;> rcases mem_append.mp hq' with hq' | hq'
        · exact hg.apart q hq q' hq' heq
        · rw [mem_singleton.mp hq'] at heq
          exact absurd heq (hplains q hq)
        · rw [mem_singleton.mp hq] at heq
          exact absurd heq.symm (hplains q' hq')
        · rw [mem_singleton.mp hq, mem_singleton.mp hq']
      targets q hq := by
        have hadd : ∀ b : TargetBuffer, b.Sound g → p.handle ≠ b.texture →
            b.Sound { g with renderer := { g.renderer with plains := g.renderer.plains ++ [p] } } := by
          intro b hb hne
          refine ⟨hb.texture, hb.framebuffer, hb.attached, fun q hq => ?_⟩
          rcases mem_append.mp hq with hq | hq
          · exact hb.plains q hq
          · rw [mem_singleton.mp hq]
            exact hne
        obtain ⟨h1, h2⟩ := hg.targets q hq
        exact ⟨hadd _ h1 (hpairs q hq).1, hadd _ h2 (hpairs q hq).2⟩ }
  quietly := .unchanged rfl rfl rfl
  gpu := .refl ..
  jobs := rfl
  dropped := rfl
  width := rfl
  height := rfl
  plains := prefix_append _ _
  pairs := prefix_refl _
  unturned hu := ⟨hu.frame, hu.fed, hu.even, hu.textures⟩

theorem Link.run_bind {α β : Type} (x : Link α) (f : α → Link β) (g : Rig) :
    (x >>= f).run.run g = match x.run.run g with
      | (.ok a, g') => (f a).run.run g'
      | (.error e, g') => (.error e, g') := by
  rw [ExceptT.run_bind, StateT.run_bind]
  rcases x.run.run g with ⟨_ | a, g'⟩ <;> rfl

/-- How linking ends, by its calls: one of them has failed if the device is blamed, and none if linking
succeeds. Errors of other kinds are as `E` says. -/
def Link.Ends {α : Type} (E : LinkError → Prop) (cs : List DeviceCall) : Except LinkError α → Prop
  | .ok _ => ∀ c ∈ cs, c.failed = false
  | .error e => (∃ d, e = .device d ∧ ∃ c ∈ cs, c.failed = true) ∨ E e

/-- Linking from a rig goes on as `Rig.Linked` says, and where it succeeds also as `post` says. -/
def Link.Ensures {α : Type} (E : LinkError → Prop) (w : Workspace) (n : Handle) (x : Link α) (g : Rig)
    (post : α → Rig → Prop) : Prop :=
  g.Linked w n (x.run.run g).2 ∧
    (∃ cs, (x.run.run g).2.device.calls = g.device.calls ++ cs ∧ Ends E cs (x.run.run g).1) ∧
    ∀ a, (x.run.run g).1 = .ok a → post a (x.run.run g).2

namespace Link.Ensures

variable {α β : Type} {x : Link α} {f : α → Link β} {post : α → Rig → Prop} {post' : β → Rig → Prop}

theorem bind (hx : x.Ensures E w n g post)
    (hf : ∀ a g', g.Linked w n g' → post a g' → (f a).Ensures E w n g' post') :
    (x >>= f).Ensures E w n g post' := by
  unfold Ensures at hx ⊢
  rw [Link.run_bind]
  obtain ⟨hlinked, ⟨cs, hcalls, hends⟩, hpost⟩ := hx
  rcases hr : x.run.run g with ⟨_ | a, g'⟩
  · rw [hr] at hlinked hcalls hends
    exact ⟨hlinked, ⟨cs, hcalls, hends⟩, fun _ h => by cases h⟩
  · rw [hr] at hlinked hcalls hends hpost
    obtain ⟨hlinked', ⟨ds, hcalls', hends'⟩, hpost'⟩ := hf a g' hlinked (hpost a rfl)
    refine ⟨hlinked.trans hlinked', ⟨cs ++ ds, ?_, ?_⟩, hpost'⟩
    · rw [hcalls', hcalls, append_assoc]
    · rcases hr' : ((f a).run.run g').1 with e | b
      · rw [hr'] at hends'
        exact hends'.imp_left fun ⟨d, he, c, hc, hfailed⟩ => ⟨d, he, c, mem_append_right _ hc, hfailed⟩
      · rw [hr'] at hends'
        exact forall_mem_append.mpr ⟨hends, hends'⟩

theorem pure {a : α} (hg : g.Stored w) (h : post a g) : (pure a : Link α).Ensures E w n g post :=
  ⟨.refl hg, ⟨[], (append_nil _).symm, forall_mem_nil _⟩, by rintro _ ⟨⟩; exact h⟩

theorem throw {e : LinkError} (hg : g.Stored w) (he : E e) : (throw e : Link α).Ensures E w n g post :=
  ⟨.refl hg, ⟨[], (append_nil _).symm, .inr he⟩, by rintro _ ⟨⟩⟩

theorem lift {x : Render α} (hl : g.Linked w n (x.run g).2)
    (hc : (x.run g).2.device.calls = g.device.calls ++ cs) (hcs : ∀ c ∈ cs, c.isInner)
    (h : post (x.run g).1 (x.run g).2) : Link.Ensures E w n (liftM x : Link α) g post :=
  ⟨hl, ⟨cs, hc, fun c hmem => (DeviceCall.isInner_iff.mp (hcs c hmem)).2.2.2⟩, by rintro _ ⟨⟩; exact h⟩

theorem still {x : Render α} (hl : g.Linked w n (x.run g).2) (hd : (x.run g).2.device = g.device)
    (h : post (x.run g).1 (x.run g).2) : Link.Ensures E w n (liftM x : Link α) g post :=
  .lift hl (by rw [hd, append_nil]) (forall_mem_nil _) h

theorem mono {post1 : α → Rig → Prop} (hx : x.Ensures E w n g post)
    (h : ∀ a g', g.Linked w n g' → post a g' → post1 a g') : x.Ensures E w n g post1 :=
  ⟨hx.1, hx.2.1, fun a ha => h a _ hx.1 (hx.2.2 a ha)⟩

end Link.Ensures

/-! ## Device calls -/

/-- How a creation ends: with the next handle, or with none. -/
inductive Device.Creates (d : Device) (call : Handle → DeviceCall) :
    Except DeviceError Handle × Device → Prop where
  | made {d' : Device} (next : d'.nextHandle = d.nextHandle + 1)
      (calls : d'.calls = d.calls ++ [call d.nextHandle]) : Creates d call (.ok d.nextHandle, d')
  | failed {e : DeviceError} {d' : Device} (next : d'.nextHandle = d.nextHandle)
      (calls : d'.calls = d.calls ++ [call 0]) : Creates d call (.error e, d')

theorem Device.creates_create (d : Device) (k : Fallible) (call : Handle → DeviceCall) :
    d.Creates call (d.create k call) := by
  unfold create
  split
  · exact .failed rfl rfl
  · exact .made rfl rfl

theorem Device.creates_compileProgram (d : Device) (vertex fragment : String) :
    d.Creates (.compileProgram vertex fragment) (d.compileProgram vertex fragment) := by
  unfold compileProgram
  split
  · exact .failed rfl rfl
  · split
    · exact .failed rfl rfl
    · exact .made rfl rfl

theorem Device.locate_keeps (d : Device) (p : Handle) (name : String) :
    (d.locate p name).2.calls = d.calls ∧ (d.locate p name).2.nextHandle = d.nextHandle := by
  unfold locate
  split
  · exact ⟨rfl, rfl⟩
  · split <;> exact ⟨rfl, rfl⟩

theorem Rig.gpu_of_calls (h : g'.device.calls = g.device.calls ++ [c]) : g'.gpu = g.gpu.step c := by
  rw [gpu, h, Gpu.run_append]
  rfl

theorem Rig.Linked.answered {d : Device} (hg : g.Stored w) (hn : d.nextHandle = g.device.nextHandle)
    (hc : d.calls = g.device.calls ++ cs) (hcs : ∀ c ∈ cs, c.isInner)
    (hs : g.gpu.Spares n g.device.nextHandle (g.gpu.run cs)) : g.Linked w n { g with device := d } := by
  have hgpu : ({ g with device := d } : Rig).gpu = g.gpu.run cs := by
    rw [Rig.gpu, hc, Gpu.run_append]
    rfl
  exact .spared hg (.refl _) (.inner hcs hc hn rfl) (hgpu ▸ hs)

/-- From one rig to another by creating an object under the next handle. -/
structure Rig.Made (g : Rig) (call : Handle → DeviceCall) (h : Handle) (g' : Rig) : Prop where
  handle : h = g.device.nextHandle
  next : g'.device.nextHandle = h + 1
  calls : g'.device.calls = g.device.calls ++ [call h]
  renderer : g.renderer.Alike g'.renderer

/-- From one rig to another by a question that changes nothing. -/
structure Rig.Told (g : Rig) (c : DeviceCall) (g' : Rig) : Prop where
  calls : g'.device.calls = g.device.calls ++ [c]
  next : g'.device.nextHandle = g.device.nextHandle
  gpu : g'.gpu = g.gpu
  renderer : g'.renderer = g.renderer

theorem Rig.Made.mem (hm : g.Made call h g') : call h ∈ g'.device.calls := by
  rw [hm.calls]
  exact mem_concat_self

theorem Rig.Told.mem (ht : g.Told c g') : c ∈ g'.device.calls := by
  rw [ht.calls]
  exact mem_concat_self

theorem Rig.Made.gpu (hm : g.Made call h g') : g'.gpu = g.gpu.step (call h) :=
  Rig.gpu_of_calls hm.calls

def Renderer.own (k : ObjectKind) (h : Handle) (r : Renderer) : Renderer :=
  match k with
  | .program => { r with programs := r.programs ++ [h] }
  | .buffer => { r with buffers := r.buffers ++ [h] }
  | .texture => { r with textures := r.textures ++ [h] }
  | .framebuffer => { r with framebuffers := r.framebuffers ++ [h] }

theorem Renderer.alike_own (k : ObjectKind) (h : Handle) (r : Renderer) : r.Alike (r.own k h) := by
  cases k <;> exact ⟨rfl, rfl, rfl, rfl, rfl, rfl⟩

theorem Renderer.owned_own (k k' : ObjectKind) (h : Handle) (r : Renderer) :
    (r.own k h).owned k' = r.owned k' ++ if k' = k then [h] else [] := by
  cases k <;> cases k' <;> simp [own, owned]

namespace Link

section
variable (hg : g.Stored w)
include hg

theorem ensures_create {α : Type} {f : Device → Except DeviceError Handle × Device} (k : ObjectKind)
    (result : Handle → α) (hf : ∀ d : Device, d.Creates call (f d))
    (hcall : ∀ h, (call h).created? = DeviceObject.made? k h ∧ (call h).deleted? = none ∧
      (call h).isBeat = false ∧ (call h).failed = decide (h = 0))
    (hs : ∀ h, h = 0 ∨ h = g.device.nextHandle → g.gpu.Spares n g.device.nextHandle (g.gpu.step (call h))) :
    Link.Ensures E w n (do let h ← attempt f; update (.own k h); pure (result h)) g fun a g' =>
      ∃ h, a = result h ∧ g.Made call h g' := by
  have hrun : (attempt f).run.run g =
      ((f g.device).1.mapError .device, { g with device := (f g.device).2 }) := rfl
  unfold Ensures
  rw [Link.run_bind, hrun]
  have hc := hf g.device
  generalize f g.device = r at hc
  cases hc with
  | @made d next calls =>
    obtain ⟨hcreated, hdeleted, hquiet, hfailed⟩ := hcall g.device.nextHandle
    have hr := g.renderer.alike_own k g.device.nextHandle
    have hquietly : g.Quietly { g with device := d, renderer := g.renderer.own k g.device.nextHandle } :=
      ⟨_, .made hg.next hcreated hdeleted calls next (fun k' => Renderer.owned_own k k' _ _)
        (by cases k <;> rfl), by simp [hquiet], by cases k <;> rfl⟩
    have hgpu : Rig.gpu { g with device := d, renderer := g.renderer.own k g.device.nextHandle } =
        g.gpu.step (call g.device.nextHandle) := Rig.gpu_of_calls calls
    refine ⟨.spared hg hr hquietly (hgpu ▸ hs _ (.inr rfl)), ⟨_, calls, forall_mem_singleton.mpr ?_⟩, ?_⟩
    · rw [hfailed]
      exact decide_eq_false hg.next.ne'
    · rintro _ ⟨⟩
      exact ⟨_, rfl, rfl, next, calls, hr⟩
  | @failed e d next calls =>
    obtain ⟨hcreated, hdeleted, hquiet, hfailed⟩ := hcall 0
    have hgpu : Rig.gpu { g with device := d } = g.gpu.step (call 0) := Rig.gpu_of_calls calls
    refine ⟨.spared hg (.refl _) (.neutral ⟨hcreated, hdeleted⟩ (by simp [hquiet]) calls next rfl)
      (hgpu ▸ hs _ (.inl rfl)), ⟨_, calls, .inl ⟨e, rfl, _, mem_cons_self, hfailed⟩⟩, ?_⟩
    rintro _ ⟨⟩

theorem ensures_update {f : Renderer → Renderer} (hf : g.renderer.Alike (f g.renderer))
    (ho : (f g.renderer).owned = g.renderer.owned) (hd : (f g.renderer).disposed = g.renderer.disposed)
    (hframe : (f g.renderer).frame = g.renderer.frame) :
    Link.Ensures E w n (liftM (update f)) g fun _ g' => g' = { g with renderer := f g.renderer } :=
  .still (.spared hg hf (.unchanged ho hd hframe) (.refl ..)) rfl rfl

theorem ensures_renderer : Link.Ensures E w n (liftM renderer) g fun r g' => g.renderer = r ∧ g = g' :=
  .still (.refl hg) rfl ⟨rfl, rfl⟩

theorem ensures_issue (hc : c.isInner) (hs : g.gpu.Spares n g.device.nextHandle (g.gpu.step c)) :
    Link.Ensures E w n (liftM (issue c)) g fun _ g' => g' = g.issued [c] :=
  .lift (.answered hg rfl rfl (forall_mem_singleton.mpr hc) hs) rfl (forall_mem_singleton.mpr hc) rfl

theorem ensures_createProgram (vertex fragment : String) :
    (createProgram vertex fragment).Ensures E w n g (g.Made (.compileProgram vertex fragment)) := by
  refine (ensures_create hg .program id (·.creates_compileProgram vertex fragment)
    (fun _ => ⟨rfl, rfl, rfl, rfl⟩) fun _ _ => .refl ..).mono ?_
  rintro _ g' - ⟨p, rfl, hp⟩
  exact hp

theorem ensures_createBuffer : createBuffer.Ensures E w n g (g.Made .createBuffer) := by
  refine (ensures_create hg .buffer id (·.creates_create _ _) (fun _ => ⟨rfl, rfl, rfl, rfl⟩)
    fun _ _ => .refl ..).mono ?_
  rintro _ g' - ⟨b, rfl, hb⟩
  exact hb

theorem ensures_createTexture (width height : Int) (rgba : Option (List UInt8)) :
    (createTexture width height rgba).Ensures E w n g (g.Made (.createTexture width height rgba)) := by
  have hspare : ∀ t, t = 0 ∨ t = g.device.nextHandle →
      g.gpu.Spares n g.device.nextHandle (g.gpu.step (.createTexture width height rgba t)) := by
    rintro t (rfl | rfl)
    · exact .refl ..
    · rw [Gpu.step, if_neg hg.next.ne']
      exact ⟨fun _ _ => rfl, fun _ _ => rfl,
        fun i hi => Function.update_of_ne hi.ne _ _, fun _ _ => rfl⟩
  refine (ensures_create hg .texture id (·.creates_create _ _) (fun _ => ⟨rfl, rfl, rfl, rfl⟩) hspare).mono ?_
  rintro _ g' - ⟨t, rfl, ht⟩
  exact ht

theorem ensures_located {f : Device → Int × Device} {call : Int → DeviceCall} (p : Handle) (name : String)
    (hf : ∀ d, f d = ((d.locate p name).1, (d.locate p name).2.record (call (d.locate p name).1)))
    (hcall : ∀ l, g.gpu.step (call l) = g.gpu ∧ (call l).isInner) :
    (Link.ask f).Ensures E w n g fun l => g.Told (call l) := by
  obtain ⟨hc, hn⟩ := g.device.locate_keeps p name
  have hc' : (f g.device).2.calls = g.device.calls ++ [call (f g.device).1] := by
    rw [hf]
    exact congrArg (· ++ [_]) hc
  have hn' : (f g.device).2.nextHandle = g.device.nextHandle := by
    rw [hf]
    exact hn
  obtain ⟨hstep, hinner⟩ := hcall (f g.device).1
  refine .lift (.answered hg hn' hc' (forall_mem_singleton.mpr hinner) ?_) hc'
    (forall_mem_singleton.mpr hinner) ⟨hc', hn', ?_, rfl⟩
  · rw [Gpu.run_cons, Gpu.run_nil, hstep]
    exact .refl ..
  · exact (Rig.gpu_of_calls hc').trans hstep

theorem ensures_uniformLocation (p : Handle) (name : String) :
    (Link.ask (·.uniformLocation p name)).Ensures E w n g fun l => g.Told (.uniformLocation p name l) :=
  ensures_located hg p name (fun _ => rfl) fun _ => ⟨rfl, rfl⟩

theorem ensures_attributeLocation (p : Handle) (name : String) :
    (Link.ask (·.attributeLocation p name)).Ensures E w n g fun l =>
      g.Told (.attributeLocation p name l) :=
  ensures_located hg p name (fun _ => rfl) fun _ => ⟨rfl, rfl⟩

/-! ### Textures -/

theorem ensures_createTarget :
    createTarget.Ensures E w n g fun b g' => b.Sound g' ∧ g.device.nextHandle ≤ b.texture ∧
      g.gpu.Quiet g'.gpu ∧ g.renderer.Alike g'.renderer := by
  refine (ensures_createTexture hg 1 1 none).bind fun t g1 h1 ht => ?_
  have hspare : ∀ f, f = 0 ∨ f = g1.device.nextHandle →
      g1.gpu.Spares n g1.device.nextHandle (g1.gpu.step (.createFramebuffer t f)) := by
    rintro f (rfl | rfl)
    · exact .refl ..
    · rw [Gpu.step, if_neg h1.stored.next.ne']
      exact ⟨fun _ _ => rfl, fun _ _ => rfl, fun _ _ => rfl,
        fun i hi => Function.update_of_ne hi.ne _ _⟩
  refine (ensures_create h1.stored .framebuffer (TargetBuffer.mk t) (·.creates_create _ _)
    (fun _ => ⟨rfl, rfl, rfl, rfl⟩) hspare).mono ?_
  rintro _ g2 h2 ⟨f, rfl, hf⟩
  have htf : t < f := by
    rw [hf.handle, ht.next]
    exact Nat.lt_succ_self t
  have hgpu : g2.gpu = { g1.gpu with attached := Function.update g1.gpu.attached f (some t) } := by
    rw [hf.gpu, Gpu.step, if_neg (Nat.zero_lt_of_lt htf).ne']
  have hgpu1 : g.gpu.Quiet g1.gpu := by
    rw [ht.gpu, Gpu.step]
    split <;> exact ⟨rfl, rfl⟩
  refine ⟨⟨?_, ?_, ?_, ?_⟩, Nat.le_of_eq ht.handle.symm, ?_, ht.renderer.trans hf.renderer⟩
  · exact htf.trans (hf.next ▸ Nat.lt_succ_self f)
  · exact hf.next ▸ Nat.lt_succ_self f
  · rw [hgpu]
    exact Function.update_self ..
  · intro p hp
    rw [hf.renderer.plains, ht.renderer.plains] at hp
    exact ht.handle ▸ (hg.plains p hp).1.ne
  · rw [hgpu]
    exact ⟨hgpu1.program, hgpu1.uniforms⟩

theorem ensures_feedback (hf : t.feedback = true) :
    (feedback t).Ensures E w n g fun _ g' => g.gpu.Quiet g'.gpu ∧ ∃ p ∈ g'.renderer.pairs, p.texture = t := by
  refine (ensures_renderer hg).bind ?_
  rintro _ _ - ⟨rfl, rfl⟩
  split
  · refine (ensures_createTarget hg).bind ?_
    rintro first g1 h1 ⟨hs1, hnew1, hq1, hr1⟩
    refine (ensures_createTarget h1.stored).bind ?_
    rintro second g2 h2 ⟨hs2, hnew2, hq2, hr2⟩
    have hlt : first.texture < second.texture := hs1.texture.trans_le hnew2
    have hs1 : first.Sound g2 := hs1.keep hr2.plains h2.next h2.gpu.attached
    have hold : ∀ q ∈ g2.renderer.pairs, ∀ t ∈ q.textures, t < first.texture := by
      rw [hr2.pairs, hr1.pairs]
      intro q hq
      obtain ⟨hf, hs⟩ := hg.targets q hq
      exact forall_mem_cons.mpr ⟨hf.texture.trans_le hnew1,
        forall_mem_singleton.mpr (hs.texture.trans_le hnew1)⟩
    exact .still (.addPair h2.stored hs1 hs2 hf rfl hlt hold) rfl ⟨hq1.trans hq2, _, mem_concat_self, rfl⟩
  · next hp =>
    rw [Option.isNone_iff_eq_none, ← Option.not_isSome_iff_eq_none, not_not,
      Renderer.pair?_isSome] at hp
    exact .pure hg ⟨.refl _, hp⟩

theorem ensures_plain (t : Texture) :
    (plain w t).Ensures E w n g fun _ g' => g.gpu.Quiet g'.gpu ∧
      ∃ p ∈ g'.renderer.plains, p.texture = t := by
  refine (ensures_renderer hg).bind ?_
  rintro _ _ - ⟨rfl, rfl⟩
  split
  · refine (ensures_renderer hg).bind ?_
    rintro _ _ - ⟨rfl, rfl⟩
    refine (ensures_update hg ⟨rfl, rfl, rfl, rfl, rfl, rfl⟩ rfl rfl rfl).bind ?_
    rintro - g1 h1 rfl
    refine (ensures_createTexture h1.stored _ _ _).bind ?_
    intro t' g2 h2 ht
    have hlt : t' < g2.device.nextHandle := ht.next ▸ Nat.lt_succ_self t'
    have hgpu : g2.gpu = { g.gpu with
        images := Function.update g.gpu.images t' (some ⟨(w.textureState t).width,
          (w.textureState t).height, g.renderer.upload (w.textureState t).data⟩) } := by
      rw [ht.gpu, Gpu.step, if_neg (ht.handle ▸ hg.next).ne']
      rfl
    have hholds : PlainTexture.Holds w g2.gpu.images ⟨t, t', (w.textureState t).version⟩ := by
      rw [hgpu]
      exact ⟨UInt64.le_refl _, fun _ => ⟨_, Function.update_self .., rfl, rfl,
        Renderer.getD_upload ..⟩⟩
    refine .still (.addPlain h2.stored hlt hholds ?_ ?_) rfl ⟨?_, _, mem_concat_self, rfl⟩
    · intro q hq
      rw [ht.renderer.plains] at hq
      exact ht.handle ▸ (hg.plains q hq).1.ne
    · intro q hq
      rw [ht.renderer.pairs] at hq
      obtain ⟨hf, hs⟩ := hg.targets q hq
      exact ht.handle ▸ ⟨hf.texture.ne', hs.texture.ne'⟩
    · change g.gpu.Quiet g2.gpu
      rw [hgpu]
      exact ⟨rfl, rfl⟩
  · next hp =>
    rw [Option.isNone_iff_eq_none, ← Option.not_isSome_iff_eq_none, not_not,
      Renderer.plain?_isSome] at hp
    exact .pure hg ⟨.refl _, hp⟩

end

/-- From one rig to another by making a texture and telling a program its unit. -/
structure Placed (p : Handle) (unit : Nat) (t : Texture) (g g' : Rig) : Prop where
  program : g'.gpu.program = p
  made : g'.renderer.Has t
  location : ∃ l, .uniformLocation p t.name l ∈ g'.device.calls ∧
    (∀ l', (l' = l → l < 0) → g'.gpu.uniforms p l' = g.gpu.uniforms p l') ∧
    (0 ≤ l → g'.gpu.uniforms p l = some [Number.ofInt unit])

theorem ensures_placed (hp : n ≤ p) {k : Link Unit} {post : Unit → Rig → Prop} (hprog : g.gpu.program = p)
    (h1 : g1.Stored w) (hq : g.gpu.Quiet g1.gpu) (ht : g1.renderer.Has t)
    (hk : ∀ g', g1.Linked w n g' → Placed p unit t g g' → k.Ensures E w n g' post) :
    Link.Ensures E w n (do
      let l ← Link.ask (·.uniformLocation p t.name)
      if 0 ≤ l then issue (.setUniform l .sampler2D [Number.ofInt unit])
      k) g1 post := by
  refine (ensures_uniformLocation h1 p t.name).bind fun l g2 h2 htold => ?_
  have hprog2 : g2.gpu.program = p := by rw [htold.gpu, hq.program, hprog]
  have hunif2 : g2.gpu.uniforms = g.gpu.uniforms := by rw [htold.gpu, hq.uniforms]
  have ht2 : g2.renderer.Has t := htold.renderer ▸ ht
  split
  · next hl =>
    have hstep : (g2.gpu.step (.setUniform l .sampler2D [Number.ofInt unit])).uniforms =
        Function.update g.gpu.uniforms p
          (Function.update (g.gpu.uniforms p) l (some [Number.ofInt unit])) := by
      rw [← hunif2, ← hprog2]
      rfl
    refine (ensures_issue h2.stored rfl ?_).bind ?_
    · refine ⟨fun h hh => ?_, fun _ _ => rfl, fun _ _ => rfl, fun _ _ => rfl⟩
      rw [hstep, hunif2]
      exact Function.update_of_ne (hh.trans_le hp).ne _ _
    · rintro - g3 h3 rfl
      refine hk _ (h2.trans h3) ⟨?_, ht2, l, h3.calls.subset htold.mem, fun l' hl' => ?_, fun _ => ?_⟩
      · exact (congrArg Gpu.program (Rig.gpu_issued ..)).trans hprog2
      · have hne : l' ≠ l := fun heq => absurd hl (Int.not_le.mpr (hl' heq))
        rw [Rig.gpu_issued, Gpu.run_cons, Gpu.run_nil, hstep, Function.update_self,
          Function.update_of_ne hne]
      · rw [Rig.gpu_issued, Gpu.run_cons, Gpu.run_nil, hstep, Function.update_self,
          Function.update_self]
  · next hl =>
    exact hk g2 h2 ⟨hprog2, ht2, l, htold.mem, fun l' _ => by rw [hunif2], fun h0 => absurd h0 hl⟩

/-- From one rig to another by making textures and telling a program their units. -/
structure Sampled (p : Handle) (unit : Nat) (ts : List Texture) (g g' : Rig) : Prop where
  program : g'.gpu.program = p
  made : ∀ t ∈ ts, g'.renderer.Has t
  others : ∀ l, (∀ t ∈ ts, .uniformLocation p t.name l ∈ g'.device.calls → l < 0) →
    g'.gpu.uniforms p l = g.gpu.uniforms p l
  units : Separates g'.device.calls → (ts.map (·.id)).Nodup → ∀ (i : Nat) t, ts[i]? = some t →
    ∃ l, .uniformLocation p t.name l ∈ g'.device.calls ∧
      (0 ≤ l → g'.gpu.uniforms p l = some [Number.ofInt (unit + i : Nat)])

theorem Sampled.cons {ts : List Texture} (ht : Placed p unit t g g1) (hl : g1.Linked w n g')
    (h : Sampled p (unit + 1) ts g1 g') : Sampled p unit (t :: ts) g g' := by
  obtain ⟨l, hloc, hothers, hunit⟩ := ht.location
  refine ⟨h.program, forall_mem_cons.mpr ⟨ht.made.mono hl.plains hl.pairs, h.made⟩, ?_, ?_⟩
  · intro l' hl'
    obtain ⟨hfirst, hrest⟩ := forall_mem_cons.mp hl'
    rw [h.others l' hrest]
    exact hothers l' fun heq => heq ▸ hfirst (heq ▸ hl.calls.subset hloc)
  · intro hsep hd i t' hi
    obtain ⟨hnew, hd⟩ := nodup_cons.mp hd
    cases i with
    | zero =>
      obtain rfl : t = t' := by simpa using hi
      refine ⟨l, hl.calls.subset hloc, fun h0 => ?_⟩
      rw [h.others l fun t' ht' hloc' => ?_]
      · exact hunit h0
      · -- another texture at this location would be this one
        have hid := uniformName_inj (hsep.uniforms (hl.calls.subset hloc) hloc' h0)
        exact absurd (mem_map.mpr ⟨t', ht', hid.symm⟩) hnew
    | succ i =>
      obtain ⟨l', hl', hv⟩ := h.units hsep hd i t' (by simpa using hi)
      refine ⟨l', hl', fun h0 => ?_⟩
      rw [hv h0, Nat.add_assoc, Nat.add_comm 1 i]

theorem ensures_samplers (hp : n ≤ p) (ts : List Texture) (unit : Nat) (hg : g.Stored w)
    (hprog : g.gpu.program = p) : (samplers w p unit ts).Ensures E w n g fun _ => Sampled p unit ts g := by
  induction ts generalizing unit g with
  | nil => exact .pure hg ⟨hprog, by simp, fun _ _ => rfl, by simp⟩
  | cons t ts ih =>
    have hrest : ∀ g1, Placed p unit t g g1 → g1.Stored w →
        (samplers w p (unit + 1) ts).Ensures E w n g1 fun _ => Sampled p unit (t :: ts) g :=
      fun g1 ht h1 => (ih (unit + 1) h1 ht.program).mono fun _ _ h' hs => .cons ht h' hs
    unfold samplers
    split
    · next hf =>
      refine (ensures_feedback hg hf).bind fun _ g1 h1 hpost => ?_
      have hmade : g1.renderer.Has t := ⟨fun _ => hpost.2, fun hf' => absurd (hf.symm.trans hf') (by decide)⟩
      exact ensures_placed hp hprog h1.stored hpost.1 hmade fun g2 h2 ht => hrest g2 ht h2.stored
    · next hf =>
      refine (ensures_plain hg t).bind fun _ g1 h1 hpost => ?_
      have hmade : g1.renderer.Has t := ⟨fun hf' => absurd hf' hf, fun _ => hpost.2⟩
      exact ensures_placed hp hprog h1.stored hpost.1 hmade fun g2 h2 ht => hrest g2 ht h2.stored

/-! ### Jobs -/

/-- New slots of a program. -/
structure UniformsLocated (p : Handle) (us : List Uniform) (ss : List UniformSlot) (g g' : Rig) : Prop where
  gpu : g'.gpu = g.gpu
  uniforms : ss.map (·.uniform) = us
  unsent : ∀ s ∈ ss, s.sent = 0
  locations : ∀ s ∈ ss, .uniformLocation p s.uniform.name s.location ∈ g'.device.calls

theorem ensures_uniformSlots (p : Handle) (us : List Uniform) (hg : g.Stored w) :
    (uniformSlots p us).Ensures E w n g fun ss => UniformsLocated p us ss g := by
  induction us generalizing g with
  | nil => exact .pure hg ⟨rfl, rfl, by simp, by simp⟩
  | cons u us ih =>
    refine (ensures_uniformLocation hg p u.name).bind fun l g1 h1 htold => ?_
    refine (ih h1.stored).bind fun ss g2 h2 hss => ?_
    refine .pure h2.stored ⟨hss.gpu.trans htold.gpu, congrArg (u :: ·) hss.uniforms, ?_, ?_⟩
    · exact forall_mem_cons.mpr ⟨rfl, hss.unsent⟩
    · exact forall_mem_cons.mpr ⟨h2.calls.subset htold.mem, hss.locations⟩

structure AttributesLocated (p : Handle) (as : List Attribute) (ss : List AttributeSlot) (g g' : Rig) :
    Prop where
  gpu : g'.gpu = g.gpu
  attributes : ss.map (·.source) = as
  unsent : ∀ s ∈ ss, s.sent = 0
  locations : ∀ s ∈ ss, .attributeLocation p s.source.name s.location ∈ g'.device.calls
  buffers : (ss.map (·.buffer)).Nodup
  fresh : ∀ s ∈ ss, g.device.nextHandle ≤ s.buffer ∧ s.buffer < g'.device.nextHandle

theorem ensures_attributeSlots (p : Handle) (as : List Attribute) (hg : g.Stored w) :
    (attributeSlots p as).Ensures E w n g fun ss => AttributesLocated p as ss g := by
  induction as generalizing g with
  | nil => exact .pure hg ⟨rfl, rfl, by simp, by simp, nodup_nil, by simp⟩
  | cons a as ih =>
    refine (ensures_createBuffer hg).bind fun b g1 h1 hb => ?_
    refine (ensures_attributeLocation h1.stored p a.name).bind fun l g2 h2 htold => ?_
    refine (ih h2.stored).bind fun ss g3 h3 hss => ?_
    have hb2 : g2.device.nextHandle = b + 1 := htold.next.trans hb.next
    refine .pure h3.stored ⟨?_, congrArg (a :: ·) hss.attributes, ?_, ?_, ?_, ?_⟩
    · exact hss.gpu.trans (htold.gpu.trans hb.gpu)
    · exact forall_mem_cons.mpr ⟨rfl, hss.unsent⟩
    · exact forall_mem_cons.mpr ⟨h3.calls.subset htold.mem, hss.locations⟩
    · refine nodup_cons.mpr ⟨fun hmem => ?_, hss.buffers⟩
      obtain ⟨s, hs, heq⟩ := mem_map.mp hmem
      have hle : b + 1 ≤ s.buffer := hb2 ▸ (hss.fresh s hs).1
      exact Nat.not_succ_le_self b (hle.trans (Nat.le_of_eq heq))
    · refine forall_mem_cons.mpr ⟨⟨Nat.le_of_eq hb.handle.symm, ?_⟩, fun s hs => ?_⟩
      · exact Nat.lt_of_lt_of_le (hb2 ▸ Nat.lt_succ_self b) h3.next
      · exact ⟨(h1.next.trans h2.next).trans (hss.fresh s hs).1, (hss.fresh s hs).2⟩

theorem ensures_sendUniforms {ss : List UniformSlot} (hg : g.Stored w) (hp : n ≤ g.gpu.program) :
    Link.Ensures E w n (liftM (sendUniforms w ss)) g fun ss' g' =>
      ss' = ss.map (·.refreshed w) ∧ g' = g.issued (ss.flatMap (·.sends w)) := by
  have hrun := run_sendUniforms w ss g
  have hinner : ∀ c ∈ ss.flatMap (·.sends w), c.isInner := by
    intro c hc
    obtain ⟨s, -, hs⟩ := mem_flatMap.mp hc
    obtain ⟨v, -, rfl⟩ := Option.map_eq_some_iff.mp (Option.mem_toList.mp hs)
    rfl
  refine .lift ?_ (by rw [hrun]; rfl) hinner (by rw [hrun]; exact ⟨rfl, rfl⟩)
  rw [hrun]
  refine .answered hg rfl rfl hinner ?_
  rw [Gpu.run_uniformSends]
  exact ⟨fun h hh => Function.update_of_ne (hh.trans_le hp).ne _ _,
    fun _ _ => rfl, fun _ _ => rfl, fun _ _ => rfl⟩

/-- What linking a job gives: a job with handles of its own, and one that is ready if everything was
staged and the device keeps names apart. -/
structure Mounts (w : Workspace) (number : Nat) (job : Job) (m : MountedJob) (g g' : Rig) : Prop where
  number : m.job = number
  textures : m.textures = job.textures
  target : m.target = job.feedback?
  made : ∀ t ∈ m.textures, g'.renderer.Has t
  handles : m.handles.Nodup
  fresh : ∀ h ∈ m.handles, g.device.nextHandle ≤ h
  old : ∀ h ∈ m.handles, h < g'.device.nextHandle
  ready : w.Started → g.renderer.width = 0 → Separates g'.device.calls → job.Identified →
    m.Ready w g'.device.calls g' job

theorem Mounts.keep (h : Mounts w number job m g g1) (hl : g1.Linked w n g2) (hgpu : g2.gpu = g1.gpu) :
    Mounts w number job m g g2 :=
  { h with
    made := fun t ht => (h.made t ht).mono hl.plains hl.pairs
    old := fun i hi => (h.old i hi).trans_le hl.next
    ready := fun hst hwidth hsep hid => by
      have hm := (h.ready hst hwidth (hsep.mono hl.calls) hid).mono hl.calls
      exact hm.keep hl.next hl.width hl.height (by rw [hgpu]) (fun _ _ => by rw [hgpu])
        fun t ht => ht.mono hl.plains hl.pairs }

theorem Mounts.sendUniforms (h : Mounts w number job m g g1) (hp : g1.gpu.program = m.program) :
    Mounts w number job (m.refreshUniforms w) g (g1.issued (m.uniforms.flatMap (·.sends w))) :=
  { h with
    ready := fun hst hwidth hsep hid => by
      have hcalls : g1.device.calls <+: (g1.issued (m.uniforms.flatMap (·.sends w))).device.calls :=
        prefix_append ..
      have hsep1 := hsep.mono hcalls
      exact ((h.ready hst hwidth hsep1 hid).sendUniforms hsep1 hid hp).mono hcalls }

theorem ready_of_unsent {log : List DeviceCall} (hst : w.Started)
    (hk : w.jobs[m.job]? = some job) (hw : m.Wired log job) (hh : ∀ h ∈ m.handles, h < g.device.nextHandle)
    (hus : ∀ s ∈ m.uniforms, s.sent = 0) (has : ∀ s ∈ m.attributes, s.sent = 0)
    (hts : ∀ t ∈ m.textures, g.renderer.Has t)
    (hunits : ∀ (i : Nat) t, m.textures[i]? = some t → ∃ l, .uniformLocation m.program t.name l ∈ log ∧
      (0 ≤ l → g.gpu.uniforms m.program l = some [Number.ofInt i]))
    (hwidth : g.renderer.width = 0) : m.Ready w log g job where
  known := hk
  wired := hw
  handles := hh
  shows := ⟨fun s hs => .unsent (hst.uniforms _) (hus s hs), hunits,
    fun hpos => absurd (hwidth ▸ hpos) (Int.lt_irrefl 0)⟩
  attributes s hs := .unsent (hst.attributes _) (has s hs)
  textures := hts

theorem ensures_job (hk : w.jobs[number]? = some job) (hg : g.Stored w) :
    (Link.job w number job).Ensures E w g.device.nextHandle g fun m => Mounts w number job m g := by
  unfold Link.job
  refine (ensures_createProgram hg _ _).bind fun p g1 h1 hp => ?_
  refine (ensures_uniformLocation h1.stored p _).bind fun l g2 h2 hl => ?_
  refine (ensures_issue h2.stored rfl ⟨fun _ _ => rfl, fun _ _ => rfl, fun _ _ => rfl, fun _ _ => rfl⟩).bind ?_
  rintro - g3 h3 rfl
  have hprog3 := g2.program_issued_useProgram p
  have hnp : g.device.nextHandle ≤ p := Nat.le_of_eq hp.handle.symm
  refine (ensures_uniformSlots p _ h3.stored).bind fun us g4 h4 hus => ?_
  have hprog4 : g4.gpu.program = p := hus.gpu ▸ hprog3
  refine (ensures_samplers hnp job.textures 0 h4.stored hprog4).bind fun _ g5 h5 hts => ?_
  refine (ensures_attributeSlots p _ h5.stored).bind fun as g6 h6 has => ?_
  have h46 := h5.trans h6
  have h26 := (h3.trans h4).trans h46
  have hprog6 : g6.gpu.program = p := has.gpu ▸ hts.program
  have hp5 : p < g5.device.nextHandle :=
    Nat.lt_of_lt_of_le (hp.next ▸ Nat.lt_succ_self p) (h2.trans (h3.trans (h4.trans h5))).next
  have hold : ∀ h ∈ p :: as.map (·.buffer), h < g6.device.nextHandle :=
    forall_mem_cons.mpr ⟨hp5.trans_le h6.next,
      forall_mem_map.mpr fun s hs => (has.fresh s hs).2⟩
  have hwired (elements : Handle) : MountedJob.Wired g6.device.calls job
      ⟨number, p, l, us, as, job.textures, elements, job.feedback?⟩ :=
    { program := (h2.trans h26).calls.subset hp.mem
      resolution := h26.calls.subset hl.mem
      uniforms := hus.uniforms
      uniformLocations := fun s hs => h46.calls.subset (hus.locations s hs)
      attributes := has.attributes
      attributeLocations := has.locations
      textures := rfl
      target := rfl }
  have hmounts (elements : Handle) : Mounts w number job
      ⟨number, p, l, us, as, job.textures, elements, job.feedback?⟩ g g6 := by
    have hmade : ∀ t ∈ job.textures, g6.renderer.Has t :=
      fun t ht => (hts.made t ht).mono h6.plains h6.pairs
    refine ⟨rfl, rfl, rfl, hmade, ?_, ?_, hold, fun hst hwidth hsep hid => ?_⟩
    · refine nodup_cons.mpr ⟨fun hmem => ?_, has.buffers⟩
      obtain ⟨s, hs, heq⟩ := mem_map.mp hmem
      exact (hp5.trans_le (has.fresh s hs).1).ne' heq
    · refine forall_mem_cons.mpr ⟨hnp, forall_mem_map.mpr fun s hs => ?_⟩
      exact Nat.le_trans (h1.trans (h2.trans (h3.trans (h4.trans h5)))).next (has.fresh s hs).1
    · refine ready_of_unsent hst hk (hwired elements) hold hus.unsent has.unsent hmade (fun i t hi => ?_)
        ((h1.trans (h2.trans h26)).width.trans hwidth)
      have hnodup := (nodup_append.mp hid.uniforms).2.1
      obtain ⟨l', hl', hv⟩ := hts.units (hsep.mono h6.calls) hnodup i t hi
      exact ⟨l', h6.calls.subset hl', fun h0 => by rw [has.gpu, hv h0, Nat.zero_add]⟩
  have hlast (elements : Handle) (g7 : Rig) (h7 : g6.Linked w g.device.nextHandle g7)
      (hgpu : g7.gpu = g6.gpu) :
      Link.Ensures E w g.device.nextHandle (do
        let uniforms ← sendUniforms w us
        pure {
          job := number
          program := p
          resolution := l
          uniforms, attributes := as, elements
          textures := job.textures
          target := job.feedback? }) g7 fun m => Mounts w number job m g := by
    have hprog7 : g7.gpu.program = p := hgpu ▸ hprog6
    refine (ensures_sendUniforms h7.stored (hprog7 ▸ hnp)).bind ?_
    rintro _ g8 h8 ⟨rfl, rfl⟩
    exact .pure h8.stored (((hmounts elements).keep h7 hgpu).sendUniforms hprog7)
  split
  · exact hlast 0 g6 (.refl h6.stored) rfl
  · refine (ensures_createBuffer h6.stored).bind fun b g7 h7 hb => ?_
    refine (ensures_issue h7.stored rfl (.refl ..)).bind ?_
    rintro - g8 h8 rfl
    exact hlast b _ (h7.trans h8) ((Rig.gpu_issued ..).trans hb.gpu)

end Link

/-- The blit program samples unit zero, and its quad covers the canvas. -/
structure Gpu.Blits (b : BlitProgram) (g : Gpu) : Prop where
  sampler : g.uniforms b.program b.texture = some [0]
  quad : g.buffers b.quad = some Build.quadVertices

theorem Link.ensures_blit (hg : g.Stored w) :
    Link.blit.Ensures (· = .incompleteBlit) w g.device.nextHandle g fun _ g' => g'.gpu.Blits g'.renderer.blit ∧
      g.device.nextHandle ≤ g'.renderer.blit.program ∧ g.device.nextHandle ≤ g'.renderer.blit.quad := by
  refine (ensures_createProgram hg _ _).bind fun p g1 h1 hp => ?_
  refine (ensures_createBuffer h1.stored).bind fun b g2 h2 hb => ?_
  have hprogram : g.device.nextHandle ≤ p := Nat.le_of_eq hp.handle.symm
  have hbuf : g.device.nextHandle ≤ b := hb.handle ▸ h1.next
  refine (ensures_issue h2.stored rfl ⟨fun _ _ => rfl, fun i hi => ?_, fun _ _ => rfl, fun _ _ => rfl⟩).bind ?_
  · exact Function.update_of_ne (hi.trans_le hbuf).ne _ _
  rintro - g3 h3 rfl
  refine (ensures_attributeLocation h3.stored p _).bind fun position g4 h4 ht4 => ?_
  refine (ensures_uniformLocation h4.stored p _).bind fun texture g5 h5 ht5 => ?_
  have hquad : g5.gpu.buffers b = some Build.quadVertices := by
    rw [ht5.gpu, ht4.gpu, Rig.gpu_issued]
    exact Function.update_self ..
  refine (ensures_update h5.stored ⟨rfl, rfl, rfl, rfl, rfl, rfl⟩ rfl rfl rfl).bind ?_
  rintro - g6 h6 rfl
  split
  · have hthrow : (throw .incompleteBlit : Link Unit).Ensures (· = .incompleteBlit) w g.device.nextHandle _
        fun _ _ => False := .throw h6.stored rfl
    exact hthrow.bind fun _ _ _ h => h.elim
  · refine (ensures_issue h6.stored rfl ⟨fun _ _ => rfl, fun _ _ => rfl, fun _ _ => rfl, fun _ _ => rfl⟩).bind ?_
    rintro - g7 h7 rfl
    refine (ensures_issue h7.stored rfl ⟨fun i hi => ?_, fun _ _ => rfl, fun _ _ => rfl, fun _ _ => rfl⟩).mono ?_
    · refine Function.update_of_ne ?_ _ _
      rw [Rig.program_issued_useProgram, hp.handle]
      exact hi.ne
    · rintro - g8 h8 rfl
      refine ⟨⟨?_, ?_⟩, hprogram, hbuf⟩
      · rw [Rig.gpu_issued, Rig.gpu_issued]
        simp [Gpu.step]
      · rw [Rig.gpu_issued, Rig.gpu_issued]
        exact hquad

/-! ## Mounting -/

/-- How mounting ends: it is refused, or fails with the renderer disposed of, or succeeds. -/
inductive Rig.MountEnds (w : Workspace) (surface : Surface) (jobs : List (Option Nat)) (g : Rig) :
    Except MountError Unit × Rig → Prop where
  | refused (e : MountError) (reason : surface = .device → g.device.instancing = true → jobs = []) :
      MountEnds w surface jobs g (.error e, g)
  | dropped (e : MountError) (all : ((linkJobs w 0 jobs).run g).2.renderer.jobs = []) :
      MountEnds w surface jobs g (.error e, (dispose.run ((linkJobs w 0 jobs).run g).2).2)
  | failed {e : LinkError} {g' : Rig} (pairs : ((linkJobs w 0 jobs).run g).2.renderer.pairs ≠ [])
      (blit : Link.blit.run.run ((linkJobs w 0 jobs).run g).2 = (.error e, g')) :
      MountEnds w surface jobs g (.error (.blit e), (dispose.run g').2)
  | plain (fields : List (String × Log.Value)) (some : ((linkJobs w 0 jobs).run g).2.renderer.jobs ≠ [])
      (pairs : ((linkJobs w 0 jobs).run g).2.renderer.pairs = []) :
      MountEnds w surface jobs g (.ok (),
        ((say .debug "glrender: mounted" fields).run ((linkJobs w 0 jobs).run g).2).2)
  | mounted {g' : Rig} (fields : List (String × Log.Value))
      (some : ((linkJobs w 0 jobs).run g).2.renderer.jobs ≠ [])
      (blit : Link.blit.run.run ((linkJobs w 0 jobs).run g).2 = (.ok (), g')) :
      MountEnds w surface jobs g (.ok (), ((say .debug "glrender: mounted" fields).run g').2)

theorem Render.mount_ends (w : Workspace) (surface : Surface) (jobs : List (Option Nat)) (g : Rig) :
    g.MountEnds w surface jobs ((mount w surface jobs).run g) := by
  unfold mount
  cases surface with
  | none | withoutDevice | failing => exact .refused _ (by rintro ⟨⟩)
  | device =>
    rw [run_bind, run_get]
    split_ifs with hins hnone
    · exact .refused _ fun _ h => by simp [h] at hins
    · exact .refused _ fun _ _ => List.isEmpty_iff.mp hnone
    · rw [run_bind, run_bind, run_renderer]
      dsimp only
      split_ifs with hjobs hpairs
      · exact .dropped _ (List.isEmpty_iff.mp hjobs)
      · exact .plain _ (mt List.isEmpty_iff.mpr hjobs) (List.isEmpty_iff.mp hpairs)
      · rw [run_bind]
        rcases hb : Link.blit.run.run ((linkJobs w 0 jobs).run g).2 with ⟨e | u, g'⟩
        · exact .failed (mt List.isEmpty_iff.mpr hpairs) hb
        · exact .mounted _ (mt List.isEmpty_iff.mpr hjobs) hb

/-- What is left of trying to link a job: the calls that were made, and the job or why there is none. -/
structure Trial where
  calls : List DeviceCall
  result : Except LinkError MountedJob

/-- The trial of the job with a number. A job that exists and has no errors of its own is linked exactly
if none of its calls fails. -/
inductive Trial.Of (w : Workspace) : Option Nat → Trial → Prop where
  | missing {n : Option Nat} (unknown : n.bind (w.jobs[·]?) = none) : Of w n ⟨[], .error .noJob⟩
  | faulty {n : Nat} {job : Job} {e : String} (known : w.jobs[n]? = some job)
      (error : job.error? = some e) : Of w (some n) ⟨[], .error (.graph e)⟩
  | refused {n : Nat} {job : Job} {cs : List DeviceCall} {e : DeviceError} (known : w.jobs[n]? = some job)
      (sound : job.error? = none) (failed : ∃ c ∈ cs, c.failed = true) :
      Of w (some n) ⟨cs, .error (.device e)⟩
  | linked {n : Nat} {job : Job} {cs : List DeviceCall} {m : MountedJob} (known : w.jobs[n]? = some job)
      (sound : job.error? = none) (made : ∀ c ∈ cs, c.failed = false) (number : m.job = n)
      (textures : m.textures = job.textures) (target : m.target = job.feedback?) : Of w (some n) ⟨cs, .ok m⟩

def Trial.linked (ts : List Trial) : List MountedJob := ts.filterMap (·.result.toOption)

def Trial.dropped : Nat → List Trial → List DroppedJob
  | _, [] => []
  | i, t :: ts => (match t.result with
    | .ok _ => []
    | .error e => [⟨i, e⟩]) ++ dropped (i + 1) ts

/-- What trying to link a job leaves. -/
structure Link.Tried (w : Workspace) (n : Option Nat) (g : Rig) (r : Except LinkError MountedJob) (g' : Rig) : Prop where
  trial : ∃ cs, g'.device.calls = g.device.calls ++ cs ∧ Trial.Of w n ⟨cs, r⟩
  linked : g.Linked w g.device.nextHandle g'
  mounts : ∀ m, r = .ok m → ∃ i job, n = some i ∧ w.jobs[i]? = some job ∧ Link.Mounts w i job m g g'

theorem Render.linkJob_spec (n : Option Nat) (hg : g.Stored w) :
    Link.Tried w n g ((linkJob w n).run.run g).1 ((linkJob w n).run.run g).2 := by
  have hthrow {e : LinkError} (h : Trial.Of w n ⟨[], .error e⟩) (hx : linkJob w n = throw e) :
      Link.Tried w n g ((linkJob w n).run.run g).1 ((linkJob w n).run.run g).2 := by
    rw [hx]
    exact ⟨⟨[], (append_nil _).symm, h⟩, .refl hg, by rintro _ ⟨⟩⟩
  cases n with
  | none => exact hthrow (.missing rfl) rfl
  | some n =>
    cases hjob : w.jobs[n]? with
    | none => exact hthrow (.missing hjob) (by simp only [linkJob, hjob])
    | some job =>
      cases herror : job.error? with
      | some e => exact hthrow (.faulty hjob herror) (by simp only [linkJob, hjob, herror])
      | none =>
        have hx : linkJob w (some n) = Link.job w n job := by simp only [linkJob, hjob, herror]
        obtain ⟨hlinked, ⟨cs, hcalls, hends⟩, hpost⟩ :=
          Link.ensures_job (E := fun _ => False) hjob hg
        rw [hx]
        refine ⟨⟨cs, hcalls, ?_⟩, hlinked, fun m hm => ⟨n, job, rfl, hjob, hpost m hm⟩⟩
        rcases hr : ((Link.job w n job).run.run g).1 with e | m
        · rw [hr] at hends
          obtain ⟨d, rfl, hfailed⟩ := hends.resolve_right id
          exact .refused hjob herror hfailed
        · rw [hr] at hends
          have hm := hpost m hr
          exact .linked hjob herror hends hm.number hm.textures hm.target

/-- The renderer while jobs are mounted, and the rig it is left with. Jobs are among those that were
given by their numbers. -/
structure Rig.Mounting (w : Workspace) (given : List (Option Nat)) (g : Rig) : Prop where
  given : (g.renderer.jobs.map (some ·.job)).Sublist given
  stored : g.Stored w
  disposed : g.renderer.disposed = false
  handles : (g.renderer.jobs.flatMap (·.handles)).Nodup
  ready : Separates g.device.calls → ∀ m ∈ g.renderer.jobs, ∃ job, m.Ready w g.device.calls g job

/-- The job is one of the workspace, and the textures that it samples are made. -/
structure MountedJob.Fits (w : Workspace) (g : Rig) (m : MountedJob) : Prop where
  job : ∃ job, w.jobs[m.job]? = some job ∧ m.textures = job.textures ∧ m.target = job.feedback?
  textures : ∀ t ∈ m.textures, g.renderer.Has t

/-- The renderer while jobs are linked, whatever is staged and wherever the device places names. -/
structure Rig.Linking (w : Workspace) (given : List (Option Nat)) (g : Rig) : Prop where
  given : (g.renderer.jobs.map (some ·.job)).Sublist given
  stored : g.Stored w
  width : g.renderer.width = 0
  disposed : g.renderer.disposed = false
  handles : (g.renderer.jobs.flatMap (·.handles)).Nodup
  old : ∀ h ∈ g.renderer.jobs.flatMap (·.handles), h < g.device.nextHandle
  fits : ∀ m ∈ g.renderer.jobs, m.Fits w g
  unturned : g.renderer.Unturned
  ready : w.Started → (∀ job ∈ w.jobs, job.Identified) → Separates g.device.calls →
    ∀ m ∈ g.renderer.jobs, ∃ job, m.Ready w g.device.calls g job

namespace Rig.Linking

theorem initial (hr : g.renderer = {}) (hn : 0 < g.device.nextHandle) : g.Linking w [] := by
  refine ⟨?_, ⟨hn, ?_, ?_, ?_⟩, ?_, ?_, ?_, ?_, ?_, ⟨?_, ?_, ?_, ?_⟩, ?_⟩ <;> simp [hr]

theorem linked (h : g.Linking w given) (hl : g.Linked w g.device.nextHandle g') : g'.Linking w given where
  given := hl.jobs ▸ h.given
  stored := hl.stored
  width := hl.width.trans h.width
  disposed := by
    obtain ⟨cs, hm, -⟩ := hl.quietly
    exact hm.disposed.trans h.disposed
  handles := hl.jobs ▸ h.handles
  old i hi := (h.old i (hl.jobs ▸ hi)).trans_le hl.next
  fits m hm := by
    obtain ⟨hjob, hts⟩ := h.fits m (hl.jobs ▸ hm)
    exact ⟨hjob, fun t ht => (hts t ht).mono hl.plains hl.pairs⟩
  unturned := hl.unturned h.unturned
  ready hst hids hsep m hm := by
    rw [hl.jobs] at hm
    obtain ⟨job, hj⟩ := h.ready hst hids (hsep.mono hl.calls) m hm
    refine ⟨job, (hj.mono hl.calls).keep hl.next hl.width hl.height ?_ ?_ fun t ht => ht.mono hl.plains hl.pairs⟩
    · exact hl.gpu.uniforms _ (hj.handles _ mem_cons_self)
    · exact fun s hs => hl.gpu.buffers _ (hj.handles _ (mem_cons_of_mem _ (mem_map_of_mem hs)))

theorem said (h : g.Linking w given) (level : Log.Level) (message : String)
    (fields : List (String × Log.Value)) : ((say level message fields).run g).2.Linking w given := by
  obtain ⟨hd, hr⟩ := say_keeps g level message fields
  have hgpu : ((say level message fields).run g).2.gpu = g.gpu := by rw [gpu, hd, gpu]
  exact h.linked (.spared h.stored (hr ▸ .refl _) ((say_quietly ..).step g) (hgpu ▸ .refl ..))

theorem listed (h : g.Linking w given) {given' : List (Option Nat)} {ms : List MountedJob}
    (ds : List DroppedJob) (hgiven : (ms.map (some ·.job)).Sublist given')
    (hhandles : (ms.flatMap (·.handles)).Nodup)
    (hold : ∀ h ∈ ms.flatMap (·.handles), h < g.device.nextHandle) (hfits : ∀ m ∈ ms, m.Fits w g)
    (hready : w.Started → (∀ job ∈ w.jobs, job.Identified) → Separates g.device.calls →
      ∀ m ∈ ms, ∃ job, m.Ready w g.device.calls g job) :
    Rig.Linking w given' { g with renderer := { g.renderer with jobs := ms, dropped := ds } } where
  given := hgiven
  stored := h.stored.keep rfl rfl (Nat.le_refl _) (fun _ _ => rfl) fun _ _ => rfl
  width := h.width
  disposed := h.disposed
  handles := hhandles
  old := hold
  fits m hm :=
    ⟨(hfits m hm).job, fun t ht => ((hfits m hm).textures t ht).mono (prefix_refl _) (prefix_refl _)⟩
  unturned := ⟨h.unturned.frame, h.unturned.fed, h.unturned.even, h.unturned.textures⟩
  ready hst hids hsep m hm := by
    obtain ⟨job, hj⟩ := hready hst hids hsep m hm
    exact ⟨job, hj.keep (Nat.le_refl _) rfl rfl rfl (fun _ _ => rfl)
      fun t ht => ht.mono (prefix_refl _) (prefix_refl _)⟩

theorem drop (h : g.Linking w given) (n : Option Nat) (d : DroppedJob) :
    Rig.Linking w (given ++ [n])
      { g with renderer := { g.renderer with dropped := g.renderer.dropped ++ [d] } } :=
  h.listed _ (h.given.trans (sublist_append_left ..)) h.handles h.old h.fits h.ready

theorem add (h : g.Linking w given) {n : Nat} (hj : w.jobs[n]? = some job)
    (hl : g.Linked w g.device.nextHandle g') (hm : Link.Mounts w n job m g g') :
    Rig.Linking w (given ++ [some n])
      { g' with renderer := { g'.renderer with jobs := g'.renderer.jobs ++ [m] } } := by
  have h' := h.linked hl
  have hflat : ∀ ms : List MountedJob, (ms ++ [m]).flatMap (·.handles) = ms.flatMap (·.handles) ++ m.handles := by
    simp
  refine h'.listed _ ?_ ?_ ?_ ?_ fun hst hids hsep => ?_
  · rw [map_append, map_singleton, hm.number]
    exact h'.given.append (.refl _)
  · rw [hflat]
    refine nodup_append.mpr ⟨h'.handles, hm.handles, fun i hi k hk heq => ?_⟩
    exact absurd (h.old i (hl.jobs ▸ hi)) (Nat.not_lt.mpr (heq ▸ hm.fresh k hk))
  · rw [hflat]
    exact forall_mem_append.mpr ⟨h'.old, hm.old⟩
  · exact forall_mem_append.mpr ⟨h'.fits, forall_mem_singleton.mpr
      ⟨⟨job, hm.number ▸ hj, hm.textures, hm.target⟩, hm.made⟩⟩
  · exact forall_mem_append.mpr ⟨h'.ready hst hids hsep, forall_mem_singleton.mpr
      ⟨job, hm.ready hst h.width hsep (hids job (mem_of_getElem? hj))⟩⟩

end Rig.Linking

theorem Rig.Ticks.listed (h : g.Quietly g') (ms : List MountedJob) (ds : List DroppedJob) :
    g.Quietly { g' with renderer := { g'.renderer with jobs := ms, dropped := ds } } := by
  have hsame : g'.Quietly { g' with renderer := { g'.renderer with jobs := ms, dropped := ds } } :=
    .unchanged rfl rfl rfl
  exact h.trans hsame

/-- Jobs from place `i` on are tried in turn. -/
structure Rig.Tries (w : Workspace) (i : Nat) (ns : List (Option Nat)) (ts : List Trial) (g g' : Rig) :
    Prop where
  trials : Forall₂ (Trial.Of w) ns ts
  calls : g'.device.calls = g.device.calls ++ ts.flatMap (·.calls)
  jobs : g'.renderer.jobs = g.renderer.jobs ++ Trial.linked ts
  dropped : g'.renderer.dropped = g.renderer.dropped ++ Trial.dropped i ts

theorem Rig.Tries.cons {i : Nat} {n : Option Nat} {ns : List (Option Nat)} {t : Trial} {ts : List Trial}
    (h : g.Tries w i [n] [t] g1) (h' : g1.Tries w (i + 1) ns ts g2) : g.Tries w i (n :: ns) (t :: ts) g2 where
  trials := .cons (forall₂_cons.mp h.trials).1 h'.trials
  calls := by rw [h'.calls, h.calls, append_assoc, ← flatMap_append, singleton_append]
  jobs := by
    rw [h'.jobs, h.jobs, append_assoc, Trial.linked, Trial.linked, ← filterMap_append]
    rfl
  dropped := by
    rw [h'.dropped, h.dropped, append_assoc]
    simp only [Trial.dropped, append_nil]

namespace Rig.Linking

theorem linkJobs_step (h : g.Linking w given) (n : Option Nat) (i : Nat) :
    ∃ t g1, (∀ ns, ((linkJobs w i (n :: ns)).run g).2 = ((linkJobs w (i + 1) ns).run g1).2) ∧
      g.Tries w i [n] [t] g1 ∧ g1.Linking w (given ++ [n]) ∧ g.Quietly g1 := by
  obtain ⟨⟨cs, hcalls, htrial⟩, hlinked, hpost⟩ := linkJob_spec n h.stored
  have htrials := Forall₂.cons htrial .nil
  rcases hr : (linkJob w n).run.run g with ⟨e | m, g1⟩
  · rw [hr] at hcalls htrials hlinked
    generalize hfields : [("job", .number i), ("err", Log.Value.text (DroppedJob.message ⟨i, e⟩))] = fields
    obtain ⟨hd, hren⟩ := say_keeps g1 .warn "glrender: dropping render job" fields
    have hsaid := (h.linked hlinked).said .warn "glrender: dropping render job" fields
    refine ⟨_, _, fun ns => ?_, ⟨htrials, ?_, ?_, ?_⟩, hsaid.drop n ⟨i, e⟩,
      (hlinked.quietly.trans ((say_quietly .warn _ fields).step g1)).listed _ _⟩
    · rw [Render.linkJobs, Render.run_bind, hr, ← hfields]
      rfl
    · rw [flatMap_singleton, ← hcalls]
      exact congrArg Device.calls hd
    · rw [← hlinked.jobs]
      exact (congrArg Renderer.jobs hren).trans (append_nil _).symm
    · rw [← hlinked.dropped]
      exact congrArg (Renderer.dropped · ++ [⟨i, e⟩]) hren
  · rw [hr] at hcalls htrials hlinked hpost
    obtain ⟨_, job, rfl, hj, hm⟩ := hpost m rfl
    refine ⟨_, _, fun ns => ?_, ⟨htrials, ?_, ?_, ?_⟩, h.add hj hlinked hm, hlinked.quietly.listed _ _⟩
    · rw [Render.linkJobs, Render.run_bind, hr]
      rfl
    · rw [flatMap_singleton]
      exact hcalls
    · rw [← hlinked.jobs]
      rfl
    · rw [← hlinked.dropped]
      exact (append_nil _).symm

theorem linkJobs (h : g.Linking w given) (ns : List (Option Nat)) (i : Nat) :
    (∃ ts, g.Tries w i ns ts ((linkJobs w i ns).run g).2) ∧
      ((linkJobs w i ns).run g).2.Linking w (given ++ ns) ∧ g.Quietly ((linkJobs w i ns).run g).2 := by
  induction ns generalizing i g given with
  | nil =>
    refine ⟨⟨[], .nil, ?_, ?_, ?_⟩, (append_nil given).symm ▸ h, .logged g g.log⟩
    all_goals exact (append_nil _).symm
  | cons n ns ih =>
    obtain ⟨t, g1, hrun, htry, hlinking, hquietly⟩ := h.linkJobs_step n i
    obtain ⟨⟨ts, htries⟩, hall, hrest⟩ := ih hlinking (i + 1)
    rw [hrun, ← singleton_append, ← append_assoc]
    exact ⟨⟨t :: ts, htry.cons htries⟩, hall, hquietly.trans hrest⟩

/-- What a successful mount leaves. Where there are feedback textures, the blit program is linked, with
objects of its own. -/
theorem mount (hr : g.renderer = {}) (hn : 0 < g.device.nextHandle)
    (hm : (mount w surface jobs).run g = (.ok (), g')) :
    (g'.Linking w jobs ∧ g.Quietly g') ∧
      (g'.renderer.jobs = ((Render.linkJobs w 0 jobs).run g).2.renderer.jobs ∧
        g'.renderer.dropped = ((Render.linkJobs w 0 jobs).run g).2.renderer.dropped) ∧
      (g'.renderer.pairs ≠ [] → g'.gpu.Blits g'.renderer.blit ∧ ∀ m ∈ g'.renderer.jobs, ∀ h ∈ m.handles,
        h ≠ g'.renderer.blit.program ∧ h ≠ g'.renderer.blit.quad) := by
  obtain ⟨-, h, hquietly⟩ := (Rig.Linking.initial (w := w) hr hn).linkJobs jobs 0
  have hends := mount_ends w surface jobs g
  rw [hm] at hends
  generalize hres : ((.ok (), g') : Except MountError Unit × Rig) = res at hends
  cases hends with
  | refused | dropped | failed => cases hres
  | plain fields _ hpairs =>
    obtain rfl := (Prod.ext_iff.mp hres).2
    refine ⟨⟨h.said .., hquietly.trans ((say_quietly ..).step _)⟩, ?_⟩
    rw [(say_keeps ..).2]
    exact ⟨⟨rfl, rfl⟩, fun hne => absurd hpairs hne⟩
  | @mounted g2 fields _ hb =>
    obtain rfl := (Prod.ext_iff.mp hres).2
    obtain ⟨hlinked, -, hblit⟩ := Link.ensures_blit h.stored
    rw [hb] at hlinked hblit
    obtain ⟨hblits, hprogram, hquad⟩ := hblit () rfl
    obtain ⟨hd, hren⟩ := say_keeps g2 .debug "glrender: mounted" fields
    refine ⟨⟨(h.linked hlinked).said .., (hquietly.trans hlinked.quietly).trans ((say_quietly ..).step _)⟩, ?_⟩
    rw [hren, gpu, hd]
    refine ⟨⟨hlinked.jobs, hlinked.dropped⟩, fun _ => ⟨hblits, fun m hmem k hk => ?_⟩⟩
    have hlt := h.old k (mem_flatMap.mpr ⟨m, hlinked.jobs ▸ hmem, hk⟩)
    exact ⟨(hlt.trans_le hprogram).ne, (hlt.trans_le hquad).ne⟩

end Rig.Linking

theorem Rig.Mounting.mount (hst : w.Started) (hids : ∀ job ∈ w.jobs, job.Identified) (hr : g.renderer = {})
    (hn : 0 < g.device.nextHandle) (hm : (mount w surface jobs).run g = (.ok (), g')) : g'.Mounting w jobs := by
  obtain ⟨⟨h, -⟩, -⟩ := Rig.Linking.mount hr hn hm
  exact ⟨h.given, h.stored, h.disposed, h.handles, h.ready hst hids⟩

end ShaderGraph
