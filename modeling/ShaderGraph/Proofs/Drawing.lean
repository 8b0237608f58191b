import Mathlib.Data.List.Nodup
import ShaderGraph.Proofs.Advance
import ShaderGraph.Proofs.Readiness

/-!
# Drawn frames

A job that is ready is sent what is staged, its textures are bound and it is drawn.
`MountedJob.Prepared` is the state in between, and `Gpu.Presents` says what the device holds then.
Drawing a job leaves alone what the others rely on (`MountedJob.Touches`), so that they are still
ready when it is their turn.

`Rig.Mounted` is what sizes and frames keep. A job with a feedback texture draws into the buffer that
the frame does not sample and is copied from there onto the canvas.
-/

namespace ShaderGraph

open Render List

variable {r r' : Renderer} {p : PlainTexture} {t : Texture} {w : Workspace} {g g' g1 g2 : Rig}
  {log cs : List DeviceCall} {width height : Int} {job : Job} {m : MountedJob} {ms : List MountedJob}

/-! ## Textures -/

theorem Renderer.plain?_setPlain :
    (r.setPlain p).plain? t = (r.plain? t).map fun q => if q.texture = p.texture then p else q := by
  unfold plain? setPlain
  rw [find?_map]
  have hkey : ((fun q : PlainTexture => decide (q.texture = t)) ∘
      fun q => if q.texture = p.texture then p else q) = fun q => decide (q.texture = t) := by
    funext q
    by_cases hq : q.texture = p.texture <;> simp [hq]
  rw [hkey]

theorem Renderer.texture_of_plain? (h : r.plain? t = some p) : p ∈ r.plains ∧ p.texture = t :=
  ⟨mem_of_find?_eq_some h, by simpa using find?_some h⟩

/-- From one rig to another by uploading and binding textures. -/
structure Rig.Binds (w : Workspace) (g g' : Rig) : Prop where
  stored : g.Stored w → g'.Stored w
  next : g'.device.nextHandle = g.device.nextHandle
  shots : g'.shots = g.shots
  gpu : g'.gpu = { g.gpu with images := g'.gpu.images, units := g'.gpu.units }
  renderer : g'.renderer =
    { g.renderer with plains := g'.renderer.plains, heldPixels := g'.renderer.heldPixels }
  plains : ∀ t, g'.renderer.plain? t = g.renderer.plain? t ∨ ∃ p, g.renderer.plain? t = some p ∧
    g'.renderer.plain? t = some { p with sent := (w.textureState t).version }
  handles : ∀ q ∈ g'.renderer.plains, ∃ q' ∈ g.renderer.plains, q'.handle = q.handle

namespace Rig.Binds

theorem refl (w : Workspace) (g : Rig) : g.Binds w g :=
  ⟨id, rfl, rfl, rfl, rfl, fun _ => .inl rfl, fun q hq => ⟨q, hq, rfl⟩⟩

theorem trans (h : g.Binds w g1) (h' : g1.Binds w g2) : g.Binds w g2 where
  stored hg := h'.stored (h.stored hg)
  next := h'.next.trans h.next
  shots := h'.shots.trans h.shots
  gpu := by rw [h'.gpu, h.gpu]
  renderer := by rw [h'.renderer, h.renderer]
  plains t := by
    rcases h'.plains t with h2 | ⟨p, hp, h2⟩
    · rw [h2]
      exact h.plains t
    · rcases h.plains t with h1 | ⟨q, hq, h1⟩
      · exact .inr ⟨p, h1 ▸ hp, h2⟩
      · cases hp.symm.trans h1
        exact .inr ⟨q, hq, h2⟩
  handles q hq := by
    obtain ⟨q1, hq1, heq⟩ := h'.handles q hq
    exact (h.handles q1 hq1).imp fun _ hm => ⟨hm.1, hm.2.trans heq⟩

theorem bind (w : Workspace) (g : Rig) (unit : Nat) (t : Handle) :
    g.Binds w (g.issued [.bindTexture unit t]) where
  stored h := h.keep rfl rfl (Nat.le_refl _) (fun _ _ => by rw [Rig.gpu_issued]; rfl)
    fun _ _ => by rw [Rig.gpu_issued]; rfl
  next := rfl
  shots := g.shots_issued_of_not_isDraw (by simp [DeviceCall.isDraw])
  gpu := by
    rw [Rig.gpu_issued]
    rfl
  renderer := rfl
  plains _ := .inl rfl
  handles q hq := ⟨q, hq, rfl⟩

end Rig.Binds

/-- The rig after the staged pixels of a texture were uploaded. -/
def Rig.uploaded (w : Workspace) (p : PlainTexture) (g : Rig) : Rig :=
  let s := w.textureState p.texture
  { g.issued [.textureData p.handle s.width s.height (g.renderer.upload s.data)] with
    renderer := (g.renderer.hold s.data).setPlain { p with sent := s.version } }

theorem Rig.gpu_uploaded (w : Workspace) (p : PlainTexture) (g : Rig) :
    (g.uploaded w p).gpu = { g.gpu with
      images := Function.update g.gpu.images p.handle (some ⟨(w.textureState p.texture).width,
        (w.textureState p.texture).height, g.renderer.upload (w.textureState p.texture).data⟩) } :=
  Rig.gpu_issued g [_]

theorem Rig.uploaded_stored (h : g.Stored w) (hp : p ∈ g.renderer.plains) : (g.uploaded w p).Stored w := by
  have hgpu := g.gpu_uploaded w p
  have hmem : ∀ q ∈ (g.uploaded w p).renderer.plains,
      q = { p with sent := (w.textureState p.texture).version } ∨
        q ∈ g.renderer.plains ∧ q.texture ≠ p.texture := by
    intro q hq
    obtain ⟨q0, hq0, rfl⟩ := mem_map.mp hq
    by_cases ht : q0.texture = p.texture
    · exact .inl (if_pos ht)
    · exact .inr (by rw [if_neg ht]; exact ⟨hq0, ht⟩)
  have hhandle : ∀ q ∈ (g.uploaded w p).renderer.plains,
      ∃ q' ∈ g.renderer.plains, q'.handle = q.handle ∧ q'.texture = q.texture := by
    intro q hq
    rcases hmem q hq with rfl | ⟨hq, -⟩
    · exact ⟨p, hp, rfl, rfl⟩
    · exact ⟨q, hq, rfl, rfl⟩
  refine ⟨h.next, fun q hq => ?_, fun q hq q' hq' heq => ?_, fun q hq => ?_⟩
  · rcases hmem q hq with rfl | ⟨hq, hne⟩
    · refine ⟨(h.plains p hp).1, UInt64.le_refl _, fun _ => ?_⟩
      rw [hgpu]
      exact ⟨_, Function.update_self .., rfl, rfl, Renderer.getD_upload ..⟩
    · refine ⟨(h.plains q hq).1, (h.plains q hq).2.congr ?_⟩
      rw [hgpu]
      exact Function.update_of_ne (fun heq => hne (h.apart q hq p hp heq)) _ _
  · obtain ⟨q1, hq1, hh, ht⟩ := hhandle q hq
    obtain ⟨q1', hq1', hh', ht'⟩ := hhandle q' hq'
    rw [← ht, ← ht']
    exact h.apart q1 hq1 q1' hq1' (by rw [hh, hh', heq])
  · have hsound : ∀ b : TargetBuffer, b.Sound g → b.Sound (g.uploaded w p) := by
      intro b hb
      refine ⟨hb.texture, hb.framebuffer, ?_, fun q hq => ?_⟩
      · rw [hgpu]
        exact hb.attached
      · obtain ⟨q', hq', hh, -⟩ := hhandle q hq
        exact hh ▸ hb.plains q' hq'
    obtain ⟨h1, h2⟩ := h.targets q hq
    exact ⟨hsound _ h1, hsound _ h2⟩

theorem Rig.Binds.upload (w : Workspace) (hp : g.renderer.plain? t = some p) : g.Binds w (g.uploaded w p) where
  stored h := g.uploaded_stored h (Renderer.texture_of_plain? hp).1
  next := rfl
  shots := by
    have hcall : ∀ c ∈ [DeviceCall.textureData p.handle (w.textureState p.texture).width
        (w.textureState p.texture).height (g.renderer.upload (w.textureState p.texture).data)],
        ¬ c.isDraw := by simp [DeviceCall.isDraw]
    exact g.shots_issued_of_not_isDraw hcall
  gpu := by
    rw [Rig.gpu_uploaded]
  renderer := rfl
  plains t' := by
    have hset : (g.uploaded w p).renderer.plain? t' = _ := Renderer.plain?_setPlain
    rw [hset]
    cases hq : (g.renderer.hold _).plain? t' with
    | none => exact .inl hq.symm
    | some q =>
      have hq' : g.renderer.plain? t' = some q := hq
      obtain ⟨-, rfl⟩ := Renderer.texture_of_plain? hp
      obtain ⟨-, rfl⟩ := Renderer.texture_of_plain? hq'
      rw [Option.map_some]
      split
      · next ht =>
        rw [ht] at hq'
        cases hq'.symm.trans hp
        exact .inr ⟨_, ht ▸ hp, rfl⟩
      · exact .inl hq'.symm
  handles q hq := by
    obtain ⟨q', hq', rfl⟩ := mem_map.mp hq
    split
    · exact ⟨p, (Renderer.texture_of_plain? hp).1, rfl⟩
    · exact ⟨q', hq', rfl⟩

theorem Rig.Binds.pair? (h : g.Binds w g') (t : Texture) : g'.renderer.pair? t = g.renderer.pair? t := by
  rw [h.renderer]
  rfl

theorem Rig.Binds.has (h : g.Binds w g') (ht : g.renderer.Has t) : g'.renderer.Has t where
  pair hf := by
    rw [← Renderer.pair?_isSome, h.pair?]
    exact Renderer.pair?_isSome.mpr (ht.pair hf)
  plain hf := by
    have hsome := Renderer.plain?_isSome.mpr (ht.plain hf)
    rw [← Renderer.plain?_isSome]
    rcases h.plains t with heq | ⟨p, -, heq⟩
    · rwa [heq]
    · rw [heq]
      rfl

/-- The texture is bound at a unit: the buffer that was drawn into last, or the texture with what is
staged. -/
structure Texture.BoundAt (w : Workspace) (g : Rig) (unit : Nat) (t : Texture) : Prop where
  pair : t.feedback = true → ∃ p, g.renderer.pair? t = some p ∧ g.gpu.units unit = p.source.texture
  plain : t.feedback = false → ∃ p, g.renderer.plain? t = some p ∧
    p.sent = (w.textureState t).version ∧ g.gpu.units unit = p.handle

theorem Texture.BoundAt.binds {unit : Nat} (h : t.BoundAt w g unit) (hb : g.Binds w g')
    (hu : g'.gpu.units unit = g.gpu.units unit) : t.BoundAt w g' unit where
  pair hf := by
    rw [hb.pair? t, hu]
    exact h.pair hf
  plain hf := by
    obtain ⟨p, hp, hs, hh⟩ := h.plain hf
    rw [hu]
    rcases hb.plains t with heq | ⟨q, hq, heq⟩
    · exact ⟨p, heq.trans hp, hs, hh⟩
    · cases hq.symm.trans hp
      exact ⟨_, heq, rfl, hh⟩

theorem bindTextures_cons (w : Workspace) (ht : g.renderer.Has t) (unit : Nat) (ts : List Texture) :
    ∃ g1, (bindTextures w unit (t :: ts)).run g = (bindTextures w (unit + 1) ts).run g1 ∧
      g.Binds w g1 ∧ (∀ j ≠ unit, g1.gpu.units j = g.gpu.units j) ∧ t.BoundAt w g1 unit := by
  have hunits : ∀ (g : Rig) (h : Handle),
      (g.issued [.bindTexture unit h]).gpu.units = Function.update g.gpu.units unit h :=
    fun g h => congrArg Gpu.units (Rig.gpu_issued g [_])
  have hself : ∀ (g : Rig) (h : Handle), (g.issued [.bindTexture unit h]).gpu.units unit = h :=
    fun g h => by rw [hunits, Function.update_self]
  have hother : ∀ (g : Rig) (h : Handle) j, j ≠ unit →
      (g.issued [.bindTexture unit h]).gpu.units j = g.gpu.units j :=
    fun g h j hj => by rw [hunits, Function.update_of_ne hj]
  by_cases hf : t.feedback = true
  · obtain ⟨p, hp⟩ := Option.isSome_iff_exists.mp (Renderer.pair?_isSome.mpr (ht.pair hf))
    refine ⟨g.issued [.bindTexture unit p.source.texture], ?_, .bind .., hother g _, ?_⟩
    · simp only [bindTextures, run_bind, run_renderer, hf, if_true, hp, run_issue]
    · exact ⟨fun _ => ⟨p, hp, hself g _⟩, fun hf' => absurd (hf.symm.trans hf') (by decide)⟩
  · have hf : t.feedback = false := by simpa using hf
    obtain ⟨p, hp⟩ := Option.isSome_iff_exists.mp (Renderer.plain?_isSome.mpr (ht.plain hf))
    obtain ⟨-, htex⟩ := Renderer.texture_of_plain? hp
    by_cases hv : (w.textureState t).version = p.sent
    · refine ⟨g.issued [.bindTexture unit p.handle], ?_, .bind .., hother g _, ?_⟩
      · simp only [bindTextures, run_bind, run_renderer, hf, hp, hv, run_issue, ne_eq, not_true, if_false,
          Bool.false_eq_true]
      · exact ⟨fun hf' => absurd (hf.symm.trans hf') (by decide), fun _ => ⟨p, hp, hv.symm, hself g _⟩⟩
    · have hup := Rig.Binds.upload w hp
      refine ⟨(g.uploaded w p).issued [.bindTexture unit p.handle], ?_, hup.trans (.bind ..), ?_, ?_⟩
      · simp only [bindTextures, run_bind, run_renderer, hf, hp, hv, run_issue, run_update, ne_eq, not_false_eq_true,
          if_true, if_false, Bool.false_eq_true]
        subst htex
        rfl
      · intro j hj
        rw [hother _ _ j hj, Rig.gpu_uploaded]
      · refine ⟨fun hf' => absurd (hf.symm.trans hf') (by decide), fun _ => ?_⟩
        have hset : (g.uploaded w p).renderer.plain? t = _ := Renderer.plain?_setPlain
        refine ⟨{ p with sent := (w.textureState t).version }, ?_, rfl, hself _ _⟩
        subst htex
        rw [Rig.renderer_issued, hset]
        have hp' : (g.renderer.hold (w.textureState p.texture).data).plain? p.texture = some p := hp
        rw [hp', Option.map_some, if_pos rfl]

theorem bindTextures_spec (w : Workspace) {ts : List Texture} (hts : ∀ t ∈ ts, g.renderer.Has t) (unit : Nat) :
    g.Binds w ((bindTextures w unit ts).run g).2 ∧
      (∀ j < unit, ((bindTextures w unit ts).run g).2.gpu.units j = g.gpu.units j) ∧
      ∀ (i : Nat) t, ts[i]? = some t → t.BoundAt w ((bindTextures w unit ts).run g).2 (unit + i) := by
  induction ts generalizing g unit with
  | nil => exact ⟨.refl w g, fun _ _ => rfl, by simp⟩
  | cons t ts ih =>
    obtain ⟨ht, hts⟩ := forall_mem_cons.mp hts
    obtain ⟨g1, hrun, hb1, hother, hbound⟩ := bindTextures_cons w ht unit ts
    have hts1 : ∀ t ∈ ts, g1.renderer.Has t := fun t ht => hb1.has (hts t ht)
    obtain ⟨hb, hlow, hrest⟩ := ih hts1 (unit + 1)
    rw [hrun]
    refine ⟨hb1.trans hb, fun j hj => ?_, fun i t' hi => ?_⟩
    · exact (hlow j (Nat.lt_succ_of_lt hj)).trans (hother j (Nat.ne_of_lt hj))
    · cases i with
      | zero =>
        obtain rfl : t = t' := by simpa using hi
        exact hbound.binds hb (hlow unit (Nat.lt_succ_self unit))
      | succ i =>
        have := hrest i t' (by simpa using hi)
        rwa [Nat.add_assoc, Nat.add_comm 1 i] at this

theorem Rig.Stored.target (h : g.Stored w) {p : FeedbackPair} (hp : p ∈ g.renderer.pairs) :
    p.target.Sound g := by
  unfold FeedbackPair.target
  split
  · exact (h.targets p hp).2
  · exact (h.targets p hp).1

/-! ## Jobs -/

namespace MountedJob

def refreshed (w : Workspace) (m : MountedJob) : MountedJob :=
  (m.refreshUniforms w).refreshAttributes w

def sends (w : Workspace) (m : MountedJob) : List DeviceCall :=
  .useProgram m.program :: (m.uniforms.flatMap (·.sends w) ++ m.attributes.flatMap (·.sends w))

def prepared (w : Workspace) (m : MountedJob) (g : Rig) : Rig :=
  ((bindTextures w 0 m.textures).run (g.issued (m.sends w))).2

/-- What is issued to draw the job: into its feedback texture and from there onto the canvas, or onto
the canvas. -/
def drawing (w : Workspace) (r : Renderer) (m : MountedJob) : List DeviceCall :=
  match w.jobs[m.job]? with
  | none => []
  | some job =>
    let draw : DeviceCall := .draw job.mode m.elements (job.counts w.elements).1 (job.counts w.elements).2
    match m.target.bind r.pair? with
    | none => [draw]
    | some p => [.bindFramebuffer p.target.framebuffer, draw, .bindFramebuffer 0,
        .useProgram r.blit.program, .bindAttribute r.blit.position r.blit.quad 2 0,
        .bindTexture 0 p.target.texture, .draw .triangleStrip 0 4 1]

@[simp] theorem handles_refreshed (w : Workspace) (m : MountedJob) : (m.refreshed w).handles = m.handles := by
  simp [handles, refreshed, refreshAttributes, refreshUniforms, Function.comp_def]

end MountedJob

theorem MountedJob.not_isDraw_of_mem_sends (w : Workspace) (m : MountedJob) :
    ∀ c ∈ m.sends w, ¬ c.isDraw := by
  refine forall_mem_cons.mpr ⟨Bool.false_ne_true, forall_mem_append.mpr ⟨?_, ?_⟩⟩
  · intro c hc
    obtain ⟨s, -, hc⟩ := mem_flatMap.mp hc
    obtain ⟨v, -, rfl⟩ := Option.map_eq_some_iff.mp (Option.mem_toList.mp hc)
    exact Bool.false_ne_true
  · intro c hc
    obtain ⟨s, -, hc⟩ := mem_flatMap.mp hc
    rcases mem_append.mp hc with hc | hc
    · obtain ⟨v, -, rfl⟩ := Option.map_eq_some_iff.mp (Option.mem_toList.mp hc)
      exact Bool.false_ne_true
    · obtain ⟨v, -, rfl⟩ := Option.map_eq_some_iff.mp (Option.mem_toList.mp hc)
      exact Bool.false_ne_true

theorem run_drawJob (w : Workspace) (m : MountedJob) (g : Rig) :
    (drawJob w m).run g = (m.refreshed w,
      (m.prepared w g).issued (m.drawing w (m.prepared w g).renderer)) := by
  have hsend : ((g.issued [.useProgram m.program]).issued (m.uniforms.flatMap (·.sends w))).issued
      (m.attributes.flatMap (·.sends w)) = g.issued (m.sends w) := by
    simp [MountedJob.sends]
  unfold drawJob
  simp only [run_bind, run_issue, run_sendUniforms, run_sendAttributes]
  rw [show (bindTextures w 0 m.textures).run _ = ((), m.prepared w g) by rw [hsend]; rfl]
  unfold MountedJob.drawing
  cases w.jobs[m.job]? with
  | none => simp only [run_pure, Rig.issued_nil]; rfl
  | some job =>
    simp only [run_bind, run_renderer]
    cases m.target.bind (m.prepared w g).renderer.pair? with
    | none => rfl
    | some p =>
      simp only [run_bind, run_issue, run_pure, blitTexture, run_renderer, Rig.issued_issued,
        Rig.renderer_issued, cons_append, nil_append]
      rfl

/-- From one rig to another without a change to what other jobs rely on. -/
structure MountedJob.Touches (m : MountedJob) (g g' : Rig) : Prop where
  next : g'.device.nextHandle = g.device.nextHandle
  renderer : g'.renderer =
    { g.renderer with plains := g'.renderer.plains, heldPixels := g'.renderer.heldPixels }
  has : ∀ t, g.renderer.Has t → g'.renderer.Has t
  uniforms : ∀ h, h ≠ m.program → g'.gpu.uniforms h = g.gpu.uniforms h
  buffers : ∀ h, h ∉ m.handles → g'.gpu.buffers h = g.gpu.buffers h

namespace MountedJob

theorem Touches.trans (h : m.Touches g g1) (h' : m.Touches g1 g2) : m.Touches g g2 where
  next := h'.next.trans h.next
  renderer := by rw [h'.renderer, h.renderer]
  has t ht := h'.has t (h.has t ht)
  uniforms i hi := (h'.uniforms i hi).trans (h.uniforms i hi)
  buffers i hi := (h'.buffers i hi).trans (h.buffers i hi)

theorem gpu_sends (w : Workspace) (m : MountedJob) (g : Rig) :
    (g.issued (m.sends w)).gpu = { g.gpu with
      program := m.program
      uniforms := Function.update g.gpu.uniforms m.program
        (writeAll (·.location) (·.news? w) m.uniforms (g.gpu.uniforms m.program))
      buffers := writeAll (·.buffer) (·.news? w) m.attributes g.gpu.buffers
      attributes := writeAll (·.location) (·.pointer?) m.attributes g.gpu.attributes } := by
  rw [Rig.gpu_issued, MountedJob.sends, Gpu.run_cons, Gpu.run_append, Gpu.run_uniformSends,
    Gpu.run_attributeSends]
  rfl

theorem Touches.sends (m : MountedJob) (g : Rig) : m.Touches g (g.issued (m.sends w)) := by
  refine ⟨rfl, rfl, fun _ => id, fun h hh => ?_, fun h hh => ?_⟩
  · rw [gpu_sends]
    exact Function.update_of_ne hh _ _
  · rw [gpu_sends]
    refine writeAll_of_none fun s hs heq => absurd ?_ hh
    exact mem_cons_of_mem _ (mem_map.mpr ⟨s, hs, heq⟩)

theorem Touches.binds (h : g.Binds w g1) : m.Touches g g1 where
  next := h.next
  renderer := h.renderer
  has _ := h.has
  uniforms _ _ := by rw [h.gpu]
  buffers _ _ := by rw [h.gpu]

theorem Ready.touched {m' : MountedJob} (h : m'.Ready w log g job) (ht : m.Touches g g1)
    (hd : m.handles.Disjoint m'.handles) : m'.Ready w log g1 job := by
  refine h.keep (Nat.le_of_eq ht.next.symm) (by rw [ht.renderer]) (by rw [ht.renderer]) ?_ ?_ ht.has
  · exact ht.uniforms _ fun heq => hd mem_cons_self (heq ▸ mem_cons_self)
  · exact fun s hs => ht.buffers _ fun hmem =>
      hd hmem (mem_cons_of_mem _ (mem_map_of_mem hs))

theorem Ready.sendAttributes (h : m.Ready w log g job) (hb : m.handles.Nodup) :
    (m.refreshAttributes w).Ready w log (g.issued (m.attributes.flatMap (·.sends w))) job := by
  have hgpu : (g.issued (m.attributes.flatMap (·.sends w))).gpu = _ :=
    (Rig.gpu_issued ..).trans (Gpu.run_attributeSends ..)
  have hbuf : ∀ s ∈ m.attributes, (g.issued (m.attributes.flatMap (·.sends w))).gpu.buffers s.buffer =
      some (w.attributeState s.source).data := by
    intro s hs
    have hd := pairwise_map.mp (nodup_cons.mp hb).2
    rw [hgpu]
    exact (writeAll_key (p := fun _ => True) (hd.imp fun hne _ => hne) (fun _ h => absurd trivial h) hs
      trivial).trans (h.attributes s hs).or_news
  exact
    { known := h.known
      wired := h.wired.refreshAttributes
      handles := by
        have hh : (m.refreshAttributes w).handles = m.handles := by
          simp [MountedJob.handles, refreshAttributes, Function.comp_def]
        rw [hh]
        exact h.handles
      shows := by
        rw [hgpu]
        exact ⟨h.shows.uniforms, h.shows.samplers, h.shows.resolution⟩
      attributes := by
        intro s' hs'
        obtain ⟨s, hs, rfl⟩ := mem_map.mp hs'
        exact (h.attributes s hs).refreshed (hbuf s hs)
      textures := h.textures }

end MountedJob

/-! ## What a draw shows -/

/-- What a device holds when a job is drawn with a program, in terms of what is staged. Locations are
those that the device answered. -/
structure Gpu.Presents (w : Workspace) (r : Renderer) (log : List DeviceCall) (width height : Int)
    (job : Job) (p : Handle) (g : Gpu) : Prop where
  compiled : .compileProgram job.vertexSource job.fragmentSource p ∈ log
  program : g.program = p
  uniforms : ∀ u ∈ job.uniforms, u.type ≠ .sampler2D → ∃ l, .uniformLocation p u.name l ∈ log ∧
    (0 ≤ l → g.uniforms p l = some (w.uniformState u).value)
  attributes : ∀ a ∈ job.attributes, ∃ l, .attributeLocation p a.name l ∈ log ∧
    (0 ≤ l → ∃ b, g.attributes l = some ⟨b, a.size, if a.instanced then 1 else 0⟩ ∧
      g.buffers b = some (w.attributeState a).data)
  /-- A texture is bound at the unit that its sampler holds. -/
  textures : ∀ t ∈ job.textures, ∃ (unit : Nat) (l : Int), .uniformLocation p t.name l ∈ log ∧
    (0 ≤ l → g.uniforms p l = some [Number.ofInt unit]) ∧
    (t.feedback = true → ∃ q, r.pair? t = some q ∧ g.units unit = q.source.texture) ∧
    (t.feedback = false → ∃ image, g.images (g.units unit) = some image ∧ image.Shows (w.textureState t))
  resolution : ∃ l, .uniformLocation p Glsl.resolutionName l ∈ log ∧
    (0 ≤ l → g.uniforms p l = some [Number.ofInt width / 2, Number.ofInt height / 2])

/-- The states in which a job is drawn with a program: one, or after drawing into a feedback texture
another one that copies it onto the canvas. -/
inductive Drawn (w : Workspace) (r : Renderer) (log : List DeviceCall) (width height : Int)
    (number : Nat) (program : Handle) : List Gpu → Prop where
  | canvas {job : Job} {g : Gpu} (known : w.jobs[number]? = some job) (target : job.feedback? = none)
      (presents : g.Presents w r log width height job program) (framebuffer : g.framebuffer = 0) :
      Drawn w r log width height number program [g]
  | feedback {job : Job} {g copy : Gpu} {t : Texture} {p : FeedbackPair}
      (known : w.jobs[number]? = some job) (target : job.feedback? = some t)
      (pair : r.pair? t = some p) (presents : g.Presents w r log width height job program)
      (framebuffer : g.framebuffer = p.target.framebuffer)
      (blit : copy.program = r.blit.program) (canvas : copy.framebuffer = 0) :
      Drawn w r log width height number program [g, copy]

theorem Gpu.Presents.congr {p : Handle} {g : Gpu} (h : g.Presents w r log width height job p)
    (hp : r'.pairs = r.pairs) : g.Presents w r' log width height job p where
  compiled := h.compiled
  program := h.program
  uniforms := h.uniforms
  attributes := h.attributes
  textures t ht := by
    obtain ⟨unit, l, hl, hv, hpair, hplain⟩ := h.textures t ht
    refine ⟨unit, l, hl, hv, fun hf => ?_, hplain⟩
    rw [Renderer.pair?, hp]
    exact hpair hf
  resolution := h.resolution

theorem Drawn.congr {number : Nat} {program : Handle} {gs : List Gpu}
    (h : Drawn w r log width height number program gs) (hp : r'.pairs = r.pairs) (hb : r'.blit = r.blit) :
    Drawn w r' log width height number program gs := by
  cases h with
  | canvas known target presents framebuffer =>
    exact .canvas known target (presents.congr hp) framebuffer
  | feedback known target pair presents framebuffer blit canvas =>
    refine .feedback known target ?_ (presents.congr hp) framebuffer (hb ▸ blit) canvas
    rw [Renderer.pair?, hp]
    exact pair

/-- Everything a job needs is in place. -/
structure MountedJob.Prepared (w : Workspace) (log : List DeviceCall) (job : Job) (m : MountedJob)
    (g : Rig) : Prop where
  ready : (m.refreshed w).Ready w log g job
  stored : g.Stored w
  program : g.gpu.program = m.program
  pointers : ∀ s ∈ m.attributes, 0 ≤ s.location → g.gpu.attributes s.location = some s.pointer
  textures : ∀ (i : Nat) t, m.textures[i]? = some t → t.BoundAt w g i

namespace MountedJob

theorem Ready.prepared (h : m.Ready w log g job) (hg : g.Stored w) (hsep : Separates log)
    (hid : job.Identified) (hb : m.handles.Nodup) :
    m.Prepared w log job (m.prepared w g) ∧ m.Touches g (m.prepared w g) ∧
      (m.prepared w g).drawn = g.drawn ∧ (m.prepared w g).gpu.framebuffer = g.gpu.framebuffer := by
  have hsent : (m.refreshed w).Ready w log (g.issued (m.sends w)) job := by
    have hused : m.Ready w log (g.issued [.useProgram m.program]) job := by
      refine h.keep (Nat.le_refl _) rfl rfl ?_ (fun s _ => ?_) fun _ => id
      · exact congrFun (congrArg Gpu.uniforms (Rig.gpu_issued ..)) _
      · exact congrFun (congrArg Gpu.buffers (Rig.gpu_issued ..)) _
    have := (hused.sendUniforms hsep hid (g.program_issued_useProgram _)).sendAttributes hb
    rw [Rig.issued_issued, Rig.issued_issued] at this
    exact this
  have hstored : (g.issued (m.sends w)).Stored w :=
    hg.keep rfl rfl (Nat.le_refl _) (fun _ _ => by rw [gpu_sends]) fun _ _ => by rw [gpu_sends]
  obtain ⟨hbinds, -, hbound⟩ := bindTextures_spec w hsent.textures 0
  change (g.issued (m.sends w)).Binds w (m.prepared w g) at hbinds
  have hdrawn := g.drawn_issued_of_not_isDraw (not_isDraw_of_mem_sends w m)
  refine ⟨⟨?_, hbinds.stored hstored, ?_, fun s hs hl => ?_, fun i t hi => ?_⟩,
    (Touches.sends m g).trans (.binds hbinds), (Rig.drawn_congr hbinds.shots).trans hdrawn, ?_⟩
  · exact hsent.keep (Nat.le_of_eq hbinds.next.symm) (by rw [hbinds.renderer]) (by rw [hbinds.renderer])
      (by rw [hbinds.gpu]) (fun _ _ => by rw [hbinds.gpu]) fun _ => hbinds.has
  · rw [hbinds.gpu, gpu_sends]
  · rw [hbinds.gpu, gpu_sends]
    exact (writeAll_key (h.wired.attributes_apart hsep hid) (fun _ => AttributeSlot.pointer?_of_neg) hs
      hl).trans (by rw [AttributeSlot.pointer?, if_pos hl, Option.some_or])
  · have := hbound i t hi
    rwa [Nat.zero_add] at this
  · rw [hbinds.gpu, gpu_sends]

theorem Prepared.presents (h : m.Prepared w log job g) (hpos : 0 < g.renderer.width) (f : Handle) :
    Gpu.Presents w g.renderer log g.renderer.width g.renderer.height job m.program
      { g.gpu with framebuffer := f } where
  compiled := h.ready.wired.program
  program := h.program
  uniforms u hu hne := by
    have hmem : u ∈ (m.refreshed w).uniforms.map (·.uniform) := by
      rw [h.ready.wired.uniforms]
      exact mem_filter.mpr ⟨hu, by simpa using hne⟩
    obtain ⟨s', hs', rfl⟩ := mem_map.mp hmem
    obtain ⟨s, hs, rfl⟩ := mem_map.mp hs'
    refine ⟨_, h.ready.wired.uniformLocations _ hs', fun hl => ?_⟩
    refine (h.ready.shows.uniforms _ hs').2 hl ?_
    rw [UniformSlot.uniform_refreshed]
    exact UniformSlot.sent_refreshed (UniformSlot.location_refreshed w s ▸ hl)
  attributes a ha := by
    have hmem : a ∈ (m.refreshed w).attributes.map (·.source) := by
      rw [h.ready.wired.attributes]
      exact ha
    obtain ⟨s', hs', rfl⟩ := mem_map.mp hmem
    obtain ⟨s, hs, rfl⟩ := mem_map.mp hs'
    refine ⟨_, h.ready.wired.attributeLocations _ hs', fun hl => ⟨s.buffer, ?_, ?_⟩⟩
    · have hp := h.pointers s hs (AttributeSlot.location_refreshed w s ▸ hl)
      rw [AttributeSlot.location_refreshed, AttributeSlot.source_refreshed]
      exact hp
    · have hv := (h.ready.attributes _ hs').2
      rw [AttributeSlot.source_refreshed, AttributeSlot.buffer_refreshed] at hv
      rw [AttributeSlot.source_refreshed]
      exact hv AttributeSlot.sent_refreshed
  textures t ht := by
    have ht : t ∈ m.textures := by
      rw [show m.textures = job.textures from h.ready.wired.textures]
      exact ht
    obtain ⟨i, hi⟩ := mem_iff_getElem?.mp ht
    obtain ⟨l, hl, hv⟩ := h.ready.shows.samplers i t hi
    have hbound := h.textures i t hi
    refine ⟨i, l, hl, hv, hbound.pair, fun hf => ?_⟩
    obtain ⟨p, hp, hsent, hunit⟩ := hbound.plain hf
    obtain ⟨hmem, rfl⟩ := Renderer.texture_of_plain? hp
    change ∃ image, g.gpu.images (g.gpu.units i) = some image ∧ _
    rw [hunit]
    exact (h.stored.plains p hmem).2.2 hsent
  resolution := ⟨_, h.ready.wired.resolution, h.ready.shows.resolution hpos⟩

/-- What drawing a job changes for the jobs after it. -/
structure Paints (g : Rig) (cs : List DeviceCall) : Prop where
  uniforms : (g.gpu.run cs).uniforms = g.gpu.uniforms
  buffers : (g.gpu.run cs).buffers = g.gpu.buffers
  attached : (g.gpu.run cs).attached = g.gpu.attached
  images : ∀ p ∈ g.renderer.plains, (g.gpu.run cs).images p.handle = g.gpu.images p.handle
  framebuffer : (g.gpu.run cs).framebuffer = 0

theorem Paints.stored (h : Paints g cs) (hg : g.Stored w) : (g.issued cs).Stored w :=
  hg.keep rfl rfl (Nat.le_refl _) (fun p hp => by rw [Rig.gpu_issued, h.images p hp])
    fun _ _ => by rw [Rig.gpu_issued, h.attached]

theorem Paints.touches (h : Paints g cs) : m.Touches g (g.issued cs) :=
  ⟨rfl, rfl, fun _ => id, fun _ _ => by rw [Rig.gpu_issued, h.uniforms],
    fun _ _ => by rw [Rig.gpu_issued, h.buffers]⟩

theorem Paints.ready (h : Paints g cs) (hm : m.Ready w log g job) : m.Ready w log (g.issued cs) job :=
  hm.keep (Nat.le_refl _) rfl rfl (by rw [Rig.gpu_issued, h.uniforms])
    (fun _ _ => by rw [Rig.gpu_issued, h.buffers]) fun _ => id

theorem Prepared.paints (h : m.Prepared w log job g) (hpos : 0 < g.renderer.width)
    (hf : g.gpu.framebuffer = 0) :
    Paints g (m.drawing w g.renderer) ∧
      Drawn w g.renderer log g.renderer.width g.renderer.height m.job m.program
        (g.gpu.draws (m.drawing w g.renderer)) := by
  have hknown : w.jobs[m.job]? = some job := h.ready.known
  have htarget : m.target = job.feedback? := h.ready.wired.target
  have hzero := g.attached_zero
  unfold drawing
  rw [hknown, htarget]
  cases ht : job.feedback? with
  | none =>
    have hpaint : g.gpu.paint = g.gpu := Gpu.paint_of_none (hf ▸ hzero)
    refine ⟨⟨?_, ?_, ?_, fun _ _ => ?_, ?_⟩, .canvas hknown ht ?_ hf⟩
    · exact congrArg Gpu.uniforms hpaint
    · exact congrArg Gpu.buffers hpaint
    · exact congrArg Gpu.attached hpaint
    · exact congrFun (congrArg Gpu.images hpaint) _
    · exact (congrArg Gpu.framebuffer hpaint).trans hf
    · exact h.presents hpos g.gpu.framebuffer
  | some t =>
    -- the texture is one of the job's, so its buffers are made
    have hfeed : t.feedback = true := find?_some ht
    have hmem : t ∈ (m.refreshed w).textures := by
      rw [h.ready.wired.textures]
      exact mem_adjoin_iff.mpr (.inr (mem_of_find?_eq_some ht))
    obtain ⟨p, hp⟩ := Option.isSome_iff_exists.mp
      (Renderer.pair?_isSome.mpr ((h.ready.textures t hmem).pair hfeed))
    rw [Option.bind_some, hp]
    have hsound : p.target.Sound g := h.stored.target (mem_of_find?_eq_some hp)
    have hpaint : Gpu.paint { g.gpu with framebuffer := p.target.framebuffer } =
        { g.gpu with
          framebuffer := p.target.framebuffer
          images := Function.update g.gpu.images p.target.texture none } :=
      Gpu.paint_of_some hsound.attached
    refine ⟨⟨?_, ?_, ?_, fun q hq => ?_, ?_⟩,
      .feedback hknown ht hp (h.presents hpos p.target.framebuffer) rfl rfl rfl⟩
    all_goals
      simp only [Gpu.run_cons, Gpu.run_nil, Gpu.step, hpaint]
      rw [Gpu.paint_of_none hzero]
    exact Function.update_of_ne (hsound.plains q hq) _ _

theorem Ready.drawJob (h : m.Ready w log g job) (hg : g.Stored w) (hsep : Separates log)
    (hid : job.Identified) (hb : m.handles.Nodup) (hpos : 0 < g.renderer.width)
    (hf : g.gpu.framebuffer = 0) :
    ∃ g' shown, (drawJob w m).run g = (m.refreshed w, g') ∧ (m.refreshed w).Ready w log g' job ∧
      g'.Stored w ∧ g'.gpu.framebuffer = 0 ∧ m.Touches g g' ∧ g'.drawn = g.drawn ++ shown ∧
      Drawn w g.renderer log g.renderer.width g.renderer.height m.job m.program shown := by
  obtain ⟨hprep, htouch, hdrawn, hframe⟩ := h.prepared hg hsep hid hb
  have hr := htouch.renderer
  have hwidth : (m.prepared w g).renderer.width = g.renderer.width := by rw [hr]
  have hheight : (m.prepared w g).renderer.height = g.renderer.height := by rw [hr]
  obtain ⟨hpaint, hshown⟩ := hprep.paints (hwidth ▸ hpos) (hframe.trans hf)
  rw [hwidth, hheight] at hshown
  refine ⟨_, _, run_drawJob w m g, hpaint.ready hprep.ready, hpaint.stored hprep.stored, ?_,
    htouch.trans hpaint.touches, ?_, hshown.congr (by rw [hr]) (by rw [hr])⟩
  · rw [Rig.gpu_issued, hpaint.framebuffer]
  · rw [Rig.drawn_issued, hdrawn]

end MountedJob

/-! ## Sizes -/

namespace MountedJob

def resizes (half : List Float32) (m : MountedJob) : List DeviceCall :=
  if m.resolution < 0 then [] else [.useProgram m.program, .setUniform m.resolution .vec2 half]

def resized (half : List Float32) (m : MountedJob) (values : Int → Option (List Float32)) :
    Int → Option (List Float32) :=
  if m.resolution < 0 then values else Function.update values m.resolution (some half)

theorem Shows.resized {width0 height0 : Int} {values : Int → Option (List Float32)}
    (h : m.Shows w log width0 height0 values) (hw : m.Wired log job) (hsep : Separates log) (width height : Int) :
    m.Shows w log width height (m.resized [Number.ofInt width / 2, Number.ofInt height / 2] values) := by
  unfold MountedJob.resized
  by_cases hr : m.resolution < 0
  · rw [if_pos hr]
    exact ⟨h.uniforms, h.samplers, fun _ h0 => absurd hr (Int.not_lt.mpr h0)⟩
  · rw [if_neg hr]
    have h0 := Int.not_lt.mp hr
    refine ⟨fun s hs => (h.uniforms s hs).congr fun _ => ?_, fun i t ht => ?_, fun _ _ => ?_⟩
    · exact Function.update_of_ne (hw.ne_resolution hsep hs h0) _ _
    · obtain ⟨l, hl, hv⟩ := h.samplers i t ht
      refine ⟨l, hl, fun hl0 => (Function.update_of_ne ?_ _ _).trans (hv hl0)⟩
      rintro rfl
      exact uniformName_ne_resolution _ (hsep.uniforms hl hw.resolution h0)
    · exact Function.update_self ..

end MountedJob

theorem Gpu.run_resizes (half : List Float32) (m : MountedJob) (g : Gpu) :
    ∃ p, g.run (m.resizes half) = { g with
      program := p
      uniforms := Function.update g.uniforms m.program (m.resized half (g.uniforms m.program)) } := by
  unfold MountedJob.resizes MountedJob.resized
  by_cases hr : m.resolution < 0
  · exact ⟨g.program, by simp [hr]⟩
  · exact ⟨m.program, by rw [if_neg hr, if_neg hr]; rfl⟩

theorem Gpu.run_allResizes (half : List Float32) (ms : List MountedJob) (g : Gpu) :
    ∃ p u, g.run (ms.flatMap (·.resizes half)) = { g with program := p, uniforms := u } ∧
      ((ms.map (·.program)).Nodup → ∀ m ∈ ms, u m.program = m.resized half (g.uniforms m.program)) ∧
      ∀ h, h ∉ ms.map (·.program) → u h = g.uniforms h := by
  induction ms generalizing g with
  | nil => exact ⟨_, _, rfl, by simp, fun _ _ => rfl⟩
  | cons m ms ih =>
    obtain ⟨p1, hrun1⟩ := g.run_resizes half m
    obtain ⟨p, u, hrun, hu, hother⟩ := ih (g.run (m.resizes half))
    refine ⟨p, u, ?_, fun hd => ?_, fun h hh => ?_⟩
    · rw [flatMap_cons, run_append, hrun, hrun1]
    · obtain ⟨hm, hd⟩ := nodup_cons.mp hd
      refine forall_mem_cons.mpr ⟨?_, fun m' hm' => ?_⟩
      · rw [hother m.program hm, hrun1]
        exact Function.update_self ..
      · have hne : m'.program ≠ m.program := fun heq => hm (mem_map.mpr ⟨m', hm', heq⟩)
        rw [hu hd m' hm', hrun1]
        exact congrArg _ (Function.update_of_ne hne _ _)
    · obtain ⟨hh, hh'⟩ := not_or.mp (mt mem_cons.mpr hh)
      rw [hother h hh', hrun1]
      exact Function.update_of_ne hh _ _

/-- The buffers of feedback textures get a new size. -/
def FeedbackPair.resizes (width height : Int) (p : FeedbackPair) : List DeviceCall :=
  [.textureData p.first.texture width height none, .textureData p.second.texture width height none]

theorem Gpu.run_pairResizes (width height : Int) (ps : List FeedbackPair) (g : Gpu) :
    ∃ i, g.run (ps.flatMap (·.resizes width height)) = { g with images := i } ∧
      ∀ h, (∀ p ∈ ps, h ≠ p.first.texture ∧ h ≠ p.second.texture) → i h = g.images h := by
  induction ps generalizing g with
  | nil => exact ⟨_, rfl, fun _ _ => rfl⟩
  | cons p ps ih =>
    obtain ⟨i, hrun, hi⟩ := ih (g.run (p.resizes width height))
    refine ⟨i, ?_, fun h hh => ?_⟩
    · rw [flatMap_cons, run_append, hrun]
      rfl
    · obtain ⟨hp, hps⟩ := forall_mem_cons.mp hh
      rw [hi h hps]
      exact (Function.update_of_ne hp.2 _ _).trans (Function.update_of_ne hp.1 _ _)

def Renderer.resizes (r : Renderer) (width height : Int) : List DeviceCall :=
  .setSize width height ::
    (r.jobs.flatMap (·.resizes [Number.ofInt width / 2, Number.ofInt height / 2]) ++
      r.pairs.flatMap (·.resizes width height))

theorem Renderer.not_isDraw_of_mem_resizes (r : Renderer) (width height : Int) :
    ∀ c ∈ r.resizes width height, ¬ c.isDraw := by
  refine forall_mem_cons.mpr ⟨Bool.false_ne_true, forall_mem_append.mpr ⟨?_, ?_⟩⟩
  · intro c hc
    obtain ⟨m, -, hc⟩ := mem_flatMap.mp hc
    unfold MountedJob.resizes at hc
    split at hc
    · cases hc
    · rcases mem_pair.mp hc with rfl | rfl <;> exact Bool.false_ne_true
  · intro c hc
    obtain ⟨p, -, hc⟩ := mem_flatMap.mp hc
    rcases mem_pair.mp hc with rfl | rfl <;> exact Bool.false_ne_true

theorem run_resize (width height : Int) (g : Rig) :
    ((resize width height).run g).2.device = (g.issued (g.renderer.resizes width height)).device ∧
      ((resize width height).run g).2.renderer = { g.renderer with width, height } := by
  have hjob : ∀ (m : MountedJob) (g : Rig), StateT.run (m := Id) (if m.resolution < 0 then pure () else do
      issue (.useProgram m.program)
      issue (.setUniform m.resolution .vec2 [Number.ofInt width / 2, Number.ofInt height / 2])) g =
        ((), g.issued (m.resizes [Number.ofInt width / 2, Number.ofInt height / 2])) := by
    intro m g
    unfold MountedJob.resizes
    split
    · rw [Rig.issued_nil]
      rfl
    · simp only [run_bind, run_issue, Rig.issued_issued, cons_append, nil_append]
  have hpair : ∀ (p : FeedbackPair) (g : Rig), StateT.run (m := Id) (do
      issue (.textureData p.first.texture width height none)
      issue (.textureData p.second.texture width height none)) g =
        ((), g.issued (p.resizes width height)) := by
    intro p g
    simp only [run_bind, run_issue, Rig.issued_issued, cons_append, nil_append]
    rfl
  unfold resize
  simp only [run_bind, run_update, run_issue, run_renderer, run_forM _ hjob, run_forM _ hpair]
  refine ⟨(say_keeps ..).1.trans ?_, (say_keeps ..).2⟩
  simp [Rig.issued, Renderer.resizes]

/-- A mounted renderer between frames. -/
structure Rig.Mounted (w : Workspace) (log : List DeviceCall) (g : Rig) : Prop where
  stored : g.Stored w
  disposed : g.renderer.disposed = false
  handles : (g.renderer.jobs.flatMap (·.handles)).Nodup
  ready : ∀ m ∈ g.renderer.jobs, ∃ job, m.Ready w log g job

theorem MountedJob.nodup_programs (h : (ms.flatMap (·.handles)).Nodup) : (ms.map (·.program)).Nodup := by
  refine pairwise_map.mpr ((nodup_flatMap.mp h).2.imp fun {m m'} hd heq => ?_)
  exact hd (mem_cons_self : m.program ∈ m.handles) (heq ▸ mem_cons_self)

theorem Rig.Mounted.resize (h : g.Mounted w log) (hsep : Separates log) (width height : Int) :
    ((resize width height).run g).2.Mounted w log ∧ ((resize width height).run g).2.drawn = g.drawn := by
  obtain ⟨hd, hr⟩ := run_resize width height g
  generalize ((Render.resize width height).run g).2 = g' at hd hr
  obtain ⟨p, u, hjobs, hu, -⟩ := Gpu.run_allResizes [Number.ofInt width / 2, Number.ofInt height / 2]
    g.renderer.jobs g.gpu
  obtain ⟨i, hpairs, hi⟩ := Gpu.run_pairResizes width height g.renderer.pairs
    { g.gpu with program := p, uniforms := u }
  have hgpu : g'.gpu = { g.gpu with program := p, uniforms := u, images := i } := by
    rw [Rig.gpu, hd]
    change (g.issued (g.renderer.resizes width height)).gpu = _
    rw [Rig.gpu_issued, Renderer.resizes, Gpu.run_cons, Gpu.run_append]
    change (g.gpu.run _).run _ = _
    rw [hjobs, hpairs]
  have hnext : g'.device.nextHandle = g.device.nextHandle := by
    rw [hd]
    rfl
  refine ⟨⟨?_, ?_, ?_, fun m hm => ?_⟩, ?_⟩
  · refine h.stored.keep (by rw [hr]) (by rw [hr]) (Nat.le_of_eq hnext.symm) (fun q hq => ?_) ?_
    · rw [hgpu]
      exact hi _ fun p hp => ⟨(h.stored.targets p hp).1.plains q hq, (h.stored.targets p hp).2.plains q hq⟩
    · exact fun _ _ => by rw [hgpu]
  · rw [hr]
    exact h.disposed
  · rw [hr]
    exact h.handles
  · have hm : m ∈ g.renderer.jobs := by
      rw [hr] at hm
      exact hm
    obtain ⟨job, hj⟩ := h.ready m hm
    refine ⟨job, hj.known, hj.wired, hnext ▸ hj.handles, ?_, ?_, fun t ht => ?_⟩
    · rw [hr, hgpu]
      change m.Shows w log width height (u m.program)
      rw [hu (MountedJob.nodup_programs h.handles) m hm]
      exact hj.shows.resized hj.wired hsep width height
    · rw [hgpu]
      exact hj.attributes
    · rw [hr]
      exact ⟨(hj.textures t ht).pair, (hj.textures t ht).plain⟩
  · rw [Rig.drawn, hd]
    exact g.drawn_issued_of_not_isDraw (g.renderer.not_isDraw_of_mem_resizes width height)

/-! ## Frames -/

/-- A rig that draws the frames of a renderer, with jobs that have objects of their own. -/
structure Rig.Running (w : Workspace) (log : List DeviceCall) (r : Renderer) (g : Rig)
    (ms : List MountedJob) : Prop where
  stored : g.Stored w
  framebuffer : g.gpu.framebuffer = 0
  renderer : g.renderer = { r with plains := g.renderer.plains, heldPixels := g.renderer.heldPixels }
  handles : (ms.flatMap (·.handles)).Nodup
  ready : ∀ m ∈ ms, ∃ job, m.Ready w log g job

theorem Rig.Running.drawJobs {done : List MountedJob} (h : g.Running w log r (done ++ ms))
    (hsep : Separates log) (hids : ∀ job ∈ w.jobs, job.Identified) (hpos : 0 < r.width) :
    ∃ g' shown, (ms.mapM (drawJob w)).run g = (ms.map (·.refreshed w), g') ∧
      g'.Running w log r (done ++ ms.map (·.refreshed w)) ∧ g'.drawn = g.drawn ++ shown.flatten ∧
      Forall₂ (fun m => Drawn w r log r.width r.height m.job m.program) ms shown := by
  induction ms generalizing g done with
  | nil => exact ⟨g, [], rfl, h, by simp, .nil⟩
  | cons m ms ih =>
    obtain ⟨job, hm⟩ := h.ready m (by simp)
    obtain ⟨hnodup, hdisj⟩ := nodup_flatMap.mp h.handles
    obtain ⟨-, hms, hdone⟩ := pairwise_append.mp hdisj
    have hwidth : g.renderer.width = r.width := by rw [h.renderer]
    have hheight : g.renderer.height = r.height := by rw [h.renderer]
    obtain ⟨g1, shown1, hrun1, hm1, hstored1, hframe1, htouch, hdrawn1, hshown1⟩ :=
      hm.drawJob h.stored hsep (hids job (mem_of_getElem? hm.known)) (hnodup m (by simp))
        (hwidth ▸ hpos) h.framebuffer
    have hflat : ((done ++ [m.refreshed w]) ++ ms).flatMap (·.handles) =
        (done ++ m :: ms).flatMap (·.handles) := by simp
    have h1 : g1.Running w log r ((done ++ [m.refreshed w]) ++ ms) := by
      refine ⟨hstored1, hframe1, by rw [htouch.renderer, h.renderer], hflat ▸ h.handles, ?_⟩
      refine forall_mem_append.mpr ⟨forall_mem_append.mpr ⟨fun m' hm' => ?_, ?_⟩,
        fun m' hm' => ?_⟩
      · obtain ⟨job', hj'⟩ := h.ready m' (mem_append_left _ hm')
        exact ⟨job', hj'.touched htouch fun _ hi hi' => hdone m' hm' m mem_cons_self hi' hi⟩
      · exact forall_mem_singleton.mpr ⟨job, hm1⟩
      · obtain ⟨job', hj'⟩ := h.ready m' (mem_append_right _ (mem_cons_of_mem _ hm'))
        exact ⟨job', hj'.touched htouch ((pairwise_cons.mp hms).1 m' hm')⟩
    obtain ⟨g2, shown2, hrun2, h2, hdrawn2, hshown2⟩ := ih h1
    refine ⟨g2, shown1 :: shown2, ?_, ?_, ?_, .cons ?_ hshown2⟩
    · rw [mapM_cons, run_bind, hrun1, run_bind, hrun2, run_pure]
      rfl
    · simpa using h2
    · rw [hdrawn2, hdrawn1, flatten_cons, append_assoc]
    · rw [hwidth, hheight] at hshown1
      exact hshown1.congr (by rw [h.renderer]) (by rw [h.renderer])

theorem Rig.Stored.swapped (h : g.Stored w) (hp : r.plains = g.renderer.plains)
    (hq : r.pairs = g.renderer.pairs.map (·.swap)) : Rig.Stored w { g with renderer := r } where
  next := h.next
  plains := hp ▸ h.plains
  apart := hp ▸ h.apart
  targets p hmem := by
    have hmem : p ∈ g.renderer.pairs.map (·.swap) := hq ▸ hmem
    obtain ⟨q, hq, rfl⟩ := mem_map.mp hmem
    exact ⟨(h.targets q hq).1.keep hp (Nat.le_refl _) fun _ _ => rfl,
      (h.targets q hq).2.keep hp (Nat.le_refl _) fun _ _ => rfl⟩

theorem run_frame_of_empty (h : ¬ (0 < width ∧ 0 < height)) (g : Rig) :
    (frame w width height).run g = ((), g) := by
  unfold frame
  rw [run_bind, run_renderer, if_neg fun h' => h h'.2]
  rfl

def Rig.sized (width height : Int) (g : Rig) : Rig :=
  if width ≠ g.renderer.width ∨ height ≠ g.renderer.height then ((resize width height).run g).2 else g

theorem Rig.Mounted.sized (h : g.Mounted w log) (hsep : Separates log) (width height : Int) :
    (g.sized width height).Mounted w log ∧ (g.sized width height).drawn = g.drawn ∧
      (g.sized width height).renderer = { g.renderer with width, height } := by
  unfold Rig.sized
  split
  · obtain ⟨h', hd⟩ := h.resize hsep width height
    exact ⟨h', hd, (run_resize width height g).2⟩
  · next hs =>
    obtain ⟨rfl, rfl⟩ : width = g.renderer.width ∧ height = g.renderer.height := by simpa using hs
    exact ⟨h, rfl, rfl⟩

/-- The canvas is bound and cleared, which changes no texture. -/
theorem Rig.gpu_cleared (g : Rig) (width height : Int) :
    (g.issued [.bindFramebuffer 0, .viewport width height, .clear 0 0 0 1]).gpu = { g.gpu with framebuffer := 0 } :=
  (gpu_issued ..).trans (Gpu.paint_of_none g.attached_zero)

theorem run_frame (hd : g.renderer.disposed = false)
    (hw : 0 < width) (hh : 0 < height)
    (hrun : (g.renderer.jobs.mapM (drawJob w)).run ((g.sized width height).issued
      [.bindFramebuffer 0, .viewport width height, .clear 0 0 0 1]) = (ms, g')) :
    ((frame w width height).run g).2 = { g' with renderer := { g'.renderer with
      jobs := ms
      pairs := g'.renderer.pairs.map (·.swap)
      frame := g'.renderer.frame + 1 } } := by
  unfold frame
  rw [run_bind, run_renderer, if_pos ⟨by simp [hd], hw, hh⟩]
  unfold Rig.sized at hrun
  by_cases hs : width ≠ g.renderer.width ∨ height ≠ g.renderer.height
  · rw [if_pos hs] at hrun
    simp only [if_pos hs, run_bind, run_issue, Rig.issued_issued, cons_append, nil_append,
      hrun, run_update]
  · rw [if_neg hs] at hrun
    simp only [if_neg hs, run_bind, run_issue, Rig.issued_issued, cons_append, nil_append,
      hrun, run_update]

/-- A frame draws every mounted job with what is staged. -/
theorem Rig.Mounted.frame (h : g.Mounted w log) (hsep : Separates log) (hids : ∀ job ∈ w.jobs, job.Identified)
    (hw : 0 < width) (hh : 0 < height) :
    ((frame w width height).run g).2.Mounted w log ∧
      ((frame w width height).run g).2.renderer.jobs = g.renderer.jobs.map (·.refreshed w) ∧
      ∃ shown, ((frame w width height).run g).2.drawn = g.drawn ++ shown.flatten ∧
        Forall₂ (fun m => Drawn w g.renderer log width height m.job m.program) g.renderer.jobs shown := by
  obtain ⟨h1, hdrawn1, hr1⟩ := h.sized hsep width height
  generalize hg1 : g.sized width height = g1 at h1 hdrawn1 hr1
  have hjobs : g1.renderer.jobs = g.renderer.jobs := by rw [hr1]
  have hclear := g1.gpu_cleared width height
  have hrunning : (g1.issued [.bindFramebuffer 0, .viewport width height, .clear 0 0 0 1]).Running w log
      g1.renderer ([] ++ g.renderer.jobs) := by
    refine ⟨?_, by rw [hclear], rfl, hjobs ▸ h1.handles, fun m hm => ?_⟩
    · exact h1.stored.keep rfl rfl (Nat.le_refl _) (fun _ _ => by rw [hclear]) fun _ _ => by rw [hclear]
    · obtain ⟨job, hj⟩ := h1.ready m (hjobs ▸ hm)
      exact ⟨job, hj.keep (Nat.le_refl _) rfl rfl (by rw [hclear]) (fun _ _ => by rw [hclear]) fun _ => id⟩
  obtain ⟨g', shown, hrun, h', hdrawn, hshown⟩ := hrunning.drawJobs hsep hids (by rw [hr1]; exact hw)
  rw [run_frame h.disposed hw hh (hg1 ▸ hrun)]
  have hr' := h'.renderer
  refine ⟨⟨h'.stored.swapped rfl rfl, ?_, h'.handles, fun m hm => ?_⟩, rfl, shown, ?_, ?_⟩
  · change g'.renderer.disposed = false
    rw [hr']
    exact h1.disposed
  · obtain ⟨job, hj⟩ := h'.ready m hm
    refine ⟨job, hj.keep (Nat.le_refl _) rfl rfl rfl (fun _ _ => rfl) fun t ht => ⟨fun hf => ?_, ht.plain⟩⟩
    obtain ⟨p, hp, ht⟩ := ht.pair hf
    exact ⟨p.swap, mem_map_of_mem hp, ht⟩
  · change g'.drawn = _
    rw [hdrawn, g1.drawn_issued_of_not_isDraw (by simp [DeviceCall.isDraw]), hdrawn1]
  · rw [hr1] at hshown
    exact hshown.imp fun m gs hs => hs.congr rfl rfl

end ShaderGraph
