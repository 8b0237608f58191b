import Mathlib.Data.List.Pairwise
import ShaderGraph.Proofs.Drawing
import ShaderGraph.Proofs.Lifetimes

/-!
# Feedback textures by turns

A feedback texture has two buffers. Every frame draws into one and samples the other, and they
change places after the last job, so that a frame samples what the frame before it has drawn. This
needs nothing of the values that are staged: `Rig.Alternates` is what frames keep whatever they
upload, and `MountedJob.Turn` is what the draws of a job are in frame `k`.
-/

namespace ShaderGraph

open Render List

/-! ## Buffers -/

namespace FeedbackPair

/-- The buffer that frame `k` is drawn into. -/
def buffer (p : FeedbackPair) (k : Nat) : TargetBuffer := if k % 2 = 0 then p.first else p.second

def after (k : Nat) (p : FeedbackPair) : FeedbackPair := { p with odd := k % 2 = 1 }

variable (p : FeedbackPair) (k : Nat)

theorem buffer_add_two : p.buffer (k + 2) = p.buffer k := by
  rw [buffer, buffer, Nat.add_mod_right]

theorem swap_after : (p.after k).swap = p.after (k + 1) := by
  have hodd : (!decide (k % 2 = 1)) = decide ((k + 1) % 2 = 1) := by
    rw [← decide_not, decide_eq_decide]
    omega
  simp only [swap, after, hodd]

theorem target_after : (p.after k).target = p.buffer k := by
  by_cases hk : k % 2 = 0
  · simp [target, after, buffer, hk]
  · have hodd : k % 2 = 1 := by omega
    simp [target, after, buffer, hodd]

theorem source_after : (p.after k).source = p.buffer (k + 1) := by
  by_cases hk : k % 2 = 0
  · have hnext : (k + 1) % 2 = 1 := by omega
    simp [source, after, buffer, hk, hnext]
  · have hodd : k % 2 = 1 := by omega
    have hnext : (k + 1) % 2 = 0 := by omega
    simp [source, after, buffer, hodd, hnext]

theorem index_after : (p.after k).index = k % 2 := by
  simp only [index, after, decide_eq_true_eq]
  split <;> omega

theorem after_zero {p : FeedbackPair} (h : p.odd = false) : p.after 0 = p := by
  obtain ⟨_, _, _, odd⟩ := p
  obtain rfl : odd = false := h
  rfl

end FeedbackPair

/-! ## Turns -/

/-- A job is drawn in frame `k`. A texture is bound at its place among the textures of the job; a
feedback texture is the buffer that frame `k` does not draw into, and nothing that is sampled is
drawn into. -/
structure MountedJob.Samples (r : Renderer) (k : Nat) (m : MountedJob) (g : Gpu) : Prop where
  program : g.program = m.program
  feedback : ∀ (i : Nat) t, m.textures[i]? = some t → t.feedback = true →
    ∃ p, r.pair? t = some p ∧ g.units i = (p.buffer (k + 1)).texture
  apart : ∀ i < m.textures.length, g.attached g.framebuffer ≠ some (g.units i)

/-- The states in which a job is drawn in frame `k`: one on the canvas, or one on the buffer of its
feedback texture and one that copies that buffer onto the canvas. -/
inductive MountedJob.Turn (r : Renderer) (k : Nat) (m : MountedJob) : List Gpu → Prop where
  | canvas {g : Gpu} (target : m.target = none) (samples : m.Samples r k g)
      (framebuffer : g.framebuffer = 0) : Turn r k m [g]
  | feedback {g copy : Gpu} {t : Texture} {p : FeedbackPair} (target : m.target = some t)
      (pair : r.pair? t = some p) (samples : m.Samples r k g)
      (framebuffer : g.framebuffer = (p.buffer k).framebuffer)
      (attached : g.attached g.framebuffer = some (p.buffer k).texture)
      (program : copy.program = r.blit.program) (blits : copy.Blits r.blit)
      (quad : copy.attributes r.blit.position = some ⟨r.blit.quad, 2, 0⟩)
      (texture : copy.units 0 = (p.buffer k).texture) (canvas : copy.framebuffer = 0) :
      Turn r k m [g, copy]

/-- What a job keeps from the time it was mounted. -/
structure MountedJob.Suits (w : Workspace) (r : Renderer) (m : MountedJob) : Prop where
  known : ∃ job, w.jobs[m.job]? = some job
  textures : ∀ t ∈ m.textures, r.Has t
  target : ∀ t, m.target = some t → t ∈ m.textures ∧ t.feedback = true
  blit : r.pairs ≠ [] → ∀ h ∈ m.handles, h ≠ r.blit.program ∧ h ≠ r.blit.quad

/-- No first buffer is a second one. -/
def Renderer.Apart (r : Renderer) : Prop :=
  ∀ p ∈ r.pairs, ∀ q ∈ r.pairs, p.first.texture ≠ q.second.texture

variable {w : Workspace} {r : Renderer} {k : Nat} {g g' : Rig} {m m' : MountedJob} {t : Texture} {i : Nat}
  {p q : FeedbackPair}

theorem Renderer.Apart.buffer (h : r.Apart) (hp : p ∈ r.pairs) (hq : q ∈ r.pairs) (k : Nat) :
    (p.buffer k).texture ≠ (q.buffer (k + 1)).texture := by
  unfold FeedbackPair.buffer
  by_cases hk : k % 2 = 0
  · rw [if_pos hk, if_neg (by omega)]
    exact h p hp q hq
  · rw [if_neg hk, if_pos (by omega)]
    exact (h q hq p hp).symm

/-- A rig in frame `k` of a renderer that was mounted as `r`. -/
structure Rig.Turns (r : Renderer) (k : Nat) (g : Rig) : Prop where
  blit : g.renderer.blit = r.blit
  pairs : g.renderer.pairs = r.pairs.map (·.after k)
  plains : ∀ q ∈ g.renderer.plains, ∀ p ∈ r.pairs, ∀ k, q.handle ≠ (p.buffer k).texture
  plain : ∀ t p, r.plain? t = some p → ∃ q, g.renderer.plain? t = some q ∧ q.handle = p.handle
  attached : ∀ p ∈ r.pairs, ∀ k, g.gpu.attached (p.buffer k).framebuffer = some (p.buffer k).texture
  blits : r.pairs ≠ [] → g.gpu.Blits r.blit

/-- What frames of a renderer leave alone on the device. -/
structure Gpu.Leaves (r : Renderer) (g g' : Gpu) : Prop where
  attached : g'.attached = g.attached
  uniforms : r.pairs ≠ [] → g'.uniforms r.blit.program = g.uniforms r.blit.program
  buffers : r.pairs ≠ [] → g'.buffers r.blit.quad = g.buffers r.blit.quad

theorem Gpu.Leaves.blits {g g' : Gpu} (h : g.Leaves r g') (hne : r.pairs ≠ []) (hb : g.Blits r.blit) :
    g'.Blits r.blit where
  sampler := by rw [h.uniforms hne, hb.sampler]
  quad := by rw [h.buffers hne, hb.quad]

namespace Rig.Turns

variable (h : g.Turns r k)
include h

theorem binds (hb : g.Binds w g') : g'.Turns r k where
  blit := by rw [hb.renderer, h.blit]
  pairs := by rw [hb.renderer, h.pairs]
  plains q hq p hp k := by
    obtain ⟨q', hq', heq⟩ := hb.handles q hq
    exact heq ▸ h.plains q' hq' p hp k
  plain t p hp := by
    obtain ⟨q, hq, heq⟩ := h.plain t p hp
    rcases hb.plains t with hsame | ⟨q', hq', hsent⟩
    · exact ⟨q, hsame.trans hq, heq⟩
    · cases hq'.symm.trans hq
      exact ⟨_, hsent, heq⟩
  attached := by
    rw [hb.gpu]
    exact h.attached
  blits hne := by
    rw [hb.gpu]
    exact ⟨(h.blits hne).sampler, (h.blits hne).quad⟩

theorem congr (hgpu : g'.gpu = g.gpu) (hb : g'.renderer.blit = g.renderer.blit)
    (hq : g'.renderer.pairs = g.renderer.pairs) (hp : g'.renderer.plains = g.renderer.plains) :
    g'.Turns r k := by
  refine ⟨hb.trans h.blit, hq.trans h.pairs, hp ▸ h.plains, ?_, hgpu ▸ h.attached, hgpu ▸ h.blits⟩
  unfold Renderer.plain?
  rw [hp]
  exact h.plain

theorem issued {cs : List DeviceCall} (hl : g.gpu.Leaves r (g.gpu.run cs)) : (g.issued cs).Turns r k where
  blit := h.blit
  pairs := h.pairs
  plains := h.plains
  plain := h.plain
  attached := by
    rw [Rig.gpu_issued, hl.attached]
    exact h.attached
  blits hne := by
    rw [Rig.gpu_issued]
    exact hl.blits hne (h.blits hne)

theorem pair? (t : Texture) : g.renderer.pair? t = (r.pair? t).map (·.after k) := by
  rw [Renderer.pair?, h.pairs, find?_map]
  rfl

theorem has (ht : r.Has t) : g.renderer.Has t where
  pair hf := by
    obtain ⟨p, hp, ht⟩ := ht.pair hf
    exact ⟨p.after k, h.pairs ▸ mem_map_of_mem hp, ht⟩
  plain hf := by
    obtain ⟨p, hp⟩ := Option.isSome_iff_exists.mp (Renderer.plain?_isSome.mpr (ht.plain hf))
    obtain ⟨q, hq, -⟩ := h.plain t p hp
    exact Renderer.plain?_isSome.mp (Option.isSome_iff_exists.mpr ⟨q, hq⟩)

theorem unit_feedback (ht : t.BoundAt w g i) (hf : t.feedback = true) :
    ∃ p, r.pair? t = some p ∧ g.gpu.units i = (p.buffer (k + 1)).texture := by
  obtain ⟨p, hp, hunit⟩ := ht.pair hf
  rw [h.pair?] at hp
  obtain ⟨q, hq, rfl⟩ := Option.map_eq_some_iff.mp hp
  exact ⟨q, hq, hunit.trans (congrArg TargetBuffer.texture (q.source_after k))⟩

theorem ne_of_bound (hr : r.Apart) (ht : t.BoundAt w g i) (hp : p ∈ r.pairs) :
    (p.buffer k).texture ≠ g.gpu.units i := by
  cases hf : t.feedback with
  | true =>
    obtain ⟨q, hq, hunit⟩ := h.unit_feedback ht hf
    exact hunit ▸ hr.buffer hp (mem_of_find?_eq_some hq) k
  | false =>
    obtain ⟨q, hq, -, hunit⟩ := ht.plain hf
    exact hunit ▸ (h.plains q (Renderer.texture_of_plain? hq).1 p hp k).symm

end Rig.Turns

namespace MountedJob

theorem Suits.leaves_sends (hm : m.Suits w r) (w' : Workspace) (g : Rig) :
    g.gpu.Leaves r (g.gpu.run (m.sends w')) := by
  rw [← Rig.gpu_issued, gpu_sends]
  refine ⟨rfl, fun hne => ?_, fun hne => ?_⟩
  · exact Function.update_of_ne (hm.blit hne _ mem_cons_self).1.symm _ _
  · refine writeAll_of_none fun s hs heq => ?_
    exact absurd heq (hm.blit hne _ (mem_cons_of_mem _ (mem_map_of_mem hs))).2

theorem Suits.prepared (hm : m.Suits w r) (h : g.Turns r k) (w' : Workspace) :
    (m.prepared w' g).Turns r k ∧ (g.issued (m.sends w')).Binds w' (m.prepared w' g) ∧
      ∀ (i : Nat) t, m.textures[i]? = some t → t.BoundAt w' (m.prepared w' g) i := by
  have hsent : (g.issued (m.sends w')).Turns r k := h.issued (hm.leaves_sends w' g)
  obtain ⟨hb, -, hbound⟩ := bindTextures_spec w' (fun t ht => hsent.has (hm.textures t ht)) 0
  refine ⟨hsent.binds hb, hb, fun i t hi => ?_⟩
  have hunit := hbound i t hi
  rwa [Nat.zero_add] at hunit

theorem samples_of_bound (h : g.Turns r k) {f : Handle} (hp : g.gpu.program = m.program)
    (hbound : ∀ (i : Nat) t, m.textures[i]? = some t → t.BoundAt w g i)
    (hapart : ∀ i (t : Texture), t.BoundAt w g i → g.gpu.attached f ≠ some (g.gpu.units i)) :
    m.Samples r k { g.gpu with framebuffer := f } where
  program := hp
  feedback i t hi hf := h.unit_feedback (hbound i t hi) hf
  apart i hi := hapart i _ (hbound i _ (getElem?_eq_getElem hi))

def counts (w : Workspace) (m : MountedJob) : List (DrawMode × Nat × Nat) :=
  match w.jobs[m.job]? with
  | none => []
  | some job => (job.mode, job.counts w.elements) ::
    match m.target with
    | none => []
    | some _ => [(.triangleStrip, 4, 1)]

/-- A job takes its turn in frame `k`. Textures that are not fed back are those that were made when it was
mounted. -/
structure Take (w : Workspace) (r : Renderer) (k : Nat) (m : MountedJob)
    (shots : List Shot) : Prop where
  turn : m.Turn r k (shots.map (·.2))
  counts : shots.map (·.1) = m.counts w
  plain : ∀ s ∈ shots.head?, ∀ (i : Nat) t, m.textures[i]? = some t → t.feedback = false →
    ∃ p, r.plain? t = some p ∧ s.2.units i = p.handle

theorem Suits.plain (hm : m.Suits w r) (h : g.Turns r k) (hi : m.textures[i]? = some t) (ht : t.BoundAt w g i)
    (hf : t.feedback = false) : ∃ p, r.plain? t = some p ∧ g.gpu.units i = p.handle := by
  obtain ⟨p, hp⟩ := Option.isSome_iff_exists.mp
    (Renderer.plain?_isSome.mpr ((hm.textures t (mem_of_getElem? hi)).plain hf))
  obtain ⟨q, hq, heq⟩ := h.plain t p hp
  obtain ⟨q', hq', -, hunit⟩ := ht.plain hf
  cases hq.symm.trans hq'
  exact ⟨p, hp, hunit.trans heq⟩

theorem Suits.draws (hm : m.Suits w r) (hr : r.Apart) (h : g.Turns r k) (hf : g.gpu.framebuffer = 0)
    (hprogram : g.gpu.program = m.program)
    (hbound : ∀ (i : Nat) t, m.textures[i]? = some t → t.BoundAt w g i) :
    g.gpu.Leaves r (g.gpu.run (m.drawing w g.renderer)) ∧
      (g.gpu.run (m.drawing w g.renderer)).framebuffer = 0 ∧
      m.Take w r k (g.gpu.shots (m.drawing w g.renderer)) := by
  obtain ⟨job, hjob⟩ := hm.known
  have hzero := g.attached_zero
  have hplain (i : Nat) t (hi : m.textures[i]? = some t) := hm.plain h hi (hbound i t hi)
  unfold drawing
  rw [hjob]
  cases ht : m.target with
  | none =>
    have hpaint : g.gpu.paint = g.gpu := Gpu.paint_of_none (hf ▸ hzero)
    have hsamples : m.Samples r k { g.gpu with framebuffer := g.gpu.framebuffer } :=
      samples_of_bound h hprogram hbound fun i t _ => by
        rw [hf, hzero]
        exact (Option.some_ne_none _).symm
    refine ⟨?_, ?_, .canvas ht hsamples hf, by rw [counts, hjob, ht]; rfl, ?_⟩
    · change g.gpu.Leaves r g.gpu.paint
      rw [hpaint]
      exact ⟨rfl, fun _ => rfl, fun _ => rfl⟩
    · exact (congrArg Gpu.framebuffer hpaint).trans hf
    · rintro _ ⟨⟩
      exact hplain
  | some t =>
    obtain ⟨hmem, hfeed⟩ := hm.target t ht
    obtain ⟨p, hp⟩ := Option.isSome_iff_exists.mp
      (Renderer.pair?_isSome.mpr ((hm.textures t hmem).pair hfeed))
    have hpairs : p ∈ r.pairs := mem_of_find?_eq_some hp
    rw [Option.bind_some, h.pair?, hp, Option.map_some, h.blit]
    dsimp only
    rw [p.target_after k]
    have hattached := h.attached p hpairs k
    have hpaint : Gpu.paint { g.gpu with framebuffer := (p.buffer k).framebuffer } =
        { g.gpu with
          framebuffer := (p.buffer k).framebuffer
          images := Function.update g.gpu.images (p.buffer k).texture none } :=
      Gpu.paint_of_some hattached
    have hsamples : m.Samples r k { g.gpu with framebuffer := (p.buffer k).framebuffer } :=
      samples_of_bound h hprogram hbound fun i t hi => by
        rw [hattached]
        exact fun heq => h.ne_of_bound hr hi hpairs (Option.some.inj heq)
    have hblits := h.blits (ne_nil_of_mem hpairs)
    refine ⟨?_, ?_, .feedback ht hp hsamples rfl hattached rfl ?_ (Function.update_self ..)
      ?_ rfl, by rw [counts, hjob, ht]; rfl, ?_⟩
    · simp only [Gpu.run_cons, Gpu.run_nil, Gpu.step, hpaint]
      rw [Gpu.paint_of_none hzero]
      exact ⟨rfl, fun _ => rfl, fun _ => rfl⟩
    · simp only [Gpu.run_cons, Gpu.run_nil, Gpu.step, hpaint]
      rw [Gpu.paint_of_none hzero]
    · simp only [Gpu.step, hpaint]
      exact ⟨hblits.sampler, hblits.quad⟩
    · simp only [Gpu.step, Function.update_self]
    · rintro _ ⟨⟩
      exact hplain

theorem Suits.drawJob (hm : m.Suits w r) (hr : r.Apart) (h : g.Turns r k) (hf : g.gpu.framebuffer = 0) :
    ∃ g' shown, (drawJob w m).run g = (m.refreshed w, g') ∧ g'.Turns r k ∧ g'.gpu.framebuffer = 0 ∧
      g'.renderer =
        { g.renderer with plains := g'.renderer.plains, heldPixels := g'.renderer.heldPixels } ∧
      g'.shots = g.shots ++ shown ∧ m.Take w r k shown := by
  obtain ⟨hturns, hb, hbound⟩ := hm.prepared h w
  have hframe : (m.prepared w g).gpu.framebuffer = 0 := by
    rw [hb.gpu, gpu_sends]
    exact hf
  have hprogram : (m.prepared w g).gpu.program = m.program := by rw [hb.gpu, gpu_sends]
  obtain ⟨hleaves, hcanvas, htake⟩ := hm.draws hr hturns hframe hprogram hbound
  refine ⟨_, _, run_drawJob w m g, hturns.issued hleaves, ?_, hb.renderer, ?_, htake⟩
  · rw [Rig.gpu_issued, hcanvas]
  · rw [Rig.shots_issued, hb.shots, g.shots_issued_of_not_isDraw (not_isDraw_of_mem_sends w m)]

theorem Suits.drawJobs {ms : List MountedJob} (hms : ∀ m ∈ ms, m.Suits w r) (hr : r.Apart)
    (h : g.Turns r k) (hf : g.gpu.framebuffer = 0) :
    ∃ g' shown, (ms.mapM (ShaderGraph.Render.drawJob w)).run g = (ms.map (·.refreshed w), g') ∧ g'.Turns r k ∧
      g'.renderer =
        { g.renderer with plains := g'.renderer.plains, heldPixels := g'.renderer.heldPixels } ∧
      g'.shots = g.shots ++ shown.flatten ∧ Forall₂ (fun m => m.Take w r k) ms shown := by
  induction ms generalizing g with
  | nil => exact ⟨g, [], rfl, h, rfl, by simp, .nil⟩
  | cons m ms ih =>
    obtain ⟨hm, hms⟩ := forall_mem_cons.mp hms
    obtain ⟨g1, shown1, hrun1, h1, hf1, hr1, hshots1, htake⟩ := hm.drawJob hr h hf
    obtain ⟨g2, shown2, hrun2, h2, hr2, hshots2, htakes⟩ := ih hms h1 hf1
    refine ⟨g2, shown1 :: shown2, ?_, h2, ?_, ?_, .cons htake htakes⟩
    · rw [mapM_cons, run_bind, hrun1, run_bind, hrun2, run_pure]
      rfl
    · rw [hr2, hr1]
    · rw [hshots2, hshots1, flatten_cons, append_assoc]

end MountedJob

/-! ## Frames -/

theorem Rig.Turns.sized (h : g.Turns r k)
    (hjobs : r.pairs ≠ [] → ∀ m ∈ g.renderer.jobs, m.program ≠ r.blit.program) (width height : Int) :
    (g.sized width height).Turns r k ∧ (g.sized width height).shots = g.shots ∧
      (g.sized width height).renderer = { g.renderer with width, height } := by
  unfold Rig.sized
  split
  · obtain ⟨hd, hr⟩ := run_resize width height g
    obtain ⟨p, u, hrun, -, hu⟩ := Gpu.run_allResizes [Number.ofInt width / 2, Number.ofInt height / 2]
      g.renderer.jobs g.gpu
    obtain ⟨i, hpairs, -⟩ := Gpu.run_pairResizes width height g.renderer.pairs
      { g.gpu with program := p, uniforms := u }
    have hgpu : g.gpu.run (g.renderer.resizes width height) =
        { g.gpu with program := p, uniforms := u, images := i } := by
      rw [Renderer.resizes, Gpu.run_cons, Gpu.run_append]
      change (g.gpu.run _).run _ = _
      rw [hrun, hpairs]
    have hleaves : g.gpu.Leaves r (g.gpu.run (g.renderer.resizes width height)) := by
      rw [hgpu]
      refine ⟨rfl, fun hne => hu _ fun hmem => ?_, fun _ => rfl⟩
      obtain ⟨m, hm, heq⟩ := mem_map.mp hmem
      exact hjobs hne m hm heq
    refine ⟨(h.issued hleaves).congr (by rw [gpu, hd, gpu]) (by rw [hr]; rfl) (by rw [hr]; rfl)
      (by rw [hr]; rfl), ?_, hr⟩
    rw [Rig.shots, hd]
    exact g.shots_issued_of_not_isDraw (g.renderer.not_isDraw_of_mem_resizes width height)
  · next hs =>
    obtain ⟨rfl, rfl⟩ : width = g.renderer.width ∧ height = g.renderer.height := by simpa using hs
    exact ⟨h, rfl, rfl⟩

/-- What does not change about a job while it is mounted. -/
def MountedJob.outline (m : MountedJob) : Nat × List Texture × Option Texture × List Handle :=
  (m.job, m.textures, m.target, m.handles)

theorem MountedJob.outline_refreshed (w : Workspace) (m : MountedJob) :
    (m.refreshed w).outline = m.outline := by
  rw [outline, handles_refreshed]
  rfl

theorem MountedJob.Suits.congr (h : m.Suits w r) (ho : m'.outline = m.outline) : m'.Suits w r := by
  simp only [outline, Prod.mk.injEq] at ho
  obtain ⟨hj, ht, hg, hh⟩ := ho
  exact ⟨hj ▸ h.known, ht ▸ h.textures, by rw [hg, ht]; exact h.target, hh ▸ h.blit⟩

theorem MountedJob.Turn.congr {gs : List Gpu} (h : m.Turn r k gs) (ho : m'.outline = m.outline) :
    m'.Turn r k gs := by
  simp only [outline, Prod.mk.injEq] at ho
  obtain ⟨-, ht, hg, hh⟩ := ho
  have hprogram : m'.program = m.program := (cons_eq_cons.mp hh).1
  have hsamples {g : Gpu} (hs : m.Samples r k g) : m'.Samples r k g :=
    ⟨hs.program.trans hprogram.symm, ht ▸ hs.feedback, ht ▸ hs.apart⟩
  cases h with
  | canvas target samples framebuffer => exact .canvas (hg.trans target) (hsamples samples) framebuffer
  | feedback target pair samples framebuffer attached program blits quad texture canvas =>
    exact .feedback (hg.trans target) pair (hsamples samples) framebuffer attached program blits quad
      texture canvas

theorem MountedJob.Take.congr {shots : List Shot} (h : m.Take w r k shots) (ho : m'.outline = m.outline) :
    m'.Take w r k shots := by
  refine ⟨h.turn.congr ho, ?_, ?_⟩
  all_goals
    simp only [outline, Prod.mk.injEq] at ho
    obtain ⟨hj, ht, hg, -⟩ := ho
  · rw [h.counts, MountedJob.counts, MountedJob.counts, hj, hg]
  · rw [ht]
    exact h.plain

theorem MountedJob.takes_congr {ms ms' : List MountedJob} {shown : List (List Shot)}
    (h : Forall₂ (fun m => m.Take w r k) ms shown) (ho : ms'.map (·.outline) = ms.map (·.outline)) :
    Forall₂ (fun m => m.Take w r k) ms' shown := by
  induction h generalizing ms' with
  | nil =>
    obtain rfl : ms' = [] := by simpa using ho
    exact .nil
  | cons hm _ ih =>
    cases ms' with
    | nil => simp at ho
    | cons m' ms' =>
      obtain ⟨h1, h2⟩ := cons_eq_cons.mp ho
      exact .cons (hm.congr h1) (ih h2)

/-- A mounted renderer after `k` frames. -/
structure Rig.Alternates (r : Renderer) (k : Nat) (g : Rig) : Prop extends g.Turns r k where
  disposed : g.renderer.disposed = false
  frame : g.renderer.frame = k
  outlines : g.renderer.jobs.map (·.outline) = r.jobs.map (·.outline)

theorem Rig.Alternates.suits (h : g.Alternates r k) (hr : ∀ m ∈ r.jobs, m.Suits w r)
    (hm : m ∈ g.renderer.jobs) : m.Suits w r := by
  have hmem : m.outline ∈ r.jobs.map (·.outline) := h.outlines ▸ mem_map_of_mem hm
  obtain ⟨m0, hm0, heq⟩ := mem_map.mp hmem
  exact (hr m0 hm0).congr heq.symm

theorem Rig.Turns.swap (h : g.Turns r k) {r' : Renderer} (hb : r'.blit = g.renderer.blit)
    (hq : r'.pairs = g.renderer.pairs.map (·.swap)) (hp : r'.plains = g.renderer.plains) :
    Rig.Turns r (k + 1) { g with renderer := r' } where
  blit := hb.trans h.blit
  pairs := by
    rw [hq, h.pairs, map_map]
    exact map_congr_left fun p _ => p.swap_after k
  plains := hp ▸ h.plains
  plain := by
    unfold Renderer.plain?
    rw [hp]
    exact h.plain
  attached := h.attached
  blits := h.blits

theorem Rig.Alternates.frame_takes (h : g.Alternates r k) (hr : r.Apart) (hs : ∀ m ∈ r.jobs, m.Suits w r)
    {width height : Int} (hw : 0 < width) (hh : 0 < height) :
    ((Render.frame w width height).run g).2.Alternates r (k + 1) ∧
      ∃ shown, ((Render.frame w width height).run g).2.shots = g.shots ++ shown.flatten ∧
        Forall₂ (fun m => m.Take w r k) r.jobs shown := by
  have hjobs : ∀ m ∈ g.renderer.jobs, m.Suits w r := fun m hm => h.suits hs hm
  obtain ⟨h1, hshots1, hr1⟩ := h.toTurns.sized
    (fun hne m hm => ((hjobs m hm).blit hne _ mem_cons_self).1) width height
  generalize hg1 : g.sized width height = g1 at h1 hshots1 hr1
  have hclear := g1.gpu_cleared width height
  have hstart : (g1.issued [.bindFramebuffer 0, .viewport width height, .clear 0 0 0 1]).Turns r k := by
    refine h1.issued ?_
    rw [← Rig.gpu_issued, hclear]
    exact ⟨rfl, fun _ => rfl, fun _ => rfl⟩
  obtain ⟨g', shown, hrun, h', hr', hshots, htakes⟩ :=
    MountedJob.Suits.drawJobs hjobs hr hstart (by rw [hclear])
  rw [run_frame h.disposed hw hh (hg1 ▸ hrun)]
  refine ⟨⟨h'.swap rfl rfl rfl, ?_, ?_, ?_⟩, shown, ?_, MountedJob.takes_congr htakes h.outlines.symm⟩
  · change g'.renderer.disposed = false
    rw [hr', Rig.renderer_issued, hr1]
    exact h.disposed
  · change g'.renderer.frame + 1 = k + 1
    rw [hr', Rig.renderer_issued, hr1]
    exact congrArg (· + 1) h.frame
  · change (g.renderer.jobs.map (·.refreshed w)).map (·.outline) = _
    rw [map_map, ← h.outlines]
    exact map_congr_left fun m _ => m.outline_refreshed w
  · change g'.shots = _
    rw [hshots, g1.shots_issued_of_not_isDraw (by simp [DeviceCall.isDraw]), hshots1]

/-! ## Mounting -/

theorem Rig.Stored.buffer (h : g.Stored w) (hp : p ∈ g.renderer.pairs) (k : Nat) : (p.buffer k).Sound g := by
  unfold FeedbackPair.buffer
  split
  · exact (h.targets p hp).1
  · exact (h.targets p hp).2

theorem Job.mem_textures_of_feedback? {job : Job} (h : job.feedback? = some t) :
    t ∈ job.textures ∧ t.feedback = true :=
  ⟨mem_adjoin_iff.mpr (.inr (mem_of_find?_eq_some h)), find?_some h⟩

theorem Renderer.Unturned.eq_of_mem (h : r.Unturned) (hp : p ∈ r.pairs) (hq : q ∈ r.pairs) {t : Handle}
    (ht : t ∈ p.textures) (ht' : t ∈ q.textures) : p = q := by
  by_contra hne
  have hsymm : Std.Symm (Function.onFun List.Disjoint FeedbackPair.textures) :=
    ⟨fun _ _ hd => disjoint_symm hd⟩
  exact (nodup_flatMap.mp h.textures).2.forall hp hq hne ht ht'

theorem Rig.alternates_of_mount {surface : Surface} {jobs : List (Option Nat)} (hr : g.renderer = {})
    (hn : 0 < g.device.nextHandle) (hm : (mount w surface jobs).run g = (.ok (), g')) :
    g'.Alternates g'.renderer 0 ∧ g'.renderer.Apart ∧ ∀ m ∈ g'.renderer.jobs, m.Suits w g'.renderer := by
  obtain ⟨⟨h, -⟩, -, hblit⟩ := Rig.Linking.mount hr hn hm
  have hu := h.unturned
  refine ⟨⟨⟨rfl, ?_, ?_, fun t p hp => ⟨p, hp, rfl⟩, ?_, fun hne => (hblit hne).1⟩, h.disposed, hu.frame, rfl⟩,
    fun p hp q hq heq => ?_, fun m hmem => ?_⟩
  · refine ((map_congr_left fun p hp => ?_).trans (map_id _)).symm
    exact FeedbackPair.after_zero (hu.even p hp)
  · exact fun q hq p hp k => (h.stored.buffer hp k).plains q hq
  · exact fun p hp k => (h.stored.buffer hp k).attached
  · obtain rfl := hu.eq_of_mem hp hq mem_cons_self
      (heq ▸ mem_cons_of_mem _ mem_cons_self)
    have hne := (nodup_flatMap.mp hu.textures).1 p hp
    simp [FeedbackPair.textures, heq] at hne
  · obtain ⟨⟨job, hjob, htextures, htarget⟩, hmade⟩ := h.fits m hmem
    refine ⟨⟨job, hjob⟩, hmade, fun t ht => ?_, fun hne => (hblit hne).2 m hmem⟩
    rw [htextures]
    exact Job.mem_textures_of_feedback? (htarget ▸ ht)

/-! ## Runs -/

/-- Nothing is drawn, and frames go on as before. -/
def Rig.Idles (r : Renderer) (k : Nat) (g g' : Rig) : Prop :=
  g.Alternates r k → g'.Alternates r k ∧ g'.shots = g.shots

theorem Rig.idles_chained (r : Renderer) (k : Nat) : Rig.Chained (Rig.Idles r k) where
  refl _ h := ⟨h, rfl⟩
  trans h h' hg := by
    obtain ⟨hg1, hd1⟩ := h hg
    obtain ⟨hg2, hd2⟩ := h' hg1
    exact ⟨hg2, hd2.trans hd1⟩

theorem Rig.Idles.asked {d : Device} {c : DeviceCall} (hcalls : d.calls = g.device.calls ++ [c])
    (hc : ¬ c.isDraw) (hl : g.gpu.Leaves r (g.gpu.step c)) : g.Idles r k { g with device := d } := by
  intro h
  have hgpu : Rig.gpu { g with device := d } = (g.issued [c]).gpu := by
    rw [gpu, hcalls]
    rfl
  have hturns : (g.issued [c]).Turns r k := h.toTurns.issued hl
  refine ⟨⟨hturns.congr hgpu rfl rfl rfl, h.disposed, h.frame, h.outlines⟩, ?_⟩
  rw [shots, hcalls]
  exact g.shots_issued_of_not_isDraw (by simpa using hc)

theorem Render.snapshot_idles (r : Renderer) (k : Nat) (dst : Option Raster) :
    (snapshot dst).Steps (Rig.Idles r k) := by
  have hchained := Rig.idles_chained r k
  refine hchained.render_bind ⟨hchained.refl⟩ fun r0 => ?_
  split
  · exact hchained.render_pure _
  · split
    · exact hchained.render_pure _
    · split
      · exact hchained.render_pure _
      · refine hchained.render_bind ⟨fun g h => ?_⟩ fun _ => hchained.render_bind ⟨fun g => ?_⟩ fun _ =>
          hchained.render_bind ⟨fun g => ?_⟩ fun a => ?_
        · exact ⟨⟨h.toTurns.congr rfl rfl rfl rfl, h.disposed, h.frame, h.outlines⟩, rfl⟩
        · exact .asked rfl (by simp [DeviceCall.isDraw]) ⟨rfl, fun _ => rfl, fun _ => rfl⟩
        · exact .asked (g.device.readPixels_keeps ..).1 (by simp [DeviceCall.isDraw])
            ⟨rfl, fun _ => rfl, fun _ => rfl⟩
        · split <;> exact hchained.render_pure _

/-- How many frames are drawn: a frame without a size is none, and so is one after the renderer is
disposed of. -/
def Use.frames : List Use → Nat
  | [] => 0
  | .render _ width height :: us => (if 0 < width ∧ 0 < height then 1 else 0) + frames us
  | .snapshot _ :: us => frames us
  | .dispose :: _ => 0

theorem MountedJob.Suits.extend {w w' : Workspace} (h : m.Suits w r) (hw : w.jobs <+: w'.jobs) :
    m.Suits w' r where
  known := by
    obtain ⟨job, hjob⟩ := h.known
    obtain ⟨jobs, heq⟩ := hw
    exact ⟨job, heq ▸ getElem?_append_left (List.getElem?_eq_some_iff.mp hjob).1 ▸ hjob⟩
  textures := h.textures
  target := h.target
  blit := h.blit

theorem Render.shots_dispose (h : g.renderer.disposed = false) : (dispose.run g).2.shots = g.shots := by
  rw [Rig.shots, (run_dispose h).1]
  refine g.shots_issued_of_not_isDraw ?_
  simp [Renderer.deletions, DeviceCall.isDraw, or_imp, forall_and]

def Use.staged : List Use → List Workspace
  | [] => []
  | .render w width height :: us => if 0 < width ∧ 0 < height then w :: staged us else staged us
  | .snapshot _ :: us => staged us
  | .dispose :: _ => []

theorem Use.length_staged (us : List Use) : (staged us).length = frames us := by
  induction us with
  | nil => rfl
  | cons u us ih =>
    cases u with
    | render w width height =>
      rw [staged, frames, ← ih]
      split
      · rw [length_cons, Nat.add_comm]
      · rw [Nat.zero_add]
    | snapshot dst => exact ih
    | dispose => rfl

section
variable (h : g.Alternates r k) (hr : r.Apart) (hs : ∀ m ∈ r.jobs, m.Suits w r) {us : List Use}
  (hus : ∀ w' width height, .render w' width height ∈ us → w.jobs <+: w'.jobs)
include h hr hs hus

theorem Use.runAll_takes :
    (∃ shown : List (List (List Shot)), (runAll us g).shots = g.shots ++ shown.flatten.flatten ∧
      Forall₂ (fun frame => Forall₂ (fun m => m.Take frame.1 r frame.2) r.jobs)
        ((staged us).zipIdx k) shown) ∧
      (.dispose ∉ us → (runAll us g).Alternates r (k + (staged us).length)) := by
  induction us generalizing g k with
  | nil => exact ⟨⟨[], (append_nil _).symm, .nil⟩, fun _ => h⟩
  | cons u us ih =>
    have hus' : ∀ w' width height, .render w' width height ∈ us → w.jobs <+: w'.jobs :=
      fun w' width height hmem => hus w' width height (mem_cons_of_mem _ hmem)
    rw [runAll_cons]
    cases u with
    | render w' width height =>
      by_cases hsize : 0 < width ∧ 0 < height
      · have hs' : ∀ m ∈ r.jobs, m.Suits w' r := fun m hm =>
          (hs m hm).extend (hus w' width height mem_cons_self)
        obtain ⟨h1, ss, hshots, htakes⟩ := h.frame_takes hr hs' hsize.1 hsize.2
        obtain ⟨⟨shown, hrest, hframes⟩, hend⟩ := ih h1 hus'
        rw [staged, if_pos hsize]
        refine ⟨⟨ss :: shown, ?_, .cons htakes hframes⟩, fun hnot => ?_⟩
        · rw [flatten_cons, flatten_append, ← append_assoc, ← hshots]
          exact hrest
        · have hlast := hend fun hmem => hnot (mem_cons_of_mem _ hmem)
          rwa [Nat.add_right_comm, Nat.add_assoc] at hlast
      · have hstep : step g (.render w' width height) = g := congrArg Prod.snd (run_frame_of_empty hsize g)
        rw [hstep, staged, if_neg hsize]
        simpa using ih h hus'
    | snapshot dst =>
      obtain ⟨h1, hshots⟩ := (snapshot_idles r k dst).step g h
      rw [← hshots]
      simpa [staged, step] using ih h1 hus'
    | dispose =>
      have hdisposed : (step g .dispose).renderer.disposed = true := (run_dispose h.disposed).2
      rw [runAll_of_disposed hdisposed]
      refine ⟨⟨[], ?_, .nil⟩, fun hnot => absurd mem_cons_self hnot⟩
      simpa [step] using shots_dispose h.disposed

theorem Use.runAll_turns :
    (∃ shown : List (List (List Gpu)), shown.length = frames us ∧
      (runAll us g).drawn = g.drawn ++ shown.flatten.flatten ∧
      ∀ i gs, shown[i]? = some gs → Forall₂ (fun m => m.Turn r (k + i)) r.jobs gs) ∧
      (.dispose ∉ us → (runAll us g).Alternates r (k + frames us)) := by
  obtain ⟨⟨shown, hshots, hframes⟩, hend⟩ := runAll_takes h hr hs hus
  rw [length_staged] at hend
  refine ⟨⟨shown.map (·.map (·.map (·.2))), ?_, ?_, fun i gs hi => ?_⟩, hend⟩
  · rw [length_map, ← hframes.length_eq, length_zipIdx, length_staged]
  · rw [Rig.drawn_of_shots hshots, map_flatten, map_flatten]
  · rw [getElem?_map] at hi
    obtain ⟨ss, hss, rfl⟩ := Option.map_eq_some_iff.mp hi
    obtain ⟨hlt, rfl⟩ := List.getElem?_eq_some_iff.mp hss
    have htakes := (forall₂_iff_get.mp hframes).2 i (hframes.length_eq ▸ hlt) hlt
    refine forall₂_map_right_iff.mpr (htakes.imp fun m ss htake => ?_)
    have hturn := htake.turn
    rwa [get_eq_getElem, getElem_zipIdx] at hturn

end

theorem MountedJob.Turn.attached_of_next {d d' : Gpu} {ds ds' : List Gpu} (h : m.Turn r k (d :: ds))
    (h' : m'.Turn r (k + 1) (d' :: ds')) (hm : m.target = some t) (ht : t.feedback = true)
    (hi : m'.textures[i]? = some t) : d.attached d.framebuffer = some (d'.units i) := by
  have hsamples : m'.Samples r (k + 1) d' := by
    cases h' with
    | canvas _ samples => exact samples
    | feedback _ _ samples => exact samples
  obtain ⟨p, hp, hunit⟩ := hsamples.feedback i t hi ht
  rw [p.buffer_add_two] at hunit
  cases h with
  | canvas target =>
    rw [target] at hm
    cases hm
  | feedback target pair _ _ attached =>
    cases target.symm.trans hm
    cases pair.symm.trans hp
    rw [attached, hunit]

/-- Feedback textures change places. `shown` are the draws of callers frame by frame and job by job,
each job in its turn. A texture that a job draws into in one frame is what every job that samples it
reads in the next, and the buffer in front is told by how many frames were drawn. -/
theorem feedback_alternates {g₀ g : Rig} (hnew : g₀.renderer = {}) (hnext : 0 < g₀.device.nextHandle)
    {w : Workspace} {surface : Surface} {jobs : List (Option Nat)}
    (hmount : (mount w surface jobs).run g₀ = (.ok (), g)) {us : List Use}
    (hus : ∀ w' width height, .render w' width height ∈ us → w.jobs <+: w'.jobs) :
    (∃ shown : List (List (List Gpu)), shown.length = Use.frames us ∧
      (Use.runAll us g).drawn = g.drawn ++ shown.flatten.flatten ∧
      (∀ (k : Nat) gs, shown[k]? = some gs →
        List.Forall₂ (fun m => m.Turn g.renderer k) g.renderer.jobs gs) ∧
      ∀ (k : Nat) gs gs', shown[k]? = some gs → shown[k + 1]? = some gs' →
        ∀ m d ds m' d' ds', (m, d :: ds) ∈ g.renderer.jobs.zip gs →
          (m', d' :: ds') ∈ g.renderer.jobs.zip gs' →
          ∀ t (unit : Nat), m.target = some t → m'.textures[unit]? = some t →
            d.attached d.framebuffer = some (d'.units unit)) ∧
      (.dispose ∉ us → (Use.runAll us g).renderer.frame = Use.frames us ∧
        ∀ t, (Use.runAll us g).renderer.feedbackIndex? t =
          (g.renderer.pair? t).map fun _ => Use.frames us % 2) := by
  obtain ⟨halt, hapart, hsuits⟩ := Rig.alternates_of_mount hnew hnext hmount
  obtain ⟨⟨shown, hlen, hdrawn, hturns⟩, hend⟩ := Use.runAll_turns halt hapart hsuits hus
  simp only [Nat.zero_add] at hturns hend
  refine ⟨⟨shown, hlen, hdrawn, hturns, ?_⟩, fun hnot => ⟨(hend hnot).frame, fun t => ?_⟩⟩
  · intro k gs gs' hk hk' m d ds m' d' ds' hm hm' t unit htarget hunit
    have hturn := List.forall₂_zip (hturns k gs hk) hm
    have hturn' := List.forall₂_zip (hturns (k + 1) gs' hk') hm'
    have hfeed := ((hsuits m (List.of_mem_zip hm).1).target t htarget).2
    exact hturn.attached_of_next hturn' htarget hfeed hunit
  · rw [Renderer.feedbackIndex?, (hend hnot).pair?, Option.map_map]
    congr 1
    funext p
    exact p.index_after _

/-- A frame, a call without a size, a snapshot, and two frames of another size. -/
def mirrorFrames : List Use :=
  [.render mirrorWorkspace 64 48, .render mirrorWorkspace 0 48, .snapshot none,
    .render mirrorWorkspace 32 32, .render mirrorWorkspace 32 32]

/-- What jobs draw into, if they can be mounted. -/
def Rig.targets? (w : Workspace) (surface : Surface) (jobs : List (Option Nat)) (g : Rig) :
    Option (List (Option Texture)) :=
  match (mount w surface jobs).run g with
  | (.ok (), g') => some (g'.renderer.jobs.map (·.target))
  | (.error _, _) => none

theorem Rig.targets?_eq_some {w : Workspace} {surface : Surface} {jobs : List (Option Nat)} {g : Rig}
    {ts : List (Option Texture)} (h : g.targets? w surface jobs = some ts) :
    ∃ g', (mount w surface jobs).run g = (.ok (), g') ∧ g'.renderer.jobs.map (·.target) = ts := by
  unfold targets? at h
  split at h
  · next g' hrun => exact ⟨g', hrun, Option.some.inj h⟩
  · cases h

/-- Two mirrors that share one texture, and their frame. -/
theorem mirrors_alternate :
    ∃ g, (mount mirrorWorkspace .device [some 0, some 0, some 1]).run { device := {} } = (.ok (), g) ∧
      g.renderer.jobs.map (·.target) = [some mirrorImage, some mirrorImage, none] ∧
      (∃ shown : List (List (List Gpu)), shown.length = 3 ∧
        (Use.runAll mirrorFrames g).drawn = g.drawn ++ shown.flatten.flatten ∧
        ∀ (k : Nat) gs, shown[k]? = some gs →
          List.Forall₂ (fun m => m.Turn g.renderer k) g.renderer.jobs gs) ∧
      (Use.runAll mirrorFrames g).renderer.feedbackIndex? mirrorImage = some 1 := by
  have hmounts : Rig.targets? mirrorWorkspace .device [some 0, some 0, some 1] { device := {} } =
      some [some mirrorImage, some mirrorImage, none] := by decide +kernel
  obtain ⟨g, hmount, htargets⟩ := Rig.targets?_eq_some hmounts
  have hus : ∀ w' width height, .render w' width height ∈ mirrorFrames →
      mirrorWorkspace.jobs <+: w'.jobs := by
    simp +contextual [mirrorFrames, or_imp]
  obtain ⟨⟨shown, hlen, hdrawn, hturns, -⟩, hend⟩ := @feedback_alternates { device := {} } g rfl
    (by decide) mirrorWorkspace .device [some 0, some 0, some 1] hmount mirrorFrames hus
  refine ⟨g, hmount, htargets, ⟨shown, hlen, hdrawn, hturns⟩, ?_⟩
  -- the mirrors have a pair, or they could not be mounted
  obtain ⟨-, -, hsuits⟩ := @Rig.alternates_of_mount mirrorWorkspace { device := {} } g .device
    [some 0, some 0, some 1] rfl (by decide) hmount
  have hmem : some mirrorImage ∈ g.renderer.jobs.map (·.target) := by simp [htargets]
  obtain ⟨m, hm, htarget⟩ := List.mem_map.mp hmem
  obtain ⟨htexture, hfeedback⟩ := (hsuits m hm).target mirrorImage htarget
  obtain ⟨p, hp⟩ := Option.isSome_iff_exists.mp
    (Renderer.pair?_isSome.mpr (((hsuits m hm).textures _ htexture).pair hfeedback))
  rw [(hend (by simp [mirrorFrames])).2, hp]
  rfl

end ShaderGraph
