import Mathlib.Data.List.Nodup
import ShaderGraph.Proofs.Mounting
import ShaderGraph.Render.Snapshot

/-!
# Lifetimes of device objects

A renderer lists every object that it makes, and deletes what is on its lists when it is disposed
of or when mounting fails. Until then `Rig.Makes` holds along whatever a device does, since an object is
put on its list before the next call can fail.
-/

namespace ShaderGraph

open Render List

variable {c : DeviceCall} {g g' : Rig} {cs ds : List DeviceCall} {w : Workspace} {surface : Surface}
  {jobs : List (Option Nat)}

/-! ## Frames and snapshots -/

theorem Device.readPixels_keeps (d : Device) (width height : Int) (size : Nat) :
    (d.readPixels width height size).2.calls = d.calls ++ [.readPixels width height size] ∧
      (d.readPixels width height size).2.nextHandle = d.nextHandle := by
  unfold readPixels
  dsimp only
  split <;> exact ⟨rfl, rfl⟩

namespace Render

open Rig (quietly_chained)

theorem update_quietly {f : Renderer → Renderer} (ho : ∀ r, (f r).owned = r.owned)
    (hd : ∀ r, (f r).disposed = r.disposed ∧ (f r).frame = r.frame) : (update f).Steps Rig.Quietly :=
  ⟨fun _ => .unchanged (ho _) (hd _).1 (hd _).2⟩

theorem renderer_quietly : renderer.Steps Rig.Quietly := ⟨quietly_chained.refl⟩

theorem inner_quietly (hc : c.isInner) : (issue c).Steps Rig.Quietly :=
  ⟨fun g => .issued g hc⟩

theorem issue_quietly (hc : c.isInner) {α : Type} {f : Unit → Render α} (hf : (f ()).Steps Rig.Quietly) :
    (issue c >>= f).Steps Rig.Quietly :=
  quietly_chained.render_bind (inner_quietly hc) fun _ => hf

theorem sendUniforms_quietly (w : Workspace) (ss : List UniformSlot) :
    (sendUniforms w ss).Steps Rig.Quietly := by
  induction ss with
  | nil => exact quietly_chained.render_pure _
  | cons s ss ih =>
    have hrest (a : List UniformSlot → List UniformSlot) :
        Render.Steps Rig.Quietly (do let rest ← sendUniforms w ss; pure (a rest)) :=
      quietly_chained.render_bind ih fun _ => quietly_chained.render_pure _
    rw [sendUniforms]
    dsimp only
    split
    · exact issue_quietly rfl (hrest _)
    · exact hrest _

theorem sendAttributes_quietly (w : Workspace) (ss : List AttributeSlot) :
    (sendAttributes w ss).Steps Rig.Quietly := by
  induction ss with
  | nil => exact quietly_chained.render_pure _
  | cons s ss ih =>
    have hrest (a : List AttributeSlot → List AttributeSlot) :
        Render.Steps Rig.Quietly (do let rest ← sendAttributes w ss; pure (a rest)) :=
      quietly_chained.render_bind ih fun _ => quietly_chained.render_pure _
    rw [sendAttributes]
    dsimp only
    split <;> split
    · exact issue_quietly rfl (issue_quietly rfl (hrest _))
    · exact issue_quietly rfl (hrest _)
    · exact issue_quietly rfl (hrest _)
    · exact hrest _

theorem bindTextures_quietly (w : Workspace) (ts : List Texture) (unit : Nat) :
    (bindTextures w unit ts).Steps Rig.Quietly := by
  induction ts generalizing unit with
  | nil => exact quietly_chained.render_pure _
  | cons t ts ih =>
    rw [bindTextures]
    refine quietly_chained.render_bind renderer_quietly fun r => ?_
    dsimp only
    split
    · split
      · exact issue_quietly rfl (ih _)
      · exact ih _
    · split
      · split
        · exact issue_quietly rfl (quietly_chained.render_bind
            (update_quietly (fun _ => rfl) fun _ => ⟨rfl, rfl⟩) fun _ => issue_quietly rfl (ih _))
        · exact issue_quietly rfl (ih _)
      · exact ih _

theorem blitTexture_quietly (t : Handle) : (blitTexture t).Steps Rig.Quietly :=
  quietly_chained.render_bind renderer_quietly fun _ => issue_quietly rfl
    (issue_quietly rfl (issue_quietly rfl (inner_quietly rfl)))

theorem drawJob_quietly (w : Workspace) (m : MountedJob) : (drawJob w m).Steps Rig.Quietly := by
  refine issue_quietly rfl ?_
  refine quietly_chained.render_bind (sendUniforms_quietly w _) fun us => ?_
  refine quietly_chained.render_bind (sendAttributes_quietly w _) fun as => ?_
  refine quietly_chained.render_bind (bindTextures_quietly w _ _) fun _ => ?_
  split
  · exact quietly_chained.render_pure _
  · refine quietly_chained.render_bind renderer_quietly fun r => ?_
    split
    · exact issue_quietly rfl (quietly_chained.render_pure _)
    · exact issue_quietly rfl (issue_quietly rfl (issue_quietly rfl
        (quietly_chained.render_bind (blitTexture_quietly _) fun _ => quietly_chained.render_pure _)))

theorem resize_quietly (width height : Int) : (resize width height).Steps Rig.Quietly := by
  refine quietly_chained.render_bind (update_quietly (fun _ => rfl) fun _ => ⟨rfl, rfl⟩) fun _ => ?_
  refine issue_quietly rfl (quietly_chained.render_bind renderer_quietly fun r => ?_)
  refine quietly_chained.render_bind (quietly_chained.render_forM (fun m => ?_) _) fun _ => ?_
  · split
    · exact quietly_chained.render_pure _
    · exact issue_quietly rfl (inner_quietly rfl)
  · refine quietly_chained.render_bind (quietly_chained.render_forM (fun p => ?_) _) fun _ =>
      say_quietly ..
    exact issue_quietly rfl (inner_quietly rfl)

theorem frame_ticks (w : Workspace) (width height : Int) (g : Rig) :
    let drawn := g.renderer.disposed = false ∧ 0 < width ∧ 0 < height
    g.Ticks (if drawn then [.viewport width height] else []) (if drawn then 1 else 0)
      ((frame w width height).run g).2 := by
  have hdraw (jobs : List MountedJob) : Render.Steps (Rig.Ticks [.viewport width height] 1) (do
      issue (.bindFramebuffer 0)
      issue (.viewport width height)
      issue (.clear 0 0 0 1)
      let jobs ← jobs.mapM (drawJob w)
      update fun r => { r with jobs, pairs := r.pairs.map (·.swap), frame := r.frame + 1 }) := by
    have hbind := inner_quietly (c := .bindFramebuffer 0) rfl
    have hview : (issue (.viewport width height)).Steps (Rig.Ticks [.viewport width height] 0) :=
      ⟨fun _ => .neutral ⟨rfl, rfl⟩ rfl rfl rfl rfl⟩
    have hclear := inner_quietly (c := .clear 0 0 0 1) rfl
    have hfinish (jobs : List MountedJob) : Render.Steps (Rig.Ticks [] 1) (update fun r =>
        { r with jobs, pairs := r.pairs.map (·.swap), frame := r.frame + 1 }) :=
      ⟨fun _ => .unchanged rfl rfl rfl⟩
    have hall := hbind.ticks fun _ => hview.ticks fun _ => hclear.ticks fun _ =>
      (quietly_chained.render_mapM (drawJob_quietly w) jobs).ticks hfinish
    exact hall
  unfold frame
  rw [run_bind, run_renderer]
  simp only [Bool.not_eq_true']
  split
  · split
    · exact (Steps.ticks (resize_quietly width height) fun _ => hdraw _).step g
    · exact (hdraw _).step g
  · exact .logged g g.log

theorem snapshot_quietly (dst : Option Raster) : (snapshot dst).Steps Rig.Quietly := by
  refine quietly_chained.render_bind renderer_quietly fun r => ?_
  split
  · exact quietly_chained.render_pure _
  · split
    · exact quietly_chained.render_pure _
    · split
      · exact quietly_chained.render_pure _
      · refine quietly_chained.render_bind (update_quietly (fun _ => rfl) fun _ => ⟨rfl, rfl⟩) fun _ =>
          issue_quietly rfl (quietly_chained.render_bind ⟨fun g => ?_⟩ fun a => ?_)
        · obtain ⟨hcalls, hn⟩ := g.device.readPixels_keeps r.width r.height (4 * r.width.toNat * r.height.toNat)
          exact .inner (forall_mem_singleton.mpr rfl) hcalls hn rfl
        · split <;> exact quietly_chained.render_pure _

end Render

/-! ## Disposing -/

def Renderer.deletions (r : Renderer) : List DeviceCall :=
  r.framebuffers.map .deleteFramebuffer ++ r.textures.map .deleteTexture ++
    r.buffers.map .deleteBuffer ++ r.programs.map .deleteProgram

theorem Renderer.created_deletions (r : Renderer) : created r.deletions = [] := by
  simp [created, deletions, filterMap_append, filterMap_map, DeviceCall.created?]

theorem Renderer.ofKind_deletions (r : Renderer) (k : ObjectKind) :
    ofKind k (deleted r.deletions) = r.owned k := by
  have hall : deleted r.deletions = r.framebuffers.map (⟨.framebuffer, ·⟩) ++
      r.textures.map (⟨.texture, ·⟩) ++ r.buffers.map (⟨.buffer, ·⟩) ++ r.programs.map (⟨.program, ·⟩) := by
    simp [deleted, deletions, filterMap_append, filterMap_map, DeviceCall.deleted?,
      filterMap_eq_map']
  rw [hall]
  cases k <;> simp [ofKind, owned, filter_map, Function.comp_def]

theorem Render.run_issueAll (call : Handle → DeviceCall) (hs : List Handle) (g : Rig) :
    (hs.forM fun h => issue (call h)).run g = ((), g.issued (hs.map call)) := by
  rw [run_forM g (fun h g => run_issue g (call h)), ← map_eq_flatMap]

theorem Render.run_dispose (hd : g.renderer.disposed = false) :
    (dispose.run g).2.device = (g.issued g.renderer.deletions).device ∧
      (dispose.run g).2.renderer.disposed = true := by
  unfold dispose
  simp only [run_bind, run_renderer, hd, Bool.not_false, if_true, run_issueAll, run_update]
  refine ⟨(say_keeps ..).1.trans ?_, trivial⟩
  simp [Renderer.deletions]

theorem Render.run_dispose_of_disposed (hd : g.renderer.disposed = true) : dispose.run g = ((), g) := by
  unfold dispose
  rw [run_bind, run_renderer, if_neg (by simp [hd])]
  rfl

/-! ## Logs of calls -/

/-- Nothing is made twice under one handle, and nothing is deleted twice or before it is made. -/
structure Lawful (log : List DeviceCall) : Prop where
  fresh : ((created log).map (·.handle)).Nodup
  once : ((deleted log).map (·.handle)).Nodup
  made : ∀ cs c ds, log = cs ++ c :: ds → ∀ o, c.deleted? = some o → o ∈ created cs

theorem Lawful.append (hcs : deleted cs = []) (hdc : created ds = []) (hn : ((created cs).map (·.handle)).Nodup)
    (hd : ((deleted ds).map (·.handle)).Nodup) (hds : deleted ds ⊆ created cs) : Lawful (cs ++ ds) where
  fresh := by rwa [created_append, hdc, append_nil]
  once := by rwa [deleted_append, hcs, nil_append]
  made pre c post heq o ho := by
    have hlate (ds' : List DeviceCall) (hpre : pre = cs ++ ds') (hd : ds = ds' ++ c :: post) :
        o ∈ created pre := by
      rw [hpre, created_append]
      refine mem_append_left _ (hds (mem_filterMap.mpr ⟨c, ?_, ho⟩))
      simp [hd]
    rcases append_eq_append_iff.mp heq with ⟨ds', hpre, hd⟩ | ⟨cs', hcs', hd⟩
    · exact hlate ds' hpre hd
    · cases cs' with
      | nil => exact hlate [] (by simpa using hcs'.symm) (by simpa using hd.symm)
      | cons b cs' =>
        obtain ⟨rfl, -⟩ := cons_eq_cons.mp hd
        have hmem : o ∈ deleted cs := mem_filterMap.mpr ⟨c, by simp [hcs'], ho⟩
        rw [hcs] at hmem
        cases hmem

/-! ## Callers -/

/-- What a caller does with a mounted renderer. The workspace of a frame is what is staged by then. -/
inductive Use where
  | render (w : Workspace) (width height : Int)
  | snapshot (dst : Option Raster)
  | dispose

namespace Use

def step (g : Rig) : Use → Rig
  | render w width height => ((frame w width height).run g).2
  | snapshot dst => ((Render.snapshot dst).run g).2
  | dispose => (Render.dispose.run g).2

def runAll (us : List Use) (g : Rig) : Rig := us.foldl step g

theorem runAll_cons (u : Use) (us : List Use) (g : Rig) : runAll (u :: us) g = runAll us (u.step g) := rfl

theorem runAll_append (us vs : List Use) (g : Rig) : runAll (us ++ vs) g = runAll vs (runAll us g) :=
  foldl_append

theorem step_of_disposed (hd : g.renderer.disposed = true) (u : Use) : u.step g = g := by
  cases u with
  | render w width height =>
    change ((frame w width height).run g).2 = g
    unfold frame
    rw [run_bind, run_renderer, if_neg (by simp [hd])]
    rfl
  | snapshot dst =>
    change ((Render.snapshot dst).run g).2 = g
    unfold Render.snapshot
    rw [run_bind, run_renderer, if_pos hd]
    rfl
  | dispose => exact congrArg Prod.snd (run_dispose_of_disposed hd)

theorem runAll_of_disposed (hd : g.renderer.disposed = true) (us : List Use) : runAll us g = g := by
  induction us with
  | nil => rfl
  | cons u us ih =>
    rw [runAll_cons, step_of_disposed hd]
    exact ih

end Use

/-- Mounts jobs and, unless that fails, uses the renderer. -/
def Rig.session (w : Workspace) (surface : Surface) (jobs : List (Option Nat)) (us : List Use) (g : Rig) :
    Except MountError Unit × Rig :=
  match (mount w surface jobs).run g with
  | (.ok (), g') => (.ok (), Use.runAll us g')
  | (.error e, g') => (.error e, g')

/-- Between two rigs objects are made and then all deleted. -/
structure Rig.Frees (g g' : Rig) (cs ds : List DeviceCall) : Prop where
  disposed : g'.renderer.disposed = true
  calls : g'.device.calls = g.device.calls ++ (cs ++ ds)
  made : deleted cs = [] ∧ ((created cs).map (·.handle)).Nodup
  freed : created ds = [] ∧ (deleted ds).Perm (created cs)

theorem Rig.Makes.nodup (h : g.Makes g' cs) : ((created cs).map (·.handle)).Nodup := by
  rw [h.handles]
  exact nodup_range'

theorem Rig.Makes.lawful (h : g.Makes g' cs) : Lawful cs :=
  append_nil cs ▸ .append h.deleted rfl h.nodup nodup_nil (nil_subset _)

theorem Rig.Makes.dispose (h : g.Makes g' cs) (hd : g.renderer.disposed = false)
    (ho : ∀ k, g.renderer.owned k = []) : g.Frees (dispose.run g').2 cs g'.renderer.deletions := by
  obtain ⟨hdevice, hdisposed⟩ := run_dispose (h.disposed.trans hd)
  refine ⟨hdisposed, ?_, ⟨h.deleted, h.nodup⟩, g'.renderer.created_deletions, perm_of_ofKind fun k => ?_⟩
  · rw [hdevice, ← append_assoc, ← h.calls]
    rfl
  · rw [Renderer.ofKind_deletions, h.owned, ho, nil_append]

theorem Rig.Frees.lawful (h : g.Frees g' cs ds) :
    Lawful (cs ++ ds) ∧ (deleted (cs ++ ds)).Perm (created (cs ++ ds)) := by
  have hnodup := (h.freed.2.map (·.handle)).nodup_iff.mpr h.made.2
  refine ⟨.append h.made.1 h.freed.1 h.made.2 hnodup h.freed.2.subset, ?_⟩
  rw [deleted_append, created_append, h.made.1, h.freed.1, append_nil]
  exact h.freed.2

/-- Callers make objects and delete none, until they dispose of the renderer. -/
theorem Use.runAll_spec {g0 : Rig} (hd : g0.renderer.disposed = false) (ho : ∀ k, g0.renderer.owned k = [])
    (h : g0.Makes g cs) (us : List Use) :
    (.dispose ∉ us ∧ ∃ cs, g0.Makes (runAll us g) cs) ∨
      .dispose ∈ us ∧ ∃ cs ds, g0.Frees (runAll us g) cs ds := by
  induction us generalizing g cs with
  | nil => exact .inl ⟨not_mem_nil, cs, h⟩
  | cons u us ih =>
    cases u with
    | render w width height =>
      obtain ⟨_, hm⟩ := (frame_ticks w width height g).makes
      simpa [runAll_cons, step] using ih (h.trans hm)
    | snapshot dst =>
      obtain ⟨_, hm⟩ := ((snapshot_quietly dst).step g).makes
      simpa [runAll_cons, step] using ih (h.trans hm)
    | dispose =>
      have hf := h.dispose hd ho
      have hrun : runAll (.dispose :: us) g = (Render.dispose.run g).2 :=
        runAll_of_disposed hf.disposed us
      exact .inr ⟨mem_cons_self, cs, _, hrun ▸ hf⟩

/-- After the renderer is disposed of, callers change nothing. -/
theorem Use.runAll_dispose (us vs : List Use) (g : Rig) :
    runAll (us ++ .dispose :: vs) g = runAll (us ++ [.dispose]) g := by
  have hdisposed : (step (runAll us g) .dispose).renderer.disposed = true := by
    change (Render.dispose.run (runAll us g)).2.renderer.disposed = true
    cases hd : (runAll us g).renderer.disposed with
    | true => rw [run_dispose_of_disposed hd, hd]
    | false => exact (run_dispose hd).2
  rw [runAll_append, runAll_append, runAll_cons, runAll_of_disposed hdisposed]
  rfl

theorem Rig.session_of_ok (h : (mount w surface jobs).run g = (.ok (), g')) (us : List Use) :
    g.session w surface jobs us = (.ok (), Use.runAll us g') := by
  rw [session, h]

theorem Rig.session_of_error {e : MountError} (h : (mount w surface jobs).run g = (.error e, g'))
    (us : List Use) : g.session w surface jobs us = (.error e, g') := by
  rw [session, h]

theorem Rig.mount_spec (hr : g.renderer = {}) (hnext : 0 < g.device.nextHandle) (w : Workspace)
    (surface : Surface) (jobs : List (Option Nat)) :
    (∃ e g', (mount w surface jobs).run g = (.error e, g') ∧
        (g' = g ∨ ∃ cs ds, g.Frees g' cs ds)) ∨
      ∃ g' cs, (mount w surface jobs).run g = (.ok (), g') ∧ g.Makes g' cs := by
  have hd : g.renderer.disposed = false := by rw [hr]
  have ho : ∀ k, g.renderer.owned k = [] := fun k => by cases k <;> simp [hr, Renderer.owned]
  obtain ⟨-, hlinking, hlink⟩ := (Rig.Linking.initial (w := w) hr hnext).linkJobs jobs 0
  have hends := mount_ends w surface jobs g
  generalize hm : (mount w surface jobs).run g = r at hends
  cases hends with
  | refused e => exact .inl ⟨e, g, rfl, .inl rfl⟩
  | dropped e =>
    obtain ⟨cs, hmade⟩ := hlink.makes
    exact .inl ⟨e, _, rfl, .inr ⟨_, _, hmade.dispose hd ho⟩⟩
  | failed _ hblit =>
    have hlinked := (Link.ensures_blit hlinking.stored).1
    rw [hblit] at hlinked
    obtain ⟨cs, hmade⟩ := (hlink.trans hlinked.quietly).makes
    exact .inl ⟨_, _, rfl, .inr ⟨_, _, hmade.dispose hd ho⟩⟩
  | plain | mounted =>
    obtain ⟨cs, hmade⟩ := (Rig.Linking.mount hr hnext hm).1.2.makes
    exact .inr ⟨_, cs, rfl, hmade⟩

/-- Whatever a device does, nothing is deleted twice and nothing that was not made. Once the renderer
is disposed of, or mounting has failed, everything that was made is deleted, and nothing that is done
with the renderer reaches the device any more. -/
theorem objects_deleted_once {g₀ : Rig} (hnew : g₀.renderer = {}) (hnext : 0 < g₀.device.nextHandle)
    (w : Workspace) (surface : Surface) (jobs : List (Option Nat)) (us : List Use) :
    (∃ calls, (g₀.session w surface jobs us).2.device.calls = g₀.device.calls ++ calls ∧ Lawful calls ∧
        ((g₀.session w surface jobs us).1 = .ok () → .dispose ∉ us → deleted calls = []) ∧
        ((g₀.session w surface jobs us).1 ≠ .ok () ∨ .dispose ∈ us →
          (deleted calls).Perm (created calls))) ∧
      ∀ before after, us = before ++ .dispose :: after →
        g₀.session w surface jobs us = g₀.session w surface jobs (before ++ [.dispose]) := by
  have hd : g₀.renderer.disposed = false := by rw [hnew]
  have ho : ∀ k, g₀.renderer.owned k = [] := fun k => by cases k <;> simp [hnew, Renderer.owned]
  rcases Rig.mount_spec hnew hnext w surface jobs with ⟨e, g, hm, hend⟩ | ⟨g, cs, hm, hmade⟩
  · simp only [Rig.session_of_error hm]
    refine ⟨?_, by simp⟩
    rcases hend with rfl | ⟨cs, ds, hf⟩
    · have hnone : g.Makes g [] := .unchanged rfl rfl rfl rfl
      exact ⟨[], hnone.calls, hnone.lawful, fun h => (by cases h), fun _ => .refl _⟩
    · obtain ⟨hlaw, hperm⟩ := hf.lawful
      exact ⟨cs ++ ds, hf.calls, hlaw, fun h => (by cases h), fun _ => hperm⟩
  · simp only [Rig.session_of_ok hm]
    refine ⟨?_, fun before after hus => by rw [hus, Use.runAll_dispose]⟩
    rcases Use.runAll_spec hd ho hmade us with ⟨hnot, cs, h⟩ | ⟨hmem, cs, ds, hf⟩
    · refine ⟨cs, h.calls, h.lawful, fun _ _ => h.deleted, ?_⟩
      rintro (hne | hmem)
      · exact absurd rfl hne
      · exact absurd hmem hnot
    · obtain ⟨hlaw, hperm⟩ := hf.lawful
      exact ⟨cs ++ ds, hf.calls, hlaw, fun _ hnot => absurd hmem hnot, fun _ => hperm⟩

/-! ## A mirror -/

def mirrorImage : Texture := { id := 1, feedback := true }

/-- A job that draws into the texture that it samples. -/
def mirror : Job where
  vertexSource := ""
  fragmentSource := "uniform sampler2D uniform1;"
  session :=
    { nextId := 3
      fragment := { uniforms := [mirrorImage.uniform], textures := [mirrorImage] } }
  mode := .triangleStrip
  indices := none

/-- A job with an index buffer, beside the mirror. -/
def mirrorFrame : Job where
  vertexSource := ""
  fragmentSource := ""
  session := { nextId := 3 }
  mode := .triangles
  indices := some [0, 1, 2]

def mirrorWorkspace : Workspace where
  jobs := [mirror, mirrorFrame]

/-- The device fails to make the second framebuffer of the mirror. -/
def mirrorDevice : Device where
  fails k n := k = .framebuffer && n = 1

def mirrorUses : List Use :=
  [.render mirrorWorkspace 64 48, .snapshot none, .dispose, .render mirrorWorkspace 64 48, .dispose]

/-- The mirror is dropped and its frame is drawn. The texture and the framebuffer that were made for
the mirror are deleted as well. -/
theorem mirror_objects_deleted_once :
    (Rig.session mirrorWorkspace .device [some 0, some 1] mirrorUses { device := mirrorDevice }).1 = .ok () ∧
      ∃ calls, (Rig.session mirrorWorkspace .device [some 0, some 1] mirrorUses
            { device := mirrorDevice }).2.device.calls = calls ∧
        created calls = [⟨.program, 1⟩, ⟨.texture, 2⟩, ⟨.framebuffer, 3⟩, ⟨.texture, 4⟩, ⟨.program, 5⟩,
          ⟨.buffer, 6⟩] ∧
        Lawful calls ∧ (deleted calls).Perm (created calls) := by
  obtain ⟨⟨calls, hcalls, hlawful, -, hdeleted⟩, -⟩ := @objects_deleted_once
    { device := mirrorDevice } rfl (by decide) mirrorWorkspace .device [some 0, some 1] mirrorUses
  refine ⟨by decide +kernel, calls, hcalls, ?_, hlawful, hdeleted (.inr (by simp [mirrorUses]))⟩
  rw [show calls = _ from hcalls.symm]
  decide +kernel

end ShaderGraph
