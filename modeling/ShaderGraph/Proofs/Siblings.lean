import ShaderGraph.Proofs.Feedback

/-!
# Jobs beside dropped jobs

Jobs that are linked do not notice those that are dropped. A `Stroke` names the objects that a draw uses by
what they are for, and `Use.plan` lists the draws that callers get of the jobs with given numbers. A mounted
renderer has an object for each of those roles, and carries out the plan of the jobs that it has linked.

Mounting itself does notice. The blit program is linked once any job has made a feedback texture, and a
dropped job may be the only one that did.
-/

namespace ShaderGraph

open Render List

variable {w : Workspace} {ns : List (Option Nat)} {g g' : Rig} {r : Renderer} {m : MountedJob} {t s : Texture}
  {p q : FeedbackPair} {job : Job} {i k : Nat}

/-! ## Plans -/

/-- What an object of a renderer is for. -/
inductive Role where
  | program (place : Nat)
  | blit
  | plain (t : Texture)
  | buffer (t : Texture) (odd : Bool)
  | canvas

/-- A draw, told without handles. -/
structure Stroke where
  counts : DrawMode × Nat × Nat
  program : Role
  target : Role
  textures : List Role

def Texture.role (k : Nat) (t : Texture) : Role :=
  if t.feedback then .buffer t (k % 2 = 1) else .plain t

/-- The draws of the `i`th job in frame `k`. -/
def Job.draws (w : Workspace) (k i : Nat) (job : Job) : List Stroke :=
  ⟨(job.mode, job.counts w.elements), .program i, (job.feedback?.map (·.role k)).getD .canvas,
    job.textures.map (·.role (k + 1))⟩ ::
    (job.feedback?.map fun t => ⟨(.triangleStrip, 4, 1), .blit, .canvas, [t.role k]⟩).toList

/-- The draws of frame `k` of jobs with the given numbers. -/
def Workspace.plan (numbers : List Nat) (w : Workspace) (k : Nat) : List Stroke :=
  numbers.zipIdx.flatMap fun n => w.jobs[n.1]?.toList.flatMap (·.draws w k n.2)

def Use.plan (numbers : List Nat) (us : List Use) : List Stroke :=
  (staged us).zipIdx.flatMap fun frame => frame.1.plan numbers frame.2

/-- The object of a renderer in a role. -/
inductive Renderer.Object (r : Renderer) : Role → ObjectKind → Handle → Prop where
  | program {i : Nat} {m : MountedJob} (job : r.jobs[i]? = some m) : Object r (.program i) .program m.program
  | blit (pairs : r.pairs ≠ []) : Object r .blit .program r.blit.program
  | plain {t : Texture} {p : PlainTexture} (plain : r.plain? t = some p) :
      Object r (.plain t) .texture p.handle
  | source {t : Texture} {p : FeedbackPair} (odd : Bool) (pair : r.pair? t = some p) :
      Object r (.buffer t odd) .texture (p.buffer odd.toNat).texture
  | canvas : Object r .canvas .framebuffer 0
  | target {t : Texture} {p : FeedbackPair} (odd : Bool) (pair : r.pair? t = some p) :
      Object r (.buffer t odd) .framebuffer (p.buffer odd.toNat).framebuffer

structure Renderer.Draws (r : Renderer) (d : Stroke) (s : Shot) : Prop where
  counts : s.1 = d.counts
  program : r.Object d.program .program s.2.program
  target : r.Object d.target .framebuffer s.2.framebuffer
  textures : ∀ (i : Nat) role, d.textures[i]? = some role → r.Object role .texture (s.2.units i)

/-! ## Objects by role -/

theorem Renderer.texture_of_pair? (h : r.pair? t = some p) : p ∈ r.pairs ∧ p.texture = t :=
  ⟨mem_of_find?_eq_some h, by simpa using find?_some h⟩

namespace Rig.Linking

variable (h : g.Linking w ns)
include h

theorem buffer_inj (hp : g.renderer.pair? t = some p) (hq : g.renderer.pair? s = some q) {a b : Bool}
    (heq : (p.buffer a.toNat).texture = (q.buffer b.toNat).texture) : Role.buffer t a = .buffer s b := by
  obtain ⟨hmem, rfl⟩ := Renderer.texture_of_pair? hp
  obtain ⟨hmem', rfl⟩ := Renderer.texture_of_pair? hq
  have hside (p : FeedbackPair) (a : Bool) : (p.buffer a.toNat).texture ∈ p.textures := by
    cases a <;> simp [FeedbackPair.buffer, FeedbackPair.textures]
  obtain rfl := h.unturned.eq_of_mem hmem hmem' (hside p a) (heq ▸ hside q b)
  have hne : p.first.texture ≠ p.second.texture := by
    simpa [FeedbackPair.textures] using (nodup_flatMap.mp h.unturned.textures).1 p hmem
  cases a with
  | false =>
    cases b with
    | false => rfl
    | true => exact absurd heq hne
  | true =>
    cases b with
    | false => exact absurd heq.symm hne
    | true => rfl

/-- No two objects of a kind have the same handle. -/
theorem role_unique {k : ObjectKind} {a b : Role} {x y : Handle}
    (hblit : g.renderer.pairs ≠ [] → ∀ m ∈ g.renderer.jobs, m.program ≠ g.renderer.blit.program)
    (ha : g.renderer.Object a k x) (hb : g.renderer.Object b k y) (heq : x = y) : a = b := by
  have hsound {t : Texture} {p : FeedbackPair} (hp : g.renderer.pair? t = some p) (odd : Bool) :
      (p.buffer odd.toNat).Sound g := h.stored.buffer (Renderer.texture_of_pair? hp).1 _
  have hcanvas {t : Texture} {p : FeedbackPair} (hp : g.renderer.pair? t = some p) (odd : Bool) :
      0 ≠ (p.buffer odd.toNat).framebuffer := by
    intro hzero
    have hnone := (hsound hp odd).attached
    rw [← hzero, g.attached_zero] at hnone
    cases hnone
  cases ha with
  | @program i m hm =>
    cases hb with
    | @program j n hn =>
      have hi : (g.renderer.jobs.map (·.program))[i]? = (g.renderer.jobs.map (·.program))[j]? := by
        rw [getElem?_map, getElem?_map, hm, hn]
        exact congrArg some heq
      have hlt : i < (g.renderer.jobs.map (·.program)).length := by
        rw [length_map]
        exact (List.getElem?_eq_some_iff.mp hm).1
      rw [(getElem?_inj hlt (MountedJob.nodup_programs h.handles)).mp hi]
    | blit hne => exact absurd heq (hblit hne _ (mem_of_getElem? hm))
  | blit hne =>
    cases hb with
    | program hn => exact absurd heq.symm (hblit hne _ (mem_of_getElem? hn))
    | blit => rfl
  | plain hp =>
    obtain ⟨hmem, rfl⟩ := Renderer.texture_of_plain? hp
    cases hb with
    | plain hq =>
      obtain ⟨hmem', rfl⟩ := Renderer.texture_of_plain? hq
      rw [h.stored.apart _ hmem _ hmem' heq]
    | source odd hq => exact absurd heq ((hsound hq odd).plains _ hmem)
  | source odd hp =>
    cases hb with
    | plain hq => exact absurd heq.symm ((hsound hp odd).plains _ (Renderer.texture_of_plain? hq).1)
    | source odd' hq => exact h.buffer_inj hp hq heq
  | canvas =>
    cases hb with
    | canvas => rfl
    | target odd hq => exact absurd heq (hcanvas hq odd)
  | target odd hp =>
    cases hb with
    | canvas => exact absurd heq.symm (hcanvas hp odd)
    | target odd' hq =>
      have htextures := (hsound hp odd).attached.symm.trans (heq ▸ (hsound hq odd').attached)
      exact h.buffer_inj hp hq (Option.some.inj htextures)

end Rig.Linking

theorem Renderer.Object.unique {k : ObjectKind} {a : Role} {x y : Handle} (h : r.Object a k x)
    (h' : r.Object a k y) : x = y := by
  cases h <;> cases h' <;> simp_all

/-! ## Carrying out plans -/

theorem FeedbackPair.buffer_odd (p : FeedbackPair) (k : Nat) :
    p.buffer (decide (k % 2 = 1)).toNat = p.buffer k := by
  by_cases hk : k % 2 = 1 <;> simp [buffer, hk]

theorem Renderer.source_object (hp : r.pair? t = some p) (ht : t.feedback = true) (k : Nat) :
    r.Object (t.role k) .texture (p.buffer k).texture := by
  rw [Texture.role, if_pos ht, ← p.buffer_odd]
  exact .source _ hp

theorem Renderer.target_object (hp : r.pair? t = some p) (ht : t.feedback = true) (k : Nat) :
    r.Object (t.role k) .framebuffer (p.buffer k).framebuffer := by
  rw [Texture.role, if_pos ht, ← p.buffer_odd]
  exact .target _ hp

/-- A job that takes its turn draws what it is to draw. -/
theorem MountedJob.Take.draws {ss : List Shot} (h : m.Take w r k ss) (hm : r.jobs[i]? = some m)
    (hjob : w.jobs[m.job]? = some job) (ht : m.textures = job.textures) (hf : m.target = job.feedback?) :
    Forall₂ r.Draws (job.draws w k i) ss := by
  have hcounts := h.counts
  rw [MountedJob.counts, hjob] at hcounts
  have hturn := h.turn
  have htextures {s : Shot} (hs : s ∈ ss.head?) (hsamples : m.Samples r k s.2) (i : Nat) (role : Role)
      (hi : (job.textures.map (·.role (k + 1)))[i]? = some role) : r.Object role .texture (s.2.units i) := by
    rw [getElem?_map, ← ht] at hi
    obtain ⟨t, hat, rfl⟩ := Option.map_eq_some_iff.mp hi
    cases hfeed : t.feedback with
    | true =>
      obtain ⟨p, hp, hunit⟩ := hsamples.feedback i t hat hfeed
      rw [hunit]
      exact Renderer.source_object hp hfeed _
    | false =>
      obtain ⟨p, hp, hunit⟩ := h.plain s hs i t hat hfeed
      rw [hunit, Texture.role, hfeed]
      exact .plain hp
  generalize hgs : ss.map (·.2) = gs at hturn
  cases hturn with
  | canvas target samples framebuffer =>
    obtain ⟨s, rfl, rfl⟩ := map_eq_singleton_iff.mp hgs
    rw [Job.draws, ← hf, target]
    rw [target] at hcounts
    exact .cons ⟨singleton_inj.mp hcounts, samples.program ▸ .program hm, framebuffer ▸ .canvas,
      htextures rfl samples⟩ .nil
  | @feedback _ _ t _ target pair samples framebuffer _ program _ _ texture canvas =>
    obtain ⟨s, _, rfl, rfl, hcopy⟩ := map_eq_cons_iff.mp hgs
    obtain ⟨copy, rfl, rfl⟩ := map_eq_singleton_iff.mp hcopy
    rw [Job.draws, ← hf, target]
    rw [target] at hcounts
    have hfeed := (Job.mem_textures_of_feedback? (hf.symm.trans target)).2
    obtain ⟨hdrawn, hcopied⟩ : s.1 = _ ∧ copy.1 = _ := by simpa using hcounts
    refine .cons ⟨hdrawn, samples.program ▸ .program hm, ?_, htextures rfl samples⟩
      (.cons ⟨hcopied, ?_, canvas ▸ .canvas, ?_⟩ .nil)
    · rw [framebuffer]
      exact Renderer.target_object pair hfeed k
    · rw [program]
      exact .blit (ne_nil_of_mem (Renderer.texture_of_pair? pair).1)
    · intro i role hi
      obtain ⟨rfl, rfl⟩ : i = 0 ∧ role = t.role k := by simpa [getElem?_singleton, eq_comm] using hi
      rw [texture]
      exact Renderer.source_object pair hfeed k

theorem Renderer.draws_frame {shown : List (List Shot)} (h : Forall₂ (fun m => m.Take w r k) r.jobs shown)
    (hjobs : ∀ m ∈ r.jobs, ∃ job, w.jobs[m.job]? = some job ∧ m.textures = job.textures ∧
      m.target = job.feedback?) : Forall₂ r.Draws (w.plan (r.jobs.map (·.job)) k) shown.flatten := by
  have hplaced : Forall₂ (fun n ss => r.jobs[n.2]? = some n.1 ∧ n.1.Take w r k ss) r.jobs.zipIdx shown := by
    refine (forall₂_and_left _ _).mpr ⟨fun n hn => mem_zipIdx_iff_getElem?.mp hn, ?_⟩
    rwa [← forall₂_map_left_iff, zipIdx_map_fst]
  rw [Workspace.plan, zipIdx_map, flatMap_map, ← flatMap_id]
  refine rel_flatMap hplaced fun n ss hn => ?_
  obtain ⟨job, hjob, ht, hf⟩ := hjobs n.1 (mem_of_getElem? hn.1)
  simpa [hjob] using hn.2.draws hn.1 hjob ht hf

theorem Use.mem_of_mem_staged {us : List Use} (h : w ∈ staged us) :
    ∃ width height, .render w width height ∈ us := by
  fun_induction staged us <;> aesop

/-! ## Mounting -/

/-- Whatever callers do, the plan of the jobs with these numbers is carried out, and no object is used in two
roles. -/
structure Rig.Carries (w : Workspace) (g : Rig) (numbers : List Nat) : Prop where
  oneToOne : ∀ k, Relator.BiUnique fun role => g.renderer.Object role k
  draws : ∀ us : List Use, (∀ w' width height, .render w' width height ∈ us → w.jobs <+: w'.jobs) →
    ∃ ss, (Use.runAll us g).shots = g.shots ++ ss ∧ Forall₂ g.renderer.Draws (Use.plan numbers us) ss

theorem Rig.carries_of_mount {surface : Surface} (hnew : g.renderer = {}) (hnext : 0 < g.device.nextHandle)
    (hm : (mount w surface ns).run g = (.ok (), g')) : g'.Carries w (g'.renderer.jobs.map (·.job)) := by
  obtain ⟨⟨h, -⟩, -, hblit⟩ := Rig.Linking.mount hnew hnext hm
  obtain ⟨halt, hapart, hsuits⟩ := Rig.alternates_of_mount hnew hnext hm
  have hprogram : g'.renderer.pairs ≠ [] → ∀ m ∈ g'.renderer.jobs, m.program ≠ g'.renderer.blit.program :=
    fun hne m hmem => ((hblit hne).2 m hmem _ mem_cons_self).1
  refine ⟨fun k => ⟨fun _ _ _ ha hb => h.role_unique hprogram ha hb rfl, fun _ _ _ hb hc => hb.unique hc⟩,
    fun us hus => ?_⟩
  obtain ⟨⟨shown, hshots, htakes⟩, -⟩ := Use.runAll_takes halt hapart hsuits hus
  have hjobs : ∀ f ∈ (Use.staged us).zipIdx, ∀ m ∈ g'.renderer.jobs, ∃ job, f.1.jobs[m.job]? = some job ∧
      m.textures = job.textures ∧ m.target = job.feedback? := by
    intro f hf m hmem
    obtain ⟨width, height, hu⟩ := Use.mem_of_mem_staged (mem_of_getElem? (mem_zipIdx_iff_getElem?.mp hf))
    obtain ⟨job, hjob, hrest⟩ := (h.fits m hmem).job
    obtain ⟨hlt, rfl⟩ := List.getElem?_eq_some_iff.mp hjob
    exact ⟨_, prefix_iff_getElem?.mp (hus _ _ _ hu) _ hlt, hrest⟩
  refine ⟨_, hshots, ?_⟩
  rw [flatten_flatten]
  exact rel_flatMap ((forall₂_and_left _ _).mpr ⟨hjobs, htakes⟩) fun f ss hf => Renderer.draws_frame hf.2 hf.1

/-- If none is dropped, all jobs are linked. -/
theorem Trial.length_linked {i : Nat} {ts : List Trial} (h : dropped i ts = []) :
    (linked ts).length = ts.length := by
  induction ts generalizing i with
  | nil => rfl
  | cons t ts ih =>
    rw [dropped, append_eq_nil_iff] at h
    cases hresult : t.result with
    | error e => simp [hresult] at h
    | ok m =>
      have hlinked : linked (t :: ts) = m :: linked ts := by simp [linked, hresult, Except.toOption]
      rw [hlinked, length_cons, ih h.2, length_cons]

theorem Rig.numbers_of_mount {surface : Surface} (hnew : g.renderer = {}) (hnext : 0 < g.device.nextHandle)
    (hm : (mount w surface ns).run g = (.ok (), g')) (hd : g'.renderer.dropped = []) :
    (g'.renderer.jobs.map (·.job)).map some = ns := by
  obtain ⟨⟨h, -⟩, ⟨hjobs, hdropped⟩, -⟩ := Rig.Linking.mount hnew hnext hm
  obtain ⟨⟨ts, ht⟩, -⟩ := (Rig.Linking.initial (w := w) hnew hnext).linkJobs ns 0
  rw [ht.jobs, hnew] at hjobs
  rw [hd, ht.dropped, hnew] at hdropped
  rw [map_map]
  refine h.given.eq_of_length ?_
  rw [length_map, hjobs]
  exact (Trial.length_linked hdropped.symm).trans ht.trials.length_eq.symm

/-- The blit program is linked for a linked job that samples a feedback texture, and also where the buffers
of one are left. -/
theorem Rig.Linking.pairs_ne_nil_iff (h : g.Linking w ns) :
    g.renderer.pairs ≠ [] ↔ (∃ m ∈ g.renderer.jobs, ∃ t ∈ m.textures, t.feedback = true) ∨
      ∃ p ∈ g.renderer.pairs, ∀ m ∈ g.renderer.jobs, p.texture ∉ m.textures := by
  constructor
  · intro hne
    obtain ⟨p, hp⟩ := exists_mem_of_ne_nil _ hne
    by_cases hsampled : ∃ m ∈ g.renderer.jobs, p.texture ∈ m.textures
    · obtain ⟨m, hm, ht⟩ := hsampled
      exact .inl ⟨m, hm, p.texture, ht, h.unturned.fed p hp⟩
    · exact .inr ⟨p, hp, fun m hm ht => hsampled ⟨m, hm, ht⟩⟩
  · rintro (⟨m, hm, t, ht, hf⟩ | ⟨p, hp, -⟩)
    · obtain ⟨p, hp, -⟩ := ((h.fits m hm).textures t ht).pair hf
      exact ne_nil_of_mem hp
    · exact ne_nil_of_mem hp

/-- Jobs are tried one by one, and those that are linked are mounted whatever becomes of the others, unless
the blit program is needed and cannot be linked. It is needed for a linked job that samples a feedback
texture, and also where a dropped job has left the buffers of one. Dropped jobs have no say in what is
drawn: it is what a renderer draws that was given only the others. -/
theorem siblings_stand {g₀ : Rig} (hnew : g₀.renderer = {}) (hnext : 0 < g₀.device.nextHandle)
    (hins : g₀.device.instancing = true) (w : Workspace) (ns : List (Option Nat)) :
    ∃ ts g₁, (linkJobs w 0 ns).run g₀ = ((), g₁) ∧ Forall₂ (Trial.Of w) ns ts ∧
      g₁.device.calls = g₀.device.calls ++ ts.flatMap (·.calls) ∧
      (Trial.linked ts ≠ [] → (((mount w .device ns).run g₀).1 ≠ .ok () ↔
        ((∃ m ∈ Trial.linked ts, ∃ t ∈ m.textures, t.feedback = true) ∨
          ∃ p ∈ g₁.renderer.pairs, ∀ m ∈ Trial.linked ts, p.texture ∉ m.textures) ∧
        ∃ e, (Link.blit.run.run g₁).1 = .error e)) ∧
      ∀ g, (mount w .device ns).run g₀ = (.ok (), g) →
        g.renderer.jobs = Trial.linked ts ∧
        g.renderer.dropped = Trial.dropped 0 ts ∧
        g.renderer.error? = (if Trial.dropped 0 ts = [] then none
          else some ("\n".intercalate ((Trial.dropped 0 ts).map (·.message)))) ∧
        g.Carries w (g.renderer.jobs.map (·.job)) ∧
        ∀ g₀' g', g₀'.renderer = {} → 0 < g₀'.device.nextHandle →
          (mount w .device ((g.renderer.jobs.map (·.job)).map some)).run g₀' = (.ok (), g') →
          g'.renderer.dropped = [] → g'.Carries w (g.renderer.jobs.map (·.job)) := by
  obtain ⟨⟨ts, htries⟩, hlinking, -⟩ := (Rig.Linking.initial (w := w) hnew hnext).linkJobs ns 0
  have hjobs : ((linkJobs w 0 ns).run g₀).2.renderer.jobs = Trial.linked ts := by
    rw [htries.jobs, hnew]
    rfl
  refine ⟨ts, ((linkJobs w 0 ns).run g₀).2, rfl, htries.trials, htries.calls, fun hsome => ?_, fun g hg => ?_⟩
  · have hneed := hlinking.pairs_ne_nil_iff
    rw [hjobs] at hneed
    rw [← hneed]
    have hends := mount_ends w .device ns g₀
    generalize (mount w .device ns).run g₀ = result at hends
    cases hends with
    | refused e reason =>
      obtain rfl := reason rfl hins
      obtain rfl := forall₂_nil_left_iff.mp htries.trials
      exact absurd rfl hsome
    | dropped e all => exact absurd (hjobs.symm.trans all) hsome
    | failed pairs blit => exact iff_of_true (by rintro ⟨⟩) ⟨pairs, _, congrArg Prod.fst blit⟩
    | plain fields some pairs => exact iff_of_false (fun hne => hne rfl) fun hblit => hblit.1 pairs
    | mounted fields some blit =>
      refine iff_of_false (fun hne => hne rfl) ?_
      rintro ⟨-, e, he⟩
      rw [blit] at he
      cases he
  · obtain ⟨-, ⟨hlinked, hdropped⟩, -⟩ := Rig.Linking.mount hnew hnext hg
    rw [htries.dropped, hnew] at hdropped
    refine ⟨hlinked.trans hjobs, hdropped, ?_, Rig.carries_of_mount hnew hnext hg,
      fun g₀' g' hnew' hnext' hg' hd => ?_⟩
    · rw [Renderer.error?, hdropped]
      simp only [List.isEmpty_iff]
      rfl
    · have hnumbers := Rig.numbers_of_mount hnew' hnext' hg' hd
      exact map_injective_iff.mpr (fun _ _ => Option.some.inj) hnumbers ▸ Rig.carries_of_mount hnew' hnext' hg'

/-- An image shown on a triangle. -/
def pane (image : Texture) : Job where
  vertexSource := ""
  fragmentSource := "uniform sampler2D " ++ image.name ++ ";"
  session := { nextId := 3, fragment := { uniforms := [image.uniform], textures := [image] } }
  mode := .triangles
  indices := some [0, 1, 2]

def paneWorkspace : Workspace where
  jobs := [pane mirrorImage, pane { id := 2, feedback := false }, mirrorFrame]

/-- A device that fails for the first buffer and for the third program. -/
def paneDevice : Device where
  fails k n := (k = .buffer && n = 0) || (k = .compile && n = 2)

theorem Rig.exists_of_mounted {x : Except MountError Unit × Rig} {n : List Nat} {d : List DroppedJob}
    (h : x.1 = .ok () ∧ x.2.renderer.jobs.map (·.job) = n ∧ x.2.renderer.dropped = d) :
    ∃ g, x = (.ok (), g) ∧ g.renderer.jobs.map (·.job) = n ∧ g.renderer.dropped = d :=
  ⟨x.2, Prod.ext h.1 rfl, h.2⟩

/-- A pane is dropped when its texture is already made, which the same pane after it shares. A frame is
dropped too, and the same frame is linked after it. -/
theorem panes_stand :
    ∃ g g', (mount paneWorkspace .device [none, some 1, some 1, some 2, some 2]).run
        { device := paneDevice } = (.ok (), g) ∧
      g.renderer.error? = some "job 0: nil job\njob 1: buffer failed\njob 3: compile failed" ∧
      (mount paneWorkspace .device [some 1, some 2]).run { device := {} } = (.ok (), g') ∧
      g.Carries paneWorkspace [1, 2] ∧ g'.Carries paneWorkspace [1, 2] := by
  obtain ⟨g, hg, hnumbers, hdropped⟩ := Rig.exists_of_mounted (n := [1, 2])
    (x := (mount paneWorkspace .device [none, some 1, some 1, some 2, some 2]).run { device := paneDevice })
    (d := [⟨0, .noJob⟩, ⟨1, .device (.failed .buffer)⟩, ⟨3, .device (.failed .compile)⟩])
    (by decide +kernel)
  obtain ⟨g', hg', -, hdropped'⟩ := Rig.exists_of_mounted (n := [1, 2]) (d := [])
    (x := (mount paneWorkspace .device [some 1, some 2]).run { device := {} }) (by decide +kernel)
  obtain ⟨ts, g₁, -, -, -, -, hmounted⟩ := @siblings_stand { device := paneDevice } rfl (by decide) rfl
    paneWorkspace [none, some 1, some 1, some 2, some 2]
  obtain ⟨-, hds, herror, hdraws, halike⟩ := hmounted g hg
  rw [hnumbers] at hdraws halike
  refine ⟨g, g', hg, ?_, hg', hdraws, halike { device := {} } g' rfl (by decide) hg' hdropped'⟩
  rw [herror, ← hds, hdropped]
  decide +kernel

/-- A pane is dropped when the buffers of its feedback texture are already made. The frame after it is
linked and samples nothing, but is not mounted for want of the blit program. -/
theorem dropped_pane_breaks_frame :
    (((linkJobs paneWorkspace 0 [some 0, some 2]).run { device := paneDevice }).2.renderer.jobs.map
        fun m => (m.job, m.textures)) = [(2, [])] ∧
      ((mount paneWorkspace .device [some 0, some 2]).run { device := paneDevice }).1 =
        .error (.blit (.device (.failed .compile))) := by
  decide +kernel

end ShaderGraph
