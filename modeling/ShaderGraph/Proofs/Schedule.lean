import ShaderGraph.Proofs.Iterations
import ShaderGraph.Proofs.Staging

/-!
# The order of the frame loop

A loop is told by its beats: the calls to its window, those to the caller, and one viewport for every frame
that is drawn. `Rig.Ticks` relates rigs by the beats between them and by the objects that are made, so
that one induction over the iterations tells both what is presented and what there is to delete before
the window is closed.
-/

namespace ShaderGraph

open Render List

theorem Rig.Ticks.beat (g : Rig) {c : DeviceCall} (hc : c.Neutral) (hb : c.isBeat = true) :
    g.Ticks [c] 0 (g.issued [c]) :=
  .neutral hc (by simp [hb]) rfl rfl rfl

/-- Whether a frame is drawn at a call: the framebuffer is not empty. -/
def Window.Shows (w : Window) (call : Nat) : Prop := 0 < (w.size call).1 ∧ 0 < (w.size call).2

instance (w : Window) (call : Nat) : Decidable (w.Shows call) := instDecidableAnd

/-- The viewport of a frame, if one is drawn. -/
def Window.viewport (w : Window) (call : Nat) : List DeviceCall :=
  if w.Shows call then [.viewport (w.size call).1 (w.size call).2] else []

/-- The number of frames that are drawn before an iteration. -/
def Window.framesBefore (w : Window) (i : Nat) : Nat := (List.range i).countP fun j => w.Shows j

theorem Window.framesBefore_succ (w : Window) (i : Nat) :
    w.framesBefore (i + 1) = w.framesBefore i + if w.Shows i then 1 else 0 := by
  simp [framesBefore, range_succ, countP_singleton]

namespace LoopConfig

variable {τ : Type} (c : LoopConfig τ)

def timed (seconds : Float) (work : Workspace) : Workspace :=
  match c.time with
  | none => work
  | some u => work.setUniform u
    { value := [seconds.toFloat32], version := (work.uniformState u).version + 1 }

def update (frame : Nat) (seconds : Float) (work : Workspace) (host : τ) : FrameUpdate τ :=
  match c.onFrame with
  | none => { work, host }
  | some f => f frame seconds work host

def cue (frame : Nat) (seconds : Float) : List DeviceCall :=
  if c.onFrame.isSome then [.onFrame frame seconds] else []

theorem cue_ticks (frame : Nat) (seconds : Float) (g : Rig) :
    g.Ticks (c.cue frame seconds) 0 (g.issued (c.cue frame seconds)) := by
  unfold cue
  split
  · exact .beat g ⟨rfl, rfl⟩ rfl
  · exact g.issued_nil.symm ▸ .logged g g.log

theorem uniformState_timed {u : Uniform} (h : c.time = some u) (seconds : Float) (work : Workspace) :
    ((c.timed seconds work).uniformState u).value = [seconds.toFloat32] := by
  rw [timed, h, Workspace.uniformState_set, if_pos rfl]

end LoopConfig

/-! ## Iterations -/

namespace FrameLoop

variable {τ : Type} {w : Window} {c : LoopConfig τ} {s : LoopState τ}

/-- The state after one iteration. The time is staged, the caller is given the number of frames and
makes what it likes of the workspace, one frame of that is drawn and one presented. -/
def iterated (w : Window) (c : LoopConfig τ) (i : Nat) (s : LoopState τ) : LoopState τ :=
  let u := c.update s.rig.renderer.frame (w.time i) (c.timed (w.time i) s.work) s.host
  let g := Rig.issued { s.rig with log := s.rig.log ++ u.log }
    (.time :: c.cue s.rig.renderer.frame (w.time i) ++ [.framebufferSize])
  { rig := ((Render.frame u.work (w.size i).1 (w.size i).2).run g).2.issued [.present]
    work := u.work
    host := u.host
    cancelled := s.cancelled || u.cancel }

theorem exec_stageTime (htime : ∀ u, c.time = some u → u.type = .float ∧ u.texture = none) (seconds : Float)
    (s : LoopState τ) : (stageTime c seconds).exec s = ((), { s with work := c.timed seconds s.work }) := by
  unfold stageTime LoopConfig.timed
  cases ht : c.time with
  | none => rfl
  | some u =>
    obtain ⟨htype, htexture⟩ := htime u ht
    have hfits : u.refuses? [seconds.toFloat32] = none := by
      simp [Uniform.refuses?, htexture, htype, GlType.components]
    change (_, _) = _
    dsimp only
    rw [Uniform.stage, hfits]

theorem exec_prepare (seconds : Float) (s : LoopState τ) {u : FrameUpdate τ}
    (hu : c.update s.rig.renderer.frame seconds s.work s.host = u) :
    (prepare c seconds).exec s = ((),
      { rig := Rig.issued { s.rig with log := s.rig.log ++ u.log } (c.cue s.rig.renderer.frame seconds)
        work := u.work
        host := u.host
        cancelled := s.cancelled || u.cancel }) := by
  unfold LoopConfig.update at hu
  unfold prepare LoopConfig.cue
  cases hf : c.onFrame with
  | none =>
    rw [hf] at hu
    obtain rfl := hu
    simp [exec_pure]
  | some f =>
    rw [hf] at hu
    obtain rfl := hu
    rfl

theorem exec_draw (w : Window) (call : Nat) (s : LoopState τ) :
    (draw w call).exec s = ((), { s with
      rig := ((Render.frame s.work (w.size call).1 (w.size call).2).run
        (s.rig.issued [.framebufferSize])).2 }) := rfl

theorem exec_iteration (htime : ∀ u, c.time = some u → u.type = .float ∧ u.texture = none) (i : Nat)
    (s : LoopState τ) : ((iteration w c i).exec s).2 = iterated w c i s := by
  rw [iteration, exec_bind, exec_issue, exec_bind, exec_stageTime htime, exec_bind, exec_prepare _ _ rfl,
    exec_bind, exec_draw, exec_issue]
  unfold iterated
  simp only [Rig.renderer_issued]
  congr 4
  simp [Rig.issued]

theorem frame_ticks {g : Rig} (hd : g.renderer.disposed = false) (work : Workspace) (w : Window) (call : Nat) :
    g.Ticks (w.viewport call) (if w.Shows call then 1 else 0)
      ((Render.frame work (w.size call).1 (w.size call).2).run g).2 := by
  have hframe := Render.frame_ticks work (w.size call).1 (w.size call).2 g
  simpa [hd, Window.viewport, Window.Shows] using hframe

/-- The beats of an iteration before which `frame` frames were drawn. -/
def beats (w : Window) (c : LoopConfig τ) (frame i : Nat) : List DeviceCall :=
  .time :: c.cue frame (w.time i) ++ .framebufferSize :: w.viewport i ++ [.present]

theorem iterated_ticks (hd : s.rig.renderer.disposed = false) (w : Window) (c : LoopConfig τ) (i : Nat) :
    s.rig.Ticks (beats w c s.rig.renderer.frame i) (if w.Shows i then 1 else 0) (iterated w c i s).rig := by
  unfold iterated
  generalize c.update s.rig.renderer.frame (w.time i) (c.timed (w.time i) s.work) s.host = u
  generalize hcue : c.cue s.rig.renderer.frame (w.time i) = cue
  have hlogged := Rig.Ticks.logged s.rig (s.rig.log ++ u.log)
  have hasked := ((hlogged.trans (.beat _ (c := .time) ⟨rfl, rfl⟩ rfl)).trans
    (hcue ▸ c.cue_ticks s.rig.renderer.frame (w.time i) _)).trans
      (.beat _ (c := .framebufferSize) ⟨rfl, rfl⟩ rfl)
  rw [Rig.issued_issued, Rig.issued_issued] at hasked
  have hdrawn := (hasked.trans (frame_ticks (by exact hd) u.work w i)).trans (.beat _ (c := .present) ⟨rfl, rfl⟩ rfl)
  simpa [beats, hcue] using hdrawn

theorem after_ticks (hd : s.rig.renderer.disposed = false) (hf : s.rig.renderer.frame = 0)
    (htime : ∀ u, c.time = some u → u.type = .float ∧ u.texture = none) (n : Nat) :
    s.rig.Ticks ((List.range n).flatMap fun i => beats w c (w.framesBefore i) i) (w.framesBefore n)
      (after w c s n).rig := by
  induction n with
  | zero => exact .logged s.rig s.rig.log
  | succ n ih =>
    obtain ⟨cs, hm, -, hframe⟩ := id ih
    have hstep := iterated_ticks (hm.disposed.trans hd) w c n
    rw [hframe, hf, Nat.zero_add] at hstep
    rw [after, exec_iteration htime, range_succ, flatMap_append, flatMap_singleton,
      w.framesBefore_succ]
    exact ih.trans hstep

/-! ## The way out -/

theorem savePicture_quietly (d : Directory) (path : String) :
    (Render.savePicture d path).Steps Rig.Quietly := by
  unfold Render.savePicture
  split
  · exact Rig.quietly_chained.render_pure _
  · refine Rig.quietly_chained.render_bind (snapshot_quietly none) fun a => ?_
    split
    · exact Rig.quietly_chained.render_pure _
    · split <;> exact Rig.quietly_chained.render_pure _

/-- The beats of saving the last frame, which is drawn again. -/
def closing (w : Window) (c : LoopConfig τ) (frame n : Nat) : List DeviceCall :=
  if c.snapshot = "" ∨ frame = 0 then [] else .framebufferSize :: w.viewport n

theorem save_ticks (hd : s.rig.renderer.disposed = false) (d : Directory) (w : Window) (c : LoopConfig τ)
    (n : Nat) : ∃ k, s.rig.Ticks (closing w c s.rig.renderer.frame n) k ((save d w c n).exec s).2.rig := by
  by_cases h : Unsaved c s
  · rw [exec_save_of_unsaved d n h, show closing w c s.rig.renderer.frame n = [] from if_pos h]
    exact ⟨0, .logged s.rig s.rig.log⟩
  · rw [exec_save_of_saved d n h, exec_bind, exec_draw, exec_render,
      show closing w c s.rig.renderer.frame n = .framebufferSize :: w.viewport n from if_neg h]
    have hdrawn := (Rig.Ticks.beat s.rig (c := .framebufferSize) ⟨rfl, rfl⟩ rfl).trans
      (frame_ticks (by exact hd) s.work w n)
    have hsaved := hdrawn.trans ((savePicture_quietly d c.snapshot).step _)
    rw [append_nil] at hsaved
    exact ⟨_, hsaved⟩

theorem finished_ticks (s : LoopState τ) : s.rig.Quietly (finished s).rig := by
  unfold finished
  split
  · exact .logged s.rig _
  · exact .logged s.rig s.rig.log

/-- The beats of a loop of `n` iterations, but for closing the window. -/
def score (w : Window) (c : LoopConfig τ) (n : Nat) : List DeviceCall :=
  [.newWindow c.title c.width c.height c.resizable 1, .openDevice] ++
    ((List.range n).flatMap fun i => beats w c (w.framesBefore i) i) ++ closing w c (w.framesBefore n) n

theorem close_not_mem_score (w : Window) (c : LoopConfig τ) (n : Nat) : .close ∉ score w c n := by
  simp [score, beats, closing, Window.viewport, LoopConfig.cue]

theorem disposed_ticks {g g' : Rig} (hnew : g.renderer = {}) {bs : List DeviceCall} {k : Nat} (h : g.Ticks bs k g') :
    ∃ front, (Render.dispose.run g').2.device.calls = g.device.calls ++ front ∧
      front.filter (·.isBeat) = bs ∧ Lawful front ∧ (deleted front).Perm (created front) := by
  obtain ⟨cs, hmakes, hbeats, -⟩ := h
  have hd : g.renderer.disposed = false := by rw [hnew]
  have hfrees := hmakes.dispose hd fun k => by cases k <;> simp [hnew, Renderer.owned]
  have hquiet : g'.renderer.deletions.filter (·.isBeat) = [] := by
    simp [Renderer.deletions, filter_map, DeviceCall.isBeat, Function.comp_def]
  refine ⟨_, hfrees.calls, ?_, hfrees.lawful⟩
  rw [filter_append, hbeats, hquiet, append_nil]

/-- The order of a loop whose jobs are mounted. Every iteration that is not stopped stages the time, asks
the caller with the number of frames drawn so far, draws one frame at the size of the framebuffer and
presents it. That number grows by one with every frame, and not at all where the framebuffer is empty.
However the loop ends, everything that was made is deleted once, and then the window is closed once. -/
theorem frame_loop_in_order {s : LoopState τ} (hnew : s.rig.renderer = {})
    (hnext : 0 < s.rig.device.nextHandle) (d : Directory) {w : Window} {c : LoopConfig τ}
    (htime : ∀ u, c.time = some u → u.type = .float ∧ u.texture = none) (hopen : w.openError = none)
    {jobs : List (Option Nat)} {g : Rig}
    (hmount : (mount s.work w.surface jobs).run (s.rig.issued
      [.newWindow c.title c.width c.height c.resizable 1, .openDevice]) = (.ok (), g)) :
    ∃ stop n, Ends w c (announced { s with rig := g }) stop n ∧
      (∀ states, states = after w c (announced { s with rig := g }) → ∀ i < n,
        states (i + 1) = iterated w c i (states i) ∧
        (∀ u, c.time = some u →
          ((c.timed (w.time i) (states i).work).uniformState u).value = [(w.time i).toFloat32]) ∧
        (states i).rig.renderer.frame = w.framesBefore i ∧
        (states (i + 1)).rig.renderer.frame =
          (states i).rig.renderer.frame + if w.Shows i then 1 else 0) ∧
      ∃ front, ((run d w c jobs).exec s).2.rig.device.calls =
          s.rig.device.calls ++ front ++ [.close] ∧
        .close ∉ front ∧
        front.filter (·.isBeat) = score w c n ∧
        Lawful front ∧ (deleted front).Perm (created front) := by
  have hopened := (Rig.Ticks.beat s.rig (c := .newWindow c.title c.width c.height c.resizable 1) ⟨rfl, rfl⟩
    rfl).trans (.beat _ (c := .openDevice) ⟨rfl, rfl⟩ rfl)
  rw [Rig.issued_issued] at hopened
  have hmounted := (Rig.Linking.mount (by exact hnew) (by exact hnext) hmount).1.2
  have hstart := (hopened.trans hmounted).trans (.logged g (announced { s with rig := g }).rig.log)
  obtain ⟨cs, hmade, -, hframe⟩ := id hstart
  have hloop (n : Nat) := after_ticks (w := w) (s := announced { s with rig := g })
    (hmade.disposed.trans (by rw [hnew])) (hframe.trans (by rw [hnew])) htime n
  have hdrawn (n : Nat) := (hstart.trans (hloop n)).trans (finished_ticks _)
  have hcount (n : Nat) : (after w c (announced { s with rig := g }) n).rig.renderer.frame =
      w.framesBefore n := by
    obtain ⟨-, -, -, hn⟩ := hstart.trans (hloop n)
    simpa [hnew] using hn
  have hrun := run_ends d w jobs s fun u hu => (htime u hu).1
  generalize (run d w c jobs).exec s = r at hrun ⊢
  cases hrun with
  | shut hshut => cases hopen.symm.trans hshut
  | refused _ hrefused => cases hmount.symm.trans hrefused
  | @drawn g' stop n failure file s' _ hmount' hends hsaved =>
    obtain rfl : g = g' := congrArg Prod.snd (hmount.symm.trans hmount')
    refine ⟨stop, n, hends, ?_, ?_⟩
    · rintro states rfl i -
      refine ⟨exec_iteration htime i _, fun u hu => c.uniformState_timed hu _ _, hcount i, ?_⟩
      rw [hcount, hcount, w.framesBefore_succ]
    · obtain ⟨cs', hmade', -⟩ := hdrawn n
      obtain ⟨k, hsave⟩ := save_ticks (hmade'.disposed.trans (by rw [hnew])) d w c n
      rw [hsaved, renderer_finished, hcount] at hsave
      obtain ⟨front, hcalls, hbeats, hlawful, hdeleted⟩ :=
        disposed_ticks hnew ((hdrawn n).trans hsave)
      have hscore : front.filter (·.isBeat) = score w c n := by
        simpa [score] using hbeats
      refine ⟨front, ?_, fun hclose => ?_, hscore, hlawful, hdeleted⟩
      · rw [← hcalls]
        rfl
      · have hmem := List.mem_filter.mpr ⟨hclose, (rfl : DeviceCall.isBeat .close = true)⟩
        rw [hscore] at hmem
        exact close_not_mem_score w c n hmem

/-- A loop that is given the time and keeps the numbers of its frames. -/
def clock : LoopConfig (List Nat) where
  time := some { id := 7, type := .float }
  onFrame := some fun frame _ work host => { work, host := host ++ [frame] }

/-- A window that is folded away for its second frame. -/
def clockWindow : Window where
  frames := 3
  size i := if i = 1 then (0, 2) else (2, 2)

def clockState : LoopState (List Nat) where
  rig := { device := {} }
  work := mirrorWorkspace
  host := []

/-- The frame of a mirror is drawn twice in three iterations. -/
theorem clock_in_order :
    ((run { path := "/" } clockWindow clock [some 1]).exec clockState).2.host = [0, 1, 1] ∧
      ∃ front, ((run { path := "/" } clockWindow clock [some 1]).exec
          clockState).2.rig.device.calls = front ++ [.close] ∧
        .close ∉ front ∧
        front.filter (·.isBeat) = score clockWindow clock 3 ∧
        Lawful front ∧ (deleted front).Perm (created front) := by
  have hmount : ((mount mirrorWorkspace .device [some 1]).run (opened clock clockState).rig).1 =
      .ok () := by decide +kernel
  generalize hg : ((mount mirrorWorkspace .device [some 1]).run (opened clock clockState).rig).2 = g
  have hmounted : (mount mirrorWorkspace .device [some 1]).run (opened clock clockState).rig =
      (.ok (), g) := Prod.ext hmount hg
  have htime : ∀ u, clock.time = some u → u.type = .float ∧ u.texture = none := by
    rintro u ⟨⟩
    exact ⟨rfl, rfl⟩
  obtain ⟨stop, n, hends, -, front, hcalls, hclose, hbeats, hobjects⟩ := frame_loop_in_order
    (s := clockState) rfl (by decide) { path := "/" } (w := clockWindow) htime rfl hmounted
  have hgoing : ∀ i < clockWindow.frames, clock.stops i (after clockWindow clock
      (announced { clockState with rig := g }) i) = none := by
    subst hg
    decide +kernel
  obtain ⟨-, rfl⟩ := hends.unique (.of_going hgoing)
  refine ⟨by decide +kernel, front, ?_, hclose, hbeats, hobjects⟩
  exact hcalls

end FrameLoop

end ShaderGraph
