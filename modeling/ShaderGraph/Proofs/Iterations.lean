import ShaderGraph.Render.FrameLoop
import ShaderGraph.Proofs.Lifetimes

/-!
# How the frame loop ends

A loop runs iteration after iteration until its window closes or it is stopped. `FrameLoop.Ends` says for
which reason and after how many iterations it ends, without running it, and the errors of a loop are told
from that and from what became of the snapshot.

A loop that was cancelled has no errors. This holds of the snapshot too, which may have failed.
-/

namespace ShaderGraph

open Render

namespace FrameLoop

variable {τ : Type}

/-! ## Running -/

section Running

variable {α β : Type}

def exec (x : FrameLoop τ α) (s : LoopState τ) : α × LoopState τ := StateT.run x s

variable (s : LoopState τ)

theorem exec_bind (x : FrameLoop τ α) (f : α → FrameLoop τ β) :
    (x >>= f).exec s = (f (x.exec s).1).exec (x.exec s).2 := rfl

theorem exec_pure (a : α) : (pure a : FrameLoop τ α).exec s = (a, s) := rfl

theorem exec_get : (get : FrameLoop τ (LoopState τ)).exec s = (s, s) := rfl

theorem exec_render (m : Render α) :
    (render m).exec s = ((m.run s.rig).1, { s with rig := (m.run s.rig).2 }) := rfl

theorem exec_issue (c : DeviceCall) : (issue c).exec s = ((), { s with rig := s.rig.issued [c] }) := rfl

end Running

end FrameLoop

/-! ## Ends -/

/-- Why a loop does not go on to iteration `i`, if so. -/
def LoopConfig.stops {τ : Type} (c : LoopConfig τ) (i : Nat) (s : LoopState τ) : Option Stop :=
  if s.cancelled then some .cancelled else c.stop i

namespace FrameLoop

variable {τ : Type} {w : Window} {c : LoopConfig τ} {s : LoopState τ}

def after (w : Window) (c : LoopConfig τ) (s : LoopState τ) : Nat → LoopState τ
  | 0 => s
  | n + 1 => ((iteration w c n).exec (after w c s n)).2

/-- A loop ends after `n` iterations: the window closes, or the loop is stopped before. -/
structure Ends (w : Window) (c : LoopConfig τ) (s : LoopState τ) (stop : Option Stop) (n : Nat) : Prop where
  going : ∀ i < n, i < w.frames ∧ c.stops i (after w c s i) = none
  last : n = w.frames ∧ stop = none ∨ n < w.frames ∧ stop ≠ none ∧ c.stops n (after w c s n) = stop

namespace Ends

variable {stop stop' : Option Stop} {n n' : Nat}

theorem of_going (h : ∀ i < w.frames, c.stops i (after w c s i) = none) : Ends w c s none w.frames :=
  ⟨fun i hi => ⟨hi, h i hi⟩, .inl ⟨rfl, rfl⟩⟩

theorem not_lt (h : Ends w c s stop n) (h' : Ends w c s stop' n') : ¬ n < n' := by
  intro hlt
  obtain ⟨hframes, hnone⟩ := h'.going n hlt
  rcases h.last with ⟨rfl, -⟩ | ⟨-, hsome, hstops⟩
  · exact Nat.lt_irrefl _ hframes
  · exact hsome (hstops.symm.trans hnone)

theorem unique (h : Ends w c s stop n) (h' : Ends w c s stop' n') : stop = stop' ∧ n = n' := by
  obtain rfl : n = n' := Nat.le_antisymm (Nat.not_lt.mp (h'.not_lt h)) (Nat.not_lt.mp (h.not_lt h'))
  refine ⟨?_, rfl⟩
  rcases h.last with ⟨hn, rfl⟩ | ⟨hn, -, hstops⟩
  · rcases h'.last with ⟨-, rfl⟩ | ⟨hn', -, -⟩
    · rfl
    · omega
  · rcases h'.last with ⟨hn', -⟩ | ⟨-, -, hstops'⟩
    · omega
    · exact hstops.symm.trans hstops'

end Ends

theorem exec_iterations_of_stops {left i : Nat} {stop : Stop} (h : c.stops i s = some stop) :
    (iterations w c (left + 1) i).exec s = ((some stop, i), s) := by
  unfold LoopConfig.stops at h
  rw [iterations, exec_bind, exec_get, h]
  rfl

theorem exec_iterations_of_going {left i : Nat} (h : c.stops i s = none) :
    (iterations w c (left + 1) i).exec s =
      (iterations w c left (i + 1)).exec ((iteration w c i).exec s).2 := by
  unfold LoopConfig.stops at h
  rw [iterations, exec_bind, exec_get, h]
  rfl

theorem iterations_ends (left : Nat) {i : Nat} (hleft : i + left = w.frames)
    (hgoing : ∀ j < i, j < w.frames ∧ c.stops j (after w c s j) = none) :
    ∃ stop n, Ends w c s stop n ∧
      (iterations w c left i).exec (after w c s i) = ((stop, n), after w c s n) := by
  induction left generalizing i with
  | zero => exact ⟨none, i, ⟨hgoing, .inl ⟨hleft, rfl⟩⟩, rfl⟩
  | succ left ih =>
    cases hstop : c.stops i (after w c s i) with
    | some stop =>
      exact ⟨some stop, i, ⟨hgoing, .inr ⟨by omega, by simp, hstop⟩⟩, exec_iterations_of_stops hstop⟩
    | none =>
      rw [exec_iterations_of_going hstop]
      refine ih (i := i + 1) (by omega) fun j hj => ?_
      rcases Nat.lt_succ_iff_lt_or_eq.mp hj with hj | rfl
      · exact hgoing j hj
      · exact ⟨by omega, hstop⟩

/-! ## The snapshot -/

/-- A file holds a picture if and only if saving it did not fail. -/
theorem savePicture_eq_none_iff (d : Directory) (path : String) (g : Rig) :
    ((Render.savePicture d path).run g).1.1 = none ↔
      ∃ place picture, ((Render.savePicture d path).run g).1.2 = some (place, .picture picture) := by
  unfold Render.savePicture
  cases d.create path with
  | error e => exact iff_of_false (by rintro ⟨⟩) (by rintro ⟨_, _, ⟨⟩⟩)
  | ok place =>
    dsimp only
    rw [Render.run_bind]
    cases ((snapshot none).run g).1 with
    | error e => exact iff_of_false (by rintro ⟨⟩) (by rintro ⟨_, _, ⟨⟩⟩)
    | ok image =>
      dsimp only
      split
      · exact iff_of_false (by rintro ⟨⟩) (by rintro ⟨_, _, ⟨⟩⟩)
      · exact iff_of_true rfl ⟨place, _, rfl⟩

theorem savePicture_ne_picture {g : Rig} (h : ((snapshot none).run g).1.toOption = none) (d : Directory)
    (path : String) (place : Place) (picture : Png.Picture) :
    ((Render.savePicture d path).run g).1.2 ≠ some (place, .picture picture) := by
  unfold Render.savePicture
  cases d.create path with
  | error e => rintro ⟨⟩
  | ok place' =>
    dsimp only
    rw [Render.run_bind]
    cases hread : ((snapshot none).run g).1 with
    | error e => rintro ⟨⟩
    | ok image =>
      rw [hread] at h
      cases h

/-- No snapshot is made if none was asked for, or nothing was drawn. -/
def Unsaved (c : LoopConfig τ) (s : LoopState τ) : Prop := c.snapshot = "" ∨ s.rig.renderer.frame = 0

variable (d : Directory) (call : Nat)

theorem exec_save_of_unsaved (h : Unsaved c s) : (save d w c call).exec s = ((none, none), s) := by
  rw [save, exec_bind, exec_get]
  dsimp only
  rw [if_pos (by simpa [Unsaved] using h)]
  rfl

theorem exec_save_of_saved (h : ¬ Unsaved c s) :
    (save d w c call).exec s = (do draw w call; render (Render.savePicture d c.snapshot)
      : FrameLoop τ _).exec s := by
  rw [save, exec_bind, exec_get]
  dsimp only
  rw [if_neg (by simpa [Unsaved] using h)]

theorem save_eq_none_iff :
    ((save d w c call).exec s).1.1 = none ↔
      Unsaved c s ∨ ∃ place picture, ((save d w c call).exec s).1.2 = some (place, .picture picture) := by
  by_cases h : Unsaved c s
  · rw [exec_save_of_unsaved d call h]
    exact iff_of_true rfl (.inl h)
  · rw [exec_save_of_saved d call h, exec_bind, exec_render, or_iff_right h]
    exact savePicture_eq_none_iff d c.snapshot _

/-! ## Errors -/

theorem outcome_eq_nil_iff (stop : Option Stop) (saved : Option SaveError) :
    outcome stop saved = [] ↔ stop ≠ some .deadline ∧ (saved = none ∨ stop = some .cancelled) := by
  rcases stop with _ | (_ | _) <;> cases saved <;> simp [outcome]

/-- The state in which the loop starts once jobs are mounted: that they are, and which are not, was logged. -/
def announced (s : LoopState τ) : LoopState τ :=
  { s with rig := { s.rig with log := s.rig.log ++
      (s.rig.renderer.error?.map fun e => ⟨.warn, "some jobs failed to link", [("err", .text e)]⟩).toList ++
      [⟨.info, "mounted", [("jobs", .number s.rig.renderer.jobs.length), ("elapsed", .measured)]⟩] } }

/-- The state after the loop: that it is done was logged if anything was drawn. -/
def finished (s : LoopState τ) : LoopState τ :=
  if 0 < s.rig.renderer.frame then
    { s with rig := { s.rig with log := s.rig.log ++
        [⟨.info, "frame loop done", [("frames", .number s.rig.renderer.frame), ("fps", .measured)]⟩] } }
  else s

theorem renderer_finished (s : LoopState τ) : (finished s).rig.renderer = s.rig.renderer := by
  unfold finished
  split <;> rfl

/-- Mounted jobs are drawn until the loop ends. Then the last frame is saved and everything disposed of. -/
theorem exec_mounted (d : Directory) (w : Window) (c : LoopConfig τ) (s : LoopState τ) :
    ∃ stop n, Ends w c (announced s) stop n ∧
      ∀ r, r = (save d w c n).exec (finished (after w c (announced s) n)) →
        (mounted d w c).exec s =
          ((outcome stop r.1.1, r.1.2), { r.2 with rig := (Render.dispose.run r.2.rig).2 }) := by
  obtain ⟨stop, n, hends, hrun⟩ := iterations_ends (w := w) (c := c) (s := announced s) w.frames (i := 0)
    (Nat.zero_add _) (fun j hj => absurd hj (Nat.not_lt_zero j))
  refine ⟨stop, n, hends, ?_⟩
  rintro r rfl
  change (iterations w c w.frames 0).exec (announced s) = _ at hrun
  rw [mounted, exec_bind, exec_get]
  dsimp only
  rcases he : s.rig.renderer.error? with _ | e
  case' none =>
    have hsaid : ((say .info "mounted" [("jobs", .number s.rig.renderer.jobs.length),
        ("elapsed", .measured)] : FrameLoop τ Unit).exec s).2 = announced s := by
      simp only [announced, he, Option.map_none, Option.toList_none, List.append_nil]
      rfl
    dsimp only
    rw [exec_bind, hsaid, exec_bind, hrun]
  case' some =>
    have hsaid : ((say .info "mounted" [("jobs", .number s.rig.renderer.jobs.length),
        ("elapsed", .measured)] : FrameLoop τ Unit).exec
          ((say .warn "some jobs failed to link" [("err", .text e)] : FrameLoop τ Unit).exec s).2).2 =
        announced s := by
      simp only [announced, he, Option.map_some, Option.toList_some]
      rfl
    dsimp only
    rw [exec_bind, exec_bind, hsaid, exec_bind, hrun]
  all_goals
    dsimp only
    rw [exec_bind, exec_get]
    unfold finished
    split <;> rfl

def opened (c : LoopConfig τ) (s : LoopState τ) : LoopState τ :=
  { s with rig := s.rig.issued [.newWindow c.title c.width c.height c.resizable 1, .openDevice] }

/-- How a loop ends: the window does not open, the jobs are not mounted, or they are drawn. -/
inductive RunEnds (d : Directory) (w : Window) (c : LoopConfig τ) (jobs : List (Option Nat))
    (s : LoopState τ) : (List LoopError × Option (Place × SavedFile)) × LoopState τ → Prop where
  | shut {reason : String} (shut : w.openError = some reason) :
      RunEnds d w c jobs s (([.window reason], none),
        { s with rig := s.rig.issued [.newWindow c.title c.width c.height c.resizable 1] })
  | refused {e : MountError} {g : Rig} (opens : w.openError = none)
      (mount : (mount s.work w.surface jobs).run (opened c s).rig = (.error e, g)) :
      RunEnds d w c jobs s (([.mount e], none), { s with rig := g.issued [.close] })
  | drawn {g : Rig} {stop : Option Stop} {n : Nat} {failure : Option SaveError}
      {file : Option (Place × SavedFile)} {s' : LoopState τ} (opens : w.openError = none)
      (mount : (mount s.work w.surface jobs).run (opened c s).rig = (.ok (), g))
      (ends : Ends w c (announced { s with rig := g }) stop n)
      (saved : (save d w c n).exec (finished (after w c (announced { s with rig := g }) n)) =
        ((failure, file), s')) :
      RunEnds d w c jobs s ((outcome stop failure, file),
        { s' with rig := (Render.dispose.run s'.rig).2.issued [.close] })

theorem run_ends (d : Directory) (w : Window) {c : LoopConfig τ} (jobs : List (Option Nat)) (s : LoopState τ)
    (htime : ∀ u, c.time = some u → u.type = .float) :
    RunEnds d w c jobs s ((run d w c jobs).exec s) := by
  have hfloat : c.time.filter (·.type ≠ .float) = none := by
    cases ht : c.time with
    | none => rfl
    | some u => simp [htime u ht]
  rw [run, hfloat]
  dsimp only
  rw [exec_bind, exec_issue]
  cases hopen : w.openError with
  | some reason => exact .shut hopen
  | none =>
    have hopened : ((issue .openDevice : FrameLoop τ Unit).exec
        { s with rig := s.rig.issued [.newWindow c.title c.width c.height c.resizable 1] }).2 =
          opened c s := by
      rw [exec_issue, Rig.issued_issued]
      rfl
    dsimp only
    rw [exec_bind, hopened, exec_bind, exec_get, exec_bind, exec_render]
    rcases hmount : (mount s.work w.surface jobs).run (opened c s).rig with ⟨e | u, g⟩
    · have hrun : (mount (opened c s).work w.surface jobs).run (opened c s).rig = (.error e, g) := hmount
      rw [hrun]
      exact .refused hopen hmount
    · have hrun : (mount (opened c s).work w.surface jobs).run (opened c s).rig = (.ok (), g) := hmount
      rw [hrun]
      obtain ⟨stop, n, hends, hmounted⟩ := exec_mounted d w c { s with rig := g }
      dsimp only
      rw [exec_bind]
      change RunEnds d w c jobs s (((mounted d w c).exec { s with rig := g }).1,
        { ((mounted d w c).exec { s with rig := g }).2 with
          rig := ((mounted d w c).exec { s with rig := g }).2.rig.issued [.close] })
      rw [hmounted _ rfl]
      exact .drawn hopen hmount hends rfl

/-- Whether a loop that needs a float for the time, if anything, has errors. It has none exactly when its
window opens, its jobs are mounted, no deadline passes, and the snapshot is saved or none is made, or
the loop was cancelled, whatever became of the snapshot. -/
theorem loop_errors_nil_iff (d : Directory) (w : Window) (c : LoopConfig τ)
    (htime : ∀ u, c.time = some u → u.type = .float) (jobs : List (Option Nat)) (s : LoopState τ) :
    ((run d w c jobs).exec s).1.1 = [] ↔
      w.openError = none ∧
      ∃ g, (mount s.work w.surface jobs).run (s.rig.issued
          [.newWindow c.title c.width c.height c.resizable 1, .openDevice]) = (.ok (), g) ∧
        ∃ stop n, Ends w c (announced { s with rig := g }) stop n ∧
          stop ≠ some .deadline ∧
          (c.snapshot = "" ∨
            (after w c (announced { s with rig := g }) n).rig.renderer.frame = 0 ∨
            (∃ place picture, ((run d w c jobs).exec s).1.2 = some (place, .picture picture)) ∨
            stop = some .cancelled) := by
  have hends := run_ends d w jobs s htime
  generalize (run d w c jobs).exec s = r at hends ⊢
  cases hends with
  | shut hshut => exact iff_of_false (by rintro ⟨⟩) (by simp [hshut])
  | refused hopen hmount =>
    refine iff_of_false (by rintro ⟨⟩) ?_
    rintro ⟨-, g', hmount', -⟩
    cases hmount.symm.trans hmount'
  | @drawn g stop n failure file s' hopen hmount hends hsaved =>
    have hfailure := save_eq_none_iff (w := w) (c := c)
      (s := finished (after w c (announced { s with rig := g }) n)) d n
    rw [hsaved, Unsaved, renderer_finished] at hfailure
    have hnil := outcome_eq_nil_iff stop failure
    rw [hfailure, or_assoc, or_assoc] at hnil
    constructor
    · intro h
      exact ⟨hopen, g, hmount, stop, n, hends, hnil.mp h⟩
    · rintro ⟨-, g', hmount', stop', n', hends', hok⟩
      obtain rfl : g = g' := congrArg Prod.snd (hmount.symm.trans hmount')
      obtain ⟨rfl, rfl⟩ := hends.unique hends'
      exact hnil.mpr hok

/-- A loop that is given the time. -/
def postcard : LoopConfig Unit where
  time := some { id := 7, type := .float }

/-- A loop that is cancelled by its first frame, and then saves it. -/
def hurriedPostcard : LoopConfig Unit where
  snapshot := "card"
  onFrame := some fun _ _ work host => { work, host, cancel := true }

def postcardWindow : Window where
  frames := 2
  size _ := (2, 2)

/-- A device that cannot be read. -/
def postcardState : LoopState Unit where
  rig := { device := { fails := fun k _ => k = .read } }
  work := mirrorWorkspace
  host := ()

/-- The state in which the frame of a mirror is mounted. -/
def postcardStart (c : LoopConfig Unit) : LoopState Unit :=
  announced { postcardState with
    rig := ((mount mirrorWorkspace .device [some 1]).run (opened c postcardState).rig).2 }

/-- Without a snapshot it does not matter that the device cannot be read. -/
theorem postcard_errors :
    ((run { path := "/" } postcardWindow postcard [some 1]).exec postcardState).1.1 = [] := by
  have htime : ∀ u, postcard.time = some u → u.type = .float := by
    rintro u ⟨⟩
    rfl
  have hmount : ((mount mirrorWorkspace .device [some 1]).run (opened postcard postcardState).rig).1 =
      .ok () := by decide +kernel
  have hgoing : ∀ i < postcardWindow.frames,
      postcard.stops i (after postcardWindow postcard (postcardStart postcard) i) = none := by
    decide +kernel
  exact (loop_errors_nil_iff { path := "/" } postcardWindow postcard htime [some 1] postcardState).mpr
    ⟨rfl, _, Prod.ext hmount rfl, none, _, .of_going hgoing, by simp, .inl rfl⟩

/-- A loop is cancelled after its first frame, which cannot be read and is not saved. It has no errors. -/
theorem cancelled_loop_hides_failure :
    Ends postcardWindow hurriedPostcard (postcardStart hurriedPostcard) (some .cancelled) 1 ∧
      hurriedPostcard.snapshot = "card" ∧
      (after postcardWindow hurriedPostcard (postcardStart hurriedPostcard) 1).rig.renderer.frame = 1 ∧
      ∀ r, r = (run { path := "/" } postcardWindow hurriedPostcard [some 1]).exec postcardState →
        (¬ ∃ place picture, r.1.2 = some (place, .picture picture)) ∧ r.1.1 = [] := by
  have hmount : ((mount mirrorWorkspace .device [some 1]).run
      (opened hurriedPostcard postcardState).rig).1 = .ok () := by decide +kernel
  have hends : Ends postcardWindow hurriedPostcard (postcardStart hurriedPostcard)
      (some .cancelled) 1 := ⟨by decide +kernel, .inr (by decide +kernel)⟩
  have hframe : (after postcardWindow hurriedPostcard
      (postcardStart hurriedPostcard) 1).rig.renderer.frame = 1 := by decide +kernel
  have hread : ((snapshot none).run ((draw postcardWindow 1).exec (finished
      (after postcardWindow hurriedPostcard (postcardStart hurriedPostcard) 1))).2.rig).1.toOption.isNone
    := by decide +kernel
  refine ⟨hends, rfl, hframe, ?_⟩
  rintro r hr
  have hrun := run_ends { path := "/" } postcardWindow (c := hurriedPostcard) [some 1]
    postcardState (by rintro u ⟨⟩)
  rw [← hr] at hrun
  cases hrun with
  | shut hshut => cases hshut
  | refused _ hrefused => cases (congrArg Prod.fst hrefused).symm.trans hmount
  | @drawn g stop n failure file s' _ hmount' hends' hsaved =>
    obtain rfl := congrArg Prod.snd hmount'
    obtain ⟨rfl, rfl⟩ := hends.unique hends'
    refine ⟨?_, rfl⟩
    rintro ⟨place, picture, hfile⟩
    have hdrawn : ¬ Unsaved hurriedPostcard (finished
        (after postcardWindow hurriedPostcard (postcardStart hurriedPostcard) 1)) := by
      rw [Unsaved, renderer_finished, hframe]
      simp [hurriedPostcard]
    have hsave := (exec_save_of_saved { path := "/" } 1 hdrawn).symm.trans hsaved
    exact savePicture_ne_picture (Option.isNone_iff_eq_none.mp hread) { path := "/" } "card" place
      picture ((congrArg (·.1.2) hsave).trans hfile)

end FrameLoop

end ShaderGraph
