import Mathlib.Logic.Function.Basic
import ShaderGraph.Render.Renderer

/-!
# What a device holds

The calls that a device has answered, played on the state behind them: the program in use, what
programs, buffers and textures hold, and what is bound where. `Gpu.draws` gives the states in which
something was drawn. A draw changes the texture behind the bound framebuffer, and after it nothing
is known of that texture.

A renderer's runs are then told by what they issue: `sendUniforms` and `sendAttributes` issue the
calls of their slots in order.
-/

namespace ShaderGraph

open Render List

/-! ## States -/

structure Image where
  width : Int
  height : Int
  pixels : Option (List UInt8)

/-- Where an attribute is read. -/
structure Pointer where
  buffer : Handle
  size : Int
  divisor : Nat
deriving DecidableEq

def DeviceCall.isDraw : DeviceCall → Bool
  | .draw .. => true
  | _ => false

/-- The mode of a draw, how many vertices it draws and how often. -/
def DeviceCall.drawn? : DeviceCall → Option (DrawMode × Nat × Nat)
  | .draw mode _ count instances => some (mode, count, instances)
  | _ => none

/-- What calls have put into a device; `none` is what no call has said. -/
structure Gpu where
  /-- The program in use. -/
  program : Handle := 0
  uniforms : Handle → Int → Option (List Float32) := fun _ _ => none
  buffers : Handle → Option (List Float32) := fun _ => none
  images : Handle → Option Image := fun _ => none
  /-- The textures that framebuffers draw into. -/
  attached : Handle → Option Handle := fun _ => none
  attributes : Int → Option Pointer := fun _ => none
  units : Nat → Handle := fun _ => 0
  framebuffer : Handle := 0

/-- A draw by its mode and counts, and what the device held then. -/
abbrev Shot := (DrawMode × Nat × Nat) × Gpu

namespace Gpu

variable (g : Gpu) (cs ds : List DeviceCall)

def paint (g : Gpu) : Gpu :=
  match g.attached g.framebuffer with
  | none => g
  | some t => { g with images := Function.update g.images t none }

theorem attached_paint : g.paint.attached = g.attached := by
  unfold paint
  split <;> rfl

theorem paint_of_none {g : Gpu} (h : g.attached g.framebuffer = none) : g.paint = g := by
  rw [paint, h]

theorem paint_of_some {g : Gpu} {t : Handle} (h : g.attached g.framebuffer = some t) :
    g.paint = { g with images := Function.update g.images t none } := by
  rw [paint, h]

def step (g : Gpu) : DeviceCall → Gpu
  | .useProgram p => { g with program := p }
  | .setUniform l _ v =>
    { g with
      uniforms := Function.update g.uniforms g.program
        (Function.update (g.uniforms g.program) l (some v)) }
  | .deleteProgram p => { g with uniforms := Function.update g.uniforms p fun _ => none }
  | .arrayBufferData b d => { g with buffers := Function.update g.buffers b (some d) }
  | .deleteBuffer b => { g with buffers := Function.update g.buffers b none }
  | .bindAttribute l b size divisor =>
    { g with attributes := Function.update g.attributes l (some ⟨b, size, divisor⟩) }
  | .createTexture w h px t =>
    if t = 0 then g else { g with images := Function.update g.images t (some ⟨w, h, px⟩) }
  | .textureData t w h px => { g with images := Function.update g.images t (some ⟨w, h, px⟩) }
  | .deleteTexture t => { g with images := Function.update g.images t none }
  | .bindTexture unit t => { g with units := Function.update g.units unit t }
  | .createFramebuffer t f =>
    if f = 0 then g else { g with attached := Function.update g.attached f (some t) }
  | .deleteFramebuffer f => { g with attached := Function.update g.attached f none }
  | .bindFramebuffer f => { g with framebuffer := f }
  | .clear .. | .draw .. => g.paint
  | _ => g

def run (g : Gpu) (cs : List DeviceCall) : Gpu := cs.foldl step g

@[simp] theorem run_nil : g.run [] = g := rfl

@[simp] theorem run_cons (g : Gpu) (c : DeviceCall) (cs : List DeviceCall) :
    g.run (c :: cs) = (g.step c).run cs := rfl

@[simp] theorem run_append : g.run (cs ++ ds) = (g.run cs).run ds :=
  foldl_append

def draws (g : Gpu) : List DeviceCall → List Gpu
  | [] => []
  | c :: cs => (if c.isDraw then [g] else []) ++ (g.step c).draws cs

theorem draws_append : g.draws (cs ++ ds) = g.draws cs ++ (g.run cs).draws ds := by
  induction cs generalizing g with
  | nil => rfl
  | cons c cs ih => simp [draws, ih]

theorem draws_eq_nil {g : Gpu} {cs : List DeviceCall} (h : ∀ c ∈ cs, ¬ c.isDraw) : g.draws cs = [] := by
  induction cs generalizing g with
  | nil => rfl
  | cons c cs ih =>
    obtain ⟨hc, hcs⟩ := forall_mem_cons.mp h
    rw [draws, if_neg hc, ih hcs]
    rfl

def shots (g : Gpu) : List DeviceCall → List Shot
  | [] => []
  | c :: cs => (c.drawn?.map (·, g)).toList ++ (g.step c).shots cs

theorem shots_append : g.shots (cs ++ ds) = g.shots cs ++ (g.run cs).shots ds := by
  induction cs generalizing g with
  | nil => rfl
  | cons c cs ih => simp [shots, ih]

theorem map_shots : (g.shots cs).map (·.2) = g.draws cs := by
  induction cs generalizing g with
  | nil => rfl
  | cons c cs ih =>
    rw [shots, draws, map_append, ih]
    cases c <;> rfl

theorem attached_zero {g : Gpu} (h : g.attached 0 = none) (cs : List DeviceCall) :
    (g.run cs).attached 0 = none := by
  induction cs generalizing g with
  | nil => exact h
  | cons c cs ih =>
    refine ih ?_
    cases c with
    | createTexture _ _ _ t =>
      change attached (if t = 0 then g else _) 0 = none
      split <;> exact h
    | createFramebuffer t f =>
      change attached (if f = 0 then g else _) 0 = none
      split
      · exact h
      · next hf => exact (Function.update_of_ne (Ne.symm hf) _ _).trans h
    | deleteFramebuffer f =>
      change Function.update g.attached f none 0 = none
      rw [Function.update_apply]
      split
      · rfl
      · exact h
    | clear | draw => exact (congrFun (attached_paint g) 0).trans h
    | _ => exact h

end Gpu

/-! ## Rigs -/

namespace Rig

def gpu (g : Rig) : Gpu := Gpu.run {} g.device.calls

def drawn (g : Rig) : List Gpu := Gpu.draws {} g.device.calls

def shots (g : Rig) : List Shot := Gpu.shots {} g.device.calls

def issued (g : Rig) (cs : List DeviceCall) : Rig :=
  { g with device := { g.device with calls := g.device.calls ++ cs } }

variable (g : Rig) (cs ds : List DeviceCall)

@[simp] theorem issued_nil : g.issued [] = g := by simp [issued]

@[simp] theorem issued_issued : (g.issued cs).issued ds = g.issued (cs ++ ds) := by simp [issued]

@[simp] theorem renderer_issued : (g.issued cs).renderer = g.renderer := rfl

@[simp] theorem gpu_issued : (g.issued cs).gpu = g.gpu.run cs := Gpu.run_append ..

theorem drawn_issued : (g.issued cs).drawn = g.drawn ++ g.gpu.draws cs := Gpu.draws_append ..

theorem drawn_issued_of_not_isDraw {cs : List DeviceCall} (h : ∀ c ∈ cs, ¬ c.isDraw) :
    (g.issued cs).drawn = g.drawn := by
  rw [drawn_issued, Gpu.draws_eq_nil h, append_nil]

theorem drawn_of_shots {g g' : Rig} {ss : List Shot} (h : g'.shots = g.shots ++ ss) :
    g'.drawn = g.drawn ++ ss.map (·.2) := by
  rw [drawn, ← Gpu.map_shots, show Gpu.shots {} g'.device.calls = _ from h, map_append, drawn,
    ← Gpu.map_shots]
  rfl

theorem drawn_congr {g g' : Rig} (h : g'.shots = g.shots) : g'.drawn = g.drawn := by
  simpa using drawn_of_shots (h.trans (append_nil _).symm)

theorem shots_issued : (g.issued cs).shots = g.shots ++ g.gpu.shots cs := Gpu.shots_append ..

theorem shots_issued_of_not_isDraw {cs : List DeviceCall} (h : ∀ c ∈ cs, ¬ c.isDraw) :
    (g.issued cs).shots = g.shots := by
  rw [shots_issued, map_eq_nil_iff.mp ((g.gpu.map_shots cs).trans (Gpu.draws_eq_nil h)),
    append_nil]

theorem program_issued_useProgram (p : Handle) : (g.issued [.useProgram p]).gpu.program = p :=
  congrArg Gpu.program (g.gpu_issued _)

theorem attached_zero : g.gpu.attached 0 = none := Gpu.attached_zero rfl _

end Rig

/-! ## Runs -/

namespace Render

variable {α β : Type} (g : Rig)

theorem run_bind (x : Render α) (f : α → Render β) :
    (x >>= f).run g = (f (x.run g).1).run (x.run g).2 := rfl

theorem run_pure (a : α) : (pure a : Render α).run g = (a, g) := rfl

theorem run_get : (get : Render Rig).run g = (g, g) := rfl

theorem run_issue (c : DeviceCall) : (issue c).run g = ((), g.issued [c]) := rfl

theorem run_renderer : renderer.run g = (g.renderer, g) := rfl

theorem run_update (f : Renderer → Renderer) :
    (update f).run g = ((), { g with renderer := f g.renderer }) := rfl

theorem say_keeps (level : Log.Level) (message : String) (fields : List (String × Log.Value)) :
    ((say level message fields).run g).2.device = g.device ∧
      ((say level message fields).run g).2.renderer = g.renderer := by
  have hrun : ((say level message fields).run g).2 =
      if g.quiet then g else { g with log := g.log ++ [⟨level, message, fields⟩] } := rfl
  rw [hrun]
  split <;> exact ⟨rfl, rfl⟩

theorem run_forM {f : α → Render Unit} {calls : α → List DeviceCall}
    (hf : ∀ x g, (f x).run g = ((), g.issued (calls x))) (xs : List α) :
    (xs.forM f).run g = ((), g.issued (xs.flatMap calls)) := by
  induction xs generalizing g with
  | nil => rw [flatMap_nil, Rig.issued_nil]; rfl
  | cons x xs ih =>
    rw [forM_eq_forM, forM_cons, run_bind, hf]
    exact (ih _).trans (by simp)

end Render

/-! ## Writes -/

section

variable {α κ β : Type} [DecidableEq κ] (key : α → κ) (value : α → Option β)

def write (f : κ → Option β) (x : α) : κ → Option β :=
  Function.update f (key x) ((value x).or (f (key x)))

def writeAll (xs : List α) (f : κ → Option β) : κ → Option β := xs.foldl (write key value) f

variable {key value} {xs : List α} {f : κ → Option β} {x : α}

theorem write_of_none (h : value x = none) : write key value f x = f := by
  rw [write, h, Option.none_or, Function.update_eq_self]

theorem writeAll_of_none {k : κ} (h : ∀ x ∈ xs, key x = k → value x = none) :
    writeAll key value xs f k = f k := by
  induction xs generalizing f with
  | nil => rfl
  | cons x xs ih =>
    have hx : write key value f x k = f k := by
      by_cases hk : key x = k
      · rw [write_of_none (h x mem_cons_self hk)]
      · exact Function.update_of_ne (Ne.symm hk) _ _
    exact (ih fun y hy => h y (mem_cons_of_mem _ hy)).trans hx

theorem writeAll_key {p : α → Prop} (hd : xs.Pairwise fun x y => p x → key x ≠ key y)
    (hp : ∀ x, ¬ p x → value x = none) (hx : x ∈ xs) (hpx : p x) :
    writeAll key value xs f (key x) = (value x).or (f (key x)) := by
  induction xs generalizing f with
  | nil => cases hx
  | cons y xs ih =>
    obtain ⟨hy, hd⟩ := pairwise_cons.mp hd
    rcases mem_cons.mp hx with rfl | hx
    · have hrest : ∀ y ∈ xs, key y = key x → value y = none := fun y hmem hk =>
        absurd hk (Ne.symm (hy y hmem hpx))
      exact (writeAll_of_none hrest).trans (Function.update_self ..)
    · have hyx : write key value f y (key x) = f (key x) := by
        by_cases hpy : p y
        · exact Function.update_of_ne (Ne.symm (hy x hx hpy)) _ _
        · rw [write_of_none (hp y hpy)]
      exact (ih hd hx).trans (by rw [hyx])

end

/-! ## Slots -/

namespace UniformSlot

variable (w : Workspace) (s : UniformSlot)

/-- The value to send, if it is not the last one sent. -/
def news? : Option (List Float32) :=
  if 0 ≤ s.location ∧ (w.uniformState s.uniform).version ≠ s.sent then
    some (w.uniformState s.uniform).value
  else none

def sends : List DeviceCall :=
  ((s.news? w).map fun v => .setUniform s.location s.uniform.type v).toList

def refreshed : UniformSlot :=
  if (s.news? w).isSome then { s with sent := (w.uniformState s.uniform).version } else s

/-- The slot is not newer than what is staged, and where it is up to date the program holds what is
staged. -/
def Holds (values : Int → Option (List Float32)) : Prop :=
  s.sent ≤ (w.uniformState s.uniform).version ∧
    (0 ≤ s.location → s.sent = (w.uniformState s.uniform).version →
      values s.location = some (w.uniformState s.uniform).value)

@[simp] theorem uniform_refreshed : (s.refreshed w).uniform = s.uniform := by
  unfold refreshed
  split <;> rfl

@[simp] theorem location_refreshed : (s.refreshed w).location = s.location := by
  unfold refreshed
  split <;> rfl

theorem sent_refreshed {w : Workspace} {s : UniformSlot} (h : 0 ≤ s.location) :
    (s.refreshed w).sent = (w.uniformState s.uniform).version := by
  unfold refreshed news?
  by_cases hv : (w.uniformState s.uniform).version = s.sent <;> simp [h, hv]

variable {w s} {values values' : Int → Option (List Float32)}

theorem news?_of_neg (h : ¬ 0 ≤ s.location) : s.news? w = none := if_neg fun h' => h h'.1

theorem Holds.unsent (h : 0 < (w.uniformState s.uniform).version) (hs : s.sent = 0) :
    s.Holds w values :=
  ⟨hs ▸ UInt64.le_of_lt h, fun _ he => absurd (hs.symm.trans he) (UInt64.ne_of_lt h)⟩

theorem Holds.or_news (h : s.Holds w values) (hl : 0 ≤ s.location) :
    (s.news? w).or (values s.location) = some (w.uniformState s.uniform).value := by
  unfold news?
  split
  · rfl
  · next hs => exact h.2 hl (by by_contra hne; exact hs ⟨hl, Ne.symm hne⟩)

theorem Holds.congr (h : s.Holds w values)
    (hv : 0 ≤ s.location → values' s.location = values s.location) : s.Holds w values' :=
  ⟨h.1, fun hl hs => (hv hl).trans (h.2 hl hs)⟩

theorem Holds.refreshed (h : s.Holds w values)
    (hv : 0 ≤ s.location → values' s.location = some (w.uniformState s.uniform).value) :
    (s.refreshed w).Holds w values' := by
  refine ⟨?_, fun hl _ => ?_⟩
  · rw [uniform_refreshed]
    unfold UniformSlot.refreshed
    split
    · exact UInt64.le_refl _
    · exact h.1
  · simp only [uniform_refreshed, location_refreshed] at hl ⊢
    exact hv hl

end UniformSlot

theorem run_sendUniforms (w : Workspace) (ss : List UniformSlot) (g : Rig) :
    (sendUniforms w ss).run g = (ss.map (·.refreshed w), g.issued (ss.flatMap (·.sends w))) := by
  induction ss generalizing g with
  | nil => rw [flatMap_nil, Rig.issued_nil]; rfl
  | cons s ss ih =>
    unfold sendUniforms
    by_cases hs : 0 ≤ s.location ∧ (w.uniformState s.uniform).version ≠ s.sent
    · have hn : s.news? w = some (w.uniformState s.uniform).value := if_pos hs
      simp only [if_pos hs, run_bind, run_issue, run_pure, ih, map_cons, flatMap_cons,
        UniformSlot.sends, UniformSlot.refreshed, hn, Rig.issued_issued, Option.isSome_some, if_true,
        Option.map_some, Option.toList_some]
    · have hn : s.news? w = none := if_neg hs
      simp only [if_neg hs, run_bind, run_pure, ih, map_cons, flatMap_cons,
        UniformSlot.sends, UniformSlot.refreshed, hn, nil_append, Option.isSome_none,
        Bool.false_eq_true, if_false, Option.map_none, Option.toList_none]

theorem Gpu.run_uniformSends (w : Workspace) (ss : List UniformSlot) (g : Gpu) :
    g.run (ss.flatMap (·.sends w)) =
      { g with
        uniforms := Function.update g.uniforms g.program
          (writeAll (·.location) (·.news? w) ss (g.uniforms g.program)) } := by
  induction ss generalizing g with
  | nil => simp [writeAll]
  | cons s ss ih =>
    rw [flatMap_cons, run_append, ih, writeAll, writeAll, foldl_cons]
    unfold UniformSlot.sends
    cases hn : s.news? w with
    | none => simp [write_of_none hn]
    | some v => simp [step, write, hn]

namespace AttributeSlot

variable (w : Workspace) (s : AttributeSlot)

/-- The data to upload, if it is not the last that was uploaded. -/
def news? : Option (List Float32) :=
  if (w.attributeState s.source).version ≠ s.sent then some (w.attributeState s.source).data
  else none

def pointer : Pointer := ⟨s.buffer, s.source.size, if s.source.instanced then 1 else 0⟩

def pointer? : Option Pointer := if 0 ≤ s.location then some s.pointer else none

def sends : List DeviceCall :=
  ((s.news? w).map (.arrayBufferData s.buffer)).toList ++
    (s.pointer?.map fun p => .bindAttribute s.location p.buffer p.size p.divisor).toList

def refreshed : AttributeSlot :=
  if (s.news? w).isSome then { s with sent := (w.attributeState s.source).version } else s

/-- The slot is not newer than what is staged, and where it is up to date its buffer holds what is
staged. -/
def Holds (buffers : Handle → Option (List Float32)) : Prop :=
  s.sent ≤ (w.attributeState s.source).version ∧
    (s.sent = (w.attributeState s.source).version →
      buffers s.buffer = some (w.attributeState s.source).data)

@[simp] theorem source_refreshed : (s.refreshed w).source = s.source := by
  unfold refreshed
  split <;> rfl

@[simp] theorem location_refreshed : (s.refreshed w).location = s.location := by
  unfold refreshed
  split <;> rfl

@[simp] theorem buffer_refreshed : (s.refreshed w).buffer = s.buffer := by
  unfold refreshed
  split <;> rfl

theorem sent_refreshed {w : Workspace} {s : AttributeSlot} :
    (s.refreshed w).sent = (w.attributeState s.source).version := by
  unfold refreshed news?
  by_cases hv : (w.attributeState s.source).version = s.sent <;> simp [hv]

variable {w s} {buffers buffers' : Handle → Option (List Float32)}

theorem pointer?_of_neg (h : ¬ 0 ≤ s.location) : s.pointer? = none := if_neg h

theorem Holds.unsent (h : 0 < (w.attributeState s.source).version) (hs : s.sent = 0) :
    s.Holds w buffers :=
  ⟨hs ▸ UInt64.le_of_lt h, fun he => absurd (hs.symm.trans he) (UInt64.ne_of_lt h)⟩

theorem Holds.or_news (h : s.Holds w buffers) :
    (s.news? w).or (buffers s.buffer) = some (w.attributeState s.source).data := by
  unfold news?
  split
  · rfl
  · next hs => exact h.2 (by by_contra hne; exact hs (Ne.symm hne))

theorem Holds.congr (h : s.Holds w buffers) (hb : buffers' s.buffer = buffers s.buffer) :
    s.Holds w buffers' :=
  ⟨h.1, fun hs => hb.trans (h.2 hs)⟩

theorem Holds.refreshed (h : s.Holds w buffers)
    (hb : buffers' s.buffer = some (w.attributeState s.source).data) :
    (s.refreshed w).Holds w buffers' := by
  refine ⟨?_, fun _ => by simpa using hb⟩
  rw [source_refreshed]
  unfold AttributeSlot.refreshed
  split
  · exact UInt64.le_refl _
  · exact h.1

end AttributeSlot

theorem run_sendAttributes (w : Workspace) (ss : List AttributeSlot) (g : Rig) :
    (sendAttributes w ss).run g = (ss.map (·.refreshed w), g.issued (ss.flatMap (·.sends w))) := by
  induction ss generalizing g with
  | nil => rw [flatMap_nil, Rig.issued_nil]; rfl
  | cons s ss ih =>
    unfold sendAttributes
    by_cases hs : (w.attributeState s.source).version = s.sent <;> by_cases hl : 0 ≤ s.location <;>
      simp only [hs, hl, ne_eq, not_true, not_false_eq_true, if_true, if_false, run_bind, run_issue,
        run_pure, ih, map_cons, flatMap_cons, AttributeSlot.sends, AttributeSlot.refreshed,
        AttributeSlot.news?, AttributeSlot.pointer?, AttributeSlot.pointer, Option.map_some,
        Option.map_none, Option.toList_some, Option.toList_none, Option.isSome_some,
        Option.isSome_none, Bool.false_eq_true, Rig.issued_issued, nil_append, append_nil,
        append_assoc]

theorem Gpu.run_attributeSends (w : Workspace) (ss : List AttributeSlot) (g : Gpu) :
    g.run (ss.flatMap (·.sends w)) =
      { g with
        buffers := writeAll (·.buffer) (·.news? w) ss g.buffers
        attributes := writeAll (·.location) (·.pointer?) ss g.attributes } := by
  induction ss generalizing g with
  | nil => rfl
  | cons s ss ih =>
    rw [flatMap_cons, run_append, ih]
    unfold AttributeSlot.sends writeAll
    cases hn : s.news? w <;> cases hp : s.pointer? <;>
      simp [step, write, hn, hp]

end ShaderGraph
