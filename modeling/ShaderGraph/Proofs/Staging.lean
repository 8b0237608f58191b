import ShaderGraph.Proofs.Drawing
import ShaderGraph.Proofs.Mounting

/-!
# What is drawn is what is staged

Callers of a mounted renderer stage values and render frames in any order. Every staging raises
the version of one resource, so a slot that was sent an older version is sent again before the next
draw; this needs that versions do not come round again (`Workspace.Room`). At every draw the device
then holds what is staged at that moment.
-/

namespace ShaderGraph

open Render List

variable {u : Uniform} {a : Attribute} {t : Texture} {w w' : Workspace} {log : List DeviceCall} {g : Rig}

/-! ## Versions -/

/-- What a value can be staged for. -/
inductive Resource where
  | uniform (id : NodeId)
  /-- The data of an attribute. -/
  | buffer (id : NodeId)
  | texture (id : NodeId)
deriving DecidableEq

theorem lookup_filter_ne {α : Type} (l : List (NodeId × α)) {i j : NodeId} (h : j ≠ i) :
    (l.filter (·.1 ≠ i)).lookup j = l.lookup j := by
  induction l with
  | nil => rfl
  | cons e l ih =>
    by_cases he : e.1 = i
    · have hj : (j == e.1) = false := beq_eq_false_iff_ne.mpr (he ▸ h)
      rw [filter_cons_of_neg (by simpa using he), ih, lookup_cons, hj]
    · rw [filter_cons_of_pos (by simpa using he), lookup_cons, lookup_cons, ih]

theorem lookup_put {α : Type} (l : List (NodeId × α)) (i j : NodeId) (a : α) :
    ((i, a) :: l.filter (·.1 ≠ i)).lookup j = if j = i then some a else l.lookup j := by
  split
  · next h => rw [h, lookup_cons_self]
  · next h => rw [lookup_cons, beq_eq_false_iff_ne.mpr h, lookup_filter_ne l h]

namespace Workspace

variable {r : Resource}

def version (w : Workspace) : Resource → UInt64
  | .uniform i => ((w.uniforms.lookup i).getD { value := [] }).version
  | .buffer i => ((w.attributes.lookup i).getD { data := [] }).version
  | .texture i => ((w.textures.lookup i).getD {}).version

theorem uniformState_set (w : Workspace) (u v : Uniform) (s : UniformState) :
    (w.setUniform u s).uniformState v = if v.id = u.id then s else w.uniformState v := by
  unfold uniformState setUniform
  rw [lookup_put]
  split <;> rfl

theorem attributeState_set (w : Workspace) (a b : Attribute) (s : AttributeState) :
    (w.setAttribute a s).attributeState b = if b.id = a.id then s else w.attributeState b := by
  unfold attributeState setAttribute
  rw [lookup_put]
  split <;> rfl

theorem textureState_set (w : Workspace) (t v : Texture) (s : TextureState) :
    (w.setTexture t s).textureState v = if v.id = t.id then s else w.textureState v := by
  unfold textureState setTexture
  rw [lookup_put]
  split <;> rfl

/-- A value is staged for a resource, under the next version. -/
inductive Stages (w : Workspace) : Resource → Workspace → Prop where
  | ofUniform (u : Uniform) (s : UniformState) (next : s.version = w.version (.uniform u.id) + 1) :
      Stages w (.uniform u.id) (w.setUniform u s)
  | ofAttribute (a : Attribute) (s : AttributeState)
      (next : s.version = w.version (.buffer a.id) + 1) :
      Stages w (.buffer a.id) (w.setAttribute a s)
  | ofTexture (t : Texture) (s : TextureState) (next : s.version = w.version (.texture t.id) + 1) :
      Stages w (.texture t.id) (w.setTexture t s)

namespace Stages
variable (h : w.Stages r w')
include h

theorem version_self : w'.version r = w.version r + 1 := by
  cases h <;>
    simpa [Workspace.version, setUniform, setAttribute, setTexture]

theorem version_of_ne {q : Resource} (hq : q ≠ r) : w'.version q = w.version q := by
  cases h with
  | ofUniform u s =>
    cases q with
    | uniform i =>
      have hi : i ≠ u.id := fun heq => hq (congrArg _ heq)
      simp only [Workspace.version, setUniform, lookup_put, if_neg hi]
    | _ => rfl
  | ofAttribute a s =>
    cases q with
    | buffer i =>
      have hi : i ≠ a.id := fun heq => hq (congrArg _ heq)
      simp only [Workspace.version, setAttribute, lookup_put, if_neg hi]
    | _ => rfl
  | ofTexture t s =>
    cases q with
    | texture i =>
      have hi : i ≠ t.id := fun heq => hq (congrArg _ heq)
      simp only [Workspace.version, setTexture, lookup_put, if_neg hi]
    | _ => rfl

theorem jobs : w'.jobs = w.jobs := by
  cases h <;> rfl

theorem uniformState (hr : r ≠ .uniform u.id) : w'.uniformState u = w.uniformState u := by
  cases h with
  | ofUniform v s =>
    rw [uniformState_set, if_neg fun heq => hr (congrArg _ heq.symm)]
  | _ => rfl

theorem attributeState (hr : r ≠ .buffer a.id) : w'.attributeState a = w.attributeState a := by
  cases h with
  | ofAttribute b s =>
    rw [attributeState_set, if_neg fun heq => hr (congrArg _ heq.symm)]
  | _ => rfl

theorem textureState (hr : r ≠ .texture t.id) : w'.textureState t = w.textureState t := by
  cases h with
  | ofTexture v s =>
    rw [textureState_set, if_neg fun heq => hr (congrArg _ heq.symm)]
  | _ => rfl

end Stages

end Workspace

theorem Uniform.stages_of_stage {values : List Float32} (h : u.stage values w = .ok w') :
    w.Stages (.uniform u.id) w' := by
  unfold stage at h
  split at h <;> cases h
  exact .ofUniform u _ rfl

theorem Attribute.stages_of_stage {data : List Float32} (h : a.stage data w = .ok w') :
    w.Stages (.buffer a.id) w' := by
  unfold stage at h
  split at h <;> cases h
  exact .ofAttribute a _ rfl

theorem Texture.stages_of_stage {width height : Int} {rgba : Option (List UInt8)}
    (h : t.stage width height rgba w = .ok w') : w.Stages (.texture t.id) w' := by
  unfold stage at h
  split_ifs at h
  cases rgba with
  | none =>
    dsimp only at h
    split at h <;> cases h
    exact .ofTexture t _ rfl
  | some data =>
    dsimp only at h
    split at h <;> cases h
    exact .ofTexture t _ rfl

/-- What is staged is the same or has a later version. -/
structure Workspace.Newer (w w' : Workspace) : Prop where
  jobs : w'.jobs = w.jobs
  uniforms : ∀ u, w'.uniformState u = w.uniformState u ∨
    (w.uniformState u).version < (w'.uniformState u).version
  attributes : ∀ a, w'.attributeState a = w.attributeState a ∨
    (w.attributeState a).version < (w'.attributeState a).version
  textures : ∀ t, w'.textureState t = w.textureState t ∨
    (w.textureState t).version < (w'.textureState t).version

theorem Workspace.Newer.refl (w : Workspace) : w.Newer w :=
  ⟨rfl, fun _ => .inl rfl, fun _ => .inl rfl, fun _ => .inl rfl⟩

theorem Workspace.Stages.newer {r : Resource} (h : w.Stages r w') (hlt : w.version r < w'.version r) :
    w.Newer w' where
  jobs := h.jobs
  uniforms u := by
    by_cases hr : r = .uniform u.id
    · subst hr
      exact .inr hlt
    · exact .inl (h.uniformState hr)
  attributes a := by
    by_cases hr : r = .buffer a.id
    · subst hr
      exact .inr hlt
    · exact .inl (h.attributeState hr)
  textures t := by
    by_cases hr : r = .texture t.id
    · subst hr
      exact .inr hlt
    · exact .inl (h.textureState hr)

theorem Workspace.Started.newer (h : w.Started) (hn : w.Newer w') : w'.Started where
  uniforms u := by
    rcases hn.uniforms u with heq | hlt
    · exact heq ▸ h.uniforms u
    · exact UInt64.lt_trans (h.uniforms u) hlt
  attributes a := by
    rcases hn.attributes a with heq | hlt
    · exact heq ▸ h.attributes a
    · exact UInt64.lt_trans (h.attributes a) hlt

theorem UniformSlot.Holds.newer {s : UniformSlot} {values : Int → Option (List Float32)} (h : s.Holds w values)
    (hn : w.Newer w') : s.Holds w' values := by
  unfold Holds
  rcases hn.uniforms s.uniform with heq | hlt
  · rw [heq]
    exact h
  · have hlt := UInt64.lt_of_le_of_lt h.1 hlt
    exact ⟨UInt64.le_of_lt hlt, fun _ heq => absurd heq (UInt64.ne_of_lt hlt)⟩

theorem AttributeSlot.Holds.newer {s : AttributeSlot} {buffers : Handle → Option (List Float32)}
    (h : s.Holds w buffers) (hn : w.Newer w') : s.Holds w' buffers := by
  unfold Holds
  rcases hn.attributes s.source with heq | hlt
  · rw [heq]
    exact h
  · have hlt := UInt64.lt_of_le_of_lt h.1 hlt
    exact ⟨UInt64.le_of_lt hlt, fun heq => absurd heq (UInt64.ne_of_lt hlt)⟩

theorem PlainTexture.Holds.newer {p : PlainTexture} {images : Handle → Option Image} (h : p.Holds w images)
    (hn : w.Newer w') : p.Holds w' images := by
  unfold Holds
  rcases hn.textures p.texture with heq | hlt
  · rw [heq]
    exact h
  · have hlt := UInt64.lt_of_le_of_lt h.1 hlt
    exact ⟨UInt64.le_of_lt hlt, fun heq => absurd heq (UInt64.ne_of_lt hlt)⟩

theorem MountedJob.Ready.newer {job : Job} {m : MountedJob} (h : m.Ready w log g job) (hn : w.Newer w') :
    m.Ready w' log g job where
  known := hn.jobs ▸ h.known
  wired := h.wired
  handles := h.handles
  shows := ⟨fun s hs => (h.shows.uniforms s hs).newer hn, h.shows.samplers, h.shows.resolution⟩
  attributes s hs := (h.attributes s hs).newer hn
  textures := h.textures

theorem Rig.Mounted.newer (h : g.Mounted w log) (hn : w.Newer w') : g.Mounted w' log where
  stored := ⟨h.stored.next, fun p hp => ⟨(h.stored.plains p hp).1, (h.stored.plains p hp).2.newer hn⟩,
    h.stored.apart, h.stored.targets⟩
  disposed := h.disposed
  handles := h.handles
  ready m hm := (h.ready m hm).imp fun _ hj => hj.newer hn

/-! ## Callers -/

/-- What a caller of a mounted renderer does. -/
inductive Action where
  | stageUniform (u : Uniform) (values : List Float32)
  | resendUniform (u : Uniform)
  | stageAttribute (a : Attribute) (data : List Float32)
  | stageTexture (t : Texture) (width height : Int) (rgba : Option (List UInt8))
  | render (width height : Int)

namespace Action

def staged? (w : Workspace) : Action → Option (Resource × Workspace)
  | stageUniform u values => (u.stage values w).toOption.map (.uniform u.id, ·)
  | resendUniform u => some (.uniform u.id, u.resend w)
  | stageAttribute a data => (a.stage data w).toOption.map (.buffer a.id, ·)
  | stageTexture t width height rgba => (t.stage width height rgba w).toOption.map (.texture t.id, ·)
  | render .. => none

def workspace (w : Workspace) (a : Action) : Workspace := ((a.staged? w).map (·.2)).getD w

def rig (w : Workspace) (g : Rig) : Action → Rig
  | render width height => ((frame w width height).run g).2
  | _ => g

def runAll : List Action → Workspace → Rig → Workspace × Rig
  | [], w, g => (w, g)
  | a :: as, w, g => runAll as (a.workspace w) (a.rig w g)

/-- How often actions stage a value for a resource. -/
def stagings (r : Resource) : List Action → Workspace → Nat
  | [], _ => 0
  | a :: as, w => (if (a.staged? w).map (·.1) = some r then 1 else 0) + stagings r as (a.workspace w)

theorem stages {r : Resource} {a : Action} (h : a.staged? w = some (r, w')) : w.Stages r w' := by
  have hok : ∀ {ε : Type} {x : Except ε Workspace} {q : Resource},
      x.toOption.map (q, ·) = some (r, w') → q = r ∧ x = .ok w' := by
    rintro ε (_ | _) q hx <;> cases hx
    exact ⟨rfl, rfl⟩
  cases a with
  | stageUniform u values =>
    obtain ⟨rfl, hs⟩ := hok h
    exact u.stages_of_stage hs
  | resendUniform u =>
    cases h
    exact .ofUniform u _ rfl
  | stageAttribute a data =>
    obtain ⟨rfl, hs⟩ := hok h
    exact a.stages_of_stage hs
  | stageTexture t width height rgba =>
    obtain ⟨rfl, hs⟩ := hok h
    exact t.stages_of_stage hs
  | render => cases h

end Action

/-- No version comes round to one that was used before: the stagings that a version counts and those
to come are fewer than versions there are. -/
structure Workspace.Room (w : Workspace) (as : List Action) : Prop where
  started : w.Started
  room : ∀ r, (w.version r).toNat + Action.stagings r as w < UInt64.size

theorem Workspace.Stages.toNat_version {r : Resource} (h : w.Stages r w')
    (hr : (w.version r).toNat + 1 < UInt64.size) : (w'.version r).toNat = (w.version r).toNat + 1 := by
  rw [h.version_self, UInt64.toNat_add]
  exact Nat.mod_eq_of_lt hr

theorem Workspace.Room.step {a : Action} {as : List Action} (h : w.Room (a :: as)) :
    w.Newer (a.workspace w) ∧ (a.workspace w).Room as := by
  have hroom := h.room
  unfold Action.stagings at hroom
  unfold Action.workspace at hroom ⊢
  cases hs : a.staged? w with
  | none =>
    simp only [hs, Option.map_none, Option.getD_none] at hroom ⊢
    exact ⟨.refl w, h.started, fun r => by simpa using hroom r⟩
  | some p =>
    obtain ⟨r, w'⟩ := p
    have hst := Action.stages hs
    simp only [hs, Option.map_some, Option.getD_some, Option.some.injEq] at hroom ⊢
    have hr := hroom r
    rw [if_pos rfl] at hr
    have hnext := hst.toNat_version (by omega)
    have hlt : w.version r < w'.version r := UInt64.lt_iff_toNat_lt.mpr (by omega)
    have hnew := hst.newer hlt
    refine ⟨hnew, h.started.newer hnew, fun q => ?_⟩
    have hq := hroom q
    by_cases hqr : q = r
    · subst hqr
      rw [if_pos rfl] at hq
      omega
    · rw [if_neg (Ne.symm hqr)] at hq
      rw [hst.version_of_ne hqr]
      omega

/-- The numbers and programs of the mounted jobs, which never change. -/
def Renderer.jobPrograms (r : Renderer) : List (Nat × Handle) := r.jobs.map fun m => (m.job, m.program)

theorem Rig.Mounted.act (h : g.Mounted w log) (hsep : Separates log) (hids : ∀ job ∈ w.jobs, job.Identified)
    {a : Action} (hn : w.Newer (a.workspace w)) :
    (a.rig w g).Mounted (a.workspace w) log ∧ (a.rig w g).renderer.jobPrograms = g.renderer.jobPrograms := by
  cases a with
  | render width height =>
    change ((Render.frame w width height).run g).2.Mounted w log ∧ _
    by_cases hpos : 0 < width ∧ 0 < height
    · obtain ⟨h', hjobs, -⟩ := h.frame hsep hids hpos.1 hpos.2
      refine ⟨h', ?_⟩
      change Renderer.jobPrograms ((Render.frame w width height).run g).2.renderer = _
      rw [Renderer.jobPrograms, hjobs, map_map]
      rfl
    · have hrun := run_frame_of_empty (w := w) hpos g
      rw [Action.rig, hrun]
      exact ⟨h, rfl⟩
  | stageUniform | resendUniform | stageAttribute | stageTexture => exact ⟨h.newer hn, rfl⟩

/-- Callers leave the renderer mounted, whatever they do. -/
theorem Rig.Mounted.runAll {as : List Action} (h : g.Mounted w log) (hsep : Separates log)
    (hids : ∀ job ∈ w.jobs, job.Identified) (hroom : w.Room as) :
    (Action.runAll as w g).2.Mounted (Action.runAll as w g).1 log ∧
      (Action.runAll as w g).1.jobs = w.jobs ∧
      (Action.runAll as w g).2.renderer.jobPrograms = g.renderer.jobPrograms := by
  induction as generalizing w g with
  | nil => exact ⟨h, rfl, rfl⟩
  | cons a as ih =>
    obtain ⟨hn, hroom⟩ := hroom.step
    obtain ⟨h, hprograms⟩ := h.act hsep hids hn
    obtain ⟨h, hjobs, hprograms'⟩ := ih h (hn.jobs ▸ hids) hroom
    exact ⟨h, hjobs.trans hn.jobs, hprograms'.trans hprograms⟩

end ShaderGraph
