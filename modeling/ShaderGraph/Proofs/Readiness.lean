import ShaderGraph.Proofs.Gpu
import ShaderGraph.Proofs.Names

/-!
# Jobs that are ready

What a renderer knows of its device once its jobs are linked, and keeps knowing from then on. A
mounted job is `Ready` when its slots fit the locations that the device answered and whatever a
slot says was sent is what the device holds. `Rig.Stored` says the same of the textures that all
jobs share.
-/

namespace ShaderGraph

open Render List

variable {log log' : List DeviceCall} {l : Int} {s : UniformSlot} {t : Texture} {w : Workspace} {g g' : Rig}
  {r : Renderer} {job : Job} {m : MountedJob}

/-! ## Locations -/

/-- The device gives different names of a program different locations. -/
structure Separates (log : List DeviceCall) : Prop where
  uniforms : ∀ {p : Handle} {n n' : String} {l : Int}, .uniformLocation p n l ∈ log →
    .uniformLocation p n' l ∈ log → 0 ≤ l → n = n'
  attributes : ∀ {p : Handle} {n n' : String} {l : Int}, .attributeLocation p n l ∈ log →
    .attributeLocation p n' l ∈ log → 0 ≤ l → n = n'

theorem Separates.mono (h : Separates log') (hl : log <+: log') : Separates log :=
  ⟨fun hn hn' => h.uniforms (hl.subset hn) (hl.subset hn'),
    fun hn hn' => h.attributes (hl.subset hn) (hl.subset hn')⟩

/-- What a device answered about a name of a program. -/
structure Answer where
  isAttribute : Bool
  program : Handle
  name : String
  location : Int

def DeviceCall.answer? : DeviceCall → Option Answer
  | .uniformLocation p n l => some ⟨false, p, n, l⟩
  | .attributeLocation p n l => some ⟨true, p, n, l⟩
  | _ => none

theorem DeviceCall.answer?_eq {c : DeviceCall} {p : Handle} {n : String} {isAttribute : Bool} :
    c.answer? = some ⟨isAttribute, p, n, l⟩ ↔
      c = if isAttribute then .attributeLocation p n l else .uniformLocation p n l := by
  cases c <;> cases isAttribute <;> simp [answer?]

theorem separates_iff : Separates log ↔
    ∀ a ∈ log.filterMap (·.answer?), ∀ b ∈ log.filterMap (·.answer?), a.isAttribute = b.isAttribute →
      a.program = b.program → a.location = b.location → 0 ≤ a.location → a.name = b.name := by
  have hmem {p : Handle} {n : String} {l : Int} {isAttribute : Bool} :
      ⟨isAttribute, p, n, l⟩ ∈ log.filterMap (·.answer?) ↔
        (if isAttribute then .attributeLocation p n l else .uniformLocation p n l) ∈ log := by
    simp [DeviceCall.answer?_eq]
  constructor
  · rintro h ⟨k, p, n, l⟩ ha ⟨-, -, n', -⟩ hb rfl rfl rfl h0
    have ha := hmem.mp ha
    have hb := hmem.mp hb
    cases k with
    | true => exact h.attributes ha hb h0
    | false => exact h.uniforms ha hb h0
  · intro h
    refine ⟨fun {p n n' l} hn hn' => ?_, fun {p n n' l} hn hn' => ?_⟩
    · exact h ⟨false, p, n, l⟩ (hmem.mpr hn) ⟨false, p, n', l⟩ (hmem.mpr hn') rfl rfl rfl
    · exact h ⟨true, p, n, l⟩ (hmem.mpr hn) ⟨true, p, n', l⟩ (hmem.mpr hn') rfl rfl rfl

instance (log : List DeviceCall) : Decidable (Separates log) := decidable_of_iff' _ separates_iff

/-- No two resources of the job have one id: a resource takes a new id when it is made. A sampler has
the id of its texture. -/
structure Job.Identified (j : Job) : Prop where
  uniforms : ((j.uniforms.filter (·.type ≠ .sampler2D)).map (·.id) ++ j.textures.map (·.id)).Nodup
  attributes : (j.attributes.map (·.id)).Nodup

theorem uniformName_ne_resolution (i : NodeId) : uniformName i ≠ Glsl.resolutionName := by
  intro h
  have h := congrArg String.toList h
  simp [uniformName, Glsl.resolutionName] at h

theorem Attribute.name_inj {a b : Attribute} (h : a.name = b.name) : a.id = b.id := by
  have h := congrArg String.toList h
  simp only [Attribute.name, String.toList_append] at h
  exact numeral_inj (append_cancel_left h)

/-! ## Jobs -/

namespace MountedJob

/-- The objects that no other job uses. -/
def handles (m : MountedJob) : List Handle := m.program :: m.attributes.map (·.buffer)

/-- The mounted job stands for a job, with the locations that the device answered. -/
structure Wired (log : List DeviceCall) (job : Job) (m : MountedJob) : Prop where
  program : .compileProgram job.vertexSource job.fragmentSource m.program ∈ log
  resolution : .uniformLocation m.program Glsl.resolutionName m.resolution ∈ log
  uniforms : m.uniforms.map (·.uniform) = job.uniforms.filter (·.type ≠ .sampler2D)
  uniformLocations : ∀ s ∈ m.uniforms, .uniformLocation m.program s.uniform.name s.location ∈ log
  attributes : m.attributes.map (·.source) = job.attributes
  attributeLocations : ∀ s ∈ m.attributes,
    .attributeLocation m.program s.source.name s.location ∈ log
  textures : m.textures = job.textures
  target : m.target = job.feedback?

/-- What the program of the job holds, at a size of the canvas that is positive once it is known. -/
structure Shows (w : Workspace) (log : List DeviceCall) (width height : Int) (m : MountedJob)
    (values : Int → Option (List Float32)) : Prop where
  uniforms : ∀ s ∈ m.uniforms, s.Holds w values
  samplers : ∀ (i : Nat) t, m.textures[i]? = some t → ∃ l, .uniformLocation m.program t.name l ∈ log ∧
    (0 ≤ l → values l = some [Number.ofInt i])
  resolution : 0 < width → 0 ≤ m.resolution →
    values m.resolution = some [Number.ofInt width / 2, Number.ofInt height / 2]

def refreshUniforms (w : Workspace) (m : MountedJob) : MountedJob :=
  { m with uniforms := m.uniforms.map (·.refreshed w) }

def refreshAttributes (w : Workspace) (m : MountedJob) : MountedJob :=
  { m with attributes := m.attributes.map (·.refreshed w) }

variable {width height : Int} {values : Int → Option (List Float32)}

namespace Wired
variable (h : m.Wired log job)
include h

theorem mono (hl : log <+: log') : m.Wired log' job where
  program := hl.subset h.program
  resolution := hl.subset h.resolution
  uniforms := h.uniforms
  uniformLocations s hs := hl.subset (h.uniformLocations s hs)
  attributes := h.attributes
  attributeLocations s hs := hl.subset (h.attributeLocations s hs)
  textures := h.textures
  target := h.target

theorem refreshUniforms : (m.refreshUniforms w).Wired log job where
  program := h.program
  resolution := h.resolution
  uniforms := by simpa [MountedJob.refreshUniforms, Function.comp_def] using h.uniforms
  uniformLocations := by simpa [MountedJob.refreshUniforms] using h.uniformLocations
  attributes := h.attributes
  attributeLocations := h.attributeLocations
  textures := h.textures
  target := h.target

theorem refreshAttributes : (m.refreshAttributes w).Wired log job where
  program := h.program
  resolution := h.resolution
  uniforms := h.uniforms
  uniformLocations := h.uniformLocations
  attributes := by simpa [MountedJob.refreshAttributes, Function.comp_def] using h.attributes
  attributeLocations := by simpa [MountedJob.refreshAttributes] using h.attributeLocations
  textures := h.textures
  target := h.target

theorem apart (hsep : Separates log) (hid : job.Identified) :
    m.uniforms.Pairwise fun s s' => 0 ≤ s.location → s.location ≠ s'.location := by
  have hids : (m.uniforms.map (·.uniform)).Pairwise fun u u' => u.id ≠ u'.id := by
    rw [h.uniforms, ← pairwise_map (f := Uniform.id) (R := (· ≠ ·))]
    exact (nodup_append.mp hid.uniforms).1
  refine (pairwise_map.mp hids).imp_of_mem fun {s s'} hs hs' hne hl heq => hne ?_
  have hs' := h.uniformLocations s' hs'
  rw [← heq] at hs'
  exact uniformName_inj (hsep.uniforms (h.uniformLocations s hs) hs' hl)

theorem ne_sampler (hsep : Separates log) (hid : job.Identified) (hs : s ∈ m.uniforms) (ht : t ∈ m.textures)
    (hl : .uniformLocation m.program t.name l ∈ log) (h0 : 0 ≤ l) : s.location ≠ l := by
  rintro rfl
  have hname := uniformName_inj (hsep.uniforms (h.uniformLocations s hs) hl h0)
  refine (nodup_append.mp hid.uniforms).2.2 s.uniform.id ?_ t.id ?_ hname
  · exact mem_map_of_mem (h.uniforms ▸ mem_map_of_mem hs)
  · exact mem_map_of_mem (h.textures ▸ ht)

theorem ne_resolution (hsep : Separates log) (hs : s ∈ m.uniforms) (h0 : 0 ≤ m.resolution) :
    s.location ≠ m.resolution := by
  intro heq
  have hr := h.resolution
  rw [← heq] at h0 hr
  exact uniformName_ne_resolution _ (hsep.uniforms (h.uniformLocations s hs) hr h0)

theorem attributes_apart (hsep : Separates log) (hid : job.Identified) :
    m.attributes.Pairwise fun s s' => 0 ≤ s.location → s.location ≠ s'.location := by
  have hids : (m.attributes.map (·.source)).Pairwise fun a a' => a.id ≠ a'.id := by
    rw [h.attributes, ← pairwise_map (f := Attribute.id) (R := (· ≠ ·))]
    exact hid.attributes
  refine (pairwise_map.mp hids).imp_of_mem fun {s s'} hs hs' hne hl heq => hne ?_
  have hs' := h.attributeLocations s' hs'
  rw [← heq] at hs'
  exact Attribute.name_inj (hsep.attributes (h.attributeLocations s hs) hs' hl)

end Wired

theorem Shows.mono (h : m.Shows w log width height values) (hl : log <+: log') :
    m.Shows w log' width height values where
  uniforms := h.uniforms
  samplers i t ht := (h.samplers i t ht).imp fun _ hv => ⟨hl.subset hv.1, hv.2⟩
  resolution := h.resolution

theorem Shows.sent (h : m.Shows w log width height values) (hw : m.Wired log job) (hsep : Separates log)
    (hid : job.Identified) (hs : s ∈ m.uniforms) (hl : 0 ≤ s.location) :
    writeAll (·.location) (·.news? w) m.uniforms values s.location = some (w.uniformState s.uniform).value :=
  (writeAll_key (hw.apart hsep hid) (fun _ => UniformSlot.news?_of_neg) hs hl).trans
    ((h.uniforms s hs).or_news hl)

theorem Shows.refreshUniforms (h : m.Shows w log width height values) (hw : m.Wired log job)
    (hsep : Separates log) (hid : job.Identified) :
    (m.refreshUniforms w).Shows w log width height
      (writeAll (·.location) (·.news? w) m.uniforms values) where
  uniforms := by
    intro s' hs'
    obtain ⟨s, hs, rfl⟩ := mem_map.mp hs'
    exact (h.uniforms s hs).refreshed (h.sent hw hsep hid hs)
  samplers i t ht := by
    obtain ⟨l, hl, hv⟩ := h.samplers i t ht
    refine ⟨l, hl, fun h0 => (writeAll_of_none fun s hs heq => ?_).trans (hv h0)⟩
    exact absurd heq (hw.ne_sampler hsep hid hs (mem_of_getElem? ht) hl h0)
  resolution hpos h0 :=
    (writeAll_of_none fun _ hs heq => absurd heq (hw.ne_resolution hsep hs h0)).trans
      (h.resolution hpos h0)

end MountedJob

/-! ## Textures -/

/-- An image with the size and the pixels that are staged. -/
structure Image.Shows (image : Image) (s : TextureState) : Prop where
  width : image.width = s.width
  height : image.height = s.height
  pixels : image.pixels.getD [] = s.data

theorem Renderer.getD_upload (r : Renderer) (data : List UInt8) : (r.upload data).getD [] = data := by
  unfold upload
  split
  · next h => simpa using (Bool.and_eq_true_iff.mp h).1
  · rfl

/-- The texture is not newer than what is staged, and where it is up to date its image is what is
staged. -/
def PlainTexture.Holds (w : Workspace) (images : Handle → Option Image) (p : PlainTexture) : Prop :=
  p.sent ≤ (w.textureState p.texture).version ∧
    (p.sent = (w.textureState p.texture).version →
      ∃ image, images p.handle = some image ∧ image.Shows (w.textureState p.texture))

theorem PlainTexture.Holds.congr {images images' : Handle → Option Image} {p : PlainTexture}
    (h : p.Holds w images) (hi : images' p.handle = images p.handle) : p.Holds w images' :=
  ⟨h.1, fun hs => hi ▸ h.2 hs⟩

/-- A buffer that nothing but drawing changes. -/
structure TargetBuffer.Sound (g : Rig) (b : TargetBuffer) : Prop where
  texture : b.texture < g.device.nextHandle
  framebuffer : b.framebuffer < g.device.nextHandle
  attached : g.gpu.attached b.framebuffer = some b.texture
  plains : ∀ p ∈ g.renderer.plains, p.handle ≠ b.texture

/-- The textures that jobs share are what they are taken for. -/
structure Rig.Stored (w : Workspace) (g : Rig) : Prop where
  next : 0 < g.device.nextHandle
  plains : ∀ p ∈ g.renderer.plains, p.handle < g.device.nextHandle ∧ p.Holds w g.gpu.images
  apart : ∀ p ∈ g.renderer.plains, ∀ q ∈ g.renderer.plains, p.handle = q.handle → p.texture = q.texture
  targets : ∀ p ∈ g.renderer.pairs, p.first.Sound g ∧ p.second.Sound g

theorem TargetBuffer.Sound.keep {b : TargetBuffer} (h : b.Sound g) (hp : g'.renderer.plains = g.renderer.plains)
    (hn : g.device.nextHandle ≤ g'.device.nextHandle)
    (ha : ∀ h < g.device.nextHandle, g'.gpu.attached h = g.gpu.attached h) : b.Sound g' where
  texture := Nat.lt_of_lt_of_le h.texture hn
  framebuffer := Nat.lt_of_lt_of_le h.framebuffer hn
  attached := (ha _ h.framebuffer).trans h.attached
  plains := hp ▸ h.plains

theorem Rig.Stored.keep (h : g.Stored w) (hp : g'.renderer.plains = g.renderer.plains)
    (hq : g'.renderer.pairs = g.renderer.pairs) (hn : g.device.nextHandle ≤ g'.device.nextHandle)
    (hi : ∀ p ∈ g.renderer.plains, g'.gpu.images p.handle = g.gpu.images p.handle)
    (ha : ∀ h < g.device.nextHandle, g'.gpu.attached h = g.gpu.attached h) : g'.Stored w where
  next := Nat.lt_of_lt_of_le h.next hn
  plains p hmem := by
    rw [hp] at hmem
    exact ⟨Nat.lt_of_lt_of_le (h.plains p hmem).1 hn, (h.plains p hmem).2.congr (hi p hmem)⟩
  apart := hp ▸ h.apart
  targets p hmem := by
    rw [hq] at hmem
    exact ⟨(h.targets p hmem).1.keep hp hn ha, (h.targets p hmem).2.keep hp hn ha⟩

/-- The renderer has made the texture. -/
structure Renderer.Has (r : Renderer) (t : Texture) : Prop where
  pair : t.feedback = true → ∃ p ∈ r.pairs, p.texture = t
  plain : t.feedback = false → ∃ p ∈ r.plains, p.texture = t

theorem Renderer.Has.mono {r' : Renderer} (h : r.Has t) (hp : r.plains <+: r'.plains)
    (hq : r.pairs <+: r'.pairs) : r'.Has t where
  pair hf := (h.pair hf).imp fun _ hm => ⟨hq.subset hm.1, hm.2⟩
  plain hf := (h.plain hf).imp fun _ hm => ⟨hp.subset hm.1, hm.2⟩

theorem Renderer.pair?_isSome : (r.pair? t).isSome ↔ ∃ p ∈ r.pairs, p.texture = t := by
  simp [pair?]

theorem Renderer.plain?_isSome : (r.plain? t).isSome ↔ ∃ p ∈ r.plains, p.texture = t := by
  simp [plain?]

/-- The job is linked, its slots tell what the device holds and its textures are made. -/
structure MountedJob.Ready (w : Workspace) (log : List DeviceCall) (g : Rig) (job : Job)
    (m : MountedJob) : Prop where
  known : w.jobs[m.job]? = some job
  wired : m.Wired log job
  handles : ∀ h ∈ m.handles, h < g.device.nextHandle
  shows : m.Shows w log g.renderer.width g.renderer.height (g.gpu.uniforms m.program)
  attributes : ∀ s ∈ m.attributes, s.Holds w g.gpu.buffers
  textures : ∀ t ∈ m.textures, g.renderer.Has t

namespace MountedJob.Ready

theorem mono (h : m.Ready w log g job) (hl : log <+: log') : m.Ready w log' g job :=
  ⟨h.known, h.wired.mono hl, h.handles, h.shows.mono hl, h.attributes, h.textures⟩

theorem keep (h : m.Ready w log g job) (hn : g.device.nextHandle ≤ g'.device.nextHandle)
    (hw : g'.renderer.width = g.renderer.width) (hh : g'.renderer.height = g.renderer.height)
    (hu : g'.gpu.uniforms m.program = g.gpu.uniforms m.program)
    (hb : ∀ s ∈ m.attributes, g'.gpu.buffers s.buffer = g.gpu.buffers s.buffer)
    (ht : ∀ t, g.renderer.Has t → g'.renderer.Has t) : m.Ready w log g' job where
  known := h.known
  wired := h.wired
  handles i hi := Nat.lt_of_lt_of_le (h.handles i hi) hn
  shows := by
    rw [hw, hh, hu]
    exact h.shows
  attributes s hs := (h.attributes s hs).congr (hb s hs)
  textures t htm := ht t (h.textures t htm)

theorem sendUniforms (h : m.Ready w log g job) (hsep : Separates log) (hid : job.Identified)
    (hp : g.gpu.program = m.program) :
    (m.refreshUniforms w).Ready w log (g.issued (m.uniforms.flatMap (·.sends w))) job := by
  have hgpu : (g.issued (m.uniforms.flatMap (·.sends w))).gpu = _ :=
    (Rig.gpu_issued ..).trans (Gpu.run_uniformSends ..)
  have hu : (g.issued (m.uniforms.flatMap (·.sends w))).gpu.uniforms m.program =
      writeAll (·.location) (·.news? w) m.uniforms (g.gpu.uniforms m.program) := by
    rw [hgpu, hp]
    exact Function.update_self ..
  exact
    { known := h.known
      wired := h.wired.refreshUniforms
      handles := h.handles
      shows := by
        rw [show (m.refreshUniforms w).program = m.program from rfl, hu]
        exact h.shows.refreshUniforms h.wired hsep hid
      attributes := by
        rw [hgpu]
        exact h.attributes
      textures := h.textures }

end MountedJob.Ready

end ShaderGraph
