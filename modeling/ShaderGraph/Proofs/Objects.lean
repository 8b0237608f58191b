import ShaderGraph.Proofs.Gpu

/-!
# Device objects

What calls make and delete. `Rig.Makes` says what goes on between two rigs while a renderer is in use:
objects are made under new handles, each is put on one of the renderer's lists, and nothing is deleted.
`Rig.Ticks` adds the beats, which are the calls that are made once a frame at most.
-/

namespace ShaderGraph

open Render List

/-! ## Objects -/

inductive ObjectKind where
  | program
  | buffer
  | texture
  | framebuffer
deriving DecidableEq

structure DeviceObject where
  kind : ObjectKind
  handle : Handle
deriving DecidableEq

def DeviceObject.made? (kind : ObjectKind) (h : Handle) : Option DeviceObject :=
  if h = 0 then none else some ⟨kind, h⟩

namespace DeviceCall

def created? : DeviceCall → Option DeviceObject
  | .compileProgram _ _ h => DeviceObject.made? .program h
  | .createBuffer h => DeviceObject.made? .buffer h
  | .createTexture _ _ _ h => DeviceObject.made? .texture h
  | .createFramebuffer _ h => DeviceObject.made? .framebuffer h
  | _ => none

def deleted? : DeviceCall → Option DeviceObject
  | .deleteProgram h => some ⟨.program, h⟩
  | .deleteBuffer h => some ⟨.buffer, h⟩
  | .deleteTexture h => some ⟨.texture, h⟩
  | .deleteFramebuffer h => some ⟨.framebuffer, h⟩
  | _ => none

/-- A call that neither makes nor deletes an object. -/
structure Neutral (c : DeviceCall) : Prop where
  created : c.created? = none
  deleted : c.deleted? = none

/-- A call that is made once a frame at most: to the window, to the caller, or to begin what is drawn. -/
def isBeat : DeviceCall → Bool
  | .viewport .. | .newWindow .. | .openDevice | .time | .onFrame .. | .framebufferSize | .present
  | .close => true
  | _ => false

/-- Whether a call for an object has made none. -/
def failed : DeviceCall → Bool
  | .compileProgram _ _ h | .createBuffer h | .createTexture _ _ _ h | .createFramebuffer _ h => h = 0
  | _ => false

/-- A neutral call of what goes on within a frame. -/
def isInner (c : DeviceCall) : Bool := c.created?.isNone && c.deleted?.isNone && !c.isBeat && !c.failed

theorem isInner_iff {c : DeviceCall} :
    c.isInner ↔ c.created? = none ∧ c.deleted? = none ∧ c.isBeat = false ∧ c.failed = false := by
  simp [isInner, and_assoc]

end DeviceCall

def created (cs : List DeviceCall) : List DeviceObject := cs.filterMap (·.created?)

def deleted (cs : List DeviceCall) : List DeviceObject := cs.filterMap (·.deleted?)

theorem created_append (cs ds : List DeviceCall) : created (cs ++ ds) = created cs ++ created ds :=
  filterMap_append

theorem deleted_append (cs ds : List DeviceCall) : deleted (cs ++ ds) = deleted cs ++ deleted ds :=
  filterMap_append

def ofKind (k : ObjectKind) (os : List DeviceObject) : List Handle :=
  (os.filter (·.kind = k)).map (·.handle)

theorem ofKind_append (k : ObjectKind) (os ps : List DeviceObject) :
    ofKind k (os ++ ps) = ofKind k os ++ ofKind k ps := by
  simp [ofKind]

theorem count_ofKind (o : DeviceObject) (os : List DeviceObject) :
    (ofKind o.kind os).count o.handle = os.count o := by
  induction os with
  | nil => rfl
  | cons p os ih =>
    have hsplit : ofKind o.kind (p :: os) = ofKind o.kind [p] ++ ofKind o.kind os :=
      ofKind_append o.kind [p] os
    have hhead : (ofKind o.kind [p]).count o.handle = [p].count o := by
      obtain ⟨k, h⟩ := o
      obtain ⟨k', h'⟩ := p
      by_cases hk : k' = k <;> simp [ofKind, hk, count_singleton]
    rw [hsplit, count_append, ih, hhead, ← count_append]
    rfl

/-- Objects are the same, up to their order, if they are so of every kind. -/
theorem perm_of_ofKind {os ps : List DeviceObject} (h : ∀ k, ofKind k os = ofKind k ps) : os.Perm ps := by
  refine perm_iff_count.mpr fun o => ?_
  rw [← count_ofKind, h, count_ofKind]

/-- The objects on the renderer's lists. -/
def Renderer.owned (r : Renderer) : ObjectKind → List Handle
  | .program => r.programs
  | .buffer => r.buffers
  | .texture => r.textures
  | .framebuffer => r.framebuffers

/-! ## Relations along a run -/

/-- Every run leads to a related rig. -/
structure Render.Steps {α : Type} (R : Rig → Rig → Prop) (x : Render α) : Prop where
  step : ∀ g, R g (x.run g).2

/-- A relation that holds along a run if it holds along its steps. -/
structure Rig.Chained (R : Rig → Rig → Prop) : Prop where
  refl : ∀ g, R g g
  trans : ∀ {g g1 g2}, R g g1 → R g1 g2 → R g g2

namespace Rig.Chained

variable {R : Rig → Rig → Prop} {α β : Type}

theorem render_pure (hR : Chained R) (a : α) : Render.Steps R (pure a) := ⟨fun g => hR.refl g⟩

theorem render_bind (hR : Chained R) {x : Render α} {f : α → Render β} (hx : x.Steps R)
    (hf : ∀ a, (f a).Steps R) : Render.Steps R (x >>= f) :=
  ⟨fun g => hR.trans (hx.step g) ((hf _).step _)⟩

theorem render_forM (hR : Chained R) {f : α → Render Unit} (hf : ∀ a, (f a).Steps R) (xs : List α) :
    Render.Steps R (xs.forM f) := by
  induction xs with
  | nil => exact hR.render_pure _
  | cons x xs ih => exact hR.render_bind (hf x) fun _ => ih

theorem render_mapM (hR : Chained R) {f : α → Render β} (hf : ∀ a, (f a).Steps R) (xs : List α) :
    Render.Steps R (xs.mapM f) := by
  induction xs with
  | nil => exact hR.render_pure _
  | cons x xs ih =>
    rw [mapM_cons]
    exact hR.render_bind (hf x) fun _ => hR.render_bind ih fun _ => hR.render_pure _

end Rig.Chained

/-! ## Making objects -/

/-- Between two rigs objects are made, under the next handles, and put on the renderer's lists, and
nothing is deleted. -/
structure Rig.Makes (g g' : Rig) (cs : List DeviceCall) : Prop where
  calls : g'.device.calls = g.device.calls ++ cs
  next : g.device.nextHandle ≤ g'.device.nextHandle
  deleted : deleted cs = []
  handles : (created cs).map (·.handle) =
    List.range' g.device.nextHandle (g'.device.nextHandle - g.device.nextHandle)
  owned : ∀ k, g'.renderer.owned k = g.renderer.owned k ++ ofKind k (created cs)
  disposed : g'.renderer.disposed = g.renderer.disposed

namespace Rig.Makes

variable {g g1 g2 : Rig} {cs ds : List DeviceCall}

theorem neutral (hcreated : created cs = []) (hdeleted : ShaderGraph.deleted cs = [])
    (hc : g1.device.calls = g.device.calls ++ cs) (hn : g1.device.nextHandle = g.device.nextHandle)
    (ho : g1.renderer.owned = g.renderer.owned) (hd : g1.renderer.disposed = g.renderer.disposed) :
    g.Makes g1 cs where
  calls := hc
  next := Nat.le_of_eq hn.symm
  deleted := hdeleted
  handles := by simp [hn, hcreated]
  owned k := by simp [ho, hcreated, ofKind]
  disposed := hd

theorem unchanged (hc : g1.device.calls = g.device.calls)
    (hn : g1.device.nextHandle = g.device.nextHandle) (ho : g1.renderer.owned = g.renderer.owned)
    (hd : g1.renderer.disposed = g.renderer.disposed) : g.Makes g1 [] :=
  neutral rfl rfl (by rw [hc, append_nil]) hn ho hd

theorem trans (h : g.Makes g1 cs) (h' : g1.Makes g2 ds) : g.Makes g2 (cs ++ ds) where
  calls := by rw [h'.calls, h.calls, append_assoc]
  next := Nat.le_trans h.next h'.next
  deleted := by rw [deleted_append, h.deleted, h'.deleted, append_nil]
  handles := by
    obtain ⟨m, hm⟩ := Nat.exists_eq_add_of_le h.next
    obtain ⟨n, hn⟩ := Nat.exists_eq_add_of_le h'.next
    rw [created_append, map_append, h.handles, h'.handles, hn, Nat.add_sub_cancel_left, hm,
      Nat.add_sub_cancel_left, range'_append_1, Nat.add_assoc, Nat.add_sub_cancel_left]
  owned k := by rw [h'.owned, h.owned, created_append, ofKind_append, append_assoc]
  disposed := h'.disposed.trans h.disposed

theorem made {k : ObjectKind} {c : DeviceCall} (hnext : 0 < g.device.nextHandle)
    (hc : c.created? = DeviceObject.made? k g.device.nextHandle) (hd : c.deleted? = none)
    (hcalls : g1.device.calls = g.device.calls ++ [c])
    (hn : g1.device.nextHandle = g.device.nextHandle + 1)
    (ho : ∀ k', g1.renderer.owned k' =
      g.renderer.owned k' ++ if k' = k then [g.device.nextHandle] else [])
    (hdisposed : g1.renderer.disposed = g.renderer.disposed) : g.Makes g1 [c] := by
  have hcreated : created [c] = [⟨k, g.device.nextHandle⟩] := by
    simp [created, hc, DeviceObject.made?, Nat.ne_of_gt hnext]
  refine ⟨hcalls, hn ▸ Nat.le_succ _, by simp [ShaderGraph.deleted, hd], ?_, fun k' => ?_, hdisposed⟩
  · rw [hcreated, hn, Nat.add_sub_cancel_left]
    rfl
  · rw [ho, hcreated]
    by_cases hk : k = k' <;> simp [ofKind, hk, eq_comm]

end Rig.Makes

/-- Between two rigs objects are made and none deleted, the beats are `bs`, and `k` frames are finished. -/
def Rig.Ticks (bs : List DeviceCall) (k : Nat) (g g' : Rig) : Prop :=
  ∃ cs, g.Makes g' cs ∧ cs.filter (·.isBeat) = bs ∧ g'.renderer.frame = g.renderer.frame + k

/-- Between two rigs objects are made within a frame. -/
abbrev Rig.Quietly := Rig.Ticks [] 0

namespace Rig.Ticks

variable {g g1 g2 : Rig} {bs bs' cs : List DeviceCall} {k k' : Nat}

theorem trans (h : g.Ticks bs k g1) (h' : g1.Ticks bs' k' g2) : g.Ticks (bs ++ bs') (k + k') g2 := by
  obtain ⟨cs, hm, rfl, hf⟩ := h
  obtain ⟨cs', hm', rfl, hf'⟩ := h'
  exact ⟨cs ++ cs', hm.trans hm', filter_append cs cs', by rw [hf', hf, Nat.add_assoc]⟩

theorem makes (h : g.Ticks bs k g1) : ∃ cs, g.Makes g1 cs := by
  obtain ⟨cs, hm, -⟩ := h
  exact ⟨cs, hm⟩

theorem unchanged {r : Renderer} (ho : r.owned = g.renderer.owned) (hd : r.disposed = g.renderer.disposed)
    (hf : r.frame = g.renderer.frame + k) : g.Ticks [] k { g with renderer := r } :=
  ⟨[], .unchanged rfl rfl ho hd, rfl, hf⟩

theorem logged (g : Rig) (log : List Log.Record) : g.Quietly { g with log } :=
  ⟨[], .unchanged rfl rfl rfl rfl, rfl, rfl⟩

theorem neutral {c : DeviceCall} (hc : c.Neutral) (hb : [c].filter (·.isBeat) = bs)
    (hcalls : g1.device.calls = g.device.calls ++ [c]) (hn : g1.device.nextHandle = g.device.nextHandle)
    (hr : g1.renderer = g.renderer) : g.Ticks bs 0 g1 := by
  refine ⟨[c], .neutral ?_ ?_ hcalls hn (by rw [hr]) (by rw [hr]), hb, by rw [hr]; rfl⟩
  · simp [created, hc.created]
  · simp [deleted, hc.deleted]

theorem inner (hc : ∀ c ∈ cs, c.isInner) (hcalls : g1.device.calls = g.device.calls ++ cs)
    (hn : g1.device.nextHandle = g.device.nextHandle) (hr : g1.renderer = g.renderer) : g.Quietly g1 := by
  have hinner (c : DeviceCall) (hmem : c ∈ cs) := DeviceCall.isInner_iff.mp (hc c hmem)
  refine ⟨cs, .neutral ?_ ?_ hcalls hn (by rw [hr]) (by rw [hr]), ?_, by rw [hr]; rfl⟩
  · exact filterMap_eq_nil_iff.mpr fun c hmem => (hinner c hmem).1
  · exact filterMap_eq_nil_iff.mpr fun c hmem => (hinner c hmem).2.1
  · exact filter_eq_nil_iff.mpr fun c hmem => by simp [(hinner c hmem).2.2.1]

theorem issued {c : DeviceCall} (g : Rig) (hc : c.isInner) : g.Quietly (g.issued [c]) :=
  .inner (forall_mem_singleton.mpr hc) rfl rfl rfl

end Rig.Ticks

theorem Rig.quietly_chained : Rig.Chained Rig.Quietly where
  refl g := .logged g g.log
  trans h h' := h.trans h'

theorem Render.Steps.ticks {bs bs' : List DeviceCall} {k k' : Nat} {α β : Type} {x : Render α}
    {f : α → Render β} (hx : x.Steps (Rig.Ticks bs k)) (hf : ∀ a, (f a).Steps (Rig.Ticks bs' k')) :
    (x >>= f).Steps (Rig.Ticks (bs ++ bs') (k + k')) :=
  ⟨fun g => (hx.step g).trans ((hf _).step _)⟩

theorem Render.say_quietly (level : Log.Level) (message : String) (fields : List (String × Log.Value)) :
    (say level message fields).Steps Rig.Quietly := by
  refine ⟨fun g => ?_⟩
  obtain ⟨hd, hr⟩ := say_keeps g level message fields
  exact .inner (forall_mem_nil _) (by rw [hd, append_nil]) (by rw [hd]) hr

end ShaderGraph
