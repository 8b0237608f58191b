import Mathlib.Data.List.Perm.Basic
import ShaderGraph.Proofs.Staging
import ShaderGraph.Viewer.Params

/-!
# Parameters from documents

A document gives values to uniforms by name. `assigned?` says which values, from the entry of one
name alone. Applying the document sets every uniform to just these, whatever the order of the keys.
-/

namespace ShaderGraph.Toml

open List

/-! ## Keys of a document -/

theorem Table.nodup_add {t : Table} (h : (t.map (·.1)).Nodup) (key : String) (v : Value) :
    ((t.add key v).map (·.1)).Nodup := by
  unfold add
  split
  · exact h
  · next hnew =>
    have hkey : key ∉ t.map (·.1) := by
      simpa [lookup_eq_none_iff] using hnew
    rw [map_append, nodup_append]
    refine ⟨h, nodup_singleton _, ?_⟩
    rintro a ha b hb rfl
    obtain rfl : a = key := by simpa using hb
    exact hkey ha

theorem Reading.nodup_step {r r' : Reading} {e : Expression} (h : r.step e = .ok r')
    (hr : (r.table.map (·.1)).Nodup) : (r'.table.map (·.1)).Nodup := by
  -- A header adds its first part, if it has one.
  have hhead (key : List String) (v : Value) :
      (((key.head?.map fun k => r.table.add k v).getD r.table).map (·.1)).Nodup := by
    cases key with
    | nil => exact hr
    | cons k _ => exact Table.nodup_add hr k v
  unfold step at h
  cases hk : r.keys.step e with
  | error e => simp [hk, bind, Except.bind] at h
  | ok keys =>
    simp only [hk, bind, Except.bind] at h
    cases e with
    | pair key w =>
      cases hw : w.value with
      | error e => simp [hw] at h
      | ok x =>
        simp only [hw] at h
        cases h
        dsimp only
        split
        · exact Table.nodup_add hr _ _
        · exact Table.nodup_add hr _ _
        · exact hr
    | table key => cases h; exact hhead key _
    | arrayTable key => cases h; exact hhead key _

theorem nodup_of_read {s : String} {t : Table} (h : read s = .ok t) : (t.map (·.1)).Nodup := by
  have hrun (es : List Expression) (r r' : Reading) (hr : (r.table.map (·.1)).Nodup)
      (h : es.foldlM Reading.step r = .ok r') : (r'.table.map (·.1)).Nodup := by
    induction es generalizing r with
    | nil => cases h; exact hr
    | cons e es ih =>
      rw [foldlM_cons] at h
      cases he : r.step e with
      | error e => simp [he, bind, Except.bind] at h
      | ok r1 =>
        simp only [he, bind, Except.bind] at h
        exact ih r1 (Reading.nodup_step he hr) h
  unfold read at h
  cases hr : (document s).expressions.foldlM Reading.step {} with
  | error e => simp [hr, bind, Except.bind] at h
  | ok r =>
    simp only [hr, bind, Except.bind] at h
    split at h <;> cases h
    exact hrun _ {} _ nodup_nil hr

end ShaderGraph.Toml

namespace ShaderGraph.Viewer

open List

/-! ## What a document assigns -/

/-- Values as a uniform takes them, if they fit: a color gets an alpha of one. The value of a
sampler is managed by its texture. -/
def fitted? (u : Uniform) (values : List Float32) : Option (List Float32) :=
  if u.texture.isSome then none
  else if values.length = u.type.components then some values
  else if u.type = .vec4 ∧ values.length = 3 then some (values ++ [1])
  else none

/-- The values that a document gives to the uniform of a name. -/
def assigned? (t : Toml.Table) (name : String) (u : Uniform) : Option (List Float32) :=
  match t.lookup name with
  | none => none
  | some v =>
    match paramValues v with
    | .error _ => none
    | .ok values => fitted? u values

/-- What comes of applying a document. -/
structure Params.Applied (ps : Params) (t : Toml.Table) (w : Workspace) (a : Application) : Prop where
  assigned : ∀ p ∈ ps, ∀ values, assigned? t p.1 p.2 = some values →
    a.work.uniformState p.2 = { value := values, version := (w.uniformState p.2).version + 1 }
  /-- Every other uniform, listed or not. -/
  kept : ∀ u : Uniform, (∀ p ∈ ps, p.2.id = u.id → assigned? t p.1 p.2 = none) →
    a.work.uniformState u = w.uniformState u
  frame : a.work = { w with uniforms := a.work.uniforms }
  applied : a.applied = ps.countP fun p => (assigned? t p.1 p.2).isSome

/-! ## One update -/

theorem fitted_eq_some {u : Uniform} {values fit : List Float32} :
    fitted? u values = some fit ↔
      u.refuses? (opaqueValues u values) = none ∧ opaqueValues u values = fit := by
  have hfour : GlType.components .vec4 = 4 := rfl
  unfold Uniform.refuses? opaqueValues fitted?
  by_cases ho : u.type = .vec4 ∧ values.length = 3
  · simp [ho.1, ho.2, hfour]
  · by_cases ht : u.texture.isSome <;> simp [ho, ht]

namespace Params

variable {ps : Params} {up : ParamUpdate} {a : Application} {p : Uniform × List Float32}

/-- The uniform that an update sets, with its new value. -/
def target? (ps : Params) (up : ParamUpdate) : Option (Uniform × List Float32) :=
  (ps.lookup up.name).bind fun u => (fitted? u up.values).map (u, ·)

theorem target_eq_some :
    ps.target? up = some p ↔ ps.lookup up.name = some p.1 ∧ fitted? p.1 up.values = some p.2 := by
  simp only [target?, Option.bind_eq_some_iff, Option.map_eq_some_iff]
  constructor
  · rintro ⟨u, hu, values, hv, rfl⟩
    exact ⟨hu, hv⟩
  · rintro ⟨hu, hv⟩
    exact ⟨p.1, hu, p.2, hv, rfl⟩

theorem applyOne_of_target (h : ps.target? up = some p) :
    ps.applyOne a up = { a with
      work := a.work.setUniform p.1 { value := p.2, version := (a.work.uniformState p.1).version + 1 }
      applied := a.applied + 1 } := by
  obtain ⟨hu, hv⟩ := target_eq_some.mp h
  obtain ⟨hfits, hvalues⟩ := fitted_eq_some.mp hv
  rw [hvalues] at hfits
  simp [applyOne, hu, Uniform.stage, hvalues, hfits]

theorem applyOne_of_target_none (h : ps.target? up = none) :
    (ps.applyOne a up).work = a.work ∧ (ps.applyOne a up).applied = a.applied := by
  unfold applyOne
  cases hu : ps.lookup up.name with
  | none => exact ⟨rfl, rfl⟩
  | some u =>
    have hv : fitted? u up.values = none := by simpa [target?, hu] using h
    cases hr : u.refuses? (opaqueValues u up.values) with
    | none => simp [fitted_eq_some.mpr ⟨hr, rfl⟩] at hv
    | some e => simp [Uniform.stage, hr]

/-! ## A list of updates -/

theorem mem_of_target (h : ps.target? up = some p) : (up.name, p.1) ∈ ps := by
  obtain ⟨l1, l2, rfl, -⟩ := lookup_eq_some_iff.mp (target_eq_some.mp h).1
  simp

theorem name_eq_of_target (hids : (ps.map (·.2.id)).Nodup) {up' : ParamUpdate}
    {p q : Uniform × List Float32} (h : ps.target? up = some p) (h' : ps.target? up' = some q)
    (hid : p.1.id = q.1.id) : up.name = up'.name :=
  congrArg Prod.fst (inj_on_of_nodup_map hids (mem_of_target h) (mem_of_target h') hid)

/-- What a list of updates has done to a workspace. -/
structure Ran (ps : Params) (ups : List ParamUpdate) (a a' : Application) : Prop where
  staged : ∀ up ∈ ups, ∀ p, ps.target? up = some p → a'.work.uniformState p.1 =
    { value := p.2, version := (a.work.uniformState p.1).version + 1 }
  kept : ∀ u : Uniform, (∀ up ∈ ups, ∀ p, ps.target? up = some p → p.1.id ≠ u.id) →
    a'.work.uniformState u = a.work.uniformState u
  frame : a'.work = { a.work with uniforms := a'.work.uniforms }
  applied : a'.applied = a.applied + ups.countP fun up => (ps.target? up).isSome

theorem ran_foldl (hids : (ps.map (·.2.id)).Nodup) (ups : List ParamUpdate)
    (hups : (ups.map (·.name)).Nodup) (a : Application) : ps.Ran ups a (ups.foldl ps.applyOne a) := by
  induction ups generalizing a with
  | nil => exact ⟨by simp, fun _ _ => rfl, rfl, rfl⟩
  | cons up ups ih =>
    obtain ⟨hnew, hrest⟩ := nodup_cons.mp hups
    have hran := ih hrest (ps.applyOne a up)
    rw [foldl_cons]
    cases ht : ps.target? up with
    | none =>
      obtain ⟨hwork, happlied⟩ := applyOne_of_target_none (a := a) ht
      refine ⟨fun v hv p hp => ?_, fun u hu => ?_, ?_, ?_⟩
      · rcases mem_cons.mp hv with rfl | hv
        · simp [ht] at hp
        · rw [hran.staged v hv p hp, hwork]
      · rw [hran.kept u fun v hv => hu v (mem_cons_of_mem _ hv), hwork]
      · rw [hran.frame, hwork]
      · rw [hran.applied, happlied, countP_cons_of_neg (by simp [ht])]
    | some q =>
      have hone := applyOne_of_target (a := a) ht
      have hstate (u : Uniform) : (ps.applyOne a up).work.uniformState u =
          if u.id = q.1.id then { value := q.2, version := (a.work.uniformState q.1).version + 1 }
          else a.work.uniformState u := by
        rw [hone, Workspace.uniformState_set]
      -- No later update sets the uniform of this one.
      have hlater : ∀ v ∈ ups, ∀ p, ps.target? v = some p → p.1.id ≠ q.1.id := fun v hv p hp hid =>
        hnew (mem_map.mpr ⟨v, hv, name_eq_of_target hids hp ht hid⟩)
      refine ⟨fun v hv p hp => ?_, fun u hu => ?_, ?_, ?_⟩
      · rcases mem_cons.mp hv with rfl | hv
        · obtain rfl := Option.some.inj (ht.symm.trans hp)
          rw [hran.kept q.1 hlater, hstate, if_pos rfl]
        · rw [hran.staged v hv p hp, hstate, if_neg (hlater v hv p hp)]
      · rw [hran.kept u fun v hv => hu v (mem_cons_of_mem _ hv), hstate,
          if_neg fun h => hu up mem_cons_self q ht h.symm]
      · rw [hran.frame, hone]
        rfl
      · rw [hran.applied, hone, countP_cons_of_pos (by simp [ht])]
        dsimp only
        omega

end Params

/-! ## The updates of a document -/

variable {t t' : Toml.Table} {ups ups' : List ParamUpdate}

/-- An update holds the values of a document's entry. -/
def Updates (e : String × Toml.Value) (up : ParamUpdate) : Prop :=
  up.name = e.1 ∧ paramValues e.2 = .ok up.values

theorem mapM_eq_ok {ε α β : Type} {f : α → Except ε β} {l : List α} {l' : List β} :
    l.mapM f = .ok l' ↔ Forall₂ (fun a b => f a = .ok b) l l' := by
  induction l generalizing l' with
  | nil => simp [pure, Except.pure, eq_comm]
  | cons a l ih =>
    rw [mapM_cons]
    cases ha : f a with
    | error e => simp [bind, Except.bind, forall₂_cons_left_iff, ha]
    | ok b =>
      cases hl : l.mapM f with
      | error e => simp [bind, Except.bind, forall₂_cons_left_iff, ha, ← ih, hl]
      | ok bs =>
        simp [bind, Except.bind, pure, Except.pure, forall₂_cons_left_iff, ha, ← ih, hl, eq_comm]

def sortedByName (ups : List ParamUpdate) : List ParamUpdate :=
  ups.mergeSort fun a b => a.name ≤ b.name

theorem sortedByName_perm (ups : List ParamUpdate) : (sortedByName ups).Perm ups :=
  mergeSort_perm ups _

theorem pairwise_sortedByName (ups : List ParamUpdate) :
    (sortedByName ups).Pairwise fun a b => a.name ≤ b.name := by
  have h : (sortedByName ups).Pairwise fun a b => decide (a.name ≤ b.name) := pairwise_mergeSort
    (fun a b c h h' => by simpa using String.le_trans (of_decide_eq_true h) (of_decide_eq_true h'))
    (fun a b => by simpa using String.le_total a.name b.name) ups
  exact h.imp of_decide_eq_true

theorem sortedByName_eq_of_perm (hnames : (ups.map (·.name)).Nodup) (h : ups.Perm ups') :
    sortedByName ups = sortedByName ups' := by
  have hperm := ((sortedByName_perm ups).trans h).trans (sortedByName_perm ups').symm
  refine hperm.eq_of_pairwise (fun a b ha hb hab hba => ?_) (pairwise_sortedByName ups)
    (pairwise_sortedByName ups')
  have ha' : a ∈ ups := (sortedByName_perm ups).mem_iff.mp ha
  have hb' : b ∈ ups := h.mem_iff.mpr ((sortedByName_perm ups').mem_iff.mp hb)
  exact inj_on_of_nodup_map hnames ha' hb' (String.le_antisymm hab hba)

theorem map_eq_ok {ε α β : Type} {x : Except ε α} {g : α → β} {b : β} :
    (x >>= fun a => pure (g a)) = .ok b ↔ ∃ a, x = .ok a ∧ g a = b := by
  cases x <;> simp [bind, Except.bind, pure, Except.pure]

theorem tableUpdates_eq_ok {sorted : List ParamUpdate} :
    tableUpdates t = .ok sorted ↔ ∃ ups, Forall₂ Updates t ups ∧ sortedByName ups = sorted := by
  rw [tableUpdates, map_eq_ok]
  refine exists_congr fun ups => and_congr (mapM_eq_ok.trans ?_) Iff.rfl
  constructor
  · refine fun h => h.imp fun e up he => ?_
    cases hv : paramValues e.2 with
    | error f => simp [hv] at he
    | ok values =>
      obtain rfl : ParamUpdate.mk e.1 values = up := by simpa [hv] using he
      exact ⟨rfl, hv⟩
  · refine fun h => h.imp fun e up he => ?_
    simp [he.2, ← he.1]

theorem map_name_of_updates (h : Forall₂ Updates t ups) : ups.map (·.name) = t.map (·.1) := by
  induction h with
  | nil => rfl
  | cons he _ ih => rw [map_cons, map_cons, he.1, ih]

/-- Documents that differ in the order of their keys have the same updates. -/
theorem tableUpdates_eq_of_perm (hkeys : (t.map (·.1)).Nodup) (h : t.Perm t')
    (hups : tableUpdates t = .ok ups) : tableUpdates t' = .ok ups := by
  obtain ⟨entries, hentries, rfl⟩ := tableUpdates_eq_ok.mp hups
  obtain ⟨entries', hentries', hperm⟩ := perm_comp_forall₂ h.symm hentries
  refine tableUpdates_eq_ok.mpr ⟨entries', hentries', (sortedByName_eq_of_perm ?_ hperm.symm).symm⟩
  rw [map_name_of_updates hentries]
  exact hkeys

/-! ## Documents -/

theorem lookup_eq_some_iff_mem {α : Type} {l : List (String × α)} (h : (l.map (·.1)).Nodup)
    {name : String} {a : α} : l.lookup name = some a ↔ (name, a) ∈ l := by
  have hmem {b : α} (hb : l.lookup name = some b) : (name, b) ∈ l := by
    obtain ⟨l1, l2, rfl, -⟩ := lookup_eq_some_iff.mp hb
    simp
  refine ⟨hmem, fun ha => ?_⟩
  obtain ⟨b, hb⟩ := Option.isSome_iff_exists.mp
    (lookup_isSome_iff.mpr ⟨(name, a), ha, beq_self_eq_true name⟩)
  have heq : b = a := congrArg Prod.snd (inj_on_of_nodup_map h (hmem hb) ha rfl)
  rw [hb, heq]

theorem assigned_eq_some (hkeys : (t.map (·.1)).Nodup) (h : Forall₂ Updates t ups) {name : String} {u : Uniform}
    {values : List Float32} :
    assigned? t name u = some values ↔ ∃ up ∈ ups, up.name = name ∧ fitted? u up.values = some values := by
  constructor
  · intro ha
    unfold assigned? at ha
    cases hv : t.lookup name with
    | none => simp [hv] at ha
    | some v =>
      obtain ⟨up, hup, hname, hvalues⟩ := exists_of_forall₂_left h ((lookup_eq_some_iff_mem hkeys).mp hv)
      exact ⟨up, hup, hname, by simpa [hv, hvalues] using ha⟩
  · rintro ⟨up, hup, rfl, hfit⟩
    obtain ⟨e, he, hname, hvalues⟩ := exists_of_forall₂_right h hup
    have hv : t.lookup up.name = some e.2 := (lookup_eq_some_iff_mem hkeys).mpr (hname ▸ he)
    simp [assigned?, hv, hvalues, hfit]

theorem Params.applied_of_tableUpdates {ps : Params} (hnames : (ps.map (·.1)).Nodup)
    (hids : (ps.map (·.2.id)).Nodup) (hkeys : (t.map (·.1)).Nodup) (h : tableUpdates t = .ok ups)
    (w : Workspace) : ps.Applied t w (ps.apply ups w) := by
  obtain ⟨entries, hentries, rfl⟩ := tableUpdates_eq_ok.mp h
  have hperm := sortedByName_perm entries
  have hsorted : ((sortedByName entries).map (·.name)).Nodup := by
    rw [(hperm.map _).nodup_iff, map_name_of_updates hentries]
    exact hkeys
  -- The document assigns values to a listed uniform just if its update sets that uniform.
  have htarget {name : String} {u : Uniform} {values : List Float32} (hu : (name, u) ∈ ps) :
      assigned? t name u = some values ↔
        ∃ up ∈ sortedByName entries, up.name = name ∧ ps.target? up = some (u, values) := by
    rw [assigned_eq_some hkeys hentries]
    have hl := (lookup_eq_some_iff_mem hnames).mpr hu
    constructor
    · rintro ⟨up, hup, rfl, hfit⟩
      exact ⟨up, hperm.mem_iff.mpr hup, rfl, target_eq_some.mpr ⟨hl, hfit⟩⟩
    · rintro ⟨up, hup, rfl, hset⟩
      exact ⟨up, hperm.mem_iff.mp hup, rfl, (target_eq_some.mp hset).2⟩
  have hran := ran_foldl hids (sortedByName entries) hsorted { work := w }
  refine ⟨fun p hp values ha => ?_, fun u hu => ?_, hran.frame, ?_⟩
  · obtain ⟨up, hup, -, hset⟩ := (htarget hp).mp ha
    exact hran.staged up hup _ hset
  · refine hran.kept u fun up hup p hset hid => ?_
    have ha := (htarget (mem_of_target hset)).mpr ⟨up, hup, rfl, hset⟩
    simp [hu _ (mem_of_target hset) hid] at ha
  · -- The names that are set are those that are assigned, and neither list repeats a name.
    have hnamed : (((sortedByName entries).filter fun up => (ps.target? up).isSome).map (·.name)).Perm
        ((ps.filter fun p => (assigned? t p.1 p.2).isSome).map (·.1)) := by
      refine (perm_ext_iff_of_nodup (hsorted.sublist (filter_sublist.map _))
        (hnames.sublist (filter_sublist.map _))).mpr fun name => ?_
      simp only [mem_map, mem_filter, Option.isSome_iff_exists]
      constructor
      · rintro ⟨up, ⟨hup, p, hset⟩, rfl⟩
        have hp := mem_of_target hset
        exact ⟨(up.name, p.1), ⟨hp, p.2, (htarget hp).mpr ⟨up, hup, rfl, hset⟩⟩, rfl⟩
      · rintro ⟨p, ⟨hp, values, ha⟩, rfl⟩
        obtain ⟨up, hup, hname, hset⟩ := (htarget hp).mp ha
        exact ⟨up, ⟨hup, _, hset⟩, hname⟩
    have hlength := hnamed.length_eq
    rw [length_map, length_map, ← countP_eq_length_filter,
      ← countP_eq_length_filter] at hlength
    exact hran.applied.trans (by rw [hlength, Nat.zero_add])

/-- Applying a document sets the uniforms it assigns values to, and no other. The order of its keys
has no effect. -/
theorem Params.apply_document {ps : Params} (hnames : (ps.map (·.1)).Nodup)
    (hids : (ps.map (·.2.id)).Nodup) {text : String} {ups : List ParamUpdate}
    (h : parseParams text = .ok ups) (w : Workspace) :
    ∃ t, Toml.read text = .ok t ∧ ps.Applied t w (ps.apply ups w) ∧
      ∀ text' t', Toml.read text' = .ok t' → t.Perm t' →
        (parseParams text').map (ps.apply · w) = .ok (ps.apply ups w) := by
  unfold parseParams at h
  cases hread : Toml.read text with
  | error e => simp [hread] at h
  | ok t =>
    simp only [hread] at h
    have hkeys := Toml.nodup_of_read hread
    refine ⟨t, rfl, applied_of_tableUpdates hnames hids hkeys h w, fun text' t' hread' hperm => ?_⟩
    simp only [parseParams, hread', tableUpdates_eq_of_perm hkeys hperm h, Except.map]

/-- Sets a color, a number and a sampler, and a name that is not listed. -/
def presetText : String := "zoom = 2.0
tint = [0.5, 1, 0]
noise = 1
depth = true"

def presets : Params :=
  [("zoom", { id := 40, type := .float }), ("tint", { id := 41, type := .vec4 }),
   ("noise", { id := 42, type := .sampler2D, texture := some ⟨42, false⟩ }),
   ("fog", { id := 43, type := .float })]

theorem presets_apply_document : ∃ ups, (presets.map (·.1)).Nodup ∧ (presets.map (·.2.id)).Nodup ∧
    parseParams presetText = .ok ups ∧
    ∃ t, Toml.read presetText = .ok t ∧ presets.Applied t {} (presets.apply ups {}) ∧
      ∀ text' t', Toml.read text' = .ok t' → t.Perm t' →
        (parseParams text').map (presets.apply · {}) = .ok (presets.apply ups {}) := by
  have hsome : (parseParams presetText).toOption.isSome := by decide +kernel
  cases h : parseParams presetText with
  | error e => simp [h, Except.toOption] at hsome
  | ok ups =>
    exact ⟨ups, by decide, by decide, rfl, Params.apply_document (by decide) (by decide) h {}⟩

end ShaderGraph.Viewer
