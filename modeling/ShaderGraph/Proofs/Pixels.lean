import Mathlib.Data.Int.ModEq
import ShaderGraph.Proofs.Staging

/-!
# Pixels and their size

A texture of a size has four bytes a pixel. Staging asks for that many, counted in words, and the
count wraps around: a size can be too large for its bytes to be counted and still be accepted.
`Pixels.Misfits` says when, and it is the only way in which a texture comes to hold another number of
bytes than its size has.
-/

namespace ShaderGraph

/-! ## Words -/

namespace Word

def Fits (n : Int) : Prop := -limit ≤ n ∧ n < limit

instance (n : Int) : Decidable (Fits n) := inferInstanceAs (Decidable (_ ∧ _))

theorem wrap_eq_iff {n m : Int} (hm : Fits m) : wrap n = m ↔ n ≡ m [ZMOD count] := by
  simp only [Fits, limit] at hm
  simp only [wrap, Int.bmod, Int.ModEq, count]
  omega

theorem wrap_of_fits {n : Int} (h : Fits n) : wrap n = n := (wrap_eq_iff h).mpr rfl

end Word

/-! ## Calls -/

/-- Pixels for a texture as they are handed over: a size in words and bytes, or none for a blank
image. -/
structure Pixels where
  width : Int
  height : Int
  rgba : Option (List UInt8)
  width_fits : Word.Fits width
  height_fits : Word.Fits height
  rgba_fits : ∀ data ∈ rgba, Word.Fits data.length

namespace Pixels

def bytes (p : Pixels) : Int := 4 * p.width * p.height

/-- The size is one that an image can have. -/
def Sized (p : Pixels) : Prop := 0 < p.width ∧ 0 < p.height

theorem sized_iff (p : Pixels) : p.Sized ↔ ¬ (p.width ≤ 0 ∨ p.height ≤ 0) := by
  simp only [Sized]
  omega

/-- A blank image of so many bytes is larger than anything that can be asked for, or the bytes given
are another number that is the same after the count has wrapped around. -/
def Missed (bytes : Int) : Option (List UInt8) → Prop
  | none => Word.maxBytes < bytes
  | some data => bytes ≠ data.length ∧ bytes ≡ data.length [ZMOD Word.count]

instance : (bytes : Int) → (rgba : Option (List UInt8)) → Decidable (Missed bytes rgba)
  | _, none => inferInstanceAs (Decidable (_ < _))
  | _, some _ => inferInstanceAs (Decidable (_ ∧ _))

def Misfits (p : Pixels) : Prop := p.Sized ∧ Missed p.bytes p.rgba

instance (p : Pixels) : Decidable p.Misfits := inferInstanceAs (Decidable ((_ ∧ _) ∧ _))

end Pixels

/-- A size that an image can have, with the bytes of such an image. -/
structure TextureState.Filled (s : TextureState) : Prop where
  width : 0 < s.width
  height : 0 < s.height
  data : (s.data.length : Int) = 4 * s.width * s.height

namespace Texture

def put (t : Texture) (p : Pixels) (w : Workspace) : Except TextureFault Workspace :=
  t.stage p.width p.height p.rgba w

def putOrKeep (t : Texture) (w : Workspace) (p : Pixels) : Workspace := (t.put p w).toOption.getD w

/-- The call comes back; when it succeeds the texture has the size and is filled, under the next
version, and when it fails the texture is what it was. -/
structure Obeys (t : Texture) (w : Workspace) (p : Pixels) : Prop where
  returns : t.put p w ≠ .error .outOfRange
  filled : ∀ w', t.put p w = .ok w' → (w'.textureState t).Filled ∧
    (w'.textureState t).width = p.width ∧ (w'.textureState t).height = p.height ∧
    (w'.textureState t).version = (w.textureState t).version + 1
  kept : ∀ e, t.put p w = .error e → (t.putOrKeep w p).textureState t = w.textureState t

variable {t : Texture} {w : Workspace} {p : Pixels}

/-- The texture with the size and the bytes of a call. -/
def store (t : Texture) (w : Workspace) (p : Pixels) (data : List UInt8) : Workspace :=
  w.setTexture t
    { width := p.width, height := p.height, data, version := (w.textureState t).version + 1 }

theorem textureState_store (t : Texture) (w : Workspace) (p : Pixels) (data : List UInt8) :
    (t.store w p data).textureState t =
      { width := p.width, height := p.height, data, version := (w.textureState t).version + 1 } := by
  rw [store, Workspace.textureState_set, if_pos rfl]

theorem put_of_unsized (ht : t.feedback = false) (hp : ¬ p.Sized) :
    t.put p w = .error (.refused (.textureSize p.width p.height)) := by
  rw [put, stage, if_neg (by simp [ht]), if_pos (not_not.mp (p.sized_iff.not.mp hp))]

theorem put_none (ht : t.feedback = false) (hp : p.Sized) (hn : p.rgba = none) :
    t.put p w = if Word.wrap p.bytes < 0 ∨ Word.maxBytes < Word.wrap p.bytes then .error .outOfRange
      else .ok (t.store w p (List.replicate (Word.wrap p.bytes).toNat 0)) := by
  rw [put, stage, if_neg (by simp [ht]), if_neg (p.sized_iff.mp hp), hn]
  rfl

theorem put_some (ht : t.feedback = false) (hp : p.Sized) {data : List UInt8} (hs : p.rgba = some data) :
    t.put p w = if (data.length : Int) ≠ Word.wrap p.bytes then
        .error (.refused (.textureBytes p.width p.height (Word.wrap p.bytes) data.length))
      else .ok (t.store w p data) := by
  rw [put, stage, if_neg (by simp [ht]), if_neg (p.sized_iff.mp hp), hs]
  rfl

theorem Obeys.of_refused {e : StagingError} (h : t.put p w = .error (.refused e)) : t.Obeys w p where
  returns := by simp [h]
  filled w' hw := by simp [h] at hw
  kept e _ := by simp [putOrKeep, h, Except.toOption]

theorem obeys_store_iff {data : List UInt8} (hp : p.Sized) (h : t.put p w = .ok (t.store w p data)) :
    t.Obeys w p ↔ (data.length : Int) = p.bytes := by
  have hstate := textureState_store t w p data
  constructor
  · intro ho
    have hfill := (ho.filled _ h).1.data
    rwa [hstate] at hfill
  · intro hlen
    refine ⟨by simp [h], fun w' hw => ?_, fun e he => by simp [h] at he⟩
    obtain rfl : t.store w p data = w' := by simpa [h] using hw
    rw [hstate]
    exact ⟨⟨hp.1, hp.2, hlen⟩, rfl, rfl, rfl⟩

theorem obeys_iff (ht : t.feedback = false) : t.Obeys w p ↔ ¬ p.Misfits := by
  by_cases hp : p.Sized
  swap
  · exact iff_of_true (.of_refused (put_of_unsized ht hp)) fun hm => hp hm.1
  have hpos : 0 < p.bytes := Int.mul_pos (Int.mul_pos (by decide) hp.1) hp.2
  unfold Pixels.Misfits
  cases hrgba : p.rgba with
  | none =>
    have hput := put_none (w := w) ht hp hrgba
    simp only [hp, true_and, Pixels.Missed, Int.not_lt]
    by_cases hle : p.bytes ≤ Word.maxBytes
    · -- the bytes are few enough to be counted
      have hwrap : Word.wrap p.bytes = p.bytes := Word.wrap_of_fits (by
        simp only [Word.Fits, Word.limit, Word.maxBytes] at hle ⊢
        omega)
      rw [hwrap, if_neg (by omega)] at hput
      rw [obeys_store_iff hp hput, List.length_replicate]
      simp only [hle, iff_true]
      omega
    · refine iff_of_false (fun ho => ?_) hle
      split at hput
      · exact ho.returns hput
      · next hrange =>
        rw [obeys_store_iff hp hput, List.length_replicate] at ho
        omega
  | some data =>
    have hput := put_some (w := w) ht hp hrgba
    have hmod := Word.wrap_eq_iff (n := p.bytes) (p.rgba_fits data hrgba)
    simp only [hp, true_and, Pixels.Missed, ne_eq, not_and_or, not_not]
    split at hput
    · next hne =>
      exact iff_of_true (.of_refused hput) (.inr fun hm => hne (hmod.mpr hm).symm)
    · next heq =>
      rw [obeys_store_iff hp hput]
      have hwrap := hmod.mp (not_not.mp heq).symm
      simp only [hwrap, not_true, or_false]
      exact eq_comm

end Texture

/-! ## Runs -/

/-- Pixels are staged again and again: every call comes back, fills the texture or leaves it alone, if
and only if no call is a misfit. -/
theorem texture_filled_iff {t : Texture} (ht : t.feedback = false) (w : Workspace) (ps : List Pixels) :
    (∀ before p after, ps = before ++ p :: after → t.Obeys (before.foldl t.putOrKeep w) p) ↔
      ∀ p ∈ ps, ¬ p.Misfits := by
  constructor
  · intro h p hp
    obtain ⟨before, after, rfl⟩ := List.append_of_mem hp
    exact (Texture.obeys_iff ht).mp (h before p after rfl)
  · rintro h before p after rfl
    exact (Texture.obeys_iff ht).mpr (h p (List.mem_append_right _ List.mem_cons_self))

/-! ## A tile -/

def tile : Texture := { id := 1, feedback := false }

/-- A red pixel, a size that is none, and too few bytes for a size of which the count wraps around. -/
def tileCalls : List Pixels :=
  [⟨1, 1, some [255, 0, 0, 255], by decide, by decide, by decide⟩,
    ⟨0, 7, none, by decide, by decide, by decide⟩,
    ⟨4611686018427387905, 1, some [1, 2, 3], by decide, by decide, by decide⟩]

theorem tile_filled :
    tile.Obeys ((tileCalls.take 2).foldl tile.putOrKeep {}) (tileCalls.get ⟨2, by decide⟩) :=
  (texture_filled_iff rfl {} tileCalls).mpr (by decide) (tileCalls.take 2) _ [] rfl

/-- No bytes at all, for a size of which the count wraps around to zero. -/
def vastPixels : Pixels := ⟨4611686018427387904, 1, some [], by decide, by decide, by decide⟩

/-- A blank image of which the count wraps around to a negative one. -/
def vastBlank : Pixels := ⟨2305843009213693952, 1, none, by decide, by decide, by decide⟩

/-- No bytes are accepted for a size that is not empty, and a blank image can fail without an answer. -/
theorem vast_pixels_accepted :
    (∃ w', tile.put vastPixels {} = .ok w' ∧ (w'.textureState tile).width = 4611686018427387904 ∧
      (w'.textureState tile).height = 1 ∧ (w'.textureState tile).data = []) ∧
      ¬ tile.Obeys {} vastPixels ∧ tile.put vastBlank {} = .error .outOfRange := by
  refine ⟨⟨_, rfl, rfl, rfl, rfl⟩, fun h => ?_, rfl⟩
  exact (Texture.obeys_iff rfl).mp h (by decide)

end ShaderGraph
