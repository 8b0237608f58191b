import ShaderGraph.Image.Texture
import ShaderGraph.Proofs.Grids
import ShaderGraph.Proofs.Pixels

/-!
# Flipped rows

Pixels are read back and uploaded with the bottom row first, and images have the top row first.
`Raster.Spans` says that an image holds its pixels. Rows are copied in turn: `Raster.Flipped` is what
holds after some of them, that the rows done come from the other end and that nothing else is touched.
-/

namespace ShaderGraph

open List

theorem Rect.width_ofSize {w : Nat} (hw : Word.Fits w) (h : Int) : (ofSize w h).width = w := by
  rw [width, ofSize, sub_zero, Word.wrap_of_fits hw]

theorem Rect.height_ofSize {h : Nat} (hh : Word.Fits h) (w : Int) : (ofSize w h).height = h := by
  rw [height, ofSize, sub_zero, Word.wrap_of_fits hh]

namespace Raster

variable {i i' dst : Raster} {src : List UInt8} {w h k x y : Nat}

/-- The image has `w` by `h` pixels, wherever its bounds are, and its buffer holds them. -/
structure Spans (i : Raster) (w h : Nat) : Prop where
  right : i.bounds.x1 = i.bounds.x0 + w
  bottom : i.bounds.y1 = i.bounds.y0 + h
  stride : 4 * w ≤ i.stride
  held : i.start + (h - 1) * i.stride + 4 * w ≤ i.buffer.length

theorem offset_eq (i : Raster) (x y : Nat) :
    i.offset (i.bounds.x0 + x) (i.bounds.y0 + y) = i.start + y * i.stride + 4 * x := by
  unfold offset
  have hmul : ((y * i.stride : Nat) : Int) = y * i.stride := Nat.cast_mul ..
  rw [add_sub_cancel_left, add_sub_cancel_left]
  omega

theorem Spans.row_le (hi : i.Spans w h) (hy : y < h) : i.start + y * i.stride + 4 * w ≤ i.buffer.length := by
  have := Nat.mul_le_mul_right i.stride (Nat.le_sub_one_of_lt hy)
  have := hi.held
  omega

/-! ## One row -/

theorem length_splice {buffer bytes : List UInt8} {o : Nat} (ho : o + bytes.length ≤ buffer.length) :
    (splice buffer o bytes).length = buffer.length := by
  simp only [splice, length_append, length_take, length_drop]
  omega

theorem getElem?_splice {buffer bytes : List UInt8} {o : Nat} (ho : o + bytes.length ≤ buffer.length) (p : Nat) :
    (splice buffer o bytes)[p]? = if o ≤ p ∧ p < o + bytes.length then bytes[p - o]? else buffer[p]? := by
  have htake : (buffer.take o).length = o := length_take_of_le (by omega)
  unfold splice
  rw [append_assoc]
  by_cases hp : p < o
  · rw [getElem?_append_left (by omega), getElem?_take_of_lt hp, if_neg (by omega)]
  · rw [getElem?_append_right (by omega), htake]
    by_cases hin : p < o + bytes.length
    · rw [getElem?_append_left (by omega), if_pos (by omega)]
    · rw [getElem?_append_right (by omega), getElem?_drop, if_neg (by omega)]
      congr 1
      omega

theorem length_packedRow {m : Nat} (hy : y * m + m ≤ src.length) : (packedRow m src y).length = m := by
  simp only [packedRow, length_take, length_drop]
  omega

theorem getElem?_packedRow {m q : Nat} (hq : q < m) : (packedRow m src y)[q]? = src[y * m + q]? := by
  rw [packedRow, getElem?_take_of_lt hq, getElem?_drop]

/-! ## All rows -/

/-- The bytes that the copy of a row reads and writes are in their buffers. -/
def RowInside (src : List UInt8) (w h : Nat) (i : Raster) (y : Nat) : Prop :=
  (h - 1 - y) * (4 * w) + 4 * w ≤ src.length ∧ i.offset i.bounds.x0 (i.bounds.y0 + y) + 4 * w ≤ i.buffer.length

instance : Decidable (RowInside src w h i y) := inferInstanceAs (Decidable (_ ∧ _))

def flipRow? (src : List UInt8) (w h : Nat) (i : Raster) (y : Nat) : Option Raster :=
  if RowInside src w h i y then some (i.flipRow src w h y) else none

/-- The copy of rows with every access checked. -/
def flipRows? (i : Raster) (src : List UInt8) (w h : Nat) : Option Raster :=
  (range h).foldlM (flipRow? src w h) i

/-- The first `k` rows of `i` have been copied. -/
structure Flipped (src : List UInt8) (w h k : Nat) (i i' : Raster) : Prop where
  frame : i' = { i with buffer := i'.buffer }
  length : i'.buffer.length = i.buffer.length
  copied : ∀ y < k, ∀ q < 4 * w, i'.buffer[i.start + y * i.stride + q]? = src[(h - 1 - y) * (4 * w) + q]?
  kept : ∀ p, (∀ y < k, ¬ (i.start + y * i.stride ≤ p ∧ p < i.start + y * i.stride + 4 * w)) →
    i'.buffer[p]? = i.buffer[p]?

theorem Flipped.offset_eq (hf : Flipped src w h k i i') :
    i'.offset i'.bounds.x0 (i'.bounds.y0 + y) = i.start + y * i.stride := by
  rw [hf.frame]
  simpa using Raster.offset_eq { i with buffer := i'.buffer } 0 y

theorem Flipped.inside (hf : Flipped src w h k i i') (hi : i.Spans w h) (hsrc : src.length = 4 * w * h) (hy : y < h) :
    RowInside src w h i' y := by
  refine ⟨?_, hf.offset_eq ▸ hf.length ▸ hi.row_le hy⟩
  have hrow := Nat.mul_le_mul_right (4 * w) (Nat.sub_lt_of_pos_le y.succ_pos hy : h - (y + 1) < h)
  rw [Nat.succ_mul] at hrow
  rw [hsrc, Nat.sub_sub, Nat.add_comm 1 y, Nat.mul_comm (4 * w) h]
  exact hrow

theorem Flipped.step (hf : Flipped src w h k i i') (hi : i.Spans w h) (hsrc : src.length = 4 * w * h) (hk : k < h) :
    Flipped src w h (k + 1) i (i'.flipRow src w h k) := by
  obtain ⟨hread, hwrite⟩ := hf.inside hi hsrc hk
  rw [hf.offset_eq] at hwrite
  have hlen := length_packedRow hread
  have hat := getElem?_splice (hlen.symm ▸ hwrite)
  have hbuffer : (i'.flipRow src w h k).buffer =
      splice i'.buffer (i.start + k * i.stride) (packedRow (4 * w) src (h - 1 - k)) := by
    rw [← hf.offset_eq]
    rfl
  rw [hlen] at hat
  refine ⟨?_, ?_, fun y hy q hq => ?_, fun p hp => ?_⟩
  · rw [flipRow, hf.frame]
  · rw [hbuffer, length_splice (hlen.symm ▸ hwrite), hf.length]
  · rw [hbuffer, hat]
    rcases Nat.lt_succ_iff_lt_or_eq.mp hy with hy | rfl
    · -- Earlier rows end before this one starts.
      have hrows := Nat.mul_le_mul_right i.stride (Nat.succ_le_of_lt hy)
      rw [Nat.succ_mul] at hrows
      have := hi.stride
      rw [if_neg (by omega), hf.copied y hy q hq]
    · rw [if_pos (by omega), Nat.add_sub_cancel_left, getElem?_packedRow hq]
  · rw [hbuffer, hat, if_neg (hp k (Nat.lt_succ_self k)), hf.kept p fun y hy => hp y (Nat.lt_succ_of_lt hy)]

/-- The rows are copied without an access outside of the buffers. -/
theorem Spans.flipRows_spec (hi : i.Spans w h) (hsrc : src.length = 4 * w * h) :
    i.flipRows? src w h = some (i.flipRows src w h) ∧ Flipped src w h h i (i.flipRows src w h) := by
  have hrun : ∀ k ≤ h, (range k).foldlM (flipRow? src w h) i = some ((range k).foldl (flipRow src w h) i) ∧
      Flipped src w h k i ((range k).foldl (flipRow src w h) i) := by
    intro k hk
    induction k with
    | zero => exact ⟨rfl, rfl, rfl, by simp, fun p _ => rfl⟩
    | succ k ih =>
      obtain ⟨heq, hf⟩ := ih (Nat.le_of_succ_le hk)
      have hin := hf.inside hi hsrc hk
      rw [range_succ, foldlM_append, foldl_append, heq]
      exact ⟨by simp [flipRow?, hin], hf.step hi hsrc hk⟩
  exact hrun h (Nat.le_refl h)

/-! ## There and back -/

theorem packedRow_flatMap_range {f : Nat → List UInt8} {m n : Nat} (hf : ∀ y < n, (f y).length = m) (hy : y < n) :
    packedRow m ((range n).flatMap f) y = f y := by
  have hread : y * m + m ≤ ((range n).flatMap f).length := by
    rw [length_flatMap_range hf, ← Nat.succ_mul]
    exact Nat.mul_le_mul_right m hy
  apply ext_getElem?
  intro q
  by_cases hq : q < m
  · rw [getElem?_packedRow hq, getElem?_flatMap_range hf hy hq]
  · rw [getElem?_eq_none (by rw [length_packedRow hread]; omega), getElem?_eq_none (by rw [hf y hy]; omega)]

/-- An image as it is given for a texture. -/
def picture (i : Raster) : Picture := ⟨.rgba, i.bounds, i.pixels⟩

theorem sizeFault?_eq_none (hbytes : ((4 * w * h : Nat) : Int) ≤ Word.maxBytes) (hh : 0 < h) :
    sizeFault? w h = none := by
  have hwidth : 4 * w ≤ 4 * w * h := Nat.le_mul_of_pos_right _ hh
  have hcast : ((4 * w * h : Nat) : Int) = 4 * w * h := by push_cast; rfl
  simp only [Word.maxBytes] at hbytes
  simp only [sizeFault?, Word.count, Word.limit, Word.maxBytes, ← hcast]
  rw [if_neg (by omega), if_neg (by omega)]

namespace Spans
variable (hi : i.Spans w h)
include hi

theorem width_eq (hw : Word.Fits w) : i.bounds.width = w := by
  rw [Rect.width, hi.right, add_sub_cancel_left, Word.wrap_of_fits hw]

theorem height_eq (hh : Word.Fits h) : i.bounds.height = h := by
  rw [Rect.height, hi.bottom, add_sub_cancel_left, Word.wrap_of_fits hh]

theorem length_row (hw : Word.Fits w) (hy : y < h) : (i.row y).length = 4 * w := by
  have := hi.row_le hy
  rw [row, hi.width_eq hw, length_take, length_drop, Int.toNat_natCast]
  omega

theorem row_flipRows (hw : Word.Fits w) (hsrc : src.length = 4 * w * h) (hy : y < h) :
    (i.flipRows src w h).row y = packedRow (4 * w) src (h - 1 - y) := by
  have hf := (hi.flipRows_spec hsrc).2
  have hread := (hf.inside hi hsrc hy).1
  rw [row, hf.frame]
  dsimp only
  rw [hi.width_eq hw, Int.toNat_natCast]
  apply ext_getElem?
  intro q
  by_cases hq : q < 4 * w
  · rw [getElem?_take_of_lt hq, getElem?_drop, hf.copied y hy q hq, getElem?_packedRow hq]
  · rw [getElem?_eq_none (by rw [length_take]; omega), getElem?_eq_none (by rw [length_packedRow hread]; omega)]

theorem bottomUp_eq (hh : Word.Fits h) : i.bottomUp = (range h).flatMap fun y => i.row (h - 1 - y) := by
  rw [bottomUp, hi.height_eq hh, Int.toNat_natCast, range_eq_range', reverse_range', flatMap_map]
  simp only [Nat.zero_add, Nat.sub_right_comm, range_eq_range']

theorem length_bottomUp (hw : Word.Fits w) (hh : Word.Fits h) : i.bottomUp.length = 4 * w * h := by
  rw [hi.bottomUp_eq hh, length_flatMap_range fun y hy => hi.length_row hw (by omega), Nat.mul_comm]

theorem length_pixels (hw : Word.Fits w) (hh : Word.Fits h) : i.pixels.length = 4 * w * h := by
  rw [pixels, hi.height_eq hh, Int.toNat_natCast, length_flatMap_range fun y hy => hi.length_row hw hy, Nat.mul_comm]

theorem flipRows_bottomUp (hd : dst.Spans w h) (hw : Word.Fits w) (hh : Word.Fits h) :
    (dst.flipRows i.bottomUp w h).pixels = i.pixels := by
  have hlen := hi.length_bottomUp hw hh
  have hf := (hd.flipRows_spec hlen).2
  have hheight : (dst.flipRows i.bottomUp w h).bounds.height = h := by
    rw [hf.frame]
    exact hd.height_eq hh
  rw [pixels, pixels, hheight, hi.height_eq hh, Int.toNat_natCast]
  refine flatMap_congr fun y hy => ?_
  have hy := mem_range.mp hy
  rw [hd.row_flipRows hw hlen hy, hi.bottomUp_eq hh,
    packedRow_flatMap_range (fun y hy => hi.length_row hw (by omega)) (by omega)]
  congr 1
  omega

theorem bytes_le (hh : 0 < h) : 4 * w * h ≤ i.buffer.length := by
  have hrows := Nat.mul_le_mul_left (h - 1) hi.stride
  have hlast : (h - 1) * (4 * w) + 4 * w = 4 * w * h := by
    rw [← Nat.succ_mul, Nat.succ_eq_add_one, Nat.sub_add_cancel hh, Nat.mul_comm]
  have := hi.held
  omega

/-- Pixels drawn on an image of their size keep their rows. -/
theorem bottomUp_drawn (hw : Word.Fits w) (hh : Word.Fits h) :
    bottomUp { filled (.ofSize w h) 0 with buffer := i.pixels } = i.bottomUp := by
  have hpixels : i.pixels = (range h).flatMap i.row := by rw [pixels, hi.height_eq hh, Int.toNat_natCast]
  rw [bottomUp, bottomUp, hi.height_eq hh]
  simp only [filled, Rect.height_ofSize hh, Rect.width_ofSize hw, Int.toNat_natCast]
  refine flatMap_congr fun y hy => ?_
  have hy := mem_range.mp (mem_reverse.mp hy)
  rw [row, Rect.width_ofSize hw, Int.toNat_natCast, Nat.zero_add, hpixels]
  exact packedRow_flatMap_range (fun y hy => hi.length_row hw hy) hy

variable (hw : 0 < w) (hh : 0 < h) (hm : (i.buffer.length : Int) ≤ Word.maxBytes)
include hw hh hm

/-- An image whose buffer memory can hold has sizes that are words. -/
theorem fits : Word.Fits w ∧ Word.Fits h ∧ ((4 * w * h : Nat) : Int) ≤ Word.maxBytes := by
  have hbytes := hi.bytes_le hh
  have hwidth : w ≤ 4 * w * h := Nat.le_trans (Nat.le_mul_of_pos_left w (by omega)) (Nat.le_mul_of_pos_right _ hh)
  have hheight : h ≤ 4 * w * h := Nat.le_mul_of_pos_left h (by omega)
  simp only [Word.Fits, Word.limit, Word.maxBytes] at hm ⊢
  omega

theorem drawn_eq : i.picture.drawn w h = .ok { filled (.ofSize w h) 0 with buffer := i.pixels } := by
  obtain ⟨hfw, hfh, hbytes⟩ := hi.fits hw hh hm
  have hwidth : i.picture.bounds.width = w := hi.width_eq hfw
  have hheight : i.picture.bounds.height = h := hi.height_eq hfh
  have hempty : i.picture.bounds.isEmpty = false := by
    simp only [picture, Rect.isEmpty, hi.right, hi.bottom]
    simp [hw.ne', hh.ne']
  have hfull : i.picture.isShort = false := by
    rw [Picture.isShort, hwidth, hheight]
    simp [picture, Picture.rgba, hi.length_pixels hfw hfh, Nat.mul_assoc]
  simp only [Picture.drawn, Int.natAbs_natCast, sizeFault?_eq_none hbytes hh, hfull, hempty, hwidth, hheight]
  rfl

/-- What is staged for an image is its rows, the bottom one first. -/
theorem stagePicture_eq {t : Texture} (ht : t.feedback = false) {width height : Int}
    (hsize : i.picture.sizeOr width height = (↑w, ↑h)) (ws : Workspace) :
    t.stagePicture i.picture width height ws = .ok (ws.setTexture t
      { width := w, height := h, data := i.bottomUp, version := (ws.textureState t).version + 1 }) := by
  obtain ⟨hfw, hfh, hbytes⟩ := hi.fits hw hh hm
  have hcount : (i.bottomUp.length : Int) = Texture.byteCount w h := by
    have hcast : (4 * w * h : Int) = (4 * w * h : Nat) := by push_cast; rfl
    rw [hi.length_bottomUp hfw hfh, Texture.byteCount, hcast, Word.wrap_of_fits]
    simp only [Word.Fits, Word.limit, Word.maxBytes] at hbytes ⊢
    omega
  have hstage : t.stage w h (some i.bottomUp) ws = .ok (ws.setTexture t
      { width := w, height := h, data := i.bottomUp, version := (ws.textureState t).version + 1 }) := by
    rw [Texture.stage, ht, if_neg Bool.false_ne_true, if_neg (by omega)]
    simp only [hcount, ne_eq, not_true_eq_false, if_false]
  simp only [Texture.stagePicture, hsize, hi.drawn_eq hw hh hm, hi.bottomUp_drawn hfw hfh, bind, Except.bind]
  rw [if_neg (by omega), hstage]
  rfl

end Spans

/-! ## Pixels -/

/-- Where a channel of the pixel in column `x` and row `y` is. -/
def place (i : Raster) (x y c : Nat) : Nat := i.offset (i.bounds.x0 + x) (i.bounds.y0 + y) + c

theorem Flipped.pixel (hf : Flipped src w h h i i') {c : Nat} (hx : x < w) (hy : y < h) (hc : c < 4) :
    i'.buffer[i.place x y c]? = src[4 * ((h - 1 - y) * w + x) + c]? := by
  have hread := hf.copied y hy (4 * x + c) (by omega)
  rw [place, Raster.offset_eq, Nat.add_assoc, hread]
  congr 1
  ring

theorem Flipped.outside (hf : Flipped src w h h i i') {p : Nat}
    (hp : ∀ x < w, ∀ y < h, ∀ c < 4, p ≠ i.place x y c) : i'.buffer[p]? = i.buffer[p]? := by
  refine hf.kept p fun y hy hin => ?_
  refine hp ((p - (i.start + y * i.stride)) / 4) (by omega) y hy ((p - (i.start + y * i.stride)) % 4) (by omega) ?_
  rw [place, Raster.offset_eq]
  omega

/-- Flipping copies pixel `(x, h - 1 - y)` of packed rows to `(x, y)`, inside both buffers, and leaves all other
bytes alone. What is staged for an image comes back from it. -/
theorem rows_flipped_and_returned (hw : 0 < w) (hh : 0 < h) :
    (∀ (i : Raster) (src : List UInt8), i.Spans w h → src.length = 4 * w * h →
      i.flipRows? src w h = some (i.flipRows src w h) ∧
      i.flipRows src w h = { i with buffer := (i.flipRows src w h).buffer } ∧
      (i.flipRows src w h).buffer.length = i.buffer.length ∧
      (∀ x < w, ∀ y < h, ∀ c < 4,
        (i.flipRows src w h).buffer[i.place x y c]? = src[4 * ((h - 1 - y) * w + x) + c]?) ∧
      ∀ p, (∀ x < w, ∀ y < h, ∀ c < 4, p ≠ i.place x y c) → (i.flipRows src w h).buffer[p]? = i.buffer[p]?) ∧
    ∀ i : Raster, i.Spans w h → (i.buffer.length : Int) ≤ Word.maxBytes → ∀ t : Texture, t.feedback = false →
      ∀ width height, i.picture.sizeOr width height = (↑w, ↑h) → ∀ ws, ∃ ws',
        t.stagePicture i.picture width height ws = .ok ws' ∧
        ∀ dst : Raster, dst.Spans w h → (dst.flipRows (ws'.textureState t).data w h).pixels = i.pixels := by
  constructor
  · intro i src hi hsrc
    obtain ⟨hchecked, hf⟩ := hi.flipRows_spec hsrc
    exact ⟨hchecked, hf.frame, hf.length, fun x hx y hy c hc => hf.pixel hx hy hc, fun p hp => hf.outside hp⟩
  · intro i hi hm t ht width height hsize ws
    obtain ⟨hfw, hfh, -⟩ := hi.fits hw hh hm
    refine ⟨_, hi.stagePicture_eq hw hh hm ht hsize ws, fun dst hd => ?_⟩
    rw [Workspace.textureState_set, if_pos rfl]
    exact hi.flipRows_bottomUp hd hfw hfh

/-- The lower right corner of an image, as a window into its buffer. -/
def corner : Raster := (filled (.ofSize 3 3) 7).sub ⟨1, 1, 3, 3⟩

theorem corner_flipped_and_returned : corner.Spans 2 2 ∧
    corner.flipRows? (replicate 8 1 ++ replicate 8 2) 2 2 =
      some (corner.flipRows (replicate 8 1 ++ replicate 8 2) 2 2) ∧
    ∃ ws, Texture.stagePicture ⟨0, false⟩ corner.picture 0 2 {} = .ok ws ∧
      (corner.flipRows (ws.textureState ⟨0, false⟩).data 2 2).pixels = corner.pixels := by
  have hspans : corner.Spans 2 2 := ⟨rfl, rfl, by decide, by decide⟩
  obtain ⟨hflip, hback⟩ := rows_flipped_and_returned Nat.two_pos Nat.two_pos
  obtain ⟨ws, hws, hreturn⟩ := hback corner hspans (by decide) ⟨0, false⟩ rfl 0 2 rfl {}
  exact ⟨hspans, (hflip corner _ hspans rfl).1, ws, hws, hreturn corner hspans⟩

end Raster

end ShaderGraph
