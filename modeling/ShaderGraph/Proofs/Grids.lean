import ShaderGraph.Proofs.Literals

/-!
# Elements by rows and by columns

Element `(r, c)` of a matrix with `cols` columns stands at `r * cols + c` by rows, and at
`c * rows + r` by columns. What is written of a matrix are its elements by columns if it is square,
and otherwise those of the matrix with as many rows as it has columns.
-/

namespace ShaderGraph

open List

variable {α : Type} {m n i j : Nat}

/-! ## Blocks of one length -/

theorem length_flatMap_range {f : Nat → List α} (hf : ∀ i < n, (f i).length = m) :
    ((range n).flatMap f).length = n * m := by
  induction n with
  | zero => simp
  | succ n ih =>
    rw [range_succ, flatMap_append, length_append, ih fun i hi => hf i (Nat.lt_succ_of_lt hi), flatMap_singleton,
      hf n (Nat.lt_succ_self n), Nat.succ_mul]

theorem getElem?_flatMap_range {f : Nat → List α} (hf : ∀ i < n, (f i).length = m) (hi : i < n) (hj : j < m) :
    ((range n).flatMap f)[i * m + j]? = (f i)[j]? := by
  induction n with
  | zero => exact absurd hi (Nat.not_lt_zero i)
  | succ n ih =>
    have hf' : ∀ i < n, (f i).length = m := fun i hi => hf i (Nat.lt_succ_of_lt hi)
    have hlen := length_flatMap_range hf'
    rw [range_succ, flatMap_append, flatMap_singleton]
    rcases Nat.lt_succ_iff_lt_or_eq.mp hi with hi | rfl
    · have hlt : i * m + j < n * m := by
        have := Nat.mul_le_mul_right m (Nat.succ_le_of_lt hi)
        rw [Nat.succ_mul] at this
        omega
      rw [getElem?_append_left (hlen ▸ hlt), ih hf' hi]
    · rw [getElem?_append_right (by omega), hlen, Nat.add_sub_cancel_left]

theorem filterMap_range {g : Nat → Option α} (hg : ∀ j < n, (g j).isSome) :
    ((range n).filterMap g).length = n ∧ ∀ j < n, ((range n).filterMap g)[j]? = g j := by
  induction n with
  | zero => simp
  | succ n ih =>
    obtain ⟨hlen, hget⟩ := ih fun j hj => hg j (Nat.lt_succ_of_lt hj)
    obtain ⟨x, hx⟩ := Option.isSome_iff_exists.mp (hg n (Nat.lt_succ_self n))
    rw [range_succ, filterMap_append, filterMap_cons_some hx, filterMap_nil]
    refine ⟨by simp [hlen], fun j hj => ?_⟩
    rcases Nat.lt_succ_iff_lt_or_eq.mp hj with hj | rfl
    · rw [getElem?_append_left (hlen.symm ▸ hj), hget j hj]
    · rw [getElem?_append_right (by omega), hlen, Nat.sub_self, hx]
      rfl

namespace Glsl

variable {rows cols r c : Nat} {values out : List α}

/-- The elements of a matrix of `rows` by `cols`, given by rows, in the order of its columns. -/
structure ByColumns (rows cols : Nat) (values out : List α) : Prop where
  length : out.length = rows * cols
  element : ∀ r < rows, ∀ c < cols, out[c * rows + r]? = values[r * cols + c]?

theorem index_lt (hr : r < rows) (hc : c < cols) : r * cols + c < rows * cols := by
  have := Nat.mul_le_mul_right cols (Nat.succ_le_of_lt hr)
  rw [Nat.succ_mul] at this
  omega

/-- Strides of `rows` go by the columns of a matrix with that many columns. -/
theorem byColumns_strided (h : rows * cols ≤ values.length) : ByColumns cols rows values (strided rows cols values) := by
  have hsome : ∀ i < rows, ∀ j < cols, (values[j * rows + i]?).isSome := by
    intro i hi j hj
    have hlt := index_lt hj hi
    rw [Nat.mul_comm cols rows] at hlt
    simp [hlt.trans_le h]
  have hrow i (hi : i < rows) := filterMap_range (hsome i hi)
  constructor
  · rw [strided, length_flatMap_range fun i hi => (hrow i hi).1, Nat.mul_comm]
  · intro j hj i hi
    rw [strided, getElem?_flatMap_range (fun i hi => (hrow i hi).1) hi hj, (hrow i hi).2 j hj]

end Glsl

/-! ## Literals -/

namespace Glsl

variable {rows cols : Nat} {values : List Float32} {b : List UInt8} {v : Float32}

/-- The literals of values, divided by commas. -/
def separated (vs : List Float32) : List UInt8 := [','.toUInt8].intercalate (vs.map (bytes ∘ literal))

theorem separated_concat (vs : List Float32) (v : Float32) :
    separated (vs ++ [v]) = vs.flatMap (fun w => bytes (literal w) ++ bytes ",") ++ bytes (literal v) := by
  induction vs with
  | nil => simp [separated]
  | cons w vs ih =>
    obtain ⟨u, us, hus⟩ : ∃ u us, vs ++ [v] = u :: us := exists_cons_of_ne_nil (by simp)
    rw [flatMap_cons, append_assoc, ← ih, cons_append, hus]
    simp [separated, intercalate_cons_cons, bytes]

/-! ## Loops -/

/-- The places `(i, j)` in the order of the loops. -/
def places (rows cols : Nat) : List (Nat × Nat) := (range rows).flatMap fun i => (range cols).map (i, ·)

theorem foldlM_places {β : Type} (f : Nat → β → Nat → Option β) (b : β) :
    (range rows).foldlM (fun b i => (range cols).foldlM (f i) b) b =
      (places rows cols).foldlM (fun b p => f p.1 b p.2) b := by
  unfold places
  induction range rows generalizing b with
  | nil => rfl
  | cons i is ih => simp only [foldlM_cons, flatMap_cons, foldlM_append, foldlM_map, ih]

theorem mem_places {p : Nat × Nat} : p ∈ places rows cols ↔ p.1 < rows ∧ p.2 < cols := by
  obtain ⟨i, j⟩ := p
  simp [places]

theorem places_succ (rows cols : Nat) :
    ∃ ps, places (rows + 1) (cols + 1) = ps ++ [(rows, cols)] ∧ (rows, cols) ∉ ps := by
  refine ⟨places rows (cols + 1) ++ (range cols).map (rows, ·), ?_, ?_⟩
  · simp [places, range_succ]
  · simp [mem_places]

theorem strided_eq : strided rows cols values = (places rows cols).filterMap fun p => values[p.2 * rows + p.1]? := by
  simp [strided, places, filterMap_flatMap, filterMap_map]

theorem foldlM_appendElement {ps : List (Nat × Nat)} (hlast : (rows - 1, cols - 1) ∉ ps)
    (hin : ∀ p ∈ ps, p.2 * rows + p.1 < values.length) (b : List UInt8) :
    ps.foldlM (fun b p => appendElement rows cols values p.1 b p.2) b =
      some (b ++ (ps.filterMap fun p => values[p.2 * rows + p.1]?).flatMap
        fun v => bytes (literal v) ++ bytes ",") := by
  induction ps generalizing b with
  | nil => simp
  | cons p ps ih =>
    obtain ⟨hp, hps⟩ := forall_mem_cons.mp hin
    have hne : ¬ (p.1 = rows - 1 ∧ p.2 = cols - 1) := by
      rintro ⟨h1, h2⟩
      exact hlast (h1 ▸ h2 ▸ mem_cons_self)
    have hget := getElem?_eq_getElem hp
    rw [foldlM_cons, appendElement, hget, Option.map_some]
    simp only [if_neg hne, appendLiteral_append]
    simp only [filterMap_cons, hget, flatMap_cons]
    rw [Option.bind_eq_bind, Option.bind_some, ih (fun h => hlast (mem_cons_of_mem _ h)) hps]
    simp only [append_assoc]

/-- The loops write the elements at strides, divided by commas, and read no place out of range. -/
theorem appendColumnMajor_eq (hr : 0 < rows) (hc : 0 < cols) (h : rows * cols ≤ values.length) :
    appendColumnMajor b rows cols values = some (b ++ separated (strided rows cols values)) := by
  obtain ⟨rows, rfl⟩ := Nat.exists_eq_succ_of_ne_zero hr.ne'
  obtain ⟨cols, rfl⟩ := Nat.exists_eq_succ_of_ne_zero hc.ne'
  have hin : ∀ p ∈ places (rows + 1) (cols + 1), p.2 * (rows + 1) + p.1 < values.length := by
    intro p hp
    have hlt := index_lt (mem_places.mp hp).2 (mem_places.mp hp).1
    exact hlt.trans_le (Nat.mul_comm .. ▸ h)
  obtain ⟨ps, hps, hnot⟩ := places_succ rows cols
  rw [hps] at hin
  obtain ⟨hin, hlast⟩ := forall_mem_append.mp hin
  have hget := getElem?_eq_getElem (hlast _ mem_cons_self)
  rw [appendColumnMajor, foldlM_places, strided_eq, hps, foldlM_append, foldlM_appendElement hnot hin, filterMap_append]
  simp only [foldlM_cons, foldlM_nil, appendElement, filterMap_cons, filterMap_nil, hget, separated_concat,
    appendLiteral_append]
  simp

theorem separated_inj {vs ws : List Float32} (hv : vs ≠ []) (hw : ws ≠ []) (h : separated vs = separated ws) :
    vs.map (bytes ∘ literal) = ws.map (bytes ∘ literal) := by
  rw [← splitOn_literals hv, ← separated, h, separated, splitOn_literals hw]

/-- What is written is the matrix by columns with the roles of rows and columns exchanged. For the shapes that
are square or a single row or column this makes no difference, and for no others. -/
theorem columns_written_iff (hr : 0 < rows) (hc : 0 < cols) :
    (∀ (values : List Float32) (b : List UInt8), values.length = rows * cols →
      ∃ out, appendColumnMajor b rows cols values = some (b ++ separated out) ∧ ByColumns cols rows values out) ∧
    ((∀ (values : List Float32) (b : List UInt8), values.length = rows * cols →
      ∃ out, appendColumnMajor b rows cols values = some (b ++ separated out) ∧ ByColumns rows cols values out) ↔
      rows = cols ∨ rows = 1 ∨ cols = 1) := by
  have hwritten (values : List Float32) (b : List UInt8) (h : values.length = rows * cols) :
      ∃ out, appendColumnMajor b rows cols values = some (b ++ separated out) ∧ ByColumns cols rows values out :=
    ⟨_, appendColumnMajor_eq hr hc (Nat.le_of_eq h.symm), byColumns_strided (Nat.le_of_eq h.symm)⟩
  refine ⟨hwritten, fun h => ?_, ?_⟩
  · -- One element tells the two orders apart: the second that is written.
    by_contra! hne
    obtain ⟨hne, hr1, hc1⟩ := hne
    have hr2 : 1 < rows := by omega
    have hc2 : 1 < cols := by omega
    have hrow : rows < rows * cols := (Nat.lt_mul_iff_one_lt_right hr).mpr hc2
    have hcol : cols < rows * cols := (Nat.lt_mul_iff_one_lt_left hc).mpr hr2
    have hlen : ((replicate (rows * cols) (0 : Float32)).set rows 1).length = rows * cols := by simp
    obtain ⟨out, hout, hwrong⟩ := hwritten _ [] hlen
    obtain ⟨out', hout', hright⟩ := h _ [] hlen
    have hsame := separated_inj (length_pos_iff.mp (hwrong.length ▸ by positivity))
      (length_pos_iff.mp (hright.length ▸ by positivity)) (append_cancel_left (Option.some.inj (hout.symm.trans hout')))
    have hone : out[1]? = some 1 := by simpa [hrow] using hwrong.element 1 hc2 0 hr
    have hzero : out'[1]? = some 0 := by simpa [hcol, hne] using hright.element 1 hr2 0 hc
    have hbytes := congrArg (·[1]?) hsame
    simp only [getElem?_map, hone, hzero, Option.map_some, Option.some.injEq] at hbytes
    exact absurd hbytes (by decide +kernel)
  · rintro hshape values b hlen
    obtain ⟨out, hout, hcols⟩ := hwritten values b hlen
    refine ⟨out, hout, ?_⟩
    rcases hshape with rfl | rfl | rfl
    · exact hcols
    · refine ⟨hcols.length.trans (Nat.mul_comm ..), fun r hr c hc => ?_⟩
      obtain rfl := Nat.lt_one_iff.mp hr
      simpa using hcols.element c hc 0 Nat.one_pos
    · refine ⟨hcols.length.trans (Nat.mul_comm ..), fun r hr c hc => ?_⟩
      obtain rfl := Nat.lt_one_iff.mp hc
      simpa using hcols.element 0 Nat.one_pos r hr

/-- Two rows of three columns are written as three rows of two. -/
theorem wide_matrix_miswritten : ByColumns 2 3 [0, 1, 2, 3, 4, 5] [0, 3, 1, 4, 2, 5] ∧
    appendColumnMajor [] 2 3 [0, 1, 2, 3, 4, 5] = some (bytes "0.0,2.0,4.0,1.0,3.0,5.0") ∧
    separated [0, 3, 1, 4, 2, 5] = bytes "0.0,3.0,1.0,4.0,2.0,5.0" :=
  ⟨⟨rfl, by decide +kernel⟩, by decide +kernel, by decide +kernel⟩

/-- A square matrix, after a text. -/
theorem square_matrix_written : 0 < 2 ∧ ∃ out, appendColumnMajor (bytes "m=") 2 2 [0, 1, 2, 3] =
    some (bytes "m=" ++ separated out) ∧ ByColumns 2 2 [0, 1, 2, 3] out :=
  ⟨Nat.two_pos, (columns_written_iff Nat.two_pos Nat.two_pos).1 _ _ rfl⟩

end Glsl

end ShaderGraph
