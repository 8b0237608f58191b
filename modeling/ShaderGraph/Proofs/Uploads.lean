import ShaderGraph.Proofs.Grids
import ShaderGraph.Proofs.Meaning
import ShaderGraph.Proofs.Staging

/-!
# Matrices that are uploaded and matrices that are written

The elements of a matrix go to a uniform by columns, and a constant matrix is written by columns. Both
orders are the same for square matrices, and going by columns twice gives the rows back.
-/

namespace ShaderGraph

open List

universe u

namespace Glsl

variable {α : Type} {rows cols n : Nat} {values out out' : List α}

theorem ByColumns.symm (h : ByColumns rows cols values out) (hlen : values.length = rows * cols) :
    ByColumns cols rows out values :=
  ⟨hlen.trans (Nat.mul_comm ..), fun r hr c hc => (h.element c hc r hr).symm⟩

theorem ByColumns.unique (h : ByColumns rows cols values out) (h' : ByColumns rows cols values out') : out = out' := by
  refine ext_getElem? fun i => ?_
  by_cases hi : i < rows * cols
  · have hrow : i % rows < rows := Nat.mod_lt _ (Nat.pos_of_mul_pos_right (Nat.zero_lt_of_lt hi))
    have hcol : i / rows < cols := Nat.div_lt_of_lt_mul hi
    have hget := (h.element _ hrow _ hcol).trans (h'.element _ hrow _ hcol).symm
    rwa [Nat.div_add_mod'] at hget
  · have hi := Nat.le_of_not_lt hi
    rw [getElem?_eq_none (h.length ▸ hi), getElem?_eq_none (h'.length ▸ hi)]

theorem byColumns_columnMajor (h : n * n ≤ values.length) : ByColumns n n values (columnMajor n values) :=
  byColumns_strided h

theorem columnMajor_columnMajor (h : values.length = n * n) : columnMajor n (columnMajor n values) = values := by
  have hcols := byColumns_columnMajor h.ge
  exact (byColumns_columnMajor hcols.length.ge).unique (hcols.symm h)

theorem foldlM_concat {β : Type} {g : β → Option α} {ps : List β} (h : ∀ p ∈ ps, (g p).isSome) (dst : List α) :
    ps.foldlM (fun dst p => (g p).map fun v => dst ++ [v]) dst = some (dst ++ ps.filterMap g) := by
  induction ps generalizing dst with
  | nil => simp
  | cons p ps ih =>
    obtain ⟨hp, hps⟩ := forall_mem_cons.mp h
    obtain ⟨v, hv⟩ := Option.isSome_iff_exists.mp hp
    rw [foldlM_cons, hv, filterMap_cons_some hv, Option.map_some, Option.bind_eq_bind, Option.bind_some, ih hps]
    simp

/-- The loops go by columns, and read no place out of range. -/
theorem appendColumns_eq {values : List Float32} (h : n * n ≤ values.length) (dst : List Float32) :
    appendColumns dst n values = some (dst ++ columnMajor n values) := by
  rw [appendColumns, foldlM_places, foldlM_concat, ← strided_eq]
  · rfl
  · intro p hp
    have hlt := (index_lt (mem_places.mp hp).2 (mem_places.mp hp).1).trans_le h
    rw [getElem?_eq_getElem hlt]
    rfl

/-- What is uploaded of a square matrix is its transposition, from which a second one gives it back, and its
literals are those that are written of the matrix. So a uniform that has the value staged for it denotes the
same as the constant. -/
theorem uploaded_as_written {n : Nat} {m : List Float32} (hm : m.length = n * n) (dst : List Float32) (b : List UInt8) :
    ∃ out, appendColumns dst n m = some (dst ++ out) ∧ ByColumns n n m out ∧
      appendColumns dst n out = some (dst ++ m) ∧
      appendColumnMajor b n n m = some (appendLiterals b out) ∧
      (n = 4 → ∀ (u : Uniform) (w : Workspace), u.type = .mat4 → u.texture = none → ∃ w', u.stageMatrix m w = .ok w' ∧
        ∀ {V : Type u} (I : Interpretation V) (i k : NodeId),
          I.resource u.name = I.literals u.type (w'.uniformState u).value →
          (Node.uniform i u).denote I = (Node.constant k (.mat4 m)).denote I) := by
  have hcols := byColumns_columnMajor hm.ge
  refine ⟨columnMajor n m, appendColumns_eq hm.ge dst, hcols, ?_, ?_, ?_⟩
  · rw [appendColumns_eq hcols.length.ge, columnMajor_columnMajor hm]
  · rw [appendLiterals_eq]
    rcases Nat.eq_zero_or_pos n with rfl | hn
    · simp [appendColumnMajor, columnMajor]
    · exact appendColumnMajor_eq hn hn hm.ge
  · rintro rfl u w htype htexture
    have hfits : u.refuses? (columnMajor 4 m) = none := by
      simp [Uniform.refuses?, htexture, htype, hcols.length, GlType.components]
    refine ⟨_, by rw [Uniform.stageMatrix, Uniform.stage, hfits], fun I i k hI => ?_⟩
    rw [Workspace.uniformState_set, if_pos rfl] at hI
    simp only [Node.denote, hI, htype]
    rfl

/-- The entries of a matrix, row by row. -/
def sixteen : List Float32 := [0, 1, 2, 3, 4, 5, 6, 7, 8, 9, 10, 11, 12, 13, 14, 15]

theorem sixteen_uploaded : appendColumns [] 4 sixteen = some [0, 4, 8, 12, 1, 5, 9, 13, 2, 6, 10, 14, 3, 7, 11, 15] ∧
    ∃ w', Uniform.stageMatrix { id := 31, type := .mat4 } sixteen {} = .ok w' ∧
      ∀ (I : Interpretation Nat), I.resource "uniform31" = I.literals .mat4 (w'.uniformState { id := 31, type := .mat4 }).value →
        (Node.uniform 32 { id := 31, type := .mat4 }).denote I = (Node.constant 33 (.mat4 sixteen)).denote I := by
  obtain ⟨out, hout, -, -, -, hdenote⟩ := uploaded_as_written (n := 4) (m := sixteen) rfl [] []
  obtain ⟨w', hw, hI⟩ := hdenote rfl { id := 31, type := .mat4 } {} rfl rfl
  exact ⟨by decide +kernel, w', hw, fun I hr => hI I 32 33 hr⟩

end Glsl

end ShaderGraph
