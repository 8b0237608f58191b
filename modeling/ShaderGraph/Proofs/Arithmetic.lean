import Mathlib.Data.List.Induction
import ShaderGraph.Proofs.Typing

/-!
# Arithmetic

What `+`, `-`, `*` and `/` mean between floats, vectors and square matrices, and which type an
expression has that joins any number of operands from left to right. The check of an operand list
compares each operand with the first one that is not a float, and the type of the whole is found by
another scan of the list. Both are compared with the rules through `families`: the types that can
stand together in one expression.
-/

namespace ShaderGraph

open List

/-! ## Rules -/

/-- The dimensions of vectors and square matrices. -/
inductive Dimension where
  | two
  | three
  | four

namespace Dimension

def vector : Dimension → GlType
  | two => .vec2
  | three => .vec3
  | four => .vec4

def matrix : Dimension → GlType
  | two => .mat2
  | three => .mat3
  | four => .mat4

end Dimension

namespace Operator

/-- An arithmetic operator between two operands of the given types, and the type of the result. -/
inductive Arithmetic (op : Operator) : GlType → GlType → GlType → Prop where
  | scalars : Arithmetic op .float .float .float
  /-- A float is combined with every component. -/
  | scalarVector (d : Dimension) : Arithmetic op .float d.vector d.vector
  | vectorScalar (d : Dimension) : Arithmetic op d.vector .float d.vector
  | scalarMatrix (d : Dimension) : Arithmetic op .float d.matrix d.matrix
  | matrixScalar (d : Dimension) : Arithmetic op d.matrix .float d.matrix
  | vectors (d : Dimension) : Arithmetic op d.vector d.vector d.vector
  /-- Component by component, or the product of linear algebra. -/
  | matrices (d : Dimension) : Arithmetic op d.matrix d.matrix d.matrix
  /-- The vector is a column. -/
  | matrixVector (d : Dimension) (h : op = mult) : Arithmetic op d.matrix d.vector d.vector
  /-- The vector is a row. -/
  | vectorMatrix (d : Dimension) (h : op = mult) : Arithmetic op d.vector d.matrix d.vector

/-- Operands of the given types, joined by an arithmetic operator from left to right, make an
expression of a type. -/
inductive Typed (op : Operator) : List GlType → GlType → Prop where
  | scalar : Typed op [.float] .float
  | vector (d : Dimension) : Typed op [d.vector] d.vector
  | matrix (d : Dimension) : Typed op [d.matrix] d.matrix
  | apply {ts : List GlType} {a b t : GlType} (hts : Typed op ts a) (hb : Arithmetic op a b t) :
      Typed op (ts ++ [b]) t

/-! ## Types that stand together -/

def arithmetic : List Operator := [add, sub, mult, div]

theorem mem_arithmetic {op : Operator} : op.isArithmetic ↔ op ∈ arithmetic := by
  cases op <;> decide

/-- The types besides `float` that the operands of one expression can have. The expression has the
first of them that occurs. -/
def families (op : Operator) : List (List GlType) :=
  if op = mult then [[.vec2, .mat2], [.vec3, .mat3], [.vec4, .mat4]]
  else [[.vec2], [.vec3], [.vec4], [.mat2], [.mat3], [.mat4]]

/-- Every operand is a float or of the family. -/
def Blends (f ts : List GlType) : Prop := ∀ t ∈ ts, t ∈ GlType.float :: f

/-- The first type of a family that occurs, or `float`. -/
def blend (f ts : List GlType) : GlType := (f.find? (· ∈ ts)).getD .float

section
variable {op : Operator} {f ts : List GlType} {a b t : GlType}

theorem blends_cons : Blends f (t :: ts) ↔ t ∈ GlType.float :: f ∧ Blends f ts := forall_mem_cons

theorem blends_concat : Blends f (ts ++ [b]) ↔ Blends f ts ∧ b ∈ GlType.float :: f := by
  simp only [Blends, forall_mem_append, forall_mem_singleton]

theorem blend_mem (f ts : List GlType) : blend f ts ∈ GlType.float :: f := by
  unfold blend
  cases h : f.find? (· ∈ ts) with
  | none => exact mem_cons_self
  | some t => exact mem_cons_of_mem _ (mem_of_find?_eq_some h)

theorem not_mem_of_blend_float (hf : .float ∉ f) (h : blend f ts = .float) : ∀ t ∈ f, t ∉ ts := by
  unfold blend at h
  cases hx : f.find? (· ∈ ts) with
  | none => simpa using hx
  | some t =>
    rw [hx] at h
    exact absurd (h ▸ mem_of_find?_eq_some hx) hf

theorem blend_cons (f ts : List GlType) (t : GlType) :
    blend (t :: f) ts = if t ∈ ts then t else blend f ts := by
  unfold blend
  by_cases h : t ∈ ts <;> simp [h]

theorem mem_or_float_of_blend (f ts : List GlType) : blend f ts ∈ ts ∨ blend f ts = .float := by
  unfold blend
  cases h : f.find? (· ∈ ts) with
  | none => exact .inr rfl
  | some t => exact .inl (by simpa using find?_some h)

theorem blend_concat (hf : .float ∉ f) (ts : List GlType) (b : GlType) :
    blend f (ts ++ [b]) = blend f [blend f ts, b] := by
  induction f with
  | nil => rfl
  | cons t f ih =>
    obtain ⟨hne, hf⟩ := not_or.mp (mt mem_cons.mpr hf)
    simp only [blend_cons, mem_append, mem_cons, not_mem_nil, or_false]
    by_cases ht : t ∈ ts
    · simp [ht]
    · have hblend : t ≠ blend f ts := fun h =>
        (mem_or_float_of_blend f ts).elim (fun hm => ht (h ▸ hm)) fun hm => hne (h.trans hm).symm
      simp only [ht, if_false, false_or, hblend, ih hf]

end

/-! ## The rules and the families -/

section
variable {op : Operator} {f ts : List GlType} {a b t : GlType}

theorem numeric_cases (h : t.isNumeric) : t = .float ∨ ∃ d : Dimension, t = d.vector ∨ t = d.matrix := by
  cases t with
  | float => exact .inl rfl
  | vec2 => exact .inr ⟨.two, .inl rfl⟩
  | vec3 => exact .inr ⟨.three, .inl rfl⟩
  | vec4 => exact .inr ⟨.four, .inl rfl⟩
  | mat2 => exact .inr ⟨.two, .inr rfl⟩
  | mat3 => exact .inr ⟨.three, .inr rfl⟩
  | mat4 => exact .inr ⟨.four, .inr rfl⟩
  | _ => cases h

theorem arithmetic_componentwise (h : componentwise? a b = some t) : Arithmetic op a b t := by
  unfold componentwise? at h
  split_ifs at h with hnum hab hfloat
  · cases h
    simp only [Bool.or_eq_true, Bool.not_eq_true', not_or, Bool.not_eq_false] at hnum
    rcases hab with rfl | rfl
    · obtain rfl | ⟨d, rfl | rfl⟩ := numeric_cases hnum.1
      · exact .scalars
      · exact .vectors d
      · exact .matrices d
    · obtain rfl | ⟨d, rfl | rfl⟩ := numeric_cases hnum.1
      · exact .scalars
      · exact .vectorScalar d
      · exact .matrixScalar d
  · cases h
    simp only [Bool.or_eq_true, Bool.not_eq_true', not_or, Bool.not_eq_false] at hnum
    subst hfloat
    obtain rfl | ⟨d, rfl | rfl⟩ := numeric_cases hnum.2
    · exact .scalars
    · exact .scalarVector d
    · exact .scalarMatrix d

theorem arithmetic_matrixVector (h : a.matrixVector b) :
    Arithmetic mult a b (if a.isVector then a else b) := by
  unfold GlType.matrixVector at h
  split at h
  · exact .matrixVector .two rfl
  · exact .vectorMatrix .two rfl
  · exact .matrixVector .three rfl
  · exact .vectorMatrix .three rfl
  · exact .matrixVector .four rfl
  · exact .vectorMatrix .four rfl
  · cases h

/-- The rules, as they are decided. -/
theorem arithmetic_iff (hop : op.isArithmetic) : Arithmetic op a b t ↔ op.overload? a b = some t := by
  constructor
  · intro h
    cases h with
    | scalars => cases op <;> first | rfl | cases hop
    | scalarVector d | vectorScalar d | scalarMatrix d | matrixScalar d | vectors d | matrices d =>
      cases op <;> cases d <;> first | rfl | cases hop
    | matrixVector d h | vectorMatrix d h =>
      subst h
      cases d <;> rfl
  · intro h
    cases op with
    | add | sub | div => exact arithmetic_componentwise h
    | mult =>
      simp only [overload?] at h
      by_cases hmv : a.matrixVector b
      · rw [if_pos hmv] at h
        exact Option.some.inj h ▸ arithmetic_matrixVector hmv
      · rw [if_neg hmv] at h
        exact arithmetic_componentwise h
    | _ => cases hop

theorem overload_family : ∀ op ∈ arithmetic, ∀ f ∈ op.families, ∀ a ∈ GlType.float :: f,
    ∀ b ∈ GlType.float :: f, op.overload? a b = some (blend f [a, b]) := by decide

theorem family_of_overload : ∀ op ∈ arithmetic, ∀ f ∈ op.families, ∀ a ∈ f, ∀ b ∈ GlType.named,
    op.overload? a b ≠ none → b ∈ GlType.float :: f := by decide

theorem float_not_mem_family : ∀ op ∈ arithmetic, ∀ f ∈ op.families, GlType.float ∉ f := by decide

theorem numeric_of_family : ∀ op ∈ arithmetic, ∀ f ∈ op.families, ∀ t ∈ GlType.float :: f,
    t.isNumeric := by decide

theorem exists_family : ∀ op ∈ arithmetic, ∀ t ∈ GlType.named, t.isNumeric →
    ∃ f ∈ op.families, t ∈ GlType.float :: f := by decide

theorem named_of_arithmetic (h : Arithmetic op a b t) : b ∈ GlType.named ∧ b.isNumeric := by
  cases h with
  | scalars | vectorScalar | matrixScalar => decide
  | scalarVector d | scalarMatrix d | vectors d | matrices d | matrixVector d | vectorMatrix d =>
    cases d <;> decide

theorem blend_singleton (hf : .float ∉ f) (ht : t ∈ GlType.float :: f) : blend f [t] = t := by
  induction f with
  | nil => exact (mem_singleton.mp ht).symm
  | cons a f ih =>
    obtain ⟨hne, hf⟩ := not_or.mp (mt mem_cons.mpr hf)
    rw [blend_cons]
    by_cases ha : a = t
    · simp [ha]
    · rw [if_neg (by simpa using ha)]
      refine ih hf ?_
      simp only [mem_cons] at ht ⊢
      exact ht.imp_right fun h => h.resolve_left (Ne.symm ha)

theorem typed_blend (hop : op.isArithmetic) (hf : f ∈ op.families) (hne : ts ≠ []) (h : Blends f ts) :
    Typed op ts (blend f ts) := by
  have hmem := mem_arithmetic.mp hop
  have hfloat := float_not_mem_family op hmem f hf
  induction ts using List.reverseRecOn with
  | nil => exact absurd rfl hne
  | append_singleton ts b ih =>
    obtain ⟨hts, hb⟩ := blends_concat.mp h
    by_cases hnil : ts = []
    · subst hnil
      rw [nil_append, blend_singleton hfloat hb]
      obtain rfl | ⟨d, rfl | rfl⟩ := numeric_cases (numeric_of_family op hmem f hf b hb)
      · exact .scalar
      · exact .vector d
      · exact .matrix d
    · rw [blend_concat hfloat]
      refine .apply (ih hnil hts) ((arithmetic_iff hop).mpr ?_)
      exact overload_family op hmem f hf _ (blend_mem f ts) b hb

theorem blends_operand (hop : op.isArithmetic) (ht : t ∈ GlType.named) (hnum : t.isNumeric) :
    ∃ f ∈ op.families, Blends f [t] ∧ t = blend f [t] := by
  have hmem := mem_arithmetic.mp hop
  obtain ⟨f, hf, htf⟩ := exists_family op hmem t ht hnum
  exact ⟨f, hf, forall_mem_singleton.mpr htf,
    (blend_singleton (float_not_mem_family op hmem f hf) htf).symm⟩

theorem Typed.blends (hop : op.isArithmetic) (h : Typed op ts t) :
    ∃ f ∈ op.families, Blends f ts ∧ t = blend f ts := by
  have hmem := mem_arithmetic.mp hop
  induction h with
  | scalar => exact blends_operand hop (by decide) rfl
  | vector d => exact blends_operand hop (by cases d <;> decide) (by cases d <;> rfl)
  | matrix d => exact blends_operand hop (by cases d <;> decide) (by cases d <;> rfl)
  | @apply ts a b t _ hb ih =>
    obtain ⟨f, hf, hts, rfl⟩ := ih
    obtain ⟨hnamed, hnum⟩ := named_of_arithmetic hb
    have hover := (arithmetic_iff hop).mp hb
    -- in a family with all the operands, the type is given by the two that meet last
    have hfinish {g : List GlType} (hg : g ∈ op.families) (hts : Blends g ts) (hbg : b ∈ GlType.float :: g)
        (heq : blend g ts = blend f ts) : ∃ f ∈ op.families, Blends f (ts ++ [b]) ∧ t = blend f (ts ++ [b]) := by
      refine ⟨g, hg, blends_concat.mpr ⟨hts, hbg⟩, ?_⟩
      have hg' := overload_family op hmem g hg _ (blend_mem g ts) b hbg
      rw [heq, hover] at hg'
      rw [blend_concat (float_not_mem_family op hmem g hg), heq]
      exact Option.some.inj hg'
    by_cases hbf : b ∈ GlType.float :: f
    · exact hfinish hf hts hbf rfl
    · -- only floats came before, so the family is that of the new operand
      have hfloat : blend f ts = .float := by
        refine (mem_cons.mp (blend_mem f ts)).resolve_right fun ha => hbf ?_
        exact family_of_overload op hmem f hf _ ha b hnamed (by simp [hover])
      have hnone := not_mem_of_blend_float (float_not_mem_family op hmem f hf) hfloat
      have hfloats : ∀ a ∈ ts, a = .float := fun a ha =>
        (mem_cons.mp (hts a ha)).resolve_right fun haf => hnone a haf ha
      obtain ⟨g, hg, hbg⟩ := exists_family op hmem b hnamed hnum
      refine hfinish hg (fun a ha => mem_cons.mpr (.inl (hfloats a ha))) hbg ?_
      rw [hfloat]
      exact (mem_or_float_of_blend g ts).elim (hfloats _) id

end

/-! ## The check and the type of an operand list -/

section
variable {op : Operator} {f ts : List GlType} {s t : GlType}

theorem checkFrom_cons (hop : op.isArithmetic) (ht : t ∈ GlType.named) (i : Nat) (shape : Option GlType)
    (ts : List GlType) : op.checkFrom i shape (t :: ts) = [] ↔
      (t.isNumeric ∧ ∀ s ∈ shape, t = .float ∨ s = t ∨ op = mult ∧ s.matrixVector t) ∧
        op.checkFrom (i + 1) (if t = .float then shape else some (shape.getD t)) ts = [] := by
  have hlogical : ¬ op.isLogical := by cases op <;> first | decide | cases hop
  have hordering : ¬ op.isOrdering := by cases op <;> first | decide | cases hop
  have heq : op ≠ eq := by rintro rfl; cases hop
  rw [checkFrom.eq_def]
  dsimp only
  by_cases hnum : t.isNumeric
  · have hvalue : ¬ (t = .sampler2D ∨ t = .function) := by rintro (rfl | rfl) <;> cases hnum
    have hbool : t ≠ .bool := by rintro rfl; cases hnum
    simp only [hvalue, hlogical, hordering, hbool, hnum, if_false, false_and, and_false, true_and]
    by_cases hfloat : t = .float
    · subst hfloat
      simp [GlType.isScalar]
    · have hscalar : ¬ t.isScalar := by cases t <;> simp [GlType.isScalar] at hfloat hbool ⊢
      simp only [hscalar, hfloat, if_false, false_or]
      cases shape with
      | none => simp
      | some s =>
        simp only [Option.mem_some_iff, forall_eq', Option.getD_some]
        by_cases h : s ≠ t ∧ ¬ (op = mult ∧ s.matrixVector t)
        · rw [if_pos h]
          exact iff_of_false (cons_ne_nil _ _) fun hc => hc.1.elim h.1 h.2
        · rw [if_neg h]
          exact (and_iff_right (or_iff_not_imp_left.mpr fun hs => not_not.mp fun hm => h ⟨hs, hm⟩)).symm
  · have hbad : t = .bool ∨ t = .sampler2D ∨ t = .function := by
      cases t <;> simp [GlType.isNumeric] at hnum ⊢
      simp [GlType.named] at ht
    refine iff_of_false (fun h => ?_) fun h => hnum h.1.1
    rcases hbad with rfl | rfl | rfl <;> simp [hlogical, heq] at h

theorem passes_family : ∀ op ∈ arithmetic, ∀ f ∈ op.families, ∀ s ∈ f, ∀ t ∈ GlType.named,
    (t.isNumeric ∧ (t = .float ∨ s = t ∨ op = mult ∧ s.matrixVector t)) ↔ t ∈ GlType.float :: f := by
  decide

theorem checkFrom_family (hop : op.isArithmetic) (hf : f ∈ op.families) (hs : s ∈ f)
    (hts : ∀ t ∈ ts, t ∈ GlType.named) (i : Nat) : op.checkFrom i (some s) ts = [] ↔ Blends f ts := by
  induction ts generalizing i with
  | nil => exact iff_of_true rfl (forall_mem_nil _)
  | cons t ts ih =>
    obtain ⟨ht, hts⟩ := forall_mem_cons.mp hts
    have hpass := passes_family op (mem_arithmetic.mp hop) f hf s hs t ht
    rw [checkFrom_cons hop ht, Option.getD_some, ite_self, ih hts, blends_cons, ← hpass]
    simp only [Option.mem_some_iff, forall_eq']

theorem check_iff (hop : op.isArithmetic) (hts : ∀ t ∈ ts, t ∈ GlType.named) :
    op.check ts = [] ↔ ∃ f ∈ op.families, Blends f ts := by
  have hmem := mem_arithmetic.mp hop
  suffices h : ∀ i, op.checkFrom i none ts = [] ↔ ∃ f ∈ op.families, Blends f ts from h 0
  induction ts with
  | nil =>
    obtain ⟨f, hf, -⟩ := exists_family op hmem .float (by decide) rfl
    exact fun i => iff_of_true rfl ⟨f, hf, forall_mem_nil _⟩
  | cons t ts ih =>
    intro i
    obtain ⟨ht, hts⟩ := forall_mem_cons.mp hts
    rw [checkFrom_cons hop ht]
    by_cases hfloat : t = .float
    · rw [if_pos hfloat, ih hts]
      simp [hfloat, blends_cons, GlType.isNumeric]
    · rw [if_neg hfloat, Option.getD_none]
      constructor
      · rintro ⟨⟨hnum, -⟩, hrest⟩
        obtain ⟨f, hf, htf⟩ := exists_family op hmem t ht hnum
        have htf' := (mem_cons.mp htf).resolve_left hfloat
        exact ⟨f, hf, blends_cons.mpr ⟨htf, (checkFrom_family hop hf htf' hts _).mp hrest⟩⟩
      · rintro ⟨f, hf, hblends⟩
        obtain ⟨htf, hrest⟩ := blends_cons.mp hblends
        have htf' := (mem_cons.mp htf).resolve_left hfloat
        refine ⟨⟨numeric_of_family op hmem f hf t htf, fun _ h => absurd h (Option.not_mem_none _)⟩, ?_⟩
        exact (checkFrom_family hop hf htf' hts _).mpr hrest

theorem wider_family : ∀ op ∈ arithmetic, ∀ f ∈ op.families, ∀ a ∈ GlType.float :: f,
    ∀ b ∈ GlType.float :: f, a.wider b = blend f.reverse [a, b] := by decide

theorem promote_blends (hop : op.isArithmetic) (hf : f ∈ op.families) (hne : ts ≠ []) (h : Blends f ts) :
    GlType.promote ts = blend f.reverse ts := by
  have hmem := mem_arithmetic.mp hop
  have hfloat : GlType.float ∉ f.reverse := by simpa using float_not_mem_family op hmem f hf
  have hreverse {t : GlType} : t ∈ GlType.float :: f.reverse ↔ t ∈ GlType.float :: f := by simp
  induction ts using List.reverseRecOn with
  | nil => exact absurd rfl hne
  | append_singleton ts b ih =>
    obtain ⟨hts, hb⟩ := blends_concat.mp h
    have hpromote : GlType.promote (ts ++ [b]) = (GlType.promote ts).wider b := foldl_append ..
    rw [hpromote]
    by_cases hnil : ts = []
    · subst hnil
      rw [nil_append, blend_singleton hfloat (hreverse.mpr hb)]
      have hnum := numeric_of_family op hmem f hf b hb
      cases b <;> first | rfl | cases hnum
    · rw [ih hnil hts, blend_concat hfloat]
      exact wider_family op hmem f hf _ (hreverse.mp (blend_mem f.reverse ts)) b hb

theorem lastVector_eq {v : GlType} (hv : v.isVector) (h : ∀ t ∈ ts, t.isVector → t = v) :
    lastVector? ts = if v ∈ ts then some v else none := by
  have hall : ∀ t ∈ ts.filter (·.isVector), t = v := fun t ht =>
    h t (mem_filter.mp ht).1 (mem_filter.mp ht).2
  unfold lastVector?
  by_cases hmem : v ∈ ts
  · have hne : ts.filter (·.isVector) ≠ [] := ne_nil_of_mem (mem_filter.mpr ⟨hmem, hv⟩)
    rw [if_pos hmem, getLast?_eq_some_getLast hne, hall _ (List.getLast_mem hne)]
  · have hnil : ts.filter (·.isVector) = [] :=
      filter_eq_nil_iff.mpr fun t ht htv => hmem (h t ht htv ▸ ht)
    rw [if_neg hmem, hnil, getLast?_nil]

theorem resultType_mult {d : Dimension} (h : Blends [d.vector, d.matrix] ts)
    (hpromote : GlType.promote ts = blend [d.matrix, d.vector] ts) :
    mult.resultType ts = blend [d.vector, d.matrix] ts := by
  have hcases : ∀ t ∈ ts, t = .float ∨ t = d.vector ∨ t = d.matrix := by
    simpa [Blends] using h
  have hvector : lastVector? ts = if d.vector ∈ ts then some d.vector else none := by
    refine lastVector_eq (by cases d <;> rfl) fun t ht htv => ?_
    rcases hcases t ht with rfl | rfl | rfl
    · cases htv
    · rfl
    · cases d <;> cases htv
  have hmatrix : ts.any (·.isMatrix) ↔ d.matrix ∈ ts := by
    rw [any_eq_true]
    constructor
    · rintro ⟨t, ht, htm⟩
      rcases hcases t ht with rfl | rfl | rfl
      · cases htm
      · cases d <;> cases htm
      · exact ht
    · exact fun hm => ⟨_, hm, by cases d <;> rfl⟩
  simp only [resultType, isArithmetic, Bool.not_true, Bool.false_eq_true, if_false, true_and, hmatrix,
    hvector, hpromote, blend_cons]
  by_cases hm : d.matrix ∈ ts <;> by_cases hv : d.vector ∈ ts <;> simp [hm, hv]

theorem resultType_blends (hop : op.isArithmetic) (hf : f ∈ op.families) (hne : ts ≠ [])
    (h : Blends f ts) : op.resultType ts = blend f ts := by
  have hpromote := promote_blends hop hf hne h
  by_cases hmult : op = mult
  · subst hmult
    obtain ⟨d, rfl⟩ : ∃ d : Dimension, f = [d.vector, d.matrix] := by
      rcases mem_cons.mp hf with rfl | hf
      · exact ⟨.two, rfl⟩
      · rcases mem_pair.mp hf with rfl | rfl
        · exact ⟨.three, rfl⟩
        · exact ⟨.four, rfl⟩
    exact resultType_mult h hpromote
  · obtain ⟨s, rfl⟩ : ∃ s, f = [s] := by
      rw [families, if_neg hmult] at hf
      simp only [mem_cons, not_mem_nil, or_false] at hf
      rcases hf with rfl | rfl | rfl | rfl | rfl | rfl <;> exact ⟨_, rfl⟩
    simpa [resultType, hop, hmult] using hpromote

end

end Operator

theorem Step.operate_eq {c : Scope} {op : Operator} {gs : List Generated} (hne : gs ≠ []) {s s' : Session}
    {g : Generated} (hr : (operate c op gs).run s = (g, s')) :
    (s'.registry c.stage).errors = (s.registry c.stage).errors ++ op.check (gs.map (·.type)) ∧
      g.type = op.resultType (gs.map (·.type)) := by
  have hφ : (Node.operator 0 op []).form? s.folding gs =
      some ((Form.operation op gs).fold s.folding op.fold?) := by
    simp [Node.form?, hne]
  have hrun := Node.run_step hφ c
  rw [show (Node.operator 0 op []).step c gs = operate c op gs from rfl, hr] at hrun
  cases hrun
  refine ⟨Form.session_errors .., ?_⟩
  unfold Form.fold folded?
  split
  · next hx =>
    split_ifs at hx with hc
    exact hc.2.symm
  · rfl

namespace Operator

/-- The typing of arithmetic is exact, for any number of operands with types that have a name: the
check passes an operand list just if the operands make an expression, and the expression has the type
that is written in its declaration. Evaluation records an error just if there is no such expression. -/
theorem arithmetic_exact (op : Operator) (hop : op.isArithmetic) {ts : List GlType} (hne : ts ≠ [])
    (hts : ∀ t ∈ ts, t ∈ GlType.named) :
    (op.check ts = [] ↔ ∃ t, op.Typed ts t) ∧ (∀ t, op.Typed ts t → op.resultType ts = t) ∧
      ∀ c gs s g s', gs.map (·.type) = ts → (Step.operate c op gs).run s = (g, s') →
        ((s'.registry c.stage).errors = (s.registry c.stage).errors ↔ ∃ t, op.Typed ts t) ∧
          ∀ t, op.Typed ts t → g.type = t := by
  have hcheck : op.check ts = [] ↔ ∃ t, op.Typed ts t := by
    rw [check_iff hop hts]
    constructor
    · rintro ⟨f, hf, hblends⟩
      exact ⟨_, typed_blend hop hf hne hblends⟩
    · rintro ⟨t, ht⟩
      obtain ⟨f, hf, hblends, -⟩ := ht.blends hop
      exact ⟨f, hf, hblends⟩
  have htype : ∀ t, op.Typed ts t → op.resultType ts = t := by
    intro t ht
    obtain ⟨f, hf, hblends, rfl⟩ := ht.blends hop
    exact resultType_blends hop hf hne hblends
  refine ⟨hcheck, htype, fun c gs s g s' hgs hr => ?_⟩
  subst hgs
  obtain ⟨herrors, hg⟩ := Step.operate_eq (by simpa using hne) hr
  refine ⟨?_, fun t ht => hg.trans (htype t ht)⟩
  rw [herrors, List.append_right_eq_self, hcheck]

/-- A vector between matrices, all scaled. -/
def turned : List GlType := [.float, .mat3, .vec3, .float, .mat3]

/-- The product is a vector, and there is no sum. -/
theorem arithmetic_exact_turned : (∃ t, mult.Typed turned t) ∧ mult.resultType turned = .vec3 ∧
    mult.Typed turned .vec3 ∧ ¬ ∃ t, add.Typed turned t := by
  obtain ⟨hcheck, htype, -⟩ := mult.arithmetic_exact rfl (show turned ≠ [] by decide) (by decide)
  obtain ⟨t, ht⟩ := hcheck.mp (by decide)
  have hvec : t = .vec3 := (htype t ht).symm.trans (by decide)
  have hsum := add.arithmetic_exact rfl (show turned ≠ [] by decide) (by decide)
  exact ⟨⟨t, ht⟩, by decide, hvec ▸ ht, fun h => absurd (hsum.1.mpr h) (by decide)⟩

end Operator

end ShaderGraph
