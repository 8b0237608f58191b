import ShaderGraph.Proofs.Steps

/-!
# Fields of vectors

Of a vector one to four components are taken at once, by letters of one of three sets. Evaluation looks
letters up in one table and counts bytes. That accepts the same fields, as all letters are of one byte.
-/

namespace ShaderGraph

open Eval List

variable {fields : String} {f : Char} {j k : Nat}

/-- The vector type with a number of components. -/
inductive GlType.VectorOf : GlType → Nat → Prop where
  | vec2 : VectorOf .vec2 2
  | vec3 : VectorOf .vec3 3
  | vec4 : VectorOf .vec4 4

/-- The letters for the components of a vector, in order. -/
def fieldSets : List (List Char) := [['x', 'y', 'z', 'w'], ['r', 'g', 'b', 'a'], ['s', 't', 'p', 'q']]

/-- One to four letters of one set, each of one of the first `k` components. -/
structure Selection (k : Nat) (fields : String) : Prop where
  pos : 1 ≤ fields.length
  le : fields.length ≤ 4
  letters : ∃ set ∈ fieldSets, ∀ f ∈ fields.toList, ∃ i < k, set[i]? = some f

namespace Step

/-! ## The table of letters -/

theorem fieldLetters_eq : ∀ p < 12, fieldLetters[p]? = fieldSets[p / 4]?.bind (·[p % 4]?) := by decide

theorem fieldLetters_nodup : fieldLetters.Nodup := by decide

theorem mem_set_iff {set : List Char} (hset : fieldSets[j]? = some set) (hk : k ≤ 4) : (∃ i < k, set[i]? = some f) ↔
    fieldLetters.idxOf f < 12 ∧ fieldLetters.idxOf f % 4 < k ∧ fieldLetters.idxOf f / 4 = j := by
  constructor
  · rintro ⟨i, hi, hf⟩
    have hj : j < 3 := (List.getElem?_eq_some_iff.mp hset).1
    have hp : 4 * j + i < 12 := by omega
    have hget : fieldLetters[4 * j + i]? = some f := by
      rw [fieldLetters_eq _ hp, show (4 * j + i) / 4 = j by omega, show (4 * j + i) % 4 = i by omega, hset,
        Option.bind_some, hf]
    obtain ⟨hlt, rfl⟩ := List.getElem?_eq_some_iff.mp hget
    rw [fieldLetters_nodup.idxOf_getElem _ hlt]
    omega
  · rintro ⟨hp, hi, rfl⟩
    have hlt : fieldLetters.idxOf f < fieldLetters.length := hp
    have hget := fieldLetters_eq _ hp
    rw [hset, Option.bind_some, getElem?_eq_getElem hlt, getElem_idxOf] at hget
    exact ⟨_, hi, hget.symm⟩

theorem validFields_iff (hk : k ≤ 4) : validFields fields k ↔
    fields.toList ≠ [] ∧ ∃ set ∈ fieldSets, ∀ f ∈ fields.toList, ∃ i < k, set[i]? = some f := by
  simp only [validFields, Bool.and_eq_true, Bool.not_eq_true', isEmpty_eq_false_iff, all_eq_true, map_eq_nil_iff, ne_eq,
    forall_mem_map, decide_eq_true_eq, head?_map, Option.map_map]
  cases fields.toList with
  | nil => simp
  | cons f fs =>
    simp only [head?_cons, Option.map_some, beq_iff_eq, Option.some.injEq, Function.comp_apply]
    constructor
    · rintro ⟨⟨-, hall⟩, hset⟩
      have hj : fieldLetters.idxOf f / 4 < fieldSets.length :=
        Nat.div_lt_of_lt_mul (hall f mem_cons_self).1
      refine ⟨cons_ne_nil _ _, _, getElem_mem hj, fun f' hf' => ?_⟩
      exact (mem_set_iff (getElem?_eq_getElem hj) hk).mpr ⟨(hall f' hf').1, (hall f' hf').2, hset f' hf'⟩
    · rintro ⟨hne, set, hset, hall⟩
      obtain ⟨j, hj⟩ := mem_iff_getElem?.mp hset
      have hplace f' (hf' : f' ∈ f :: fs) := (mem_set_iff hj hk).mp (hall f' hf')
      refine ⟨⟨hne, fun f' hf' => ⟨(hplace f' hf').1, (hplace f' hf').2.1⟩⟩, fun f' hf' => ?_⟩
      rw [(hplace f' hf').2.2, (hplace f mem_cons_self).2.2]

/-! ## Lengths -/

theorem utf8ByteSize_of_letters {set : List Char} (hset : set ∈ fieldSets)
    (h : ∀ f ∈ fields.toList, ∃ i < k, set[i]? = some f) : fields.utf8ByteSize = fields.length := by
  have hone : ∀ set ∈ fieldSets, set.all (·.utf8Size = 1) := by decide
  have hsize {cs : List Char} (hcs : ∀ f ∈ cs, ∃ i < k, set[i]? = some f) :
      (String.ofList cs).utf8ByteSize = cs.length := by
    induction cs with
    | nil => rfl
    | cons f cs ih =>
      obtain ⟨⟨i, -, hf⟩, hcs⟩ := forall_mem_cons.mp hcs
      rw [String.ofList_cons, String.utf8ByteSize_append, String.utf8ByteSize_singleton, ih hcs,
        of_decide_eq_true (all_eq_true.mp (hone set hset) f (mem_of_getElem? hf)), length_cons, Nat.add_comm]
  rw [← String.length_toList, ← hsize h, String.ofList_toList]

theorem ofLength?_isNone {n : Nat} : (GlType.ofLength? n).isNone ↔ ¬ (1 ≤ n ∧ n ≤ 4) := by
  rcases n with _ | _ | _ | _ | _ | n
  case succ.succ.succ.succ.succ => exact iff_of_true rfl (by omega)
  all_goals decide

theorem ofLength?_type {n : Nat} (h1 : 1 ≤ n) (h4 : n ≤ 4) :
    if n = 1 then (GlType.ofLength? n).getD .float = .float
    else ((GlType.ofLength? n).getD .float).VectorOf n := by
  obtain rfl | rfl | rfl | rfl : n = 1 ∨ n = 2 ∨ n = 3 ∨ n = 4 := by omega
  · exact if_pos rfl ▸ rfl
  · exact .vec2
  · exact .vec3
  · exact .vec4

end Step

open Step

theorem Selection.utf8ByteSize_eq (h : Selection k fields) : fields.utf8ByteSize = fields.length := by
  obtain ⟨set, hset, hall⟩ := h.letters
  exact utf8ByteSize_of_letters hset hall

theorem selection_iff (hk : k ≤ 4) : Selection k fields ↔
    ¬ (GlType.ofLength? fields.utf8ByteSize).isNone ∧ validFields fields k := by
  rw [ofLength?_isNone, not_not, validFields_iff hk]
  constructor
  · intro h
    rw [h.utf8ByteSize_eq]
    refine ⟨⟨h.pos, h.le⟩, fun hnil => ?_, h.letters⟩
    have := h.pos
    rw [← String.length_toList, hnil] at this
    exact absurd this (by decide)
  · rintro ⟨⟨h1, h4⟩, -, set, hset, hall⟩
    rw [utf8ByteSize_of_letters hset hall] at h1 h4
    exact ⟨h1, h4, set, hset, hall⟩

theorem GlType.vectorOf_iff {type : GlType} : type.VectorOf k ↔ type.isVector ∧ type.components = k := by
  constructor
  · rintro (_ | _) <;> exact ⟨rfl, rfl⟩
  · rintro ⟨hv, rfl⟩
    cases type with
    | vec2 => exact .vec2
    | vec3 => exact .vec3
    | vec4 => exact .vec4
    | _ => cases hv

/-- No error is found just if a vector has the fields. -/
theorem checkSwizzle_eq_nil {type : GlType} :
    checkSwizzle fields type = [] ↔ ∃ k, type.VectorOf k ∧ Selection k fields := by
  rw [checkSwizzle, append_eq_nil_iff]
  by_cases hv : type.isVector
  · have hk : type.components ≤ 4 := by
      cases GlType.vectorOf_iff.mpr ⟨hv, rfl⟩ <;> decide
    simp [GlType.vectorOf_iff, hv, selection_iff hk]
  · simp [GlType.vectorOf_iff, hv]

/-! ## Evaluation -/

/-- Where it is not reused, a swizzle adds errors to those of its operand just if its fields are not those
of a vector. A swizzle without errors has the type of as many components as it has fields. -/
theorem swizzle_errors_iff (depth : Nat) (id : NodeId) (n : Node) (fields : String) (c : Scope) {s s₁ s' : Session}
    {g₀ g : Generated} (hnew : s.lookup? c id = none) (hn : (n.evalWithin depth c).run s = (g₀, s₁))
    (hr : ((Node.swizzle id n fields).evalWithin depth c).run s = (g, s')) :
    ∃ own, (s'.registry c.stage).errors = (s₁.registry c.stage).errors ++ own ∧
      (∀ stage ≠ c.stage, (s'.registry stage).errors = (s₁.registry stage).errors) ∧
      (own ≠ [] ↔ ¬ ∃ k, g₀.type.VectorOf k ∧ Selection k fields) ∧
      (own = [] → if fields.length = 1 then g.type = .float else g.type.VectorOf fields.length) := by
  have heval : ((Node.swizzle id n fields).evalWithin depth c).run s =
      let r := ((Node.swizzle id n fields).step c [g₀]).run s₁
      (r.1, r.2.remember c id r.1) := by
    obtain ⟨i, hi⟩ := evalWithin_eq_eval depth
    rw [hi] at hn ⊢
    simp only [Node.eval, run_memoized, hnew, run_bind, hn]
    rfl
  rw [heval, Node.run_step rfl] at hr
  cases hr
  refine ⟨checkSwizzle fields g₀.type, ?_, fun stage hne => ?_, not_congr checkSwizzle_eq_nil, fun hnone => ?_⟩
  · rw [Session.registry_remember]
    exact Form.session_errors ..
  · rw [Session.registry_remember]
    simp only [Form.session, Session.registry_mark, Session.registry_bump]
    cases hc : c.stage <;> cases stage <;> simp_all [Session.report, Session.updateRegistry, Session.registry]
  · obtain ⟨k, -, h⟩ := checkSwizzle_eq_nil.mp hnone
    change if fields.length = 1 then (GlType.ofLength? fields.utf8ByteSize).getD .float = .float
      else ((GlType.ofLength? fields.utf8ByteSize).getD .float).VectorOf fields.length
    rw [h.utf8ByteSize_eq]
    exact ofLength?_type h.pos h.le

/-- Two components in reverse, by letters for colors. -/
theorem size_swizzled : ∃ g₀ s₁ g s', ((Node.resolution 1).evalWithin 2 .fragmentMain).run { nextId := 3 } = (g₀, s₁) ∧
    ((Node.swizzle 2 (.resolution 1) "gr").evalWithin 2 .fragmentMain).run { nextId := 3 } = (g, s') ∧
    (s'.registry .fragment).errors = (s₁.registry .fragment).errors ∧ g.type.VectorOf 2 := by
  obtain ⟨g₀, s₁, hn⟩ : ∃ g₀ s₁, ((Node.resolution 1).evalWithin 2 .fragmentMain).run { nextId := 3 } = (g₀, s₁) :=
    ⟨_, _, rfl⟩
  obtain ⟨g, s', hr⟩ : ∃ g s', ((Node.swizzle 2 (.resolution 1) "gr").evalWithin 2 .fragmentMain).run { nextId := 3 } =
      (g, s') := ⟨_, _, rfl⟩
  obtain ⟨own, herrors, -, hown, htype⟩ := swizzle_errors_iff 2 2 (.resolution 1) "gr" .fragmentMain rfl hn hr
  have hvec : g₀.type = .vec2 := (congrArg (·.1.type) hn).symm.trans (by decide +kernel)
  have hnone : own = [] := by
    by_contra hne
    refine hown.mp hne ⟨2, hvec ▸ .vec2, by decide, by decide, ['r', 'g', 'b', 'a'], by decide, ?_⟩
    exact forall_mem_cons.mpr ⟨⟨1, by decide, rfl⟩, forall_mem_singleton.mpr ⟨0, by decide, rfl⟩⟩
  exact ⟨g₀, s₁, g, s', hn, hr, herrors.trans (by rw [hnone, append_nil]; rfl), htype hnone⟩

end ShaderGraph
