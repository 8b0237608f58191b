import ShaderGraph.Proofs.Steps

/-!
# Typing rules of GLSL ES 1.00

Which operators and built-in functions there are for given operand types, and of what type the
result is. Operators associate to the left. There are no implicit conversions, so `==` takes two
operands of one type and a float stands beside a vector only where a function has a parameter for
it. The checks of a graph are compared with these rules: what they let pass has the type written in
its declaration under a condition on the operand types that is given for each kind of expression.
-/

namespace ShaderGraph

open List

/-! ## Types -/

namespace GlType

/-- Types of numbers: floats, vectors and square matrices. -/
def isNumeric : GlType → Bool
  | float | vec2 | vec3 | vec4 | mat2 | mat3 | mat4 => true
  | _ => false

/-- Types that a variable of a function body can have here. -/
def isValue (t : GlType) : Bool := t = bool || t.isNumeric

/-- What the reference calls a generic type. -/
def generic : List GlType := [float, vec2, vec3, vec4]

end GlType

/-! ## Operators -/

namespace Operator

/-- The type of componentwise arithmetic, where a float stands for all components. -/
def componentwise? (a b : GlType) : Option GlType :=
  if !a.isNumeric || !b.isNumeric then none
  else if a = b ∨ b = .float then some a
  else if a = .float then some b
  else none

/-- The type of an operator between two operands. -/
def overload? (op : Operator) (a b : GlType) : Option GlType :=
  match op with
  | add | sub | div => componentwise? a b
  | mult => if a.matrixVector b then some (if a.isVector then a else b) else componentwise? a b
  | lt | gt | lte | gte => if a = .float ∧ b = .float then some .bool else none
  | eq => if a = b ∧ a.isValue then some .bool else none
  | and | or => if a = .bool ∧ b = .bool then some .bool else none

/-- The type of an operator between operands, from left to right. -/
def chain? (op : Operator) : List GlType → Option GlType
  | [] => none
  | t :: ts => ts.foldlM op.overload? t

end Operator

/-! ## Built-in functions -/

namespace Builtin

/-- The overloads for a generic type: the types of the parameters, and that of the result. -/
def overloads (t : GlType) : Builtin → List (List GlType × GlType)
  | sin | cos | tan | floor | ceil | fract | abs | sign | sqrt | exp | exp2 | log | normalize =>
    [([t], t)]
  | atan => [([t], t), ([t, t], t)]
  | pow => [([t, t], t)]
  | mod | min | max => [([t, t], t), ([t, .float], t)]
  | clamp => [([t, t, t], t), ([t, .float, .float], t)]
  | mix => [([t, t, t], t), ([t, t, .float], t)]
  | step => [([t, t], t), ([.float, t], t)]
  | smoothstep => [([t, t, t], t), ([.float, .float, t], t)]
  | length => [([t], .float)]
  | distance | dot => [([t, t], .float)]
  | cross => [([.vec3, .vec3], .vec3)]
  | texture2D => [([.sampler2D, .vec2], .vec4)]

/-- The type of a call. -/
def overload? (f : Builtin) (ts : List GlType) : Option GlType :=
  (GlType.generic.flatMap (overloads · f)).lookup ts

/-- The parameters that take a float whatever the type of the others is. -/
def scalarPlaces : Builtin → List Nat
  | mod | min | max => [1]
  | clamp => [1, 2]
  | mix => [2]
  | step => [0]
  | smoothstep => [0, 1]
  | _ => []

/-- The arguments have one type, or the floats among them are exactly those in scalar places. -/
def Mixes (f : Builtin) (ts : List GlType) : Prop :=
  (∀ a ∈ ts, ∀ b ∈ ts, a = b) ∨ ∀ p ∈ ts.zipIdx, p.1 = .float ↔ p.2 ∈ f.scalarPlaces

instance (f : Builtin) (ts : List GlType) : Decidable (f.Mixes ts) :=
  inferInstanceAs (Decidable (_ ∨ _))

end Builtin

/-! ## Expressions -/

def Cast.atom : Cast → Atom
  | .keep a | .convert _ a => a

/-- The type of a converted operand: a constructor takes a float. -/
def Cast.type? : Cast → GlType → Option GlType
  | .keep _, t => some t
  | .convert type _, t => if t = .float ∧ type.isValue then some type else none

/-- The operands of an expression, from left to right. -/
def Expr.atoms : Expr → List Atom
  | .cast c => [c.atom]
  | .operation _ args | .call _ args => args
  | .field a _ => [a]
  | .select c a b => [c, a.atom, b.atom]
  | .literals .. | .coordinate _ | .resolution => []

/-- The type of an operation, a call of a built-in function or a choice, given the types of its
operands. -/
def Expr.type? : Expr → List GlType → Option GlType
  | .cast c, [t] => c.type? t
  | .operation op _, ts => op.chain? ts
  | .call f _, ts => (Builtin.ofName? f).bind (·.overload? ts)
  | .select _ a b, [c, s, t] =>
    if c = .bool ∧ a.type? s = b.type? t then a.type? s else none
  | _, _ => none

/-- With operands of the given types, `type v = e` declares a variable. -/
def Expr.WellTyped (e : Expr) (ts : List GlType) (type : GlType) : Prop :=
  type.isValue ∧ e.type? ts = some type

/-! ## Loops -/

mutual

/-- The types with which a statement in a block copies the variable `v` of a block around it. -/
def Stmt.copies (v : String) : Stmt → List GlType
  | .decl t _ (.cast (.keep (.name r))) => if r = v then [t] else []
  | .loop _ _ body _ _ => Stmt.allCopies v body
  | _ => []

/-- A declaration of `v` in the block hides the variable from the statements after it. -/
def Stmt.allCopies (v : String) : List Stmt → List GlType
  | [] => []
  | st :: ss => st.copies v ++ match st with
    | .decl _ w _ => if w = v then [] else Stmt.allCopies v ss
    | _ => Stmt.allCopies v ss

end

def LoopBound.atoms : LoopBound → List Atom
  | .constant _ => []
  | .upTo a => [a]

/-- A variable `v` of a type is declared with `start`, and a loop adds a term to it: the operand of
`start`, those of the bound and the term have the given types. -/
structure WellTypedLoop (v : String) (type : GlType) (start : Cast) (body : List Stmt) (initial : GlType)
    (bounds : List GlType) (term : GlType) : Prop where
  start : (Expr.cast start).WellTyped [initial] type
  /-- The index is compared with the bound. -/
  bound : ∀ t ∈ bounds, Operator.gte.overload? .float t = some .bool
  /-- `v += term` is `v = v + term`. -/
  sum : Operator.add.overload? type term = some type
  copies : ∀ t ∈ Stmt.allCopies v body, t = type

/-! ## Comparisons and logical operators -/

namespace Operator

variable {op : Operator} {ts : List GlType}

theorem allowed_of_checkFrom {i : Nat} {shape : Option GlType} (h : op.checkFrom i shape ts = []) :
    (op.isLogical → ∀ t ∈ ts, t = .bool) ∧ (op.isOrdering → ∀ t ∈ ts, t = .float) := by
  induction ts generalizing i shape with
  | nil => exact ⟨fun _ _ ht => (nomatch ht), fun _ _ ht => (nomatch ht)⟩
  | cons t ts ih =>
    unfold checkFrom at h
    split_ifs at h with hs hl hb ho hscalar
    · obtain ⟨ihl, iho⟩ := ih h
      refine ⟨fun hop => ?_, fun hop => ?_⟩
      · refine forall_mem_cons.mpr ⟨?_, ihl hop⟩
        by_contra ht
        exact hl ⟨hop, ht⟩
      · refine forall_mem_cons.mpr ⟨?_, iho hop⟩
        have hlogical : ¬ op.isLogical := by cases op <;> simp [isLogical, isOrdering] at hop ⊢
        have hne : op ≠ .eq := by rintro rfl; cases hop
        have hbool : t ≠ .bool := fun ht => hb ⟨hlogical, ht, hne⟩
        cases t <;> simp [GlType.isScalar] at hscalar hbool ⊢
    · -- an operand that is not scalar is none of a logical operator or of an ordering
      have hlogical : ¬ op.isLogical := fun hop => hscalar (by
        by_cases ht : t = .bool
        · rw [ht]; rfl
        · exact absurd ⟨hop, ht⟩ hl)
      have hordering : ¬ op.isOrdering := fun hop => ho ⟨hop, hscalar⟩
      exact ⟨fun hop => absurd hop hlogical, fun hop => absurd hop hordering⟩

theorem chain_logical (hop : op.isLogical) (hne : ts ≠ []) (h : op.check ts = []) :
    op.chain? ts = some .bool := by
  have hall := (allowed_of_checkFrom h).1 hop
  have hstep : op.overload? .bool .bool = some .bool := by
    cases op <;> first | rfl | cases hop
  cases ts with
  | nil => exact absurd rfl hne
  | cons t ts =>
    obtain ⟨rfl, hts⟩ := forall_mem_cons.mp hall
    clear h hall hne
    rw [chain?]
    induction ts with
    | nil => rfl
    | cons t ts ih =>
      obtain ⟨rfl, hrest⟩ := forall_mem_cons.mp hts
      rw [foldlM_cons, hstep]
      exact ih hrest

theorem chain_ordering (hop : op.isOrdering) (h : op.check ts = []) :
    op.chain? ts = some .bool ↔ ts.length = 2 := by
  have hall := (allowed_of_checkFrom h).2 hop
  have hover (a b : GlType) :
      op.overload? a b = if a = .float ∧ b = .float then some .bool else none := by
    cases op <;> first | rfl | cases hop
  rcases ts with _ | ⟨a, _ | ⟨b, _ | ⟨c, ts⟩⟩⟩
  · simp [chain?]
  · simp [chain?, hall a (by simp)]
  · simp [chain?, hover, hall a (by simp), hall b (by simp)]
  · simp [chain?, hover, hall a (by simp), hall b (by simp)]

/-- Operands of `==` have one type, and those after the second are compared with the outcome. -/
def Equates (ts : List GlType) : Prop :=
  ts = [.bool] ∨ ∃ t bs, ts = t :: t :: bs ∧ t.isValue ∧ ∀ b ∈ bs, b = .bool

theorem foldlM_eq_bool (ts : List GlType) :
    ts.foldlM eq.overload? .bool = some .bool ↔ ∀ t ∈ ts, t = .bool := by
  induction ts with
  | nil => simp
  | cons t ts ih =>
    by_cases ht : t = .bool
    · subst ht
      rw [foldlM_cons, forall_mem_cons, ← ih]
      exact (and_iff_right rfl).symm
    · have hnone : eq.overload? .bool t = none := if_neg fun h => ht h.1.symm
      rw [foldlM_cons, hnone]
      exact ⟨fun h => (nomatch h), fun h => absurd (h t mem_cons_self) ht⟩

theorem chain_eq : eq.chain? ts = some .bool ↔ Equates ts := by
  unfold Equates
  rcases ts with _ | ⟨a, _ | ⟨b, ts⟩⟩
  · simp [chain?]
  · simp [chain?]
  · by_cases hab : a = b ∧ a.isValue
    · obtain ⟨rfl, hv⟩ := hab
      have hover : eq.overload? a a = some .bool := if_pos ⟨rfl, hv⟩
      simp only [chain?, foldlM_cons, hover, Option.bind_eq_bind, Option.bind_some,
        foldlM_eq_bool]
      constructor
      · exact fun h => .inr ⟨a, ts, rfl, hv, h⟩
      · rintro (h | ⟨t, bs, h, -, hbs⟩)
        · cases h
        · cases h
          exact hbs
    · have hover : eq.overload? a b = none := if_neg hab
      simp only [chain?, foldlM_cons, hover]
      refine ⟨fun h => (nomatch h), ?_⟩
      rintro (h | ⟨t, bs, h, hv, -⟩)
      · cases h
      · cases h
        exact absurd ⟨rfl, hv⟩ hab

/-- The operand types for which a comparison or a logical operator that passed the checks is well
typed. -/
def Compares (op : Operator) (ts : List GlType) : Prop :=
  (op.isOrdering → ts.length = 2) ∧ (op = eq → Equates ts)

theorem chain_iff (hop : ¬ op.isArithmetic) (hne : ts ≠ []) (h : op.check ts = []) :
    op.chain? ts = some .bool ↔ op.Compares ts := by
  cases op with
  | add | sub | mult | div => exact absurd rfl hop
  | and | or => simp [chain_logical rfl hne h, Compares, isOrdering]
  | lt | gt | lte | gte => simp [chain_ordering rfl h, Compares, isOrdering]
  | eq => simp [chain_eq, Compares, isOrdering]

end Operator

/-! ## Calls of built-in functions -/

namespace Builtin

variable {f : Builtin} {ts : List GlType}

theorem shape_of_checkShape {name : String} {shape : Option GlType}
    (h : checkShape name shape ts = []) (hshape : ∀ t ∈ shape, t.isVector) :
    ∃ t, t.isVector ∧ (∀ s ∈ shape, s = t) ∧ ∀ a ∈ ts, a.isScalar ∨ a = t := by
  induction ts generalizing shape with
  | nil =>
    cases shape with
    | none => exact ⟨.vec2, rfl, fun _ hs => (nomatch hs), fun _ ha => (nomatch ha)⟩
    | some s => exact ⟨s, hshape s rfl, fun _ hs => (Option.some.inj hs).symm, fun _ ha => (nomatch ha)⟩
  | cons a ts ih =>
    unfold checkShape at h
    split_ifs at h with hscalar hvector
    · obtain ⟨t, ht, hs, hall⟩ := ih h hshape
      exact ⟨t, ht, hs, forall_mem_cons.mpr ⟨.inl hscalar, hall⟩⟩
    · have ha : a.isVector := by simpa using hvector
      cases shape with
      | none =>
        obtain ⟨t, ht, hs, hall⟩ := ih h fun _ hs => Option.some.inj hs ▸ ha
        exact ⟨t, ht, fun _ hs => (nomatch hs), forall_mem_cons.mpr ⟨.inr (hs a rfl), hall⟩⟩
      | some s =>
        dsimp only at h
        split_ifs at h with hne
        obtain ⟨t, ht, hs, hall⟩ := ih h hshape
        have hat : a = t := (not_not.mp hne).trans (hs s rfl)
        exact ⟨t, ht, hs, forall_mem_cons.mpr ⟨.inr hat, hall⟩⟩

theorem ne_bool_of_checkValues {i : Nat} (h : f.checkValues i ts = []) : ∀ t ∈ ts, t ≠ .bool := by
  induction ts generalizing i with
  | nil => exact forall_mem_nil _
  | cons t ts ih =>
    simp only [checkValues] at h
    split_ifs at h with hv
    exact forall_mem_cons.mpr ⟨fun ht => hv (.inr (.inl ht)), ih h⟩

theorem generic_of_check (h : f.check ts = []) (hcross : f ≠ cross) (htexture : f ≠ texture2D) :
    (f.arity.1 ≤ ts.length ∧ ts.length ≤ f.arity.2) ∧
      ∃ t ∈ GlType.generic, ∀ a ∈ ts, a ∈ [GlType.float, t] := by
  simp only [check, append_eq_nil_iff] at h
  obtain ⟨⟨hcount, hvalues⟩, hrule⟩ := h
  have hshape : checkShape f.name none ts = [] := by
    cases f with
    | cross => exact absurd rfl hcross
    | texture2D => exact absurd rfl htexture
    | dot => exact (append_eq_nil_iff.mp hrule).2
    | _ => exact hrule
  obtain ⟨t, ht, -, hall⟩ := shape_of_checkShape hshape fun _ h => (nomatch h)
  refine ⟨?_, t, ?_, fun a ha => ?_⟩
  · split_ifs at hcount with hc
    omega
  · cases t <;> first | decide | cases ht
  · rcases hall a ha with hs | rfl
    · have hb := ne_bool_of_checkValues hvalues a ha
      cases a <;> simp [GlType.isScalar] at hs hb ⊢
    · simp

theorem overload_unary : ∀ f ∈ all, f.arity.1 = 1 → ∀ t ∈ GlType.generic, ∀ a ∈ [GlType.float, t],
    (f.overload? [a] = some (f.resultType [a]) ↔ f.Mixes [a]) := by decide

theorem overload_binary : ∀ f ∈ all, f.arity.2 = 2 → f ≠ cross → f ≠ texture2D →
    ∀ t ∈ GlType.generic, ∀ a ∈ [GlType.float, t], ∀ b ∈ [GlType.float, t],
      (f.overload? [a, b] = some (f.resultType [a, b]) ↔ f.Mixes [a, b]) := by decide

theorem overload_ternary : ∀ f ∈ all, f.arity.2 = 3 → ∀ t ∈ GlType.generic,
    ∀ a ∈ [GlType.float, t], ∀ b ∈ [GlType.float, t], ∀ c ∈ [GlType.float, t],
      (f.overload? [a, b, c] = some (f.resultType [a, b, c]) ↔ f.Mixes [a, b, c]) := by decide

theorem mem_all (f : Builtin) : f ∈ all := by cases f <;> decide

/-- A call that passes the checks is well typed unless its floats are out of place. -/
theorem overload_iff (h : f.check ts = []) : f.overload? ts = some (f.resultType ts) ↔ f.Mixes ts := by
  by_cases htexture : f = texture2D
  · subst htexture
    have hrule := (append_eq_nil_iff.mp h).2
    simp only [checkRule] at hrule
    split_ifs at hrule with hts
    subst hts
    decide
  by_cases hcross : f = cross
  · subst hcross
    obtain ⟨hcount, hrule⟩ := append_eq_nil_iff.mp h
    have hall : ∀ t ∈ ts, t = .vec3 := by simpa [checkRule] using hrule
    have hlen : ts.length = 2 := by
      have := (append_eq_nil_iff.mp hcount).1
      split_ifs at this with hc
      change ¬ (ts.length < 2 ∨ 2 < ts.length) at hc
      omega
    obtain ⟨a, b, rfl⟩ := length_eq_two.mp hlen
    obtain ⟨rfl, hb⟩ := forall_mem_cons.mp hall
    obtain ⟨rfl, -⟩ := forall_mem_cons.mp hb
    decide
  obtain ⟨⟨hleast, hmost⟩, t, ht, hall⟩ := generic_of_check h hcross htexture
  have hpos : 1 ≤ f.arity.1 := by cases f <;> decide
  have hmax : f.arity.2 ≤ 3 := by cases f <;> decide
  rcases ts with _ | ⟨a, _ | ⟨b, _ | ⟨c, _ | ⟨d, ts⟩⟩⟩⟩
  · exact absurd (Nat.le_trans hpos hleast) (by decide)
  · exact overload_unary f (mem_all f) (Nat.le_antisymm hleast hpos) t ht a (hall a (by simp))
  · have hf : f.arity.2 = 2 := by
      simp only [length_cons, length_nil] at hleast hmost
      cases f <;> simp [arity] at hleast hmost ⊢
    exact overload_binary f (mem_all f) hf hcross htexture t ht a (hall a (by simp)) b
      (hall b (by simp))
  · exact overload_ternary f (mem_all f) (Nat.le_antisymm hmax hmost) t ht a (hall a (by simp)) b
      (hall b (by simp)) c (hall c (by simp))
  · simp only [length_cons] at hmost
    omega

theorem isValue_of_overload {r : GlType} (h : f.overload? ts = some r) : r.isValue := by
  have hall : ∀ p ∈ GlType.generic.flatMap (overloads · f), p.2.isValue := by cases f <;> decide
  obtain ⟨l1, l2, hl, -⟩ := lookup_eq_some_iff.mp h
  exact hall (ts, r) (by simp [hl])

end Builtin

/-! ## Choices and loops -/

namespace Step

variable {type : GlType} {g : Generated}

theorem atom_castOf (type : GlType) (g : Generated) : (castOf type g).atom = g.var := by
  unfold castOf
  split <;> rfl

theorem type_of_checkCast (h : checkCast type g = []) : g.type = type ∨ g.type = .float := by
  unfold checkCast at h
  split_ifs at h with hc
  exact (not_and_or.mp hc).imp not_not.mp not_not.mp

theorem type?_castOf (h : checkCast type g = []) (hv : type.isValue) :
    (castOf type g).type? g.type = some type := by
  unfold castOf
  split_ifs with hc
  · exact if_pos ⟨hc.2, hv⟩
  · rcases type_of_checkCast h with ht | ht
    · exact congrArg some ht
    · have htype : g.type = type := not_not.mp fun hne => hc ⟨hne, ht⟩
      exact congrArg some htype

end Step

theorem select_wellTyped_iff {cond yes no : Generated} {type : GlType} (hcond : cond.type = .bool)
    (hyes : Step.checkCast type yes = []) (hno : Step.checkCast type no = []) :
    (Expr.select cond.var (Step.castOf type yes) (Step.castOf type no)).WellTyped
      [cond.type, yes.type, no.type] type ↔ type.isValue := by
  refine ⟨And.left, fun hv => ⟨hv, ?_⟩⟩
  simp only [Expr.type?, hcond, Step.type?_castOf hyes hv, Step.type?_castOf hno hv, and_self, if_true]

theorem overload_add_iff {type term : GlType} : Operator.add.overload? type term = some type ↔
    type.isNumeric ∧ (term = type ∨ term = .float) := by
  cases type <;> cases term <;> simp [Operator.overload?, Operator.componentwise?, GlType.isNumeric]

/-- A loop that passes the checks is well typed if its type is numeric, its term can be added, and
the running sum is read with the type of the loop. -/
theorem wellTypedLoop_iff {v : String} {type term : GlType} {initial : Generated} {body : List Stmt}
    {bounds : List GlType} (hinit : Step.checkCast type initial = []) (hbounds : ∀ t ∈ bounds, t = .float) :
    WellTypedLoop v type (Step.castOf type initial) body initial.type bounds term ↔
      type.isNumeric ∧ (term = type ∨ term = .float) ∧ ∀ t ∈ Stmt.allCopies v body, t = type := by
  constructor
  · intro h
    obtain ⟨hnum, hterm⟩ := overload_add_iff.mp h.sum
    exact ⟨hnum, hterm, h.copies⟩
  · rintro ⟨hnum, hterm, hcopies⟩
    have hv : type.isValue := by simp [GlType.isValue, hnum]
    exact
      { start := ⟨hv, Step.type?_castOf hinit hv⟩
        bound := fun t ht => by rw [hbounds t ht]; rfl
        sum := overload_add_iff.mpr ⟨hnum, hterm⟩
        copies := hcopies }

end ShaderGraph
