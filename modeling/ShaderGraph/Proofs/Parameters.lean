import Mathlib.Data.List.Nodup
import ShaderGraph.Proofs.Steps

/-!
# Parameters of functions

The body of a function captures arguments, each with an index, a name and a type. Indices and names
may repeat in any way. The captured arguments are sorted by index, and of those with one name the
first is made a parameter. `Selects` says what comes of it without sorting: each name once, with the
argument of lowest index, in the order of the indices.
-/

namespace ShaderGraph

open Eval List

/-! ## Which arguments become parameters -/

/-- A captured argument with its place among all that are captured. -/
abbrev Capture := ArgumentDef × Nat

/-- By index; arguments of one index in the order in which they are captured. -/
def Capture.Before (p q : Capture) : Prop := p.1.index < q.1.index ∨ p.1.index = q.1.index ∧ p.2 < q.2

/-- The captured arguments that become parameters. -/
structure Selects (args : List ArgumentDef) (kept : List Capture) : Prop where
  captured : ∀ p ∈ kept, p ∈ args.zipIdx
  nodup : (kept.map (·.1.name)).Nodup
  /-- Every captured name has a parameter. -/
  complete : ∀ a ∈ args, a.name ∈ kept.map (·.1.name)
  /-- A parameter comes before all other arguments of its name. -/
  least : ∀ p ∈ kept, ∀ q ∈ args.zipIdx, q.1.name = p.1.name → q = p ∨ Capture.Before p q
  ordered : kept.Pairwise Capture.Before

namespace Selects

variable {args : List ArgumentDef} {kept other : List Capture}

theorem mem_of_mem (h : Selects args kept) (h' : Selects args other) {p : Capture} (hp : p ∈ kept) :
    p ∈ other := by
  have hcaptured := h.captured p hp
  obtain ⟨q, hq, hname⟩ := mem_map.mp (h'.complete p.1 (fst_mem_of_mem_zipIdx hcaptured))
  have heq : q = p := by
    rcases h.least p hp q (h'.captured q hq) hname with heq | hpq
    · exact heq
    · rcases h'.least q hq p hcaptured hname.symm with heq | hqp
      · exact heq.symm
      · unfold Capture.Before at hpq hqp
        omega
  exact heq ▸ hq

theorem unique (h : Selects args kept) (h' : Selects args other) : kept = other := by
  have hperm : kept.Perm other := (perm_ext_iff_of_nodup h.nodup.of_map h'.nodup.of_map).mpr
    fun _ => ⟨h.mem_of_mem h', h'.mem_of_mem h⟩
  refine hperm.eq_of_pairwise (fun p q _ _ hpq hqp => ?_) h.ordered h'.ordered
  unfold Capture.Before at hpq hqp
  omega

end Selects

def ArgumentDef.parameter (a : ArgumentDef) : Glsl.Declaration := ⟨a.type, a.name⟩

/-- One name with two types. -/
def ArgumentDef.Clashes (a b : ArgumentDef) : Prop := a.name = b.name ∧ a.type ≠ b.type

/-! ## One parameter for each name -/

section
variable {kept captures : List Capture} {p : Capture}

theorem find_parameter {d : Glsl.Declaration}
    (h : (kept.map (·.1.parameter)).find? (·.name == p.1.name) = some d) :
    ∃ k ∈ kept, k.1.name = p.1.name ∧ d = k.1.parameter := by
  obtain ⟨k, hk, rfl⟩ := mem_map.mp (mem_of_find?_eq_some h)
  exact ⟨k, hk, by simpa [ArgumentDef.parameter] using find?_some h, rfl⟩

theorem not_mem_of_find_parameter (h : (kept.map (·.1.parameter)).find? (·.name == p.1.name) = none) :
    p.1.name ∉ kept.map (·.1.name) := by
  intro hp
  obtain ⟨k, hk, hname⟩ := mem_map.mp hp
  have hne := find?_eq_none.mp h k.1.parameter (mem_map_of_mem hk)
  exact hne (by simpa [ArgumentDef.parameter] using hname)

/-- After some captures are kept, others come in an order `R`: the first of each new name is kept, and
one that clashes with a capture that is kept is an error. -/
structure Retains (function : String) (R : Capture → Capture → Prop) (kept captures more : List Capture) :
    Prop where
  parameters : (Step.parameters function (kept.map (·.1.parameter)) (captures.map (·.1))).1 =
    (kept ++ more).map (·.1.parameter)
  sublist : Sublist more captures
  nodup : ((kept ++ more).map (·.1.name)).Nodup
  first : ∀ p ∈ captures, p.1.name ∉ kept.map (·.1.name) →
    ∃ k ∈ more, k.1.name = p.1.name ∧ (p = k ∨ R k p)
  errors : ∀ e, e ∈ (Step.parameters function (kept.map (·.1.parameter)) (captures.map (·.1))).2 ↔
    ∃ p ∈ captures, ∃ k ∈ kept ++ more, k.1.Clashes p.1 ∧
      e = .functionArgument function p.1.name k.1.type p.1.type

variable {function : String} {R : Capture → Capture → Prop} {more : List Capture}

theorem Retains.keep (hp : ∀ q ∈ captures, R p q)
    (hnew : (kept.map (·.1.parameter)).find? (·.name == p.1.name) = none)
    (h : Retains function R (kept ++ [p]) captures more) : Retains function R kept (p :: captures) (p :: more) := by
  have hassoc : kept ++ [p] ++ more = kept ++ p :: more := by simp
  have hrun : Step.parameters function (kept.map (·.1.parameter)) ((p :: captures).map (·.1)) =
      Step.parameters function ((kept ++ [p]).map (·.1.parameter)) (captures.map (·.1)) := by
    rw [map_cons, Step.parameters, hnew]
    simp [ArgumentDef.parameter]
  have hnodup := hassoc ▸ h.nodup
  refine ⟨hrun ▸ hassoc ▸ h.parameters, h.sublist.cons_cons p, hnodup, ?_, fun e => ?_⟩
  · refine forall_mem_cons.mpr ⟨fun _ => ⟨p, mem_cons_self, rfl, .inl rfl⟩, ?_⟩
    intro q hq hqkept
    by_cases hname : p.1.name = q.1.name
    · exact ⟨p, mem_cons_self, hname, .inr (hp q hq)⟩
    · have hqkept' : q.1.name ∉ (kept ++ [p]).map (·.1.name) := by
        rw [map_append, mem_append, map_singleton, mem_singleton]
        exact not_or.mpr ⟨hqkept, Ne.symm hname⟩
      obtain ⟨k, hk, hrest⟩ := h.first q hq hqkept'
      exact ⟨k, mem_cons_of_mem _ hk, hrest⟩
  · -- the capture does not clash with itself, and no other that is kept has its name
    rw [hrun, h.errors e, hassoc]
    refine ⟨?_, ?_⟩
    · rintro ⟨q, hq, hrest⟩
      exact ⟨q, mem_cons_of_mem _ hq, hrest⟩
    · rintro ⟨q, hq, k, hk, hclash, he⟩
      rcases mem_cons.mp hq with rfl | hq
      · have hkq : k = q := inj_on_of_nodup_map hnodup hk
          (mem_append_right _ mem_cons_self) hclash.1
        exact absurd (congrArg (·.1.type) hkq) hclash.2
      · exact ⟨q, hq, k, hk, hclash, he⟩

theorem Retains.skip {d : Glsl.Declaration}
    (hfind : (kept.map (·.1.parameter)).find? (·.name == p.1.name) = some d)
    (h : Retains function R kept captures more) : Retains function R kept (p :: captures) more := by
  obtain ⟨k, hk, hname, rfl⟩ := find_parameter hfind
  have hrun : Step.parameters function (kept.map (·.1.parameter)) ((p :: captures).map (·.1)) =
      let r := Step.parameters function (kept.map (·.1.parameter)) (captures.map (·.1))
      (r.1, if k.1.type ≠ p.1.type then .functionArgument function p.1.name k.1.type p.1.type :: r.2
        else r.2) := by
    rw [map_cons, Step.parameters, hfind]
    rfl
  -- what clashes with the new capture is the one of its name
  have hhead (e : GraphError) : (∃ j ∈ kept ++ more, j.1.Clashes p.1 ∧
      e = .functionArgument function p.1.name j.1.type p.1.type) ↔
      k.1.type ≠ p.1.type ∧ e = .functionArgument function p.1.name k.1.type p.1.type := by
    constructor
    · rintro ⟨j, hj, hclash, he⟩
      have hjk : j = k := inj_on_of_nodup_map h.nodup hj (mem_append_left _ hk)
        (hclash.1.trans hname.symm)
      exact hjk ▸ ⟨hclash.2, he⟩
    · rintro ⟨htype, he⟩
      exact ⟨k, mem_append_left _ hk, ⟨hname, htype⟩, he⟩
  refine ⟨hrun ▸ h.parameters, h.sublist.cons p, h.nodup, ?_, fun e => ?_⟩
  · refine forall_mem_cons.mpr ⟨fun hnew => ?_, h.first⟩
    exact absurd (hname ▸ mem_map_of_mem (f := (·.1.name)) hk) hnew
  · rw [hrun, exists_mem_cons_iff, hhead, ← h.errors]
    by_cases htype : k.1.type = p.1.type <;> simp [htype]

theorem exists_retains (function : String) (hkept : (kept.map (·.1.name)).Nodup) (hR : captures.Pairwise R) :
    ∃ more, Retains function R kept captures more := by
  induction captures generalizing kept with
  | nil => exact ⟨[], by simp [Step.parameters], .refl _, by simpa using hkept, by simp, by simp [Step.parameters]⟩
  | cons p captures ih =>
    obtain ⟨hp, hR⟩ := pairwise_cons.mp hR
    cases hfind : (kept.map (·.1.parameter)).find? (·.name == p.1.name) with
    | none =>
      have hkept' : ((kept ++ [p]).map (·.1.name)).Nodup := by
        rw [map_append, map_singleton, ← concat_eq_append]
        exact hkept.concat (not_mem_of_find_parameter hfind)
      obtain ⟨more, h⟩ := ih hkept' hR
      exact ⟨p :: more, h.keep hp hfind⟩
    | some d =>
      obtain ⟨more, h⟩ := ih hkept hR
      exact ⟨more, h.skip hfind⟩

end

/-! ## All captured arguments -/

section
variable {args : List ArgumentDef}

/-- The captures in the order of their indices. -/
theorem exists_sorted (args : List ArgumentDef) : ∃ captures : List Capture,
    captures.Perm args.zipIdx ∧ captures.Pairwise Capture.Before ∧ captures.map (·.1) = Step.byIndex args := by
  let le : ArgumentDef → ArgumentDef → Bool := fun a b => a.index ≤ b.index
  have htrans : ∀ a b c, le a b → le b c → le a c := by
    simp only [le, decide_eq_true_eq]
    intros
    omega
  have htotal : ∀ a b, (le a b || le b a) = true := by
    simp only [le, Bool.or_eq_true, decide_eq_true_eq]
    intros
    omega
  have hperm := mergeSort_perm args.zipIdx (List.zipIdxLE le)
  refine ⟨args.zipIdx.mergeSort (List.zipIdxLE le), hperm, ?_, mergeSort_zipIdx⟩
  have hsorted := pairwise_mergeSort (zipIdxLE_trans htrans) (zipIdxLE_total htotal) args.zipIdx
  have hplaces : ((args.zipIdx.mergeSort (List.zipIdxLE le)).map Prod.snd).Nodup := by
    rw [(hperm.map Prod.snd).nodup_iff, zipIdx_map_snd]
    exact nodup_range'
  refine hsorted.imp₂ ?_ (pairwise_map.mp hplaces)
  -- where neither index is lower, the places decide
  intro p q hle hne
  simp only [List.zipIdxLE, le, decide_eq_true_eq] at hle
  unfold Capture.Before
  split_ifs at hle with h1 h2
  · simp only [decide_eq_true_eq] at hle
    omega
  · omega

theorem exists_place {a : ArgumentDef} (ha : a ∈ args) : ∃ i, (a, i) ∈ args.zipIdx := by
  obtain ⟨i, hi⟩ := getElem?_of_mem ha
  exact ⟨i, mk_mem_zipIdx_iff_getElem?.mpr hi⟩

namespace Retains

variable {function : String} {captures kept : List Capture}
  (h : Retains function Capture.Before [] captures kept) (hperm : captures.Perm args.zipIdx)
include h hperm

/-- Every captured argument has the name of one that is kept and does not come after it. -/
theorem exists_first : ∀ p ∈ args.zipIdx, ∃ k ∈ kept, k.1.name = p.1.name ∧ (p = k ∨ Capture.Before k p) :=
  fun p hp => h.first p (hperm.mem_iff.mpr hp) not_mem_nil

theorem selects (hsorted : captures.Pairwise Capture.Before) : Selects args kept := by
  refine ⟨fun p hp => hperm.mem_iff.mp (h.sublist.subset hp), h.nodup, ?_, ?_, hsorted.sublist h.sublist⟩
  · intro a ha
    obtain ⟨i, hi⟩ := exists_place ha
    obtain ⟨k, hk, hname, -⟩ := h.exists_first hperm _ hi
    exact mem_map.mpr ⟨k, hk, hname⟩
  · intro p hp q hq hname
    obtain ⟨k, hk, hkq, hbefore⟩ := h.exists_first hperm q hq
    have hkp : k = p := inj_on_of_nodup_map h.nodup hk hp (hkq.trans hname)
    exact hkp ▸ hbefore

theorem clash_of_error {e : GraphError} (he : e ∈ (Step.parameters function [] (captures.map (·.1))).2) :
    ∃ a ∈ args, ∃ b ∈ args, a.Clashes b ∧ e = .functionArgument function b.name a.type b.type := by
  have harg {p : Capture} (hp : p ∈ captures) : p.1 ∈ args := fst_mem_of_mem_zipIdx (hperm.mem_iff.mp hp)
  obtain ⟨p, hp, k, hk, hclash, he⟩ := (h.errors e).mp he
  exact ⟨k.1, harg (h.sublist.subset hk), p.1, harg hp, hclash, he⟩

/-- Of two arguments that clash, one clashes with the parameter of their name. -/
theorem errors_of_clash {a b : ArgumentDef} (ha : a ∈ args) (hb : b ∈ args) (hclash : a.Clashes b) :
    (Step.parameters function [] (captures.map (·.1))).2 ≠ [] := by
  have herror {p k : Capture} (hp : p ∈ args.zipIdx) (hk : k ∈ kept) (hc : k.1.Clashes p.1) :
      (Step.parameters function [] (captures.map (·.1))).2 ≠ [] :=
    ne_nil_of_mem ((h.errors _).mpr ⟨p, hperm.mem_iff.mpr hp, k, hk, hc, rfl⟩)
  obtain ⟨hname, htype⟩ := hclash
  obtain ⟨i, hi⟩ := exists_place ha
  obtain ⟨j, hj⟩ := exists_place hb
  obtain ⟨k, hk, hka, -⟩ := h.exists_first hperm _ hi
  by_cases hkt : k.1.type = a.type
  · exact herror hj hk ⟨hka.trans hname, fun heq => htype (hkt.symm.trans heq)⟩
  · exact herror hi hk ⟨hka, hkt⟩

end Retains

theorem parameters_selects (function : String) (args : List ArgumentDef) : ∃ kept,
    Selects args kept ∧
    (Step.parameters function [] (Step.byIndex args)).1 = kept.map (·.1.parameter) ∧
    ((Step.parameters function [] (Step.byIndex args)).2 ≠ [] ↔ ∃ a ∈ args, ∃ b ∈ args, a.Clashes b) ∧
    ∀ e ∈ (Step.parameters function [] (Step.byIndex args)).2, ∃ a ∈ args, ∃ b ∈ args, a.Clashes b ∧
      e = .functionArgument function b.name a.type b.type := by
  obtain ⟨captures, hperm, hsorted, harg⟩ := exists_sorted args
  have hnil : (([] : List Capture).map (·.1.name)).Nodup := nodup_nil
  obtain ⟨kept, h⟩ := exists_retains function hnil hsorted
  rw [← harg]
  refine ⟨kept, h.selects hperm hsorted, h.parameters, ⟨fun hne => ?_, ?_⟩, fun e he => h.clash_of_error hperm he⟩
  · obtain ⟨e, he⟩ := exists_mem_of_ne_nil _ hne
    obtain ⟨a, ha, b, hb, hclash, -⟩ := h.clash_of_error hperm he
    exact ⟨a, ha, b, hb, hclash⟩
  · rintro ⟨a, ha, b, hb, hclash⟩
    exact h.errors_of_clash hperm ha hb hclash

end

/-! ## Functions -/

def Step.checkReturn (name : String) (type : GlType) : List GraphError :=
  if type = .function ∨ type = .sampler2D then [.functionResult name type] else []

theorem Step.function_errors {c : Scope} {id : NodeId} {name : String} {g : Generated} {f : Function}
    {s s' : Session} (h : (function c id name g).run s = (f, s')) :
    (s'.registry c.stage).errors = (s.registry c.stage).errors ++
      (checkReturn name g.type ++ (parameters name [] (byIndex g.arguments)).2) := by
  unfold function at h
  rw [run_report_then] at h
  cases h
  simp [Session.report, Registry.addErrors, checkReturn]

/-- The parameters of a function, for every body and whatever arguments the evaluation of the body
captures: they are the captured arguments of lowest index, one for each captured name and the first
one captured on ties, in the order of their indices and on ties in the order of capture. Beside the
error of what cannot be returned, errors are recorded just if two captured arguments share a name and
differ in type, and each tells of two such arguments. -/
theorem function_parameters (depth : Nat) (id : NodeId) (name : String) (body : Node) (c : Scope)
    {s s₁ s' : Session} {gb g : Generated} (hnew : s.functions.lookup id = none)
    (hb : (body.evalWithin depth (c.functionBody s.nextScope)).run s.openScope = (gb, s₁))
    (hr : ((Node.defun id name body).evalWithin depth c).run s = (g, s')) :
    ∃ f kept clashes, g.function = some f ∧ s'.functions.lookup id = some f ∧
      Selects gb.arguments kept ∧ f.params = kept.map (·.1.parameter) ∧
      (s'.registry c.stage).errors =
        (s₁.registry c.stage).errors ++ (Step.checkReturn name gb.type ++ clashes) ∧
      (clashes ≠ [] ↔ ∃ a ∈ gb.arguments, ∃ b ∈ gb.arguments, a.Clashes b) ∧
      ∀ e ∈ clashes, ∃ a ∈ gb.arguments, ∃ b ∈ gb.arguments, a.Clashes b ∧
        e = .functionArgument name b.name a.type b.type := by
  obtain ⟨kept, hselects, hparams, hclash, heach⟩ := parameters_selects name gb.arguments
  obtain ⟨f, s₂, hf⟩ : ∃ f s₂, (Step.function c id name gb).run s₁ = (f, s₂) := ⟨_, _, rfl⟩
  have heval : ((Node.defun id name body).evalWithin depth c).run s =
      (Step.readFunction c f).run { s₂ with functions := (id, f) :: s₂.functions } := by
    obtain ⟨i, hi⟩ := evalWithin_eq_eval depth
    rw [hi] at hb ⊢
    simp only [Node.eval, run_bind, run_get, hnew, run_newScope, hb, hf]
    rfl
  rw [heval] at hr
  obtain ⟨hg, hadvance⟩ := Step.readFunction_eq hr
  obtain ⟨rfl, -⟩ := Step.function_writes hf
  refine ⟨_, kept, _, congrArg Generated.function hg, ?_, hselects, hparams, ?_, hclash, heach⟩
  · rw [hadvance.functions]
    exact List.lookup_cons_self
  · rw [← Step.function_errors hf]
    cases hr
    exact Session.useUniforms_errors ..

/-- A product with three arguments, of which two share a name and two share an index. -/
def scaledBody : Node :=
  .operator 4 .mult [.argument 1 "a" 1 .vec2, .argument 2 "b" 0 .float, .argument 3 "a" 0 .vec2]

/-- What the body captures; the places of the arguments that become parameters are 1 and 2. -/
def scaledArguments : List ArgumentDef := [⟨1, "a", 1, .vec2⟩, ⟨2, "b", 0, .float⟩, ⟨3, "a", 0, .vec2⟩]

/-- The parameters are `b` and, with the lower of its indices, `a`. -/
theorem scaledBody_parameters : ∃ gb s₁ g s' f,
    (scaledBody.evalWithin 5 (Scope.fragmentMain.functionBody 2)).run { nextId := 6, nextScope := 3 } = (gb, s₁) ∧
    ((Node.defun 5 "scaled" scaledBody).evalWithin 5 .fragmentMain).run { nextId := 6 } = (g, s') ∧
    gb.arguments = scaledArguments ∧ g.function = some f ∧ f.params = [⟨.float, "b"⟩, ⟨.vec2, "a"⟩] ∧
    (s'.registry .fragment).errors = (s₁.registry .fragment).errors := by
  obtain ⟨gb, s₁, hb⟩ : ∃ gb s₁, (scaledBody.evalWithin 5 (Scope.fragmentMain.functionBody 2)).run
      { nextId := 6, nextScope := 3 } = (gb, s₁) := ⟨_, _, rfl⟩
  obtain ⟨g, s', hr⟩ : ∃ g s', ((Node.defun 5 "scaled" scaledBody).evalWithin 5 .fragmentMain).run
      { nextId := 6 } = (g, s') := ⟨_, _, rfl⟩
  have hargs : gb.arguments = scaledArguments :=
    (congrArg (·.1.arguments) hb).symm.trans (by decide +kernel)
  have htype : gb.type = .vec2 := (congrArg (·.1.type) hb).symm.trans (by decide +kernel)
  have hselects : Selects scaledArguments [(⟨2, "b", 0, .float⟩, 1), (⟨3, "a", 0, .vec2⟩, 2)] := by
    refine ⟨by decide, by decide, by decide, ?_, ?_⟩ <;> simp [scaledArguments, Capture.Before]
  obtain ⟨f, kept, clashes, hf, -, hkept, hparams, herrors, hclash, -⟩ :=
    function_parameters 5 5 "scaled" scaledBody .fragmentMain (s := { nextId := 6 }) rfl hb hr
  rw [hargs] at hkept hclash
  rw [hkept.unique hselects] at hparams
  have hnone : clashes = [] := by
    by_contra hne
    simpa [scaledArguments, ArgumentDef.Clashes] using hclash.mp hne
  refine ⟨gb, s₁, g, s', f, hb, hr, hargs, hf, hparams, ?_⟩
  simpa [hnone, htype, Step.checkReturn, Scope.fragmentMain] using herrors

end ShaderGraph
