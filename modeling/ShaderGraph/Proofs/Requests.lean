import ShaderGraph.Proofs.Redeclaration

/-!
# Requests for names

A request for names takes the next number of its session and puts it behind each of its bases.
`Requests` lists the requests that an evaluation makes and `Usage.Asked` those of a whole use of a
session, by evaluation and by callers. No number is given twice, but names may still agree: the base
of an earlier request may end in the digits that the number of a later one begins with. Evaluation
itself asks for no such base, except for the storage of an accumulator, which has the name that the
graph gives it.
-/

namespace ShaderGraph

open Eval List

variable {i k j : Nat} {c : Scope} {ns : List Node} {s s' : Session} {gs : List Generated} {id : NodeId}
  {n : Node} {count body : Generated} {b : String} {f : Function}

/-! ## Requests -/

/-- Who chose the bases of a request. -/
inductive Origin where
  | caller
  /-- An accumulator, for its storage. -/
  | accumulator
  | evaluation
deriving DecidableEq

/-- A request for names: one for each base, all with one number. -/
structure Request where
  number : Nat
  bases : List String
  origin : Origin

namespace Request

def name (r : Request) (base : String) : String := base ++ toString r.number

def names (r : Request) : List String := r.bases.map r.name

end Request

/-- Requests that took the numbers from `k` on, so that `k'` is next. -/
structure Consecutive (k : Nat) (rs : List Request) (k' : Nat) : Prop where
  numbers : rs.map (·.number) = List.range' k rs.length
  next : k' = k + rs.length

namespace Consecutive

variable {k1 k2 : Nat} {rs qs : List Request}

theorem none (h : k1 = k) : Consecutive k [] k1 := ⟨rfl, h⟩

theorem one {bases : List String} {o : Origin} (h : k1 = k + 1) : Consecutive k [⟨k, bases, o⟩] k1 := ⟨rfl, h⟩

theorem append (h : Consecutive k rs k1) (h' : Consecutive k1 qs k2) : Consecutive k (rs ++ qs) k2 where
  numbers := by
    rw [map_append, h.numbers, h'.numbers, h.next, range'_append_1, length_append]
  next := by
    rw [h'.next, h.next, length_append, Nat.add_assoc]

theorem number_eq (h : Consecutive k rs k1) {r : Request} (hr : rs[i]? = some r) : r.number = k + i := by
  have hi : i < rs.length := (List.getElem?_eq_some_iff.mp hr).1
  have hnumber : (rs.map (·.number))[i]? = some r.number := by rw [getElem?_map, hr, Option.map_some]
  rw [h.numbers, getElem?_range' hi, Option.some.injEq, Nat.one_mul] at hnumber
  exact hnumber.symm

end Consecutive

/-! ## Requests of an evaluation -/

/-- What the step of a plain node asks for. -/
def Node.asks (n : Node) (s : Session) (gs : List Generated) : List Request :=
  match n.form? s.folding gs with
  | some φ => [⟨s.counter, [φ.base], .evaluation⟩]
  | none => []

/-- What a loop asks for to hold its sum, if its body neither accumulates nor reads a parameter. -/
def Generated.asks (body : Generated) (s : Session) : List Request :=
  match body.accumulators, Step.lowestArgument? body.arguments with
  | [], none => [⟨s.counter, ["loopVal"], .evaluation⟩]
  | _, _ => []

/-- The evaluation of nodes one after another, with the requests it makes. -/
inductive Requests : List Node → Scope → Session → List Generated → Session → List Request → Prop where
  | nil {c : Scope} {s : Session} : Requests [] c s [] s []
  | cons {n : Node} {ns : List Node} {c : Scope} {s s1 s2 : Session} {g : Generated} {gs : List Generated}
      {rs qs : List Request} (h : Requests [n] c s [g] s1 rs) (hs : Requests ns c s1 gs s2 qs) :
      Requests (n :: ns) c s (g :: gs) s2 (rs ++ qs)
  | immediate {n : Node} {c : Scope} {s s' : Session} {g : Generated} (hn : n.isImmediate)
      (hr : (n.step c []).run s = (g, s')) : Requests [n] c s [g] s' []
  | reuse {n : Node} {c : Scope} {s s' : Session} {g : Generated} (hn : n.isMemoized)
      (hl : s.lookup? c n.id = some (g, s')) : Requests [n] c s [g] s' []
  | compute {n : Node} {c : Scope} {s s1 s2 : Session} {gs : List Generated} {g : Generated}
      {rs : List Request} (hn : n.isPlain) (hl : s.lookup? c n.id = none)
      (ho : Requests n.operands c s gs s1 rs) (hr : (n.step c gs).run s1 = (g, s2)) :
      Requests [n] c s [g] (s2.remember c n.id g) (rs ++ n.asks s1 gs)
  | loop {id : NodeId} {body count start m : Node} {c : Scope} {s s1 s2 s3 s4 s5 s6 : Session}
      {gi gb gm g : Generated} {bind : Generated → Step.Binding} {rs1 rs2 rs3 : List Request}
      (hl : s.lookup? c id = none) (hcount : Requests [count] c s [gi] s1 rs1)
      (hs : ((Step.checkCount c gi).run s1).2 = s2)
      (hbody : Requests [body] (c.loopBody s2.nextScope) s2.openScope [gb] s3 rs2)
      (ho : Opens gb start s3 m s4 bind) (hm : Requests [m] c s4 [gm] s5 rs3)
      (hr : (Step.sumLoop c gi gb (bind gm)).run s5 = (g, s6)) :
      Requests [.sumLoop id body count start] c s [g] (s6.remember c id g)
        (rs1 ++ (rs2 ++ (gb.asks s3 ++ (rs3 ++ [⟨s5.counter, ["i"], .evaluation⟩]))))
  /-- The requests of the probe for the type are made of another session. -/
  | accumulator {id : NodeId} {name : String} {start : Node} {c : Scope} {s s1 s0 s2 : Session}
      {g0 g : Generated} {rs0 : List Request} (hl : s.lookup? c id = none)
      (hs : (if c.inLoop then s else s.report c [.accumulatorOutside name]) = s1)
      (hprobe : Requests [start] (.lone c.stage) { nextId := s1.nextId, folding := s1.folding } [g0] s0 rs0)
      (hr : (Step.accumulator c name start g0.type).run { s1 with nextId := s0.nextId } = (g, s2)) :
      Requests [.accumulator id name start] c s [g] (s2.remember c id g)
        [⟨s1.counter, [name], .accumulator⟩, ⟨s1.counter + 1, ["accum"], .evaluation⟩]
  | knownFunction {id : NodeId} {name : String} {body : Node} {c : Scope} {s s' : Session} {f : Function}
      {g : Generated} (hf : s.functions.lookup id = some f) (hr : (Step.readFunction c f).run s = (g, s')) :
      Requests [.defun id name body] c s [g] s' []
  | newFunction {id : NodeId} {name : String} {body : Node} {c : Scope} {s s1 s2 s3 : Session}
      {gb g : Generated} {f : Function} {rs : List Request} (hf : s.functions.lookup id = none)
      (hbody : Requests [body] (c.functionBody s.nextScope) s.openScope [gb] s1 rs)
      (hd : (Step.function c id name gb).run s1 = (f, s2))
      (hr : (Step.readFunction c f).run { s2 with functions := (id, f) :: s2.functions } = (g, s3)) :
      Requests [.defun id name body] c s [g] s3 rs
  | varying {id : NodeId} {n : Node} {c : Scope} {s s1 s2 : Session} {g r : Generated} {rs : List Request}
      (hc : c.Paired) (hn : Requests [n] .vertexMain s [g] s1 rs)
      (hr : (Step.readVarying c id g).run s1 = (r, s2)) : Requests [.varying id n] c s [r] s2 rs
  | strayVarying {id : NodeId} {n : Node} {c : Scope} {s s1 : Session} {g : Generated} {rs : List Request}
      (hc : ¬ c.Paired)
      (hn : Requests [n] c (s.report c [.varyingStage (Step.varyingName id)]) [g] s1 rs) :
      Requests [.varying id n] c s [g] s1 rs
  /-- An initial value that is nested too deep. -/
  | exhausted {n : Node} {c : Scope} {s s' : Session} {g : Generated}
      (hr : (Step.absentOperand c).run s = (g, s')) : Requests [n] c s [g] s' []

def requests : Judgement := fun n c s g s' _ => ∃ rs, Requests [n] c s [g] s' rs

theorem Threads.requests {t : Trace} (h : Threads requests c ns s gs s' t) :
    ∃ rs, Requests ns c s gs s' rs := by
  induction h with
  | nil => exact ⟨[], .nil⟩
  | cons hn _ ih =>
    obtain ⟨rs, hrs⟩ := hn
    obtain ⟨qs, hqs⟩ := ih
    exact ⟨rs ++ qs, .cons hrs hqs⟩

theorem requests_rules : Rules .trivial requests where
  immediate hn hr _ _ _ _ := ⟨_, .immediate hn hr⟩
  reuse hn hl _ _ _ := ⟨_, .reuse hn hl⟩
  compute hn hl ht hr _ _ := by
    obtain ⟨rs, ho⟩ := (ht.imp fun h => h.2).requests
    exact ⟨_, .compute hn hl ho hr⟩
  loop hl hc hs _ hb ho hm hr _ _ _ := by
    obtain ⟨rs1, h1⟩ := hc.2
    obtain ⟨rs2, h2⟩ := hb.2
    obtain ⟨rs3, h3⟩ := hm.2
    exact ⟨_, .loop hl h1 hs h2 ho h3 hr⟩
  accumulator hl hs hp hr _ _ _ _ := by
    obtain ⟨rs0, h0⟩ := hp.2
    exact ⟨_, .accumulator hl hs h0 hr⟩
  knownFunction hf hr _ _ _ := ⟨_, .knownFunction hf hr⟩
  newFunction hf hb hd hr _ _ _ _ := by
    obtain ⟨rs, h⟩ := hb.2
    exact ⟨_, .newFunction hf h hd hr⟩
  varying hc hn hr _ := by
    obtain ⟨rs, h⟩ := hn.2
    exact ⟨_, .varying hc h hr⟩
  strayVarying hc hn _ := by
    obtain ⟨rs, h⟩ := hn.2
    exact ⟨_, .strayVarying hc h⟩
  exhausted hr _ := ⟨_, .exhausted hr⟩

/-- Every evaluation is accounted for. -/
theorem requests_of_generate (n : Node) (c : Scope) (s : Session) :
    ∃ rs, Requests [n] c s [((n.generate c).run s).1] ((n.generate c).run s).2 rs :=
  (requests_rules.everywhere Judgement.everywhere_trivial).eval n.id n c s

/-! ## Numbers of steps -/

section
variable {g : Generated}

@[simp] theorem Session.updateRegistry_counter (s : Session) (stage : Stage) (f : Registry → Registry) :
    (s.updateRegistry stage f).counter = s.counter := (s.updateRegistry_same stage f).1

@[simp] theorem Session.mark_counter (s : Session) (c : Scope) (vs : List String) :
    (s.mark c vs).counter = s.counter := rfl

@[simp] theorem Session.openScope_counter (s : Session) : s.openScope.counter = s.counter := rfl

theorem Session.counter_of_report {p : Prop} [Decidable p] {es : List GraphError}
    (h : (if p then s else s.report c es) = s') : s'.counter = s.counter := by
  rw [← h, apply_ite Session.counter, report_counter, ite_self]

theorem Session.Takes.counter (h : s.Takes c id g s') : s'.counter = s.counter := by
  cases h with
  | reference | again => rfl
  | whole => simp

theorem Node.step_counter_of_isImmediate (hn : n.isImmediate) (hr : (n.step c []).run s = (g, s')) :
    s'.counter = s.counter := by
  cases n with
  | absent =>
    cases hr
    exact s.report_counter c _
  | float | bool =>
    cases hr
    rfl
  | uniform id u =>
    obtain ⟨-, es, rfl⟩ := Step.readUniform_eq hr
    simp
  | «attribute» id a =>
    obtain ⟨-, es, -, rfl⟩ := Step.readAttribute_eq hr
    simp
  | _ => cases hn

theorem Node.step_counter (hn : n.isPlain) (hlen : gs.length = n.operands.length)
    (hφ : n.form? s.folding gs = none) (hr : (n.step c gs).run s = (g, s')) : s'.counter = s.counter := by
  cases Node.step_outcome hn hlen hr with
  | declared φ hφ' => cases hφ.symm.trans hφ'
  | broken _ _ _ hs => exact hs ▸ s.report_counter c _
  | failed _ _ hs => exact hs.taken

theorem Node.asks_consecutive (hn : n.isPlain) (hlen : gs.length = n.operands.length)
    (hr : (n.step c gs).run s = (g, s')) : Consecutive s.counter (n.asks s gs) s'.counter := by
  unfold asks
  cases hφ : n.form? s.folding gs with
  | some φ =>
    rw [run_step hφ c] at hr
    cases hr
    exact .one (φ.session_counter c _ s)
  | none => exact .none (step_counter hn hlen hφ hr)

theorem Opens.consecutive {start m : Node} {bind : Generated → Step.Binding} (h : Opens body start s m s' bind) :
    Consecutive s.counter (body.asks s) s'.counter := by
  cases h with
  | accumulated h => simpa only [Generated.asks, h] using Consecutive.none rfl
  | parameter h ha => simpa only [Generated.asks, h, ha] using Consecutive.none rfl
  | own h ha =>
    simp only [Generated.asks, h, ha]
    exact .one rfl

theorem Step.readFunction_counter (h : (readFunction c f).run s = (g, s')) : s'.counter = s.counter := by
  cases h
  exact s.updateRegistry_counter c.stage _

theorem Step.readVarying_counter {r : Generated} (h : (readVarying c id g).run s = (r, s')) :
    s'.counter = s.counter := by
  rw [run_readVarying] at h
  cases h
  simp

end

theorem Requests.length {rs : List Request} (h : Requests ns c s gs s' rs) : gs.length = ns.length := by
  induction h with
  | nil => rfl
  | cons _ _ _ ih => simp only [length_cons, ih]
  | _ => rfl

theorem Requests.consecutive {rs : List Request} (h : Requests ns c s gs s' rs) :
    Consecutive s.counter rs s'.counter := by
  induction h with
  | nil => exact .none rfl
  | cons _ _ ih ih' => exact ih.append ih'
  | immediate hn hr => exact .none (Node.step_counter_of_isImmediate hn hr)
  | reuse _ hl => exact .none (Session.takes_of_lookup hl).counter
  | compute hn _ ho hr ih =>
    have hstep := Node.asks_consecutive hn ho.length hr
    exact ih.append hstep
  | loop _ _ hs _ ho _ hr ihc ihb ihm =>
    have hcheck := (Step.checkCount_writes hs).taken
    have hindex := (Step.sumLoop_writes hr).2.taken
    rw [Session.openScope_counter, hcheck] at ihb
    exact ihc.append (ihb.append (ho.consecutive.append (ihm.append (.one hindex))))
  | accumulator _ hs _ hr =>
    have hreport := Session.counter_of_report hs
    cases hr
    rw [← hreport]
    exact (Consecutive.one rfl).append (.one rfl)
  | knownFunction _ hr => exact .none (Step.readFunction_counter hr)
  | newFunction _ _ hd hr ih =>
    have hdefine := (Step.function_writes hd).2.taken
    have hread := Step.readFunction_counter hr
    rw [hread.trans hdefine]
    exact ih
  | varying _ _ hr ih =>
    rw [Step.readVarying_counter hr]
    exact ih
  | strayVarying _ _ ih =>
    rw [Session.report_counter] at ih
    exact ih
  | exhausted hr =>
    cases hr
    exact .none (Session.report_counter ..)

/-! ## Bases -/

def EndsInDigit (base : String) : Prop := ∃ x, base.toList.getLast? = some x ∧ x.isDigit

/-- Bases that evaluation chooses itself do not end in digits. -/
def Request.Fixed (r : Request) : Prop := r.origin = .evaluation → ∀ b ∈ r.bases, ¬ EndsInDigit b

theorem Request.fixed_single {base : String} {o : Origin} (h : ∃ x, base.toList.getLast? = some x ∧ ¬ x.isDigit) :
    (⟨k, [base], o⟩ : Request).Fixed := by
  obtain ⟨x, hx, hplain⟩ := h
  intro _ b hb
  rw [mem_singleton.mp hb]
  rintro ⟨y, hy, hdigit⟩
  rw [hx, Option.some.injEq] at hy
  exact hplain (hy ▸ hdigit)

theorem Node.asks_fixed (s : Session) (hlen : gs.length = n.operands.length) : ∀ r ∈ n.asks s gs, r.Fixed := by
  intro r hr
  unfold asks at hr
  cases hφ : n.form? s.folding gs with
  | some φ =>
    simp only [hφ] at hr
    rw [mem_singleton.mp hr]
    exact Request.fixed_single (Node.form_fits .vertexMain hlen hφ).base.ends
  | none => simp [hφ] at hr

theorem Generated.asks_fixed (body : Generated) (s : Session) : ∀ r ∈ body.asks s, r.Fixed := by
  intro r hr
  unfold asks at hr
  split at hr
  · rw [mem_singleton.mp hr]
    exact Request.fixed_single (isBase_val "loop").ends
  · cases hr

theorem Requests.fixed {rs : List Request} (h : Requests ns c s gs s' rs) : ∀ r ∈ rs, r.Fixed := by
  have hindex : ∃ x, "i".toList.getLast? = some x ∧ ¬ x.isDigit := ⟨'i', by simp, by decide⟩
  have haccum : IsBase "accum" := .inl (by decide)
  induction h with
  | nil | immediate | reuse | knownFunction | exhausted => exact forall_mem_nil _
  | cons _ _ ih ih' => exact forall_mem_append.mpr ⟨ih, ih'⟩
  | compute _ _ ho _ ih => exact forall_mem_append.mpr ⟨ih, Node.asks_fixed _ ho.length⟩
  | loop _ _ _ _ _ _ _ ihc ihb ihm =>
    simp only [forall_mem_append, forall_mem_singleton]
    exact ⟨ihc, ihb, Generated.asks_fixed _ _, ihm, Request.fixed_single hindex⟩
  | accumulator =>
    refine forall_mem_cons.mpr ⟨fun ho => ?_, forall_mem_singleton.mpr (Request.fixed_single haccum.ends)⟩
    cases ho
  | newFunction _ _ _ _ ih | varying _ _ _ ih | strayVarying _ _ ih => exact ih

/-! ## Names that agree -/

theorem length_numeral_le (h : i ≤ j) : (toString i).toList.length ≤ (toString j).toList.length := by
  rw [toList_numeral, toList_numeral]
  have hj := (Nat.length_toDigits_le_iff (n := j) (by decide : 1 < 10) Nat.length_toDigits_pos).mp (Nat.le_refl _)
  exact (Nat.length_toDigits_le_iff (by decide) Nat.length_toDigits_pos).mpr (h.trans_lt hj)

/-- Names with different numbers agree exactly if the base of the smaller number goes on with digits
that the larger number begins with. -/
theorem name_eq_iff {a : String} (hij : i < j) :
    a ++ toString i = b ++ toString j ↔ ∃ d, d ≠ "" ∧ a = b ++ d ∧ toString j = d ++ toString i := by
  constructor
  · intro h
    have h : a.toList ++ (toString i).toList = b.toList ++ (toString j).toList := by
      rw [← String.toList_append, ← String.toList_append, h]
    have hne : (toString i).toList ≠ (toString j).toList := fun h => hij.ne (numeral_inj h)
    obtain ⟨as, -, hi⟩ | ⟨as, ha, hj⟩ := append_eq_append_iff.mp h
    · -- the smaller number has no more digits than the larger
      have hlen := length_numeral_le hij.le
      rw [hi, length_append] at hlen
      have hnil : as = [] := length_eq_zero_iff.mp (by omega)
      rw [hnil, nil_append] at hi
      exact absurd hi hne
    · refine ⟨.ofList as, ?_, ?_, ?_⟩
      · intro hd
        have hnil : as = [] := by simpa using congrArg String.toList hd
        rw [hnil, nil_append] at hj
        exact hne hj.symm
      · exact String.toList_injective (by rw [ha, String.toList_append, String.toList_ofList])
      · exact String.toList_injective (by rw [hj, String.toList_append, String.toList_ofList])
  · rintro ⟨d, -, rfl, hj⟩
    rw [hj, String.append_assoc]

theorem endsInDigit_append {d : String} (hd : d ≠ "") (hj : toString j = d ++ toString i) :
    EndsInDigit (b ++ d) := by
  have hne : d.toList ≠ [] := fun h => hd (String.toList_injective h)
  refine ⟨d.toList.getLast hne, ?_, numeral_isDigit (k := j) ?_⟩
  · rw [String.toList_append, getLast?_append_of_ne_nil _ hne, getLast?_eq_some_getLast hne]
  · rw [hj, String.toList_append]
    exact mem_append_left _ (List.getLast_mem hne)

/-! ## Requests of a use -/

namespace Usage

def ask (u : Usage) (bases : List String) : Usage :=
  { u with session := (u.session.freshNames bases).2 }

def emit (u : Usage) (c : Scope) (type : GlType) (code var : String) (deps : List Generated) : Usage :=
  { u with session := ((emitText c type code var deps).run u.session).2 }

def report (u : Usage) (c : Scope) (es : List GraphError) : Usage :=
  { u with session := u.session.report c es }

/-- A use of a session, with all requests that were made of it, oldest first. -/
inductive Asked : Usage → List Request → Prop where
  | initial {u : Usage} (h : Initial u) : Asked u []
  | functionBody {u : Usage} {rs : List Request} {c : Scope} (h : Asked u rs) (hc : c ∈ u.scopes) :
      Asked (u.enter (c.functionBody u.session.nextScope)) rs
  | loopBody {u : Usage} {rs : List Request} {c : Scope} (h : Asked u rs) (hc : c ∈ u.scopes) :
      Asked (u.enter (c.loopBody u.session.nextScope)) rs
  | call {u : Usage} {rs qs : List Request} {c : Scope} {n : Node} {g : Generated} {s : Session}
      (h : Asked u rs) (hc : c ∈ u.scopes) (hr : (n.generate c).run u.session = (g, s))
      (hq : Requests [n] c u.session [g] s qs) : Asked (u.call c n) (rs ++ qs)
  | ask {u : Usage} {rs : List Request} (h : Asked u rs) (bases : List String) :
      Asked (u.ask bases) (rs ++ [⟨u.session.counter, bases, .caller⟩])
  | emit {u : Usage} {rs : List Request} {c : Scope} (h : Asked u rs) (hc : c ∈ u.scopes) (type : GlType)
      (code var : String) (deps : List Generated) : Asked (u.emit c type code var deps) rs
  | report {u : Usage} {rs : List Request} {c : Scope} (h : Asked u rs) (hc : c ∈ u.scopes)
      (es : List GraphError) : Asked (u.report c es) rs

namespace Asked

variable {u : Usage} {rs : List Request} (h : u.Asked rs)
include h

theorem consecutive : Consecutive 0 rs u.session.counter := by
  induction h with
  | initial h =>
    cases h with
    | pair | lone => exact .none rfl
  | functionBody _ _ ih | loopBody _ _ ih | emit _ _ _ _ _ _ ih => exact ih
  | @call u _ _ c n _ _ _ _ hr hq ih =>
    have hcall : (u.call c n).session = _ := congrArg Prod.snd hr
    rw [hcall]
    exact ih.append hq.consecutive
  | ask _ _ ih => exact ih.append (.one rfl)
  | @report u _ c _ _ es ih =>
    have hreport : (u.report c es).session.counter = _ := u.session.report_counter c es
    rw [hreport]
    exact ih

theorem fixed : ∀ r ∈ rs, r.Fixed := by
  induction h with
  | initial => exact forall_mem_nil _
  | functionBody _ _ ih | loopBody _ _ ih | emit _ _ _ _ _ _ ih | report _ _ _ ih => exact ih
  | call _ _ _ hq ih => exact forall_mem_append.mpr ⟨ih, hq.fixed⟩
  | ask _ _ ih =>
    refine forall_mem_append.mpr ⟨ih, forall_mem_singleton.mpr fun ho => ?_⟩
    cases ho

theorem evaluate (hc : c ∈ u.scopes) (n : Node) : ∃ qs, (u.call c n).Asked (rs ++ qs) := by
  obtain ⟨qs, hq⟩ := requests_of_generate n c u.session
  exact ⟨qs, .call h hc rfl hq⟩

theorem askAll (bss : List (List String)) :
    (bss.foldl Usage.ask u).Asked (rs ++ (bss.zipIdx u.session.counter).map fun p => ⟨p.2, p.1, .caller⟩) := by
  induction bss generalizing u rs with
  | nil => simpa using h
  | cons bases bss ih =>
    have hrest := ih (h.ask bases)
    rw [append_assoc] at hrest
    exact hrest

end Asked

/-- In every use of a session, with whatever bases: any evaluation only adds requests, and the names of
two requests agree exactly if the base of the earlier one goes on with digits that the number of
the later one begins with. The earlier base was then given by a caller or by an accumulator, and ends
in a digit. -/
theorem Asked.names_agree_iff {u : Usage} {rs : List Request} (h : u.Asked rs) :
    (∀ c ∈ u.scopes, ∀ n : Node, ∃ qs, (u.call c n).Asked (rs ++ qs)) ∧
      ∀ (i j : Nat) (r q : Request), i < j → rs[i]? = some r → rs[j]? = some q → ∀ a ∈ r.bases, ∀ b ∈ q.bases,
        (r.name a = q.name b ↔ ∃ d, d ≠ "" ∧ a = b ++ d ∧ toString j = d ++ toString i) ∧
        (r.name a = q.name b → r.origin ≠ .evaluation ∧ EndsInDigit a) := by
  refine ⟨fun c hc n => h.evaluate hc n, ?_⟩
  intro i j r q hij hr hq a ha b _
  have hi : r.number = i := by rw [h.consecutive.number_eq hr, Nat.zero_add]
  have hj : q.number = j := by rw [h.consecutive.number_eq hq, Nat.zero_add]
  have hiff : r.name a = q.name b ↔ ∃ d, d ≠ "" ∧ a = b ++ d ∧ toString j = d ++ toString i := by
    rw [Request.name, Request.name, hi, hj]
    exact name_eq_iff hij
  refine ⟨hiff, fun hname => ?_⟩
  obtain ⟨d, hd, rfl, hnumber⟩ := hiff.mp hname
  have hends : EndsInDigit (b ++ d) := endsInDigit_append hd hnumber
  exact ⟨fun ho => h.fixed r (List.mem_of_getElem? hr) ho _ ha hends, hends⟩

end Usage

/-- A running total whose name is the base of a sum and a digit. -/
def oddTotal : Node := .accumulator 2 "addVal1" (.float 1 0)

def shiftedTime : Node := .operator 5 .add [.uniform 3 { id := 3, type := .float }, .float 4 1]

def loopScope : Scope := (Scope.lone .fragment).loopBody 2

/-- The total in a loop, eight names for a caller, and a sum. -/
def clashUsage : Usage :=
  let u0 : Usage := ⟨{ nextId := 6, folding := true }, [.lone .fragment], []⟩
  ((List.replicate 8 ["x"]).foldl Usage.ask ((u0.enter loopScope).call loopScope oddTotal)).call
    loopScope shiftedTime

def clashRequests : List Request :=
  [⟨0, ["addVal1"], .accumulator⟩, ⟨1, ["accum"], .evaluation⟩] ++
    ((List.replicate 8 ["x"]).zipIdx 2).map (fun p => ⟨p.2, p.1, .caller⟩) ++
    [⟨10, ["addVal"], .evaluation⟩]

theorem clashUsage_asked : clashUsage.Asked clashRequests := by
  have h0 : Usage.Asked ⟨{ nextId := 6, folding := true }, [.lone .fragment], []⟩ [] :=
    .initial (.lone .fragment 6 true)
  have h1 := h0.loopBody (c := .lone .fragment) (by decide)
  have h2 := h1.call (c := loopScope) (n := oddTotal) (by decide) rfl
    (.accumulator rfl rfl (.immediate rfl rfl) rfl)
  have h3 := h2.askAll (List.replicate 8 ["x"])
  have hu (s : Session) := Requests.immediate (n := .uniform 3 { id := 3, type := .float }) (c := loopScope)
    (s := s) rfl rfl
  have hf (s : Session) := Requests.immediate (n := .float 4 1) (c := loopScope) (s := s) rfl rfl
  exact h3.call (c := loopScope) (n := shiftedTime) (by decide) rfl
    (.compute (n := shiftedTime) rfl rfl (.cons (hu _) (.cons (hf _) .nil)) rfl)

/-- The storage of the total has the name of the sum. -/
theorem clashUsage_names : clashUsage.Asked clashRequests ∧
    ∃ r q : Request, clashRequests[0]? = some r ∧ clashRequests[10]? = some q ∧
      r.name "addVal1" = q.name "addVal" ∧ r.origin ≠ .evaluation := by
  obtain ⟨-, hnames⟩ := clashUsage_asked.names_agree_iff
  obtain ⟨hiff, horigin⟩ := hnames 0 10 _ _ (by decide) rfl rfl "addVal1" (by decide) "addVal" (by decide)
  have hname := hiff.mpr ⟨"1", by decide, by decide, by decide⟩
  exact ⟨clashUsage_asked, _, _, rfl, rfl, hname, (horigin hname).1⟩

def elapsed : Node := .uniform 1 { id := 1, type := .float }

/-- A loop that adds up the sines of its running total and the time, and on top of it a number of
sines such that the sum gets the name of the total. -/
def clashSum : Node :=
  let total : Node := .accumulator 3 "addVal1" (.float 2 0)
  let term : Node := .builtin 5 .sin [.operator 4 .add [total, elapsed]]
  let waves : Node := .builtin 12 .sin [.builtin 11 .sin [.builtin 10 .sin [.builtin 9 .sin [
    .builtin 8 .sin [elapsed]]]]]
  .operator 14 .add [.sumLoop 7 term (.float 6 3) .absent, waves, .float 13 1]

/-- Names of different requests agree, and a graph without errors declares a variable twice for it. -/
theorem names_repeat :
    (¬ ∀ (u : Usage) (rs : List Request), u.Asked rs → ∀ (i j : Nat) (r q : Request), i < j →
      rs[i]? = some r → rs[j]? = some q → ∀ v ∈ r.names, v ∉ q.names) ∧
    ∃ g s, (clashSum.generate (.lone .fragment)).run { nextId := 15, folding := true } = (g, s) ∧
      s.fragment.errors = [] ∧ (declares g.code.stmts).count "addVal10" = 2 := by
  refine ⟨fun h => ?_, _, _, rfl, by decide +kernel, by decide +kernel⟩
  exact h clashUsage clashRequests clashUsage_asked 0 10 _ _ (by decide) rfl rfl "addVal10"
    (by decide) (by decide)

end ShaderGraph
