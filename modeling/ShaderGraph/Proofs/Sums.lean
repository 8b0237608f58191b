import ShaderGraph.Proofs.Calls
import ShaderGraph.Proofs.Supplies

/-!
# Running sums and the loops that hold them

An accumulator declares a copy of its storage, the variable of the loop that sums it. A loop holds one
sum of its body and leaves the others to the loops around it. In a job without errors a copy that no
loop of its storage surrounds is made of a sum that is left over where the code ends: in a main, in a
function or in a varying. A storage that two nodes have as their variable may be declared twice.
-/

namespace ShaderGraph

open Eval List

variable {gs deps : List Generated} {a : Atom} {type : GlType} {own ss : List Stmt} {x : Extras} {φ : Form}
  {start m : Node} {gm : Generated} {bind : Generated → Step.Binding} {s : Session} {v : String} {G : Graph}

/-! ## Reads of sums -/

/-- The variable that the statement of an accumulator copies. -/
def Stmt.readsSum? : Stmt → Option String
  | .decl _ name (.cast (.keep (.name v))) => if "accum".toList <+: name.toList then some v else none
  | _ => none

/-- Stands in the code outside of all loops that sum in the variable. -/
inductive Stmt.Loose (st : Stmt) (v : String) : List Stmt → Prop where
  | here {ss : List Stmt} (h : st ∈ ss) : Loose st v ss
  | body {index target : String} {bound : LoopBound} {inner ss : List Stmt} {term : Atom}
      (h : .loop index bound inner target term ∈ ss) (hne : target ≠ v) (hst : Loose st v inner) : Loose st v ss

/-- The result captures a running sum with the storage. -/
def Generated.Sums (g : Generated) (v : String) : Prop := ∃ a ∈ g.accumulators, a.storage = v

/-- The statement declares the variable of a loop. -/
def Session.Starts (G : Graph) (s : Session) (st : Stmt) : Prop :=
  ∃ n ∈ G.nodes, ∃ e ss type v x index bound inner term, (n.id, e) ∈ s.memo ∧
    e.generated.code.stmts = ss ++ [.decl type v x, .loop index bound inner v term] ∧ st = .decl type v x

/-- A function or a varying captures a running sum with the storage. -/
inductive Session.Leaves (G : Graph) (s : Session) (v : String) : Prop where
  | function {id : NodeId} {name : String} {body : Node} {f : Function} {g : Generated}
      (hn : .defun id name body ∈ G.nodes) (hf : (id, f) ∈ s.functions) (hk : s.Knows body g) (hv : g.Sums v)
  | varying {id : NodeId} {n : Node} {w : VaryingDef} {g : Generated} (hn : .varying id n ∈ G.nodes)
      (hw : w ∈ s.fragment.varyings) (hname : w.name = Step.varyingName id) (hk : s.Knows n g) (hv : g.Sums v)

/-- What the code reads of sums outside of their loops, `P` allows. -/
def Session.Binds (G : Graph) (s : Session) (P : String → Prop) (ss : List Stmt) : Prop :=
  ∀ st v, st.readsSum? = some v → st.Loose v ss → P v ∨ s.Starts G st

section
variable {s' : Session} {T : Trace} {c : Scope} {n : Node} {g : Generated} {st : Stmt} {ts : List Stmt}
  {P Q : String → Prop}

theorem Stmt.not_loose_nil : ¬ st.Loose v [] := by
  rintro (h | ⟨h, -, -⟩) <;> exact not_mem_nil h

theorem Stmt.loose_append : st.Loose v (ss ++ ts) ↔ st.Loose v ss ∨ st.Loose v ts := by
  constructor
  · rintro (h | ⟨h, hne, hst⟩)
    · exact (mem_append.mp h).imp .here .here
    · exact (mem_append.mp h).imp (.body · hne hst) (.body · hne hst)
  · rintro ((h | ⟨h, hne, hst⟩) | (h | ⟨h, hne, hst⟩))
    · exact .here (mem_append_left _ h)
    · exact .body (mem_append_left _ h) hne hst
    · exact .here (mem_append_right _ h)
    · exact .body (mem_append_right _ h) hne hst

namespace Session.Binds

theorem mono (h : s.Binds G P ss) (hP : ∀ v, P v → Q v) : s.Binds G Q ss :=
  fun st v hread hst => (h st v hread hst).imp_left (hP v)

theorem nil : s.Binds G P [] := fun _ _ _ h => absurd h Stmt.not_loose_nil

theorem append (hs : s.Binds G P ss) (ht : s.Binds G P ts) : s.Binds G P (ss ++ ts) :=
  fun st v hread hst => (Stmt.loose_append.mp hst).elim (hs st v hread) (ht st v hread)

theorem flatMap (h : ∀ g ∈ gs, s.Binds G P g.code.stmts) : s.Binds G P (gs.flatMap (·.code.stmts)) := by
  induction gs with
  | nil => exact nil
  | cons g gs ih =>
    obtain ⟨hg, hgs⟩ := forall_mem_cons.mp h
    exact hg.append (ih hgs)

theorem single (hst : ∀ i b inner w a, st ≠ .loop i b inner w a)
    (h : ∀ v, st.readsSum? = some v → P v ∨ s.Starts G st) : s.Binds G P [st] := by
  rintro st' v hread (hmem | ⟨hmem, -, -⟩)
  · rw [mem_singleton.mp hmem] at hread ⊢
    exact h v hread
  · exact absurd (mem_singleton.mp hmem).symm (hst _ _ _ _ _)

end Session.Binds

/-! ## Serial numbers -/

theorem mem_adjoin_of {α : Type} [BEq α] {P : α → Prop} (hP : ∀ a b, P a → P b → (a == b) = true → a = b)
    {xs ys : List α} (hxs : ∀ a ∈ xs, P a) (hys : ∀ a ∈ ys, P a) {a : α} (h : a ∈ xs ∨ a ∈ ys) :
    a ∈ adjoin xs ys := by
  induction ys generalizing xs with
  | nil => exact h.resolve_right not_mem_nil
  | cons y ys ih =>
    obtain ⟨hy, hys⟩ := forall_mem_cons.mp hys
    rw [adjoin_cons]
    split
    · next hc =>
      obtain ⟨x, hx, hyx⟩ := contains_iff_exists_mem_beq.mp hc
      obtain rfl := hP y x hy (hxs x hx) hyx
      refine ih hxs hys ?_
      rcases h with h | h
      · exact .inl h
      · rcases mem_cons.mp h with rfl | h
        · exact .inl hx
        · exact .inr h
    · refine ih (fun b hb => ?_) hys ?_
      · exact (mem_append.mp hb).elim (hxs b) fun hb => mem_singleton.mp hb ▸ hy
      · rcases h with h | h
        · exact .inl (mem_append_left _ h)
        · rcases mem_cons.mp h with rfl | h
          · exact .inl mem_concat_self
          · exact .inr h

theorem mem_foldl_adjoin_of {α β : Type} [BEq α] {P : α → Prop} (hP : ∀ a b, P a → P b → (a == b) = true → a = b)
    {f : β → List α} {xs : List β} {acc : List α} (hacc : ∀ a ∈ acc, P a) (hf : ∀ x ∈ xs, ∀ a ∈ f x, P a) {a : α}
    (h : a ∈ acc ∨ ∃ x ∈ xs, a ∈ f x) : a ∈ xs.foldl (fun acc x => adjoin acc (f x)) acc := by
  induction xs generalizing acc with
  | nil => exact h.resolve_right fun h => by simp at h
  | cons x xs ih =>
    obtain ⟨hx, hxs⟩ := forall_mem_cons.mp hf
    refine ih (fun b hb => (mem_adjoin hb).elim (hacc b) (hx b)) hxs ?_
    rcases h with h | ⟨y, hy, ha⟩
    · exact .inl (mem_adjoin_of hP hacc hx (.inl h))
    · rcases mem_cons.mp hy with rfl | hy
      · exact .inl (mem_adjoin_of hP hacc hx (.inr ha))
      · exact .inr ⟨y, hy, ha⟩

/-- The running sum of an accumulator that was evaluated. -/
def Session.Accumulates (G : Graph) (s : Session) (a : AccumulatorDef) : Prop :=
  ∃ id name type k e, .accumulator id name a.initial ∈ G.nodes ∧ (id, e) ∈ s.memo ∧
    e.generated = (Step.accumulatorForm name a.initial type k).result (k + 1) ∧
    a = ⟨k, name ++ toString k, type, a.initial⟩

/-- Running sums with one number are one, since the variable of their copies has one owner. -/
theorem Session.Accumulates.unique {a b : AccumulatorDef} (ha : s.Accumulates G a) (hb : s.Accumulates G b)
    (hs : s.Coherent G) (hcounted : s.Counted G) (hab : (a == b) = true) : a = b := by
  have hserial : a.serial = b.serial := beq_iff_eq.mp hab
  obtain ⟨id, name, type, k, e, hn, he, hg, hk⟩ := ha
  obtain ⟨id', name', type', k', e', hn', he', hg', hk'⟩ := hb
  obtain rfl : k = k' := by rwa [hk, hk'] at hserial
  have heq := hcounted.eq_of_owns (v := "accum" ++ toString (k + 1))
    ⟨hn, fun _ _ _ h => (by cases h), e, he, by rw [hg]; rfl⟩
    ⟨hn', fun _ _ _ h => (by cases h), e', he', by rw [hg']; rfl⟩ (fun _ _ _ _ h => (by cases h))
    (fun _ _ _ _ h => by cases h)
  injection heq with hid hname hinitial
  subst hid hname
  have htype := (hs.alike _ he _ he' rfl).type
  rw [hg, hg'] at htype
  obtain rfl : type = type' := htype
  rw [hk, hk', hinitial]

theorem accumulates_gather (hdeps : ∀ d ∈ deps, ∀ b ∈ d.accumulators, s.Accumulates G b)
    (hx : ∀ b ∈ x.accumulators, s.Accumulates G b) :
    ∀ b ∈ ((Generated.gather type own a deps).extend x).accumulators, s.Accumulates G b := by
  intro b hb
  rcases mem_adjoin_foldl hb with ⟨d, hd, hb⟩ | hb
  · exact hdeps d hd b hb
  · exact hx b hb

theorem Session.Made.accumulates (h : s.Made G T c n g) : ∀ a ∈ g.accumulators, s.Accumulates G a := by
  have hnone : ∀ a ∈ ([] : List AccumulatorDef), s.Accumulates G a := forall_mem_nil _
  induction h with
  | immediate hi hr => exact (Node.step_bare hi hr).1.accumulators ▸ hnone
  | taken _ _ ih => exact ih
  | reference _ _ _ _ ih => exact ih
  | declared _ _ hlen _ _ hfits _ _ ih =>
    have hgs := forall_mem_of_zip (P := fun g => ∀ a ∈ g.accumulators, s.Accumulates G a) hlen ih
    exact accumulates_gather (fun d hd => hgs d (hfits.deps.subset hd)) (hfits.accumulators ▸ hnone)
  | broken _ _ _ _ _ _ iha ihb =>
    exact accumulates_gather (x := {}) (forall_mem_cons.mpr ⟨iha, forall_mem_singleton.mpr ihb⟩) hnone
  | @loop _ _ _ _ _ _ _ gi gb gm _ _ bind _ _ _ _ _ hopens _ _ _ ihi ihb ihm =>
    exact accumulates_gather (forall_mem_cons.mpr ⟨hopens.initial.symm ▸ ihm, forall_mem_singleton.mpr ihi⟩)
      fun a ha => ihb a ((hopens.captured gm).2 a ha)
  | accumulator hn he hg => exact forall_mem_singleton.mpr ⟨_, _, _, _, _, hn, he, hg, rfl⟩
  | function | varying => exact hnone

/-! ## The code of results -/

section
variable (hunique : ∀ a b, s.Accumulates G a → s.Accumulates G b → (a == b) = true → a = b)
  (haccs : ∀ d ∈ deps, ∀ b ∈ d.accumulators, s.Accumulates G b) (hx : ∀ b ∈ x.accumulators, s.Accumulates G b)
include hunique haccs hx

theorem sums_gather (hv : (∃ d ∈ deps, d.Sums v) ∨ ∃ b ∈ x.accumulators, b.storage = v) :
    ((Generated.gather type own a deps).extend x).Sums v := by
  have hfold : ∀ b ∈ deps.foldl (fun acc d => adjoin acc d.accumulators) [], s.Accumulates G b := by
    intro b hb
    obtain ⟨d, hd, hb⟩ := (mem_foldl_adjoin hb).resolve_left not_mem_nil
    exact haccs d hd b hb
  rcases hv with ⟨d, hd, b, hb, hv⟩ | ⟨b, hb, hv⟩
  · refine ⟨b, mem_adjoin_of hunique hfold hx (.inl ?_), hv⟩
    exact mem_foldl_adjoin_of hunique (forall_mem_nil _) haccs (.inr ⟨d, hd, hb⟩)
  · exact ⟨b, mem_adjoin_of hunique hfold hx (.inr hb), hv⟩

theorem binds_gather (hdeps : ∀ d ∈ deps, s.Binds G d.Sums d.code.stmts)
    (hown : s.Binds G ((Generated.gather type own a deps).extend x).Sums own) :
    s.Binds G ((Generated.gather type own a deps).extend x).Sums
      ((Generated.gather type own a deps).extend x).code.stmts :=
  (Session.Binds.flatMap fun d hd => (hdeps d hd).mono fun _ hv =>
    sums_gather hunique haccs hx (.inl ⟨d, hd, hv⟩)).append hown

end

/-- A plain node reads no sum: only a parameter is copied as a sum is, under another name. -/
theorem Node.readsSum_form {folding : Bool} {k : Nat} (hφ : n.form? folding gs = some φ) :
    (Stmt.decl φ.type (φ.name k) φ.value).readsSum? = none := by
  cases n with
  | operator id op args =>
    obtain ⟨-, rfl⟩ := form_operator hφ
    rcases (Form.operation op gs).fold_value folding op.fold? with hvalue | ⟨x, hvalue⟩
    all_goals rw [hvalue]; rfl
  | builtin id f args =>
    cases hφ
    rcases (Form.application f gs).fold_value folding f.fold? with hvalue | ⟨x, hvalue⟩
    all_goals rw [hvalue]; rfl
  | argument id name index type =>
    cases hφ
    refine if_neg fun h => ?_
    rw [Form.name, String.toList_append] at h
    have h : "accum".toList <+: "funcArg".toList ++ (toString k).toList := h
    rw [prefix_iff_eq_take, take_append_of_le_length (by decide)] at h
    exact absurd h (by decide)
  | call id fn args =>
    simp only [Node.form?] at hφ
    split at hφ <;> cases hφ
    rfl
  | swizzle id m fields =>
    rcases gs with _ | ⟨g, _ | ⟨_, _⟩⟩ <;> cases hφ
    rfl
  | switch id cond yes no =>
    rcases gs with _ | ⟨gc, _ | ⟨ga, _ | ⟨gb, _ | ⟨_, _⟩⟩⟩⟩ <;> cases hφ
    rfl
  | coordinate | resolution | constant | construct =>
    cases hφ
    rfl
  | _ => cases hφ

theorem Opens.sums {body : Generated} (h : Opens body start s m s' bind) (hv : body.Sums v)
    (hne : (bind gm).var ≠ v) : ∃ a ∈ (bind gm).accumulators, a.storage = v := by
  obtain ⟨a, ha, hv⟩ := hv
  cases h with
  | accumulated hbody =>
    rw [hbody] at ha
    rcases mem_cons.mp ha with rfl | ha
    · exact absurd hv hne
    · exact ⟨a, ha, hv⟩
  | parameter hbody | own hbody =>
    rw [hbody] at ha
    cases ha

/-- The reads of sums in the code of every result are of sums that the result captures. -/
theorem Session.Made.binds (h : s.Made G T c n g) (hs : s.Coherent G) (hcounted : s.Counted G) :
    s.Binds G g.Sums g.code.stmts := by
  have hunique (a b : AccumulatorDef) (ha : s.Accumulates G a) (hb : s.Accumulates G b) := ha.unique hb hs hcounted
  have hnone : ∀ a ∈ ({} : Extras).accumulators, s.Accumulates G a := forall_mem_nil _
  induction h with
  | immediate hi hr => exact (Node.step_bare hi hr).1.code ▸ .nil
  | taken _ _ ih => exact ih
  | reference | function | varying => exact .nil
  | declared _ _ hlen hgs hφ hfits _ _ ih =>
    have hbinds := forall_mem_of_zip (P := fun g => s.Binds G g.Sums g.code.stmts) hlen ih
    have haccs := forall_mem_of_zip (P := fun g => ∀ a ∈ g.accumulators, s.Accumulates G a) hlen
      fun p hp => (hgs p hp).accumulates
    refine binds_gather hunique (fun d hd => haccs d (hfits.deps.subset hd)) (hfits.accumulators ▸ hnone)
      (fun d hd => hbinds d (hfits.deps.subset hd))
      (.single (fun _ _ _ _ _ h => by cases h) fun v hread => ?_)
    rw [Node.readsSum_form hφ] at hread
    cases hread
  | broken _ _ ha hb _ _ iha ihb =>
    refine binds_gather (x := {}) hunique
      (forall_mem_cons.mpr ⟨ha.accumulates, forall_mem_singleton.mpr hb.accumulates⟩) hnone
      (forall_mem_cons.mpr ⟨iha, forall_mem_singleton.mpr ihb⟩)
      (.single (fun _ _ _ _ _ h => by cases h) fun v hread => ?_)
    cases hread
  | @loop _ _ _ _ _ _ _ gi gb gm _ _ bind k e hn hi hb hopens hm he hg ihi ihb ihm =>
    have hdeps : ∀ d ∈ [(bind gm).initial, gi], s.Binds G d.Sums d.code.stmts :=
      forall_mem_cons.mpr ⟨hopens.initial.symm ▸ ihm, forall_mem_singleton.mpr ihi⟩
    have haccs : ∀ d ∈ [(bind gm).initial, gi], ∀ a ∈ d.accumulators, s.Accumulates G a :=
      forall_mem_cons.mpr ⟨hopens.initial.symm ▸ hm.accumulates, forall_mem_singleton.mpr hi.accumulates⟩
    have hx : ∀ a ∈ (Step.loopExtras gb (bind gm)).accumulators, s.Accumulates G a := fun a ha =>
      hb.accumulates a ((hopens.captured gm).2 a ha)
    refine binds_gather hunique haccs hx hdeps ?_
    rintro st v hread (hst | ⟨hst, hne, hinner⟩)
    · rcases mem_pair.mp hst with rfl | rfl
      · exact .inr ⟨_, hn, e, _, _, _, _, _, _, _, _, he, by rw [hg]; rfl, rfl⟩
      · cases hread
    · rcases mem_pair.mp hst with heq | heq
      · cases heq
      · cases heq
        -- the sums that the loop leaves are captured by its result
        exact (ihb st v hread hinner).imp_left fun hv =>
          sums_gather hunique haccs hx (.inr (hopens.sums hv hne))
  | @accumulator _ id name start type k =>
    change s.Binds G _ [.decl type ("accum" ++ toString (k + 1)) (.cast (.keep (.name (name ++ toString k))))]
    refine .single (fun _ _ _ _ _ h => by cases h) fun v hread => .inl ⟨_, mem_cons_self, ?_⟩
    rw [Stmt.readsSum?] at hread
    split at hread <;> cases hread
    rfl

end

/-! ## The blocks of a job -/

/-- A loop takes the variable from its body, and another node has it too. -/
def Session.Shares (G : Graph) (s : Session) (v : String) : Prop :=
  ∃ m n, m ≠ n ∧ s.Borrows m v ∧ s.Owns G m v ∧ s.Owns G n v

structure Compiled.HoldsSums (G : Graph) (r : Compiled) : Prop where
  /-- A sum that is read outside of its loops is left over where the code ends. -/
  reads : ∀ block ∈ r.blocks, ∀ st v, st.readsSum? = some v → st.Loose v block →
    (r.vertex.Sums v ∨ r.fragment.Sums v ∨ r.session.Leaves G v) ∨ r.session.Starts G st
  /-- A variable that is declared twice is shared, or some variable has no name. -/
  once : ∀ block ∈ r.blocks, ∀ v, DeclaresOnce v block ∨ r.session.Shares G v ∨ ¬ r.session.Named

theorem Session.Counted.shares (h : s.Counted G) (hv : ¬ s.Sole G v) : s.Shares G v := by
  simp only [Sole, not_forall] at hv
  obtain ⟨m, n, hm, hn, hne⟩ := hv
  rcases h.apart m n v hm hn with heq | hb | hb
  · exact absurd heq hne
  · exact ⟨m, n, hne, hb, hm, hn⟩
  · exact ⟨n, m, Ne.symm hne, hb, hn, hm⟩

/-- In the sources of a job without errors every copy of a running sum stands in the body of a loop that sums
in the copied variable, unless the sum is left over by a main, a function or a varying or the copy is the start
of another sum; and no block declares a variable twice, unless a loop takes it from its body and another node has
it too, or the job has a result without a name. -/
theorem sums_held_but_for_shared {G : Graph} (hG : G.Shared) {vertex fragment : Node} (hv : vertex ∈ G.nodes)
    (hf : fragment ∈ G.nodes) {o : CompileOptions} {nextId : NodeId} {r : Compiled}
    (hr : compiled vertex fragment o.folding nextId = r)
    (herr : (compilePair vertex fragment o nextId).error? = none) :
    (compilePair vertex fragment o nextId).vertexSource = r.vertexProgram.sections.assemble.1 ∧
    (compilePair vertex fragment o nextId).fragmentSource = r.fragmentProgram.sections.assemble.1 ∧
    r.HoldsSums G := by
  refine ⟨hr ▸ rfl, hr ▸ rfl, ?_, fun block hblock v => ?_⟩
  · obtain ⟨hs, hgv, hgf⟩ := compiled_made hG hv hf hr herr
    have hbinds {c : Scope} {n : Node} {g : Generated} (hg : r.session.Made G r.trace c n g) :=
      hg.binds hs.coherent (compiled_counted hG hv hf hr herr)
    refine Compiled.forall_blocks
      (P := r.session.Binds G fun v => r.vertex.Sums v ∨ r.fragment.Sums v ∨ r.session.Leaves G v)
      .nil .append ?_ hr ?_ ?_ ?_ ?_
    · exact fun v a => .single (fun _ _ _ _ _ h => by cases h) fun w hread => by cases hread
    · exact (hbinds hgv).mono fun v hv => .inl hv
    · exact (hbinds hgf).mono fun v hv => .inr (.inl hv)
    · intro w hw
      obtain ⟨id, n, g, hn, rfl, hg, -⟩ := hs.past.varyings w hw
      exact (hbinds hg).mono fun v hv => .inr (.inr (.varying hn hw rfl hg.knows hv))
    · intro p hp
      obtain ⟨name, body, gb, hn, hfunction, c, -, hb⟩ := hs.past.functions p hp
      rw [hfunction]
      exact (hbinds hb).mono fun v hv => .inr (.inr (.function hn hp hb.knows hv))
  · by_cases hnamed : r.session.Named
    · by_cases hsole : r.session.Sole G v
      · exact .inl (compiled_declaresOnce hG hv hf hr herr hsole hnamed block hblock)
      · exact .inr (.inl ((compiled_counted hG hv hf hr herr).shares hsole))
    · exact .inr (.inr hnamed)

/-! ## A sum of sums -/

def brookDepth : Node := .uniform 1 { id := 1, type := .float }

def brookRise : Node := .accumulator 3 "rise" (.float 2 1)

def brookFall : Node := .accumulator 4 "fall" (.float 2 1)

/-- Holds one of the sums. -/
def brookPool : Node := .sumLoop 8 (.operator 5 .mult [brookRise, brookDepth]) (.float 6 3) (.float 7 0)

/-- Holds the other one, around the first. -/
def brookLake : Node := .sumLoop 10 (.operator 9 .add [brookFall, brookPool]) (.float 6 3) (.float 7 0)

/-- A second loop for the first sum. -/
def brookTwin : Node := .sumLoop 12 (.operator 11 .add [brookRise, brookDepth]) (.float 6 3) (.float 7 0)

def brookFork : Node := .operator 13 .add [brookPool, brookTwin]

/-- One loop for both sums. -/
def brookBraid : Node := .sumLoop 15 (.operator 14 .add [brookRise, brookFall]) (.float 6 3) (.float 7 0)

/-- The first sum is used after its loop. -/
def brookMouth : Node := .operator 16 .add [brookPool, brookRise]

def brookCorner : Node := .construct 17 .vec2 [brookDepth]

def brookNodes : List Node :=
  [brookDepth, .float 2 1, brookRise, brookFall, .operator 5 .mult [brookRise, brookDepth], .float 6 3, .float 7 0,
    brookPool, .operator 9 .add [brookFall, brookPool], brookLake, .operator 11 .add [brookRise, brookDepth], brookTwin,
    brookFork, .operator 14 .add [brookRise, brookFall], brookBraid, brookMouth, brookCorner]

def brookGraph : Graph := .ofList brookNodes <| by
  simp [brookNodes, brookDepth, brookRise, brookFall, brookPool, brookLake, brookTwin, brookFork, brookBraid,
    brookMouth, brookCorner, Node.children, Node.operands]

theorem brookGraph_shared : brookGraph.Shared := Graph.shared_ofList (by decide)

def brookJob : Compiled := compiled brookCorner brookLake true 18

theorem brookJob_ok : (compilePair brookCorner brookLake {} 18).error? = none := by decide +kernel

/-- Each loop holds one sum, and its body copies it. -/
theorem brookJob_holdsSums : brookJob.HoldsSums brookGraph ∧ Stmt.block brookJob.fragmentProgram.main =
    "float fall1 = 1.0;\nfor (float i8 = 0.0; i8 < 3.0; i8 += 1.0) \x7b\n\tfloat accum2 = fall1;\n\t" ++
    "float rise3 = 1.0;\n\tfor (float i6 = 0.0; i6 < 3.0; i6 += 1.0) \x7b\n\t\tfloat accum4 = rise3;\n\t\t" ++
    "float multVal5 = accum4*uniform1;\n\t\trise3 += multVal5;\n\t\x7d\n\t" ++
    "float addVal7 = accum2+rise3;\n\tfall1 += addVal7;\n\x7d" := by
  have hr : compiled brookCorner brookLake ({} : CompileOptions).folding 18 = brookJob := rfl
  have hv : brookCorner ∈ brookNodes := by simp [brookNodes]
  have hf : brookLake ∈ brookNodes := by simp [brookNodes]
  refine ⟨(sums_held_but_for_shared brookGraph_shared hv hf hr brookJob_ok).2.2, ?_⟩
  decide +kernel

/-! ## A sum for two loops, two sums for one, and a sum without a loop -/

/-- A loop for another sum, with a copy of the variable in its body. -/
def Stmt.straysIn (v : String) : Stmt → Bool
  | .loop _ _ inner target _ => target != v && inner.any (·.readsSum? == some v)
  | _ => false

theorem Stmt.loose_of_straysIn (h : ss.any (straysIn v)) :
    ∃ st : Stmt, st.readsSum? = some v ∧ st.Loose v ss := by
  obtain ⟨st, hst, h⟩ := any_eq_true.mp h
  cases st with
  | loop index bound inner target term =>
    obtain ⟨hne, h⟩ := Bool.and_eq_true_iff.mp h
    obtain ⟨copy, hcopy, hread⟩ := any_eq_true.mp h
    exact ⟨copy, beq_iff_eq.mp hread, .body hst (bne_iff_ne.mp hne) (.here hcopy)⟩
  | _ => cases h

def brookForked : Compiled := compiled brookCorner brookFork true 18

def brookBraided : Compiled := compiled brookCorner brookBraid true 18

def brookSpilled : Compiled := compiled brookCorner brookMouth true 18

/-- In three jobs without errors the main of the fragment stage declares the storage of a sum twice, copies a sum in
a loop that holds another one, and copies a sum after its loop. -/
theorem sums_redeclared_and_loose :
    brookGraph.Shared ∧ (∀ n ∈ [brookCorner, brookFork, brookBraid, brookMouth], n ∈ brookGraph.nodes) ∧
    ((compilePair brookCorner brookFork {} 18).error? = none ∧
      ¬ DeclaresOnce "rise1" (brookForked.fragmentProgram.statements brookForked.fragment.var)) ∧
    ((compilePair brookCorner brookBraid {} 18).error? = none ∧ ∃ st : Stmt, st.readsSum? = some "fall3" ∧
      st.Loose "fall3" (brookBraided.fragmentProgram.statements brookBraided.fragment.var)) ∧
    (compilePair brookCorner brookMouth {} 18).error? = none ∧ ∃ st : Stmt, st.readsSum? = some "rise1" ∧
      st.Loose "rise1" (brookSpilled.fragmentProgram.statements brookSpilled.fragment.var) := by
  refine ⟨brookGraph_shared, ?_, ⟨?_, ?_⟩, ⟨?_, ?_⟩, ?_, ?_⟩
  · show ∀ n ∈ _, n ∈ brookNodes
    simp [brookNodes]
  · decide +kernel
  · exact fun h => absurd h.count (by decide +kernel)
  · decide +kernel
  · exact Stmt.loose_of_straysIn (by decide +kernel)
  · decide +kernel
  · have h : (brookSpilled.fragmentProgram.statements brookSpilled.fragment.var).any
        (·.readsSum? == some "rise1") := by decide +kernel
    obtain ⟨st, hst, hread⟩ := List.any_eq_true.mp h
    exact ⟨st, beq_iff_eq.mp hread, .here hst⟩

end ShaderGraph
