import ShaderGraph.Proofs.Ordering
import ShaderGraph.Proofs.Owners
import ShaderGraph.Proofs.Redeclaration

/-!
# Calls in generated code

A call in generated code goes by the name of what it calls, and functions may share a name with each
other or with a builtin. Which function a call means is told by the node that the statement was
declared for. In a session without errors every call is of a builtin, of a constructor, or of one
function, and that function is listed with the code that calls it.
-/

namespace ShaderGraph

open Eval List

variable {type : GlType} {f : Function} {as : List Atom} {k : Nat} {name : String} {vs : List String} {n : Node}
  {id : NodeId} {gs : List Generated} {φ : Form} {st : Stmt} {ss ts : List Stmt}

/-! ## What is called -/

def Stmt.callee? : Stmt → Option String
  | .decl _ _ (.call name _) => some name
  | _ => none

def Session.IsCall (G : Graph) (s : Session) (st : Stmt) (f : Function) : Prop :=
  ∃ id fn args e, Node.call id fn args ∈ G.nodes ∧ (id, e) ∈ s.memo ∧
    e.generated.code.stmts.getLast? = some st ∧ (fn.id, f) ∈ s.functions

/-- A call of a builtin, of a constructor or of one of the functions. -/
inductive Session.Resolves (G : Graph) (s : Session) (fs : List Function) (st : Stmt) (name : String) :
    Prop where
  | builtin {b : Builtin} {type : GlType} {k : Nat} {args : List Atom} (hname : b.name = name)
      (hst : st = .decl type (b.name ++ "Val" ++ toString k) (.call b.name args))
  | constructor {q : Constructed} {k : Nat} {args : List Atom} (hname : q.type.name = name)
      (hst : st = .decl q.type (q.type.name ++ "Val" ++ toString k) (.call q.type.name args))
  | function {f : Function} (hname : f.name = name) (hf : f.id ∈ Function.ids fs)
      (hcall : s.IsCall G st f)

def Session.Links (G : Graph) (s : Session) (ss : List Stmt) (fs : List Function) : Prop :=
  ∀ st : Stmt, st.Inside ss → ∀ name, st.callee? = some name → s.Resolves G fs st name

/-- The statement that a call of a function declares as number `k`. -/
def Function.callStatement (f : Function) (args : List Atom) (k : Nat) : Stmt :=
  .decl f.returns (f.name ++ "Value" ++ toString k) (.call f.name args)

section
variable {G : Graph} {s : Session} {T : Trace} {c : Scope} {g : Generated} {fs fs' : List Function}

theorem Session.Links.mono (h : s.Links G ss fs) (hfs : Function.ids fs ⊆ Function.ids fs') : s.Links G ss fs' := by
  intro st hst name hname
  cases h st hst name hname with
  | builtin hname hst => exact .builtin hname hst
  | constructor hname hst => exact .constructor hname hst
  | function hname hf hcall => exact .function hname (hfs hf) hcall

theorem Session.links_nil : s.Links G [] fs := fun _ h => absurd h Stmt.not_inside_nil

theorem Session.links_append : s.Links G (ss ++ ts) fs ↔ s.Links G ss fs ∧ s.Links G ts fs := by
  simp only [Links, Stmt.inside_append, or_imp, forall_and]

theorem Session.links_breakIf (s : Session) (a : Atom) (fs : List Function) : s.Links G [.breakIf a] fs := by
  rintro st (h | ⟨h, -⟩) name hname
  · rw [mem_singleton.mp h] at hname
    cases hname
  · cases mem_singleton.mp h

theorem Session.links_flatMap {α : Type} {xs : List α} {f : α → List Stmt}
    (h : ∀ x ∈ xs, s.Links G (f x) fs) : s.Links G (xs.flatMap f) fs := by
  intro st hst
  obtain ⟨x, hx, hst⟩ := hst.flatMap
  exact h x hx st hst

theorem Session.links_gather {own : List Stmt} {v : Atom} {deps : List Generated} {x : Extras}
    (hdeps : ∀ d ∈ deps, s.Links G d.code.stmts d.functions)
    (hown : s.Links G own ((Generated.gather type own v deps).extend x).functions) :
    s.Links G ((Generated.gather type own v deps).extend x).code.stmts
      ((Generated.gather type own v deps).extend x).functions := by
  refine links_append.mpr ⟨links_flatMap fun d hd => (hdeps d hd).mono fun i hi => ?_, hown⟩
  exact Function.mem_ids_adjoin.mpr (.inl (Function.mem_ids_foldl.mpr (.inr ⟨d, hd, hi⟩)))

/-! ## Results of steps -/

/-- The functions that results stand for are defined by their nodes. -/
theorem Session.Made.function_mem (h : s.Made G T c n g) (hf : g.function = some f) : (n.id, f) ∈ s.functions := by
  induction h with
  | immediate hi hr =>
    rw [(Node.step_bare hi hr).1.function] at hf
    cases hf
  | taken _ _ ih => exact ih hf
  | reference _ _ _ _ ih => exact ih hf
  | function _ hmem =>
    cases hf
    exact hmem
  | declared | broken | loop | accumulator | varying => cases hf

theorem Session.resolves_form {folding : Bool}
    (hφ : n.form? folding gs = some φ)
    (hcall : ∀ id fn args f, n = .call id fn args → gs.getLast?.bind (·.function) = some f →
      s.IsCall G (.decl φ.type (φ.name k) φ.value) f)
    (hname : (Stmt.decl φ.type (φ.name k) φ.value).callee? = some name) :
    s.Resolves G (φ.result k).functions (.decl φ.type (φ.name k) φ.value) name := by
  cases n with
  | operator id op args =>
    obtain ⟨-, rfl⟩ := Node.form_operator hφ
    rcases (Form.operation op gs).fold_value folding op.fold? with hvalue | ⟨x, hvalue⟩
    all_goals
      rw [hvalue] at hname
      cases hname
  | builtin id f args =>
    cases hφ
    rcases (Form.application f gs).fold_value folding f.fold? with hvalue | ⟨x, hvalue⟩
    · rw [hvalue] at hname ⊢
      cases hname
      exact .builtin rfl (by rw [Form.name, Form.fold_base]; rfl)
    · rw [hvalue] at hname
      cases hname
  | construct id q args =>
    cases hφ
    cases hname
    exact .constructor rfl rfl
  | call id fn args =>
    simp only [Node.form?] at hφ
    split at hφ
    · next f hf =>
      cases hφ
      cases hname
      refine .function rfl ?_ (hcall id fn args f rfl hf)
      exact Function.mem_ids_adjoin.mpr (.inr mem_cons_self)
    · cases hφ
  | swizzle id m fields =>
    rcases gs with _ | ⟨g, _ | ⟨_, _⟩⟩ <;> cases hφ
    cases hname
  | switch id cond yes no =>
    rcases gs with _ | ⟨gc, _ | ⟨ga, _ | ⟨gb, _ | ⟨_, _⟩⟩⟩⟩ <;> cases hφ
    cases hname
  | coordinate | resolution | constant | argument =>
    cases hφ
    cases hname
  | _ => cases hφ

theorem links_loop {gi gb : Generated} {b : Step.Binding} (hi : s.Links G gi.code.stmts gi.functions)
    (hb : s.Links G gb.code.stmts gb.functions) (hm : s.Links G b.initial.code.stmts b.initial.functions)
    (k : Nat) :
    s.Links G (Step.loopResult gi gb b k).code.stmts (Step.loopResult gi gb b k).functions := by
  refine Session.links_gather ?_ ?_
  · intro d hd
    rcases mem_pair.mp hd with rfl | rfl
    · exact hm
    · exact hi
  · rintro st (h | ⟨h, hst⟩) name hname
    · rcases mem_pair.mp h with rfl | rfl <;> cases hname
    · rcases mem_pair.mp h with h | h <;> cases h
      exact hb.mono (fun i hi => Function.mem_ids_adjoin.mpr (.inr hi)) st hst name hname

theorem links_accumulator {start : Node} {j : Nat} :
    s.Links G ((Step.accumulatorForm name start type j).result k).code.stmts
      ((Step.accumulatorForm name start type j).result k).functions := by
  refine Session.links_gather (forall_mem_nil _) ?_
  intro st hst name hname
  rw [hst.decl] at hname
  cases hname

/-- The calls of every result are resolved by its functions. -/
theorem Session.Made.links (h : s.Made G T c n g) : s.Links G g.code.stmts g.functions := by
  induction h with
  | immediate hi hr => exact (Node.step_bare hi hr).1.code ▸ links_nil
  | taken _ _ ih => exact ih
  | reference | function | varying => exact links_nil
  | @declared _ n gs φ k e hn _ hlen hgs hφ hfits he hg ih =>
    have hdeps := forall_mem_of_zip (P := fun g => s.Links G g.code.stmts g.functions) hlen ih
    refine links_gather (fun d hd => hdeps d (hfits.deps.subset hd)) fun st hst name hname => ?_
    rw [hst.decl] at hname ⊢
    refine resolves_form hφ ?_ hname
    rintro id fn args f rfl hf
    -- the last operand of a call is the function
    obtain ⟨gs', gf, rfl, -, hgf⟩ := forall₂_concat (forall₂_iff_zip.mpr ⟨hlen, fun hp => hgs _ hp⟩)
    rw [getLast?_concat] at hf
    exact ⟨id, fn, args, e, hn, he, by rw [hg]; exact getLast?_concat, hgf.function_mem hf⟩
  | broken _ _ _ _ _ _ iha ihb =>
    exact links_gather (x := {}) (forall_mem_cons.mpr ⟨iha, forall_mem_singleton.mpr ihb⟩) (links_breakIf _ _ _)
  | loop _ _ _ hopens _ _ _ ihi ihb ihm => exact links_loop ihi ihb (hopens.initial.symm ▸ ihm) _
  | accumulator => exact links_accumulator

/-! ## Calls and their variables -/

theorem Session.Coherent.call_last (hs : s.Coherent G) (hG : G.Shared) {fn : Node} {args : List Node} {e : MemoEntry}
    (hn : .call id fn args ∈ G.nodes) (he : (id, e) ∈ s.memo) : ∃ (f : Function) (as : List Atom) (k : Nat),
      e.generated.code.stmts.getLast? = some (f.callStatement as k) ∧
      e.generated.var = .name (f.name ++ "Value" ++ toString k) := by
  obtain ⟨m, hm, -, hid, hd⟩ := hs.derived _ he
  obtain rfl := hG m hm _ hn hid
  dsimp only at hd
  generalize e.generated = r at hd
  cases hd with
  | declared _ _ hφ =>
    simp only [Node.form?] at hφ
    split at hφ <;> cases hφ
    exact ⟨_, _, _, getLast?_concat, rfl⟩

/-- A call is of one function, since its variable has one owner. -/
theorem Session.Finished.isCall_unique (hs : s.Finished G T) (hG : G.Shared) (hcounted : s.Counted G) {k : Function}
    (hf : s.IsCall G st f) (hk : s.IsCall G st k) : f = k := by
  obtain ⟨id, fn, args, e, hn, he, hst, hf⟩ := hf
  obtain ⟨id', fn', args', e', hn', he', hst', hk⟩ := hk
  obtain ⟨f₁, as, i, hlast, hvar⟩ := hs.coherent.call_last hG hn he
  obtain ⟨f₂, as', j, hlast', hvar'⟩ := hs.coherent.call_last hG hn' he'
  have hsame : f₁.callStatement as i = f₂.callStatement as' j :=
    Option.some.inj (hlast.symm.trans ((hst.trans hst'.symm).trans hlast'))
  injection hsame with _ hname
  cases hcounted.eq_of_owns ⟨hn, fun _ _ _ h => (by cases h), e, he, hvar⟩
    ⟨hn', fun _ _ _ h => (by cases h), e', he', hname ▸ hvar'⟩ (fun _ _ _ _ h => (by cases h))
    (fun _ _ _ _ h => by cases h)
  exact congrArg Prod.snd (inj_on_of_nodup_map hs.sound.once.nodup hf hk rfl)

/-! ## Functions of a session -/

/-- A function calls a function, by their ids. -/
def Session.Callee (s : Session) (i j : NodeId) : Prop := ∃ f, (j, f) ∈ s.functions ∧ i ∈ Function.ids f.functions

theorem Session.Sound.mem_functions (hs : s.Sound G) (hf : s.Has f) : (f.id, f) ∈ s.functions := by
  obtain ⟨id, hf⟩ := hf
  exact hs.once.ids _ hf ▸ hf

theorem Session.Sound.eq_of_id (hs : s.Sound G) {k : Function} (hf : s.Has f) (hk : s.Has k) (hid : f.id = k.id) :
    f = k :=
  congrArg Prod.snd (inj_on_of_nodup_map hs.once.nodup (hs.mem_functions hf) (hs.mem_functions hk) hid)

theorem Session.Sound.mem_of_id (hs : s.Sound G) (hf : s.Has f) (hfs : ∀ k ∈ fs, s.Has k)
    (hid : f.id ∈ Function.ids fs) : f ∈ fs := by
  obtain ⟨k, hk, hkid⟩ := mem_map.mp hid
  rwa [hs.eq_of_id hf (hfs k hk) hkid.symm]

theorem Function.sizeOf_callee_lt {k : Function} (h : k ∈ f.functions) : sizeOf k < sizeOf f := by
  cases f with
  | mk id name returns params body result uniforms functions =>
    have h : k ∈ functions := h
    have hlt := sizeOf_lt_of_mem h
    simp only [Function.mk.sizeOf_spec]
    omega

/-- No function calls itself, however indirectly. -/
theorem Session.Sound.wellFounded_callee (hs : s.Sound G) : WellFounded s.Callee := by
  have hacc (f : Function) (hf : s.Has f) : Acc s.Callee f.id := by
    induction hsize : sizeOf f using Nat.strong_induction_on generalizing f with
    | h size ih =>
      subst hsize
      refine ⟨_, fun i hi => ?_⟩
      obtain ⟨k, hk, hmem⟩ := hi
      obtain ⟨m, hm, rfl⟩ := mem_map.mp hmem
      obtain rfl : k = f := congrArg Prod.snd
        (inj_on_of_nodup_map hs.once.nodup hk (hs.mem_functions hf) rfl)
      exact ih _ (Function.sizeOf_callee_lt hm) m (hs.tabled.callees _ hk m hm) rfl
  refine ⟨fun j => ⟨j, fun i hi => ?_⟩⟩
  obtain ⟨f, hf, hmem⟩ := hi
  obtain ⟨m, hm, rfl⟩ := mem_map.mp hmem
  exact hacc m (hs.tabled.callees _ hf m hm)

theorem Session.Finished.mem_ids_of_isCall (hs : s.Finished G T) (hG : G.Shared) (hcounted : s.Counted G)
    (hlinks : s.Links G ss fs) (hst : st.Inside ss) (hf : s.IsCall G st f) : f.id ∈ Function.ids fs := by
  have hcall := hf
  obtain ⟨id, fn, args, e, hn, he, hlast, -⟩ := hf
  obtain ⟨k, as, j, hlast', -⟩ := hs.coherent.call_last hG hn he
  obtain rfl : st = k.callStatement as j := Option.some.inj (hlast.symm.trans hlast')
  -- the variable of a builtin's or a constructor's result has another ending
  have hvalue {stem : String} {i : Nat} (hv : k.name ++ "Value" ++ toString j = stem ++ "Val" ++ toString i) :
      False := by
    have hbase := (append_numeral_inj (isBase_value k.name).ends (isBase_val stem).ends hv).1
    have hend := congrArg (fun b : String => b.toList.getLast?) hbase
    simp at hend
  cases hlinks _ hst k.name rfl with
  | builtin _ hst' =>
    injection hst' with _ hv
    exact (hvalue hv).elim
  | constructor _ hst' =>
    injection hst' with _ hv
    exact (hvalue hv).elim
  | function _ hmem hcall' => exact hs.isCall_unique hG hcounted hcall hcall' ▸ hmem

theorem Session.Finished.links_function (h : s.Finished G T) (hf : (id, f) ∈ s.functions) :
    s.Links G f.body f.functions := by
  obtain ⟨name, body, gb, -, hfunction, c, -, hb⟩ := h.past.functions _ hf
  dsimp only at hfunction
  subst hfunction
  exact hb.links

/-! ## Programs -/

/-- The functions of a program, given those that its main and its epilogue were listed with. -/
structure StageProgram.Linked (G : Graph) (s : Session) (roots : List Function) (p : StageProgram) : Prop where
  table : ∀ f ∈ p.functions, (f.id, f) ∈ s.functions
  nodup : (p.functions.map (·.id)).Nodup
  main : ∀ st : Stmt, st.Inside (p.main ++ p.epilogue) → ∀ f, s.IsCall G st f → f ∈ p.functions
  /-- What the body of a function calls comes before it. -/
  bodies : ∀ before f after, p.functions = before ++ f :: after → ∀ st : Stmt, st.Inside f.body →
    ∀ k, s.IsCall G st k → k ∈ before
  /-- Nothing else is called but builtins and constructors. -/
  complete : s.Links G (p.main ++ p.epilogue) p.functions ∧ ∀ f ∈ p.functions, s.Links G f.body p.functions
  reachable : ∀ f ∈ p.functions, ∃ root ∈ roots, f.Below root

theorem Session.Finished.program (h : s.Finished G T) (hG : G.Shared) (hcounted : s.Counted G) {p : StageProgram}
    {roots : List Function} (hp : p.functions = Function.flattenAll [] roots) (hhas : ∀ f ∈ p.functions, s.Has f)
    (hcode : s.Links G (p.main ++ p.epilogue) roots) : p.Linked G s roots := by
  have hs := h.sound
  obtain ⟨hordered, -, hbelow⟩ := Function.ordered_flattenAll Function.ordered_nil roots
  rw [← hp] at hordered hbelow
  have hreachable : ∀ f ∈ p.functions, ∃ root ∈ roots, f.Below root := by
    intro f hf
    rw [hp] at hf
    exact (Function.below_of_mem_flattenAll hf).resolve_left not_mem_nil
  have hcalled {st : Stmt} {f : Function} (hf : s.IsCall G st f) : s.Has f := by
    obtain ⟨id, fn, args, e, -, -, -, hf⟩ := hf
    exact ⟨_, hf⟩
  have hrootIds : Function.ids roots ⊆ Function.ids p.functions := by
    intro i hi
    obtain ⟨root, hroot, rfl⟩ := mem_map.mp hi
    exact hbelow root hroot root .refl
  have hlinks (f : Function) (hf : f ∈ p.functions) : s.Links G f.body f.functions :=
    h.links_function (hs.mem_functions (hhas f hf))
  have hcallees {before after : List Function} {f : Function} (hsplit : p.functions = before ++ f :: after) :
      Function.ids f.functions ⊆ Function.ids before := by
    intro i hi
    obtain ⟨k, hk, rfl⟩ := mem_map.mp hi
    exact hordered.callees hsplit k hk
  refine ⟨fun f hf => hs.mem_functions (hhas f hf), hordered.nodup, fun st hst f hf => ?_,
    fun before f after hsplit st hst k hk => ?_, ⟨hcode.mono hrootIds, fun f hf => ?_⟩, hreachable⟩
  · exact hs.mem_of_id (hcalled hf) hhas (hrootIds (h.mem_ids_of_isCall hG hcounted hcode hst hf))
  · have hf : f ∈ p.functions := by simp [hsplit]
    refine hs.mem_of_id (hcalled hk) (fun m hm => hhas m ?_)
      (hcallees hsplit (h.mem_ids_of_isCall hG hcounted (hlinks f hf) hst hk))
    rw [hsplit]
    exact mem_append_left _ hm
  · obtain ⟨before, after, hsplit⟩ := append_of_mem hf
    refine (hlinks f hf).mono fun i hi => ?_
    rw [hsplit, Function.ids, map_append]
    exact mem_append_left _ (hcallees hsplit hi)

theorem Session.Finished.links_epilogue (h : s.Finished G T) :
    s.Links G (s.fragment.varyings.flatMap (·.statements)) (s.fragment.varyings.flatMap (·.functions)) := by
  intro st hst name hname
  obtain ⟨v, hv, hst⟩ := hst.flatMap
  rcases Stmt.inside_append.mp hst with hst | hst
  · obtain ⟨id, n, g, -, rfl, hg, -⟩ := h.past.varyings v hv
    refine hg.links.mono (fun i hi => ?_) st hst name hname
    obtain ⟨f, hf, rfl⟩ := mem_map.mp hi
    exact mem_map_of_mem (mem_flatMap.mpr ⟨_, hv, hf⟩)
  · rcases hst with hst | ⟨hst, -⟩
    · rw [mem_singleton.mp hst] at hname
      cases hname
    · cases mem_singleton.mp hst

theorem Usage.Reachable.tabled (hG : G.Shared) {u : Usage} (hu : u.Reachable G) :
    u.session.Sound G ∧ ∀ p ∈ u.log, ∀ f ∈ p.2.functions, u.session.Has f := by
  obtain ⟨u0, hinit, hsteps⟩ := hu
  induction hsteps with
  | refl =>
    cases hinit with
    | pair nextId folding | lone _ nextId folding =>
      exact ⟨.initial G nextId folding, fun p hp => absurd hp not_mem_nil⟩
  | tail _ hstep ih =>
    cases hstep with
    | functionBody | loopBody => exact ⟨ih.1.openScope, ih.2⟩
    | @call c n _ hn =>
      obtain ⟨hg, hs⟩ := (sound_everywhere hG).eval n.id n c _ hn ih.1
      refine ⟨hs, fun p hp => ?_⟩
      rcases mem_append.mp hp with hp | hp
      · exact fun f hf => (ih.2 p hp f hf).mono (grows_everywhere.eval n.id n c _)
      · rw [mem_singleton.mp hp]
        exact hg.table.functions

/-- Functions do not call themselves in any use of a session, so that each list of functions handed out
or passed on can be walked to its end. In a job without errors the functions of a stage are those that
its code reaches, each once and after the functions that it calls, and none is missing. -/
theorem functions_ordered_and_complete (hG : G.Shared) :
    (∀ u : Usage, u.Reachable G → WellFounded u.session.Callee ∧
      (∀ p ∈ u.log, ∀ f ∈ p.2.functions, (f.id, f) ∈ u.session.functions) ∧
      ∀ v ∈ u.session.fragment.varyings, ∀ f ∈ v.functions, (f.id, f) ∈ u.session.functions) ∧
    ∀ (vertex fragment : Node) (o : CompileOptions) (nextId : NodeId) (r : Compiled), vertex ∈ G.nodes →
      fragment ∈ G.nodes → compiled vertex fragment o.folding nextId = r →
      (compilePair vertex fragment o nextId).error? = none →
      (compilePair vertex fragment o nextId).vertexSource = r.vertexProgram.sections.assemble.1 ∧
      (compilePair vertex fragment o nextId).fragmentSource = r.fragmentProgram.sections.assemble.1 ∧
      r.vertexProgram.Linked G r.session
        (r.vertex.functions ++ r.session.fragment.varyings.flatMap (·.functions)) ∧
      r.fragmentProgram.Linked G r.session r.fragment.functions ∧
      ∀ st f k, r.session.IsCall G st f → r.session.IsCall G st k → f = k := by
  refine ⟨fun u hu => ?_, fun vertex fragment o nextId r hv hf hr herr => ?_⟩
  · obtain ⟨hs, hlog⟩ := hu.tabled hG
    exact ⟨hs.wellFounded_callee, fun p hp f hf => hs.mem_functions (hlog p hp f hf),
      fun v hv f hf => hs.mem_functions (hs.tabled.varyings v hv f hf)⟩
  · have hhas {f : Function} := compiled_has (f := f) hr
    refine ⟨hr ▸ rfl, hr ▸ rfl, ?_⟩
    obtain ⟨hs, hgv, hgf⟩ := compiled_made hG hv hf hr herr
    have hcounted := compiled_counted hG hv hf hr herr
    refine ⟨hs.program hG hcounted rfl (fun f hf => hhas (List.mem_append_left _ hf)) ?_,
      hs.program hG hcounted (by rw [← List.append_nil r.fragment.functions]; rfl)
        (fun f hf => hhas (List.mem_append_right _ hf)) ?_,
      fun st f k hf hk => hs.isCall_unique hG hcounted hf hk⟩
    · refine Session.links_append.mpr ⟨hgv.links.mono ?_, hs.links_epilogue.mono ?_⟩
      · exact List.map_subset _ (List.subset_append_left ..)
      · exact List.map_subset _ (List.subset_append_right ..)
    · exact Session.links_append.mpr ⟨hgf.links, Session.links_nil⟩

end

/-! ## Functions that call each other -/

def surgeArgument : Node := .argument 2 "x" 0 .float

def surgeCrest : Node := .defun 4 "crest" (.builtin 3 .sin [surgeArgument])

def surgeSwell : Node := .defun 7 "swell" (.operator 6 .add [.call 5 surgeCrest [surgeArgument], surgeArgument])

/-- Calls the swell, and the crest of the swell. -/
def surgeFunction : Node :=
  .defun 11 "sin" (.operator 10 .mult
    [.call 8 surgeSwell [surgeArgument], .call 9 surgeCrest [.call 8 surgeSwell [surgeArgument]]])

def surgeLevel : Node := .uniform 1 { id := 1, type := .float }

def surgeCorner : Node := .construct 13 .vec2 [.call 12 surgeCrest [surgeLevel]]

/-- Calls the crest in the fragment stage, on what the vertex stage calls the surge for. -/
def surgeShade : Node := .call 16 surgeCrest [.varying 15 (.call 14 surgeFunction [surgeLevel])]

def surgeNodes : List Node :=
  [surgeLevel, surgeArgument, .builtin 3 .sin [surgeArgument], surgeCrest, .call 5 surgeCrest [surgeArgument],
    .operator 6 .add [.call 5 surgeCrest [surgeArgument], surgeArgument], surgeSwell,
    .call 8 surgeSwell [surgeArgument], .call 9 surgeCrest [.call 8 surgeSwell [surgeArgument]],
    .operator 10 .mult [.call 8 surgeSwell [surgeArgument], .call 9 surgeCrest [.call 8 surgeSwell [surgeArgument]]],
    surgeFunction, .call 12 surgeCrest [surgeLevel], surgeCorner, .call 14 surgeFunction [surgeLevel],
    .varying 15 (.call 14 surgeFunction [surgeLevel]), surgeShade]

def surgeGraph : Graph := .ofList surgeNodes <| by
  simp [surgeNodes, surgeLevel, surgeArgument, surgeCrest, surgeSwell, surgeFunction, surgeCorner, surgeShade,
    Node.children, Node.operands]

def surgeJob : Compiled := compiled surgeCorner surgeShade true 17

/-- The vertex stage lists three functions for its main and its varying, one of them named like a
builtin, and the fragment stage lists one. -/
theorem surgeJob_functions_ordered_and_complete :
    (compilePair surgeCorner surgeShade {} 17).error? = none ∧
      surgeJob.vertexProgram.functions.map (·.name) = ["crest", "swell", "sin"] ∧
      surgeJob.fragmentProgram.functions.map (·.name) = ["crest"] ∧
      surgeJob.vertexProgram.Linked surgeGraph surgeJob.session
        (surgeJob.vertex.functions ++ surgeJob.session.fragment.varyings.flatMap (·.functions)) ∧
      surgeJob.fragmentProgram.Linked surgeGraph surgeJob.session surgeJob.fragment.functions := by
  have herr : (compilePair surgeCorner surgeShade {} 17).error? = none := by decide +kernel
  have hG : surgeGraph.Shared := Graph.shared_ofList (by decide)
  have hmem {n : Node} (h : n ∈ surgeNodes) : n ∈ surgeGraph.nodes := h
  have hr : compiled surgeCorner surgeShade ({} : CompileOptions).folding 17 = surgeJob := rfl
  obtain ⟨-, -, hvertex, hfragment, -⟩ := (functions_ordered_and_complete hG).2 surgeCorner surgeShade {} 17 _
    (hmem (by simp [surgeNodes])) (hmem (by simp [surgeNodes])) hr herr
  exact ⟨herr, by decide +kernel, by decide +kernel, hvertex, hfragment⟩

end ShaderGraph
