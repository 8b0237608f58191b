import ShaderGraph.Proofs.Provenance

/-!
# Variables and the nodes that own them

A node owns the variables of its results. Most variables carry a number that no other has, but a loop
may hold its sum in a variable that it did not choose: the storage of an accumulator in its body, or a
parameter. Only such a variable can have a second owner.
-/

namespace ShaderGraph

open Eval List

variable {body start count : Node} {bind : Generated → Step.Binding} {id : NodeId} {gb : Generated}

/-- The variable that a loop takes from the result of its body. -/
def Generated.sumVariable? (g : Generated) : Option String :=
  match g.accumulators, Step.lowestArgument? g.arguments with
  | a :: _, _ => some a.storage
  | [], some a => some a.name
  | [], none => none

/-- The node has a remembered result with the variable. A break stands for the variable of its value and
owns none. -/
def Session.Owns (G : Graph) (s : Session) (n : Node) (v : String) : Prop :=
  n ∈ G.nodes ∧ (∀ id a b, n ≠ .breakIf id a b) ∧ ∃ e, (n.id, e) ∈ s.memo ∧ e.generated.var = .name v

/-- The node is a loop that takes the variable from its body. -/
def Session.Borrows (s : Session) (n : Node) (v : String) : Prop :=
  ∃ id body count start g, n = .sumLoop id body count start ∧ s.Knows body g ∧ g.sumVariable? = some v

/-- Where the variable of a result comes from: it has a number, from the given one on, or is taken from the
body of a loop, or is that of the value of a break. -/
inductive Session.Numbers (low : Nat) (s : Session) (g : Generated) : Node → Prop where
  | own {n : Node} {k : Nat} {v : String} (hv : g.var = .name v) (hk : Numbered k v) (hle : low ≤ k)
      (hlt : k < s.counter) : Numbers low s g n
  | borrowed {n : Node} {v : String} (hv : g.var = .name v) (h : s.Borrows n v) : Numbers low s g n
  | broken {id : NodeId} {a b : Node} : Numbers low s g (.breakIf id a b)

/-- Two owners of a variable are one, or one of them is a loop that takes it from its body. -/
structure Session.Counted (G : Graph) (s : Session) : Prop where
  memo : ∀ n ∈ G.nodes, ∀ e, (n.id, e) ∈ s.memo → s.Numbers 0 e.generated n
  apart : ∀ m n v, s.Owns G m v → s.Owns G n v → m = n ∨ s.Borrows m v ∨ s.Borrows n v

/-- What is remembered since has new numbers. -/
structure Session.Appends (G : Graph) (s s' : Session) : Prop where
  grows : s.Grows s'
  memo : ∀ n ∈ G.nodes, ∀ e, (n.id, e) ∈ s'.memo → (n.id, e) ∈ s.memo ∨ s'.Numbers s.counter e.generated n

section
variable {G : Graph} {s s1 s' : Session} {c : Scope} {n m : Node} {g : Generated} {v : String} {low : Nat}

theorem Session.Owns.mono (h : s.Owns G n v) (hg : s.Grows s') : s'.Owns G n v := by
  obtain ⟨hn, hb, e, he, hv⟩ := h
  exact ⟨hn, hb, e, hg.memo.subset he, hv⟩

theorem Session.Borrows.mono (h : s.Borrows n v) (hg : s.Grows s') : s'.Borrows n v := by
  obtain ⟨id, body, count, start, g, hn, hk, hv⟩ := h
  exact ⟨id, body, count, start, g, hn, hk.mono hg, hv⟩

theorem Session.Numbers.mono (h : s.Numbers low g n) (hg : s.Grows s') : s'.Numbers low g n := by
  cases h with
  | own hv hk hle hlt => exact .own hv hk hle (Nat.lt_of_lt_of_le hlt hg.counter)
  | borrowed hv h => exact .borrowed hv (h.mono hg)
  | broken => exact .broken

theorem Session.Numbers.lower {low' : Nat} (h : s.Numbers low g n) (hle : low' ≤ low) : s.Numbers low' g n := by
  cases h with
  | own hv hk hlow hlt => exact .own hv hk (Nat.le_trans hle hlow) hlt
  | borrowed hv h => exact .borrowed hv h
  | broken => exact .broken

/-! ## The variables of loops -/

theorem Opens.var {body : Generated} (h : Opens body start s m s' bind) (gm : Generated) :
    body.sumVariable? = some (bind gm).var ∨
      body.sumVariable? = none ∧ Numbered s.counter (bind gm).var ∧ s'.counter = s.counter + 1 := by
  cases h with
  | accumulated ha => exact .inl (by rw [Generated.sumVariable?, ha])
  | parameter ha hlow => exact .inl (by rw [Generated.sumVariable?, ha, hlow])
  | own ha hlow => exact .inr ⟨by rw [Generated.sumVariable?, ha, hlow], ⟨_, isBase_val "loop", rfl⟩, rfl⟩

theorem Generated.Alike.sumVariable {h : Generated} (a : g.Alike h) : g.sumVariable? = h.sumVariable? := by
  rw [sumVariable?, sumVariable?, a.accumulators, a.arguments]

theorem Session.Coherent.var_of_borrows {e : MemoEntry} (hs : s.Coherent G) (ho : s.Once G) (hG : G.Shared)
    (hn : .sumLoop id body count start ∈ G.nodes) (he : (id, e) ∈ s.memo) (hk : s.Knows body gb)
    (hv : gb.sumVariable? = some v) : e.generated.var = .name v := by
  obtain ⟨k, hk', -, hid, hd⟩ := hs.derived _ he
  obtain rfl := hG k hk' _ hn hid
  dsimp only at hd
  generalize e.generated = r at hd
  cases hd with
  | declared _ _ hφ => cases hφ
  | @loop _ _ _ _ _ _ _ gm _ _ bind _ _ _ hbody hopens =>
    have hsame := (hs.unique ho hk hbody.known).sumVariable
    rw [hv] at hsame
    rcases hopens.var gm with hvar | ⟨hvar, -⟩
    · rw [hvar] at hsame
      exact congrArg Atom.name (Option.some.inj hsame).symm
    · rw [hvar] at hsame
      cases hsame

/-! ## Sessions -/

namespace Session.Appends

theorem of_memo (hg : s.Grows s') (h : s'.memo = s.memo) : s.Appends G s' := ⟨hg, fun _ _ _ he => .inl (h ▸ he)⟩

theorem trans (h : s.Appends G s1) (h' : s1.Appends G s') : s.Appends G s' := by
  refine ⟨h.grows.trans h'.grows, fun n hn e he => ?_⟩
  rcases h'.memo n hn e he with he | hnum
  · exact (h.memo n hn e he).imp_right (·.mono h'.grows)
  · exact .inr (hnum.lower h.grows.counter)

theorem remember (h : s.Appends G s') (hG : G.Shared) (hn : n ∈ G.nodes) (hnum : s'.Numbers s.counter g n) :
    s.Appends G (s'.remember c n.id g) := by
  have hgrows : s'.Grows (s'.remember c n.id g) := .remember ..
  refine ⟨h.grows.trans hgrows, fun m hm e he => ?_⟩
  rcases mem_cons.mp he with heq | he
  · obtain ⟨hid, rfl⟩ := Prod.mk.inj heq
    obtain rfl := hG m hm n hn hid
    exact .inr (hnum.mono hgrows)
  · exact (h.memo m hm e he).imp_right (·.mono hgrows)

end Session.Appends

namespace Session.Counted

theorem initial (G : Graph) (nextId : NodeId) (folding : Bool) : Session.Counted G { nextId, folding } where
  memo _ _ _ h := absurd h not_mem_nil
  apart _ _ _ h := by
    obtain ⟨-, -, e, he, -⟩ := h
    exact absurd he not_mem_nil

theorem congr (h : s.Counted G) (hg : s.Grows s') (hm : s'.memo = s.memo) : s'.Counted G where
  memo n hn e he := (h.memo n hn e (hm ▸ he)).mono hg
  apart m n v ho ho' := by
    rw [Owns, hm] at ho ho'
    exact (h.apart m n v ho ho').imp_right (Or.imp (·.mono hg) (·.mono hg))

theorem kept (h : s.Counted G) (hg : s.Grows s') (hm : s'.memo = s.memo) : s'.Counted G ∧ s.Appends G s' :=
  ⟨h.congr hg hm, .of_memo hg hm⟩

theorem borrows_of_owns {k : Nat} (h : s.Counted G) (hk : Numbered k v) (hle : s.counter ≤ k) (ho : s.Owns G n v) :
    s.Borrows n v := by
  obtain ⟨hn, hb, e, he, hv⟩ := ho
  cases h.memo n hn e he with
  | own hv' hk' _ hlt =>
    cases hv.symm.trans hv'
    exact absurd (hk'.unique hk) (Nat.ne_of_lt (Nat.lt_of_lt_of_le hlt hle))
  | borrowed hv' h =>
    cases hv.symm.trans hv'
    exact h
  | broken => exact absurd rfl (hb _ _ _)

theorem remember (h : s.Counted G) (hG : G.Shared) (hn : n ∈ G.nodes) (hnum : s.Numbers 0 g n)
    (hown : ∀ v, g.var = .name v → (∀ id a b, n ≠ .breakIf id a b) →
      s.Borrows n v ∨ ∀ m, s.Owns G m v → s.Borrows m v) : (s.remember c n.id g).Counted G := by
  have hgrows : s.Grows (s.remember c n.id g) := .remember ..
  refine ⟨fun m hm e he => ?_, fun m1 m2 v h1 h2 => ?_⟩
  · rcases mem_cons.mp he with heq | he
    · obtain ⟨hid, rfl⟩ := Prod.mk.inj heq
      obtain rfl := hG m hm n hn hid
      exact hnum.mono hgrows
    · exact (h.memo m hm e he).mono hgrows
  · have hcases {m : Node} (ho : (s.remember c n.id g).Owns G m v) :
        s.Owns G m v ∨ m = n ∧ g.var = .name v ∧ ∀ id a b, n ≠ .breakIf id a b := by
      obtain ⟨hm, hb, e, he, hv⟩ := ho
      rcases mem_cons.mp he with heq | he
      · obtain ⟨hid, rfl⟩ := Prod.mk.inj heq
        obtain rfl := hG m hm n hn hid
        exact .inr ⟨rfl, hv, hb⟩
      · exact .inl ⟨hm, hb, e, he, hv⟩
    rcases hcases h1 with ho | ⟨rfl, hv, hb⟩ <;> rcases hcases h2 with ho' | ⟨rfl, hv', hb'⟩
    · exact (h.apart m1 m2 v ho ho').imp_right (Or.imp (·.mono hgrows) (·.mono hgrows))
    · rcases hown v hv' hb' with hborrows | hothers
      · exact .inr (.inr (hborrows.mono hgrows))
      · exact .inr (.inl ((hothers m1 ho).mono hgrows))
    · rcases hown v hv hb with hborrows | hothers
      · exact .inr (.inl (hborrows.mono hgrows))
      · exact .inr (.inr ((hothers m2 ho').mono hgrows))
    · exact .inl rfl

end Session.Counted

/-! ## Every evaluation -/

def counts (G : Graph) : Judgement := fun _ _ s _ s' _ => s.Counted G → s'.Counted G ∧ s.Appends G s'

theorem counts_threads {ns : List Node} {gs : List Generated} {t : Trace}
    (h : Threads ((counts G).properly G) c ns s gs s' t) (hs : s.Counted G) : s'.Counted G ∧ s.Appends G s' := by
  induction h with
  | nil => exact hs.kept (.refl _) rfl
  | cons hn _ ih =>
    obtain ⟨hs1, happends⟩ := hn.2 hs
    exact (ih hs1).imp_right happends.trans

theorem counts_form {φ : Form} (hG : G.Shared) (hn : n ∈ G.nodes) (hbase : IsBase φ.base) (hs : s1.Counted G)
    (happends : s.Appends G s1) (es : List GraphError) :
    ((φ.session c es s1).remember c n.id (φ.result s1.counter)).Counted G ∧
      s.Appends G ((φ.session c es s1).remember c n.id (φ.result s1.counter)) := by
  have ha := φ.advance c es s1
  have hk : Numbered s1.counter (φ.name s1.counter) := ⟨φ.base, hbase, rfl⟩
  have hlt := φ.lt_session_counter c es s1
  obtain ⟨hadvanced, hlast⟩ := hs.kept ha.grows ha.memo
  refine ⟨hadvanced.remember hG hn (.own rfl hk (Nat.zero_le _) hlt) fun v hv _ => .inr fun m hm => ?_,
    (happends.trans hlast).remember hG hn (.own rfl hk happends.grows.counter hlt)⟩
  cases hv
  rw [Session.Owns, ha.memo] at hm
  exact (hs.borrows_of_owns hk (Nat.le_refl _) hm).mono ha.grows

theorem counts_loop {gm : Generated} {s3 s4 s5 s6 : Session} {vs : List String} (hG : G.Shared)
    (hn : .sumLoop id body count start ∈ G.nodes) (hbody : s3.Knows body gb)
    (hopens : Opens gb start s3 m s4 bind) (hs3 : s3.Counted G) (happends : s.Appends G s3)
    (hs5 : s5.Counted G) (hinit : s4.Appends G s5) (hvar : g.var = .name (bind gm).var)
    (ha6 : s5.Advance c vs s6) : (s6.remember c id g).Counted G ∧ s.Appends G (s6.remember c id g) := by
  obtain ⟨hs6, hlast⟩ := hs5.kept ha6.grows ha6.memo
  have hloop : s3.Appends G s6 := .trans (.of_memo hopens.grows hopens.memo) (hinit.trans hlast)
  have happended := happends.trans hloop
  rcases hopens.var gm with hborrowed | ⟨-, hk, hcounter⟩
  · have hborrows : s6.Borrows (.sumLoop id body count start) (bind gm).var :=
      ⟨id, body, count, start, gb, rfl, hbody.mono hloop.grows, hborrowed⟩
    refine ⟨hs6.remember hG hn (.borrowed hvar hborrows) fun v hv _ => .inl ?_,
      happended.remember hG hn (.borrowed hvar hborrows)⟩
    cases hvar.symm.trans hv
    exact hborrows
  · have hlt : s3.counter < s6.counter :=
      Nat.lt_of_lt_of_le (hcounter ▸ Nat.lt_succ_self _) (hinit.trans hlast).grows.counter
    refine ⟨hs6.remember hG hn (.own hvar hk (Nat.zero_le _) hlt) fun v hv _ => .inr fun k ho => ?_,
      happended.remember hG hn (.own hvar hk happends.grows.counter hlt)⟩
    cases hvar.symm.trans hv
    -- what was remembered before the loop took its number has smaller ones, and the initial value greater ones
    obtain ⟨hk', hb, e, he, hv'⟩ := ho
    rw [ha6.memo] at he
    rcases hinit.memo k hk' e he with he | hnum
    · rw [hopens.memo] at he
      exact (hs3.borrows_of_owns hk (Nat.le_refl _) ⟨hk', hb, e, he, hv'⟩).mono hloop.grows
    · cases hnum with
      | own hv'' hj hle _ =>
        cases hv'.symm.trans hv''
        have := hj.unique hk
        omega
      | borrowed hv'' h =>
        cases hv'.symm.trans hv''
        exact h.mono ha6.grows
      | broken => exact absurd rfl (hb _ _ _)

theorem counts_rules (hG : G.Shared) : ProperRules G (counts G) where
  immediate _ _ _ _ ha _ hs := hs.kept ha.grows ha.memo
  reuse _ _ ha _ hs := hs.kept ha.grows ha.memo
  declared _ ht _ hfits hp hs := by
    obtain ⟨hs1, happends⟩ := counts_threads ht hs
    exact counts_form hG hp.mem hfits.base hs1 happends []
  broken _ ht _ ha hp hs := by
    obtain ⟨hs1, happends⟩ := counts_threads ht hs
    obtain ⟨hs2, hlast⟩ := hs1.kept ha.grows ha.memo
    exact ⟨hs2.remember hG hp.mem .broken fun v _ hb => absurd rfl (hb _ _ _),
      (happends.trans hlast).remember hG hp.mem .broken⟩
  loop _ hcount ha2 hbody hopens hinit hg ha6 hp hs := by
    obtain ⟨hs1, happends1⟩ := hcount.2 hs
    obtain ⟨hs2, happends2⟩ := hs1.kept (ha2.grows.trans (.openScope _)) ha2.memo
    obtain ⟨hs3, happends3⟩ := hbody.2 hs2
    obtain ⟨hs5, happends5⟩ := hinit.2 (hs3.congr hopens.grows hopens.memo)
    exact counts_loop hG hp.mem hbody.1.operand.known hopens hs3 (happends1.trans (happends2.trans happends3)) hs5
      happends5 (by rw [hg]; rfl) ha6
  accumulator := by
    intro id name start c s s1 type g s2 ha hg hs2 hp hs
    have ha' := ha.trans (.bump c s1)
    have hbase : IsBase "accum" := .inl (by decide)
    subst hg hs2
    obtain ⟨hs3, happends⟩ := hs.kept ha'.grows ha'.memo
    exact counts_form hG hp.mem hbase hs3 happends []
  knownFunction _ ha _ hs := hs.kept ha.grows ha.memo
  newFunction := by
    intro id name body c s gb s1 t f s3 hb _ ha _ hs
    have hgrows := (Session.Grows.define s1 id f).trans ha.grows
    obtain ⟨hs0, happends0⟩ := hs.kept (.openScope s) rfl
    obtain ⟨hs1, happends⟩ := hb.2 hs0
    exact (hs1.kept hgrows ha.memo).imp_right (happends0.trans happends).trans
  varying _ hop hr _ hs := by
    obtain ⟨hs1, happends⟩ := hop.2 hs
    have hgrows := Step.readVarying_grows hr
    obtain ⟨hmemo, -⟩ := Step.readVarying_same hr
    exact (hs1.kept hgrows hmemo).imp_right happends.trans

/-! ## Owners of declared variables -/

theorem Session.Counted.eq_of_owns (h : s.Counted G) (hm : s.Owns G m v) (hn : s.Owns G n v)
    (hm' : ∀ id body count start, m ≠ .sumLoop id body count start)
    (hn' : ∀ id body count start, n ≠ .sumLoop id body count start) : m = n := by
  rcases h.apart m n v hm hn with heq | ⟨id, body, count, start, -, heq, -⟩ | ⟨id, body, count, start, -, heq, -⟩
  · exact heq
  · exact absurd heq (hm' _ _ _ _)
  · exact absurd heq (hn' _ _ _ _)

theorem Session.Borrows.gives (h : s.Borrows n v) (hs : s.Sound G) : G.Gives v := by
  obtain ⟨id, body, count, start, g, -, hk, hv⟩ := h
  cases hk with
  | leaf _ hbare =>
    rw [Generated.sumVariable?, hbare.accumulators, hbare.arguments] at hv
    cases hv
  | function | varying => cases hv
  | remembered _ he halike =>
    have hfrom := hs.origin.memo _ he
    rw [halike.sumVariable, Generated.sumVariable?] at hv
    split at hv <;> cases hv
    · next a _ heq =>
      obtain ⟨id, name, k, ha, hstorage⟩ := hfrom.accumulators a (heq ▸ mem_cons_self)
      exact .inr (.inr ⟨id, name, a.initial, k, ha, hstorage⟩)
    · next a _ heq => exact .inr (.inl ⟨a.id, a.index, a.type, hfrom.arguments a (Step.mem_of_lowestArgument heq)⟩)

/-- A variable with an owner has a number, unless the graph gives its name. -/
theorem Session.Counted.numbered (h : s.Counted G) (hs : s.Sound G) (ho : s.Owns G n v) :
    G.Gives v ∨ ∃ k, Numbered k v := by
  obtain ⟨hn, hb, e, he, hv⟩ := ho
  cases h.memo n hn e he with
  | own hv' hk =>
    cases hv.symm.trans hv'
    exact .inr ⟨_, hk⟩
  | borrowed hv' hb =>
    cases hv.symm.trans hv'
    exact .inl (hb.gives hs)
  | broken => exact absurd rfl (hb _ _ _)

/-- A node that a declaration was given to owns the variable, under its type. -/
theorem Session.Wrote.owns {type : GlType} {x : Expr} (h : s.Wrote (.decl type v x) n) (hs : s.Coherent G)
    (hG : G.Shared) (hn : n ∈ G.nodes) :
    s.Owns G n v ∧ ∃ e, (n.id, e) ∈ s.memo ∧ e.generated.type = type := by
  suffices hsuff : (∀ id a b, n ≠ .breakIf id a b) ∧
      ∃ e, (n.id, e) ∈ s.memo ∧ e.generated.var = .name v ∧ e.generated.type = type by
    obtain ⟨hb, e, he, hvar, htype⟩ := hsuff
    exact ⟨⟨hn, hb, e, he, hvar⟩, e, he, htype⟩
  cases h with
  | @last _ e he hst =>
    obtain ⟨m, hm, -, hid, hd⟩ := hs.derived _ he
    obtain rfl := hG m hm n hn hid
    generalize hr : e.generated = r at hd hst
    cases hd with
    | declared _ _ hφ =>
      cases getLast?_concat.symm.trans hst
      exact ⟨fun _ _ _ h => (by subst h; cases hφ), e, he, by rw [hr]; exact ⟨rfl, rfl⟩⟩
    | accumulator =>
      cases getLast?_concat.symm.trans hst
      exact ⟨fun _ _ _ h => (by cases h), e, he, by rw [hr]; exact ⟨rfl, rfl⟩⟩
    | broken => cases getLast?_concat.symm.trans hst
    | loop => cases (getLast?_append_of_ne_nil _ (cons_ne_nil _ _)).symm.trans hst
  | @sum id body count start e _ _ _ _ _ _ _ _ he hcode hst =>
    cases hst
    obtain ⟨m, hm, -, hid, hd⟩ := hs.derived _ he
    obtain rfl := hG m hm _ hn hid
    refine ⟨fun _ _ _ h => (by cases h), e, he, ?_⟩
    dsimp only at hd
    generalize e.generated = r at hd hcode ⊢
    cases hd with
    | declared _ _ hφ => cases hφ
    | loop =>
      cases (append_inj' hcode rfl).2
      exact ⟨rfl, rfl⟩

theorem compiled_counted (hG : G.Shared) {vertex fragment : Node} (hv : vertex ∈ G.nodes)
    (hf : fragment ∈ G.nodes) {o : CompileOptions} {nextId : NodeId} {r : Compiled}
    (hr : compiled vertex fragment o.folding nextId = r)
    (herr : (compilePair vertex fragment o nextId).error? = none) : r.session.Counted G := by
  obtain ⟨gv, gf, s1, s2, tv, tf, rfl, hvertex, hfragment⟩ :=
    compiled_properly hG ((counts_rules hG).everywhere hG) hv hf hr herr
  exact (hfragment.2 (hvertex.2 (.initial G nextId o.folding)).1).1

end

end ShaderGraph
