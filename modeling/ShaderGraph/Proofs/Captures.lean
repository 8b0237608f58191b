import ShaderGraph.Proofs.Functions

/-!
# What results capture

The parameters, running sums and functions of a graph are the only ones that results and sessions
know of. Together with the table of functions this makes a session sound.
-/

namespace ShaderGraph

open Eval List

variable {f : Function} {vs : List String} {ns : List Node} {gs : List Generated} {t : Trace}
  {body g : Generated} {start m : Node} {bind : Generated → Step.Binding} {G : Graph} {s s' : Session}
  {c : Scope}

/-- The names that a graph gives to functions, to parameters and, with a number, to running
sums. -/
def Graph.Gives (G : Graph) (r : String) : Prop :=
  G.IsFunction r ∨ G.IsParameter r ∨
    ∃ id name start k, Node.accumulator id name start ∈ G.nodes ∧ r = name ++ toString (k : Nat)

/-- The parameters and running sums that a result captures are those of the graph, and so is the
function that it stands for. -/
structure Generated.From (G : Graph) (g : Generated) : Prop where
  arguments : ∀ a ∈ g.arguments, Node.argument a.id a.name a.index a.type ∈ G.nodes
  accumulators : ∀ a ∈ g.accumulators, ∃ id name k, Node.accumulator id name a.initial ∈ G.nodes ∧
    a.storage = name ++ toString (k : Nat)
  function : ∀ f, g.function = some f →
    G.IsFunction f.name ∧ g.code.stmts = [] ∧ g.var = .name f.name ∧ g.functions = [f]
  constant : g.constant ≠ none → ∀ r, g.var = .name r → ∃ k, Numbered k r

structure Session.From (G : Graph) (s : Session) : Prop where
  memo : ∀ p ∈ s.memo, p.2.generated.From G
  functions : ∀ p ∈ s.functions, G.IsFunction p.2.name

theorem Generated.Bare.from (h : g.Bare) : g.From G where
  arguments a ha := by simp [h.arguments] at ha
  accumulators a ha := by simp [h.accumulators] at ha
  function f hf := by simp [h.function] at hf
  constant hne r hr := absurd hr (h.constant hne r)

theorem from_functionResult (h : G.IsFunction f.name) : (Step.functionResult f).From G where
  arguments a ha := by cases ha
  accumulators a ha := by cases ha
  function f hf := by
    cases hf
    exact ⟨h, rfl, rfl, rfl⟩
  constant hne := absurd rfl hne

theorem from_gather {type : GlType} {own : List Stmt} {v : Atom} {deps : List Generated} {x : Extras}
    (hdeps : ∀ d ∈ deps, d.From G)
    (hargs : ∀ a ∈ x.arguments, Node.argument a.id a.name a.index a.type ∈ G.nodes)
    (haccs : ∀ a ∈ x.accumulators, ∃ id name k, Node.accumulator id name a.initial ∈ G.nodes ∧
      a.storage = name ++ toString (k : Nat))
    (hconst : x.constant ≠ none → ∀ r, v = .name r → ∃ k, Numbered k r) :
    ((Generated.gather type own v deps).extend x).From G where
  arguments a ha := by
    rcases mem_adjoin_foldl ha with ⟨d, hd, ha⟩ | ha
    · exact (hdeps d hd).arguments a ha
    · exact hargs a ha
  accumulators a ha := by
    rcases mem_adjoin_foldl ha with ⟨d, hd, ha⟩ | ha
    · exact (hdeps d hd).accumulators a ha
    · exact haccs a ha
  function f hf := by cases hf
  constant := hconst

theorem Session.From.congr (h : s.From G) (hm : s'.memo = s.memo) (hf : s'.functions = s.functions) :
    s'.From G :=
  ⟨hm ▸ h.memo, hf ▸ h.functions⟩

theorem Session.From.advance (h : s.From G) (ha : s.Advance c vs s') : s'.From G :=
  h.congr ha.memo ha.functions

theorem Session.From.openScope (h : s.From G) : s.openScope.From G := h.congr rfl rfl

def captured (G : Graph) : Judgement := fun n _ s g s' _ =>
  n ∈ G.nodes → s.From G → g.From G ∧ s'.From G

theorem Step.mem_of_lowestArgument {as : List ArgumentDef} {a : ArgumentDef}
    (h : lowestArgument? as = some a) : a ∈ as := by
  have hfold (bs : List ArgumentDef) (low : ArgumentDef) :
      bs.foldl (fun low b => if b.index < low.index then b else low) low ∈ low :: bs := by
    induction bs generalizing low with
    | nil => exact mem_singleton_self low
    | cons b bs ih =>
      rw [foldl_cons]
      split
      · exact mem_cons_of_mem _ (ih b)
      · rcases mem_cons.mp (ih low) with h | h
        · rw [h]
          exact mem_cons_self
        · exact mem_cons_of_mem _ (mem_cons_of_mem _ h)
  cases as with
  | nil => cases h
  | cons b bs => exact Option.some.inj h ▸ hfold bs b

theorem Opens.from (h : Opens body start s m s' bind) (hb : body.From G) (hstart : start ∈ G.nodes)
    (gm : Generated) :
    m ∈ G.nodes ∧ (G.Gives (bind gm).var ∨ Numbered s.counter (bind gm).var ∧ s'.counter = s.counter + 1) := by
  cases h with
  | @accumulated a rest h =>
    obtain ⟨id, name, k, ha, hk⟩ := hb.accumulators a (by simp [h])
    exact ⟨G.only_mem ha rfl, .inl (.inr (.inr ⟨id, name, a.initial, k, ha, hk⟩))⟩
  | @parameter a h ha =>
    have hmem : a ∈ body.arguments := Step.mem_of_lowestArgument ha
    exact ⟨hstart, .inl (.inr (.inl ⟨a.id, a.index, a.type, hb.arguments a hmem⟩))⟩
  | own => exact ⟨hstart, .inr ⟨⟨_, isBase_val "loop", rfl⟩, rfl⟩⟩

theorem Opens.from_session (h : Opens body start s m s' bind) (hs : s.From G) : s'.From G := by
  cases h with
  | accumulated | parameter => exact hs
  | own => exact hs.advance (.bump .vertexMain s)

/-- The trait of capturing what the graph has. -/
def Trait.from (G : Graph) : Trait where
  node n := n ∈ G.nodes
  result _ g := g.From G
  function _ f := G.IsFunction f.name
  varying _ _ := True

theorem Trait.from_inherited (G : Graph) : (Trait.from G).Inherited where
  child hn hm := G.closed _ hn _ hm
  grows _ h := h
  growsFunction _ h := h
  growsVarying _ _ := trivial
  zero := (Generated.bare_float 0).from
  immediate _ hi hr := (Node.step_bare hi hr).1.from
  reference h := { h with function := fun f hf => (h.function f hf).imp_right fun h => ⟨rfl, h.2⟩ }
  form {_ _ _ _ _ φ k} hn hgs _ hfits := by
    refine from_gather (fun d hd => hgs d (hfits.deps.subset hd)) (fun a ha => hfits.arguments a ha ▸ hn) ?_ ?_
    · rw [hfits.accumulators]
      exact forall_mem_nil _
    · rintro - r hr
      cases hr
      exact ⟨k, φ.base, hfits.base, rfl⟩
  broken hcond hvalue :=
    from_gather (x := {}) (forall_mem_cons.mpr ⟨hcond, forall_mem_singleton.mpr hvalue⟩)
      (forall_mem_nil _) (forall_mem_nil _) fun hne => absurd rfl hne
  initial hg ha := by
    obtain ⟨id, name, k, hn, -⟩ := hg.accumulators _ ha
    exact G.only_mem hn rfl
  loop hgi hgb hinit hargs haccs :=
    from_gather (forall_mem_cons.mpr ⟨hinit, forall_mem_singleton.mpr hgi⟩)
      (fun a ha => hgb.arguments a (hargs a ha)) (fun a ha => hgb.accumulators a (haccs a ha))
      fun hne => absurd rfl hne
  accumulator {_ id name _ _ j _} hn := by
    refine from_gather (forall_mem_nil _) (forall_mem_nil _) ?_ fun hne => absurd rfl hne
    intro a ha
    rw [mem_singleton.mp ha]
    exact ⟨id, name, j, hn, rfl⟩
  define hn _ := ⟨_, _, hn⟩
  function _ hf := from_functionResult hf
  varying _ := trivial
  passed := (Generated.bare_resource _ ⟨_, .inr (.inr rfl)⟩).from

theorem Session.from_iff : s.From G ↔ s.Carries (.from G) :=
  ⟨fun h => ⟨h.memo, h.functions, fun _ _ => trivial⟩, fun h => ⟨h.memo, h.functions⟩⟩

theorem captured_everywhere (G : Graph) : (captured G).Everywhere :=
  (Trait.from_inherited G).everywhere.mono fun h hn hs =>
    (h hn (Session.from_iff.mp hs)).imp_right Session.from_iff.mpr

/-! ## Sound sessions -/

/-- What is remembered comes from the graph, and what is called is in the table, once. -/
structure Session.Sound (G : Graph) (s : Session) : Prop where
  origin : s.From G
  tabled : s.Tabled
  once : s.Once G

structure Generated.Sound (G : Graph) (s : Session) (g : Generated) : Prop where
  origin : g.From G
  table : g.InTable s

theorem Session.Sound.initial (G : Graph) (nextId : NodeId) (folding : Bool) :
    Session.Sound G { nextId, folding } where
  origin := ⟨forall_mem_nil _, forall_mem_nil _⟩
  tabled := tabled_initial nextId folding
  once := ⟨forall_mem_nil _, nodup_nil, forall_mem_nil _⟩

theorem Session.Sound.congr (h : s.Sound G) (hg : s.Grows s') (hm : s'.memo = s.memo)
    (hf : s'.functions = s.functions) (hv : s'.fragment.varyings = s.fragment.varyings) :
    s'.Sound G :=
  ⟨h.origin.congr hm hf, h.tabled.congr hg hm hf hv, h.once.congr hm hf⟩

theorem Session.Sound.advance (h : s.Sound G) (ha : s.Advance c vs s') : s'.Sound G :=
  h.congr (.advance ha) ha.memo ha.functions (ha.varyings .fragment)

theorem Session.Sound.openScope (h : s.Sound G) : s.openScope.Sound G :=
  h.congr (.openScope s) rfl rfl rfl

theorem Opens.sound (h : Opens body start s m s' bind) (hs : s.Sound G) : s'.Sound G :=
  hs.congr h.grows h.memo h.functions h.varyings

theorem Generated.Sound.mono (h : g.Sound G s) (hg : s.Grows s') : g.Sound G s' :=
  ⟨h.origin, h.table.mono hg⟩

def sound (G : Graph) : Judgement := fun n _ s g s' _ =>
  n ∈ G.nodes → s.Sound G → g.Sound G s' ∧ s'.Sound G

theorem sound_everywhere (hG : G.Shared) : (sound G).Everywhere := by
  have h := ((captured_everywhere G).both tabled_everywhere).both (once_everywhere hG)
  refine h.mono fun ⟨⟨hcaptured, htabled⟩, honce⟩ hn hs => ?_
  obtain ⟨hg, hs'⟩ := hcaptured hn hs.origin
  obtain ⟨hgt, ht'⟩ := htabled hs.tabled
  exact ⟨⟨hg, hgt⟩, hs', ht', (honce hn hs.once).once⟩

theorem sound_threads {A : Judgement} (h : Threads ((grows.both (sound G)).both A) c ns s gs s' t)
    (hns : ∀ n ∈ ns, n ∈ G.nodes) (hs : s.Sound G) : (∀ g ∈ gs, g.Sound G s') ∧ s'.Sound G :=
  h.carry (fun h => h.1.1) (fun hg h => h.mono hg) (fun n hn _ _ _ _ h => h.1.2 (hns n hn)) hs

end ShaderGraph
