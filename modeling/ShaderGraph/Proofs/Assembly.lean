import ShaderGraph.Proofs.Hashes
import ShaderGraph.Glsl.Sections
import Mathlib.Data.List.Basic

/-!
# Stages assembled by name

A stage tells the names it has written apart by their hashes. `Sections.byName` is the stage
with the names themselves in their place: of the declarations and the functions, the first of
each name. Main statement: the two agree, on the text and on whether an error is reported,
exactly when no two names of the stage have one hash and two definitions of one function name
show in their hashes.

The two seeds keep a declaration and a function of one name apart (`Key.eq_of_hash_eq`);
different names may meet, as the uniform `b` and the function `c` do.
-/

namespace ShaderGraph.Glsl

open List

variable {names : NameTable} {h : UInt64} {f : FunctionText} {fs : List FunctionText} {s : Sections}
  {sink : Text.Sink}

/-! ## The stage by name -/

/-- What a stage writes once: the declaration or the definition of a name. -/
inductive Key where
  | declared (name : String)
  | defined (name : String)
deriving DecidableEq, Repr

namespace Key

def name : Key → String
  | declared n | defined n => n

def hash : Key → UInt64
  | declared n => declarationHash n
  | defined n => functionHash n

end Key

inductive Entry where
  | declaration (q : Qualifier) (d : Declaration)
  | function (f : FunctionText)

namespace Entry

def key : Entry → Key
  | declaration _ d => .declared d.name
  | function f => .defined f.name

def text : Entry → String
  | declaration q d => d.global q
  | function f => f.text

def join (es : List Entry) : String := String.join (es.map text)

end Entry

/-- The entries of new keys: neither seen nor the key of an entry before. -/
def firsts {α κ : Type*} [DecidableEq κ] (key : α → κ) : List κ → List α → List α
  | _, [] => []
  | seen, x :: xs =>
    if key x ∈ seen then firsts key seen xs else x :: firsts key (key x :: seen) xs

namespace Sections

def declarations (s : Sections) : List Entry :=
  s.uniforms.map (.declaration .uniform) ++ s.attributes.map (.declaration .attribute) ++
    s.varyings.map (.declaration .varying)

def entries (s : Sections) : List Entry := s.declarations ++ s.functions.map .function

def keys (s : Sections) : List Key := .declared resolutionName :: s.entries.map Entry.key

/-- The stage around the entries it keeps. -/
def around (s : Sections) (es : List Entry) : String :=
  precisionText ++ Declaration.global .uniform ⟨.vec2, resolutionName⟩ ++ Entry.join es ++ s.mainText

/-- The text of the stage with each name written once. -/
def byName (s : Sections) : String :=
  s.around (firsts Entry.key [.declared resolutionName] s.entries)

def Ambiguous (s : Sections) : Prop :=
  ∃ f ∈ s.functions, ∃ g ∈ s.functions, f.name = g.name ∧ f.text ≠ g.text

def Tells (s : Sections) : Prop :=
  ∃ f ∈ s.functions, ∃ g ∈ s.functions, f.name = g.name ∧ definitionHash f ≠ definitionHash g

def Apart (s : Sections) : Prop :=
  ∀ k ∈ s.keys, ∀ l ∈ s.keys, k.hash = l.hash → k.name = l.name

instance (s : Sections) : Decidable s.Ambiguous := inferInstanceAs (Decidable (∃ _ ∈ _, ∃ _ ∈ _, _))

instance (s : Sections) : Decidable s.Tells := inferInstanceAs (Decidable (∃ _ ∈ _, ∃ _ ∈ _, _))

instance (s : Sections) : Decidable s.Apart := inferInstanceAs (Decidable (∀ _ ∈ _, ∀ _ ∈ _, _))

end Sections

theorem declarationHash_ne_functionHash (name : String) :
    declarationHash name ≠ functionHash name := fun h =>
  absurd (hashBytes_injective _ h) (by decide)

namespace Key

theorem eq_of_hash_eq {k l : Key} (hn : k.name = l.name) (hh : k.hash = l.hash) : k = l := by
  cases k with
  | declared n =>
    cases l with
    | declared m => exact congrArg declared hn
    | defined m =>
      obtain rfl : n = m := hn
      exact absurd hh (declarationHash_ne_functionHash n)
  | defined n =>
    cases l with
    | declared m =>
      obtain rfl : n = m := hn
      exact absurd hh.symm (declarationHash_ne_functionHash n)
    | defined m => exact congrArg defined hn

end Key

theorem Sections.apart_iff (s : Sections) : s.Apart ↔ Set.InjOn Key.hash { k | k ∈ s.keys } :=
  ⟨fun h _ hk _ hl e => Key.eq_of_hash_eq (h _ hk _ hl e) e,
    fun h _ hk _ hl e => congrArg Key.name (h hk hl e)⟩

/-! ## Firsts by key and by hash -/

section Firsts

variable {α κ η : Type*} [DecidableEq κ] [DecidableEq η] (key : α → κ)

theorem firsts_congr (xs : List α) {seen seen' : List κ} (h : ∀ k, k ∈ seen ↔ k ∈ seen') :
    firsts key seen xs = firsts key seen' xs := by
  induction xs generalizing seen seen' with
  | nil => rfl
  | cons x xs ih =>
    have ih' : firsts key (key x :: seen) xs = firsts key (key x :: seen') xs :=
      ih fun k => by simp only [mem_cons, h k]
    simp only [firsts, h (key x), ih h, ih']

theorem firsts_append (seen : List κ) (xs ys : List α) :
    firsts key seen (xs ++ ys) =
      firsts key seen xs ++ firsts key (xs.map key ++ seen) ys := by
  induction xs generalizing seen with
  | nil => rfl
  | cons x xs ih =>
    by_cases hx : key x ∈ seen
    · have e : firsts key (xs.map key ++ seen) ys =
          firsts key ((x :: xs).map key ++ seen) ys :=
        firsts_congr key ys fun k => by
          simp only [map_cons, cons_append, mem_cons, mem_append]
          constructor
          · exact Or.inr
          · rintro (rfl | hk)
            · exact .inr hx
            · exact hk
      simp only [cons_append, firsts, hx, ↓reduceIte, ih, e]
    · have e : firsts key (xs.map key ++ (key x :: seen)) ys =
          firsts key ((x :: xs).map key ++ seen) ys :=
        firsts_congr key ys fun k => by
          simp only [map_cons, cons_append, mem_cons, mem_append]
          exact or_left_comm
      simp only [cons_append, firsts, hx, ↓reduceIte, ih, e]

theorem firsts_hash_sublist (hash : κ → η) (xs : List α) {seen : List κ} {hashes : List η}
    (h : ∀ e, e ∈ hashes ↔ e ∈ seen.map hash) :
    (firsts (hash ∘ key) hashes xs).Sublist (firsts key seen xs) := by
  induction xs generalizing seen hashes with
  | nil => exact Sublist.refl _
  | cons x xs ih =>
    by_cases hk : key x ∈ seen
    · have hh : (hash ∘ key) x ∈ hashes := (h _).2 (mem_map_of_mem hk)
      simpa only [firsts, hk, hh, ↓reduceIte] using ih h
    · by_cases hh : (hash ∘ key) x ∈ hashes
      · simp only [firsts, hk, hh, ↓reduceIte]
        refine (ih fun e => ?_).cons x
        rw [map_cons, mem_cons, ← h e]
        exact ⟨.inr, fun he => he.elim (fun e' => e' ▸ hh) id⟩
      · simp only [firsts, hk, hh, ↓reduceIte]
        refine (ih fun e => ?_).cons_cons x
        rw [map_cons, mem_cons, mem_cons, h e]
        rfl

/-- The firsts by hash are the firsts by key exactly when no two of the keys share a hash. -/
theorem firsts_hash_eq_iff (hash : κ → η) (xs : List α) {seen : List κ}
    (hseen : Set.InjOn hash { k | k ∈ seen }) :
    firsts (hash ∘ key) (seen.map hash) xs = firsts key seen xs ↔
      Set.InjOn hash { k | k ∈ seen ++ xs.map key } := by
  induction xs generalizing seen with
  | nil => simpa only [firsts, map_nil, append_nil, true_iff] using hseen
  | cons x xs ih =>
    have hset : { k | k ∈ seen ++ (x :: xs).map key } =
        { k | k ∈ (key x :: seen) ++ xs.map key } := by
      ext k
      simp only [Set.mem_ofPred_eq, map_cons, mem_append, mem_cons]
      rw [or_left_comm, or_assoc]
    by_cases hk : key x ∈ seen
    · have hh : (hash ∘ key) x ∈ seen.map hash := mem_map_of_mem hk
      have hset' : { k | k ∈ seen ++ (x :: xs).map key } = { k | k ∈ seen ++ xs.map key } := by
        rw [hset]
        ext k
        simp only [Set.mem_ofPred_eq, mem_append, mem_cons]
        exact ⟨fun h => h.imp_left fun h => h.elim (fun e => e ▸ hk) id, fun h => h.imp_left .inr⟩
      rw [hset', ← ih hseen]
      simp only [firsts, hk, hh, ↓reduceIte]
    · by_cases hh : (hash ∘ key) x ∈ seen.map hash
      · -- the hash hides `x`: something is lost
        obtain ⟨k, hks, e⟩ := mem_map.1 hh
        simp only [firsts, hk, hh, ↓reduceIte]
        constructor
        · intro heq
          have hsub : (firsts (hash ∘ key) (seen.map hash) xs).Sublist
              (firsts key (key x :: seen) xs) :=
            firsts_hash_sublist key hash xs fun e => by
              rw [map_cons, mem_cons]
              exact ⟨.inr, fun he => he.elim (fun e' => e' ▸ hh) id⟩
          have hle := hsub.length_le
          rw [heq, length_cons] at hle
          omega
        · intro hinj
          rw [hset] at hinj
          have : k = key x := hinj (by simp [hks]) (by simp) e
          exact absurd (this ▸ hks) hk
      · have hseen' : Set.InjOn hash { k | k ∈ key x :: seen } := by
          intro a ha b hb e
          rcases mem_cons.1 ha with rfl | ha
          · rcases mem_cons.1 hb with rfl | hb
            · rfl
            · exact absurd (mem_map.2 ⟨b, hb, e.symm⟩) hh
          · rcases mem_cons.1 hb with rfl | hb
            · exact absurd (mem_map.2 ⟨a, ha, e⟩) hh
            · exact hseen ha hb e
        rw [hset, ← ih hseen']
        simp only [firsts, hk, hh, ↓reduceIte, List.cons.injEq, true_and]
        rfl

end Firsts

/-! ## Texts of kept entries -/

theorem Declaration.global_length_pos (q : Qualifier) (d : Declaration) :
    0 < (d.global q).length := by
  simp only [global, String.length_append]
  have : 0 < ";\n".length := by decide
  omega

theorem FunctionText.text_length_pos (f : FunctionText) : 0 < f.text.length := by
  simp only [text, String.length_append]
  have : 0 < ";\n\x7d\n".length := by decide
  omega

namespace Entry

theorem text_length_pos (e : Entry) : 0 < e.text.length := by
  cases e with
  | declaration q d => exact d.global_length_pos q
  | function f => exact f.text_length_pos

@[simp] theorem join_cons (e : Entry) (es : List Entry) : join (e :: es) = e.text ++ join es := by
  simp [join]

@[simp] theorem join_append (es es' : List Entry) : join (es ++ es') = join es ++ join es' := by
  simp [join]

theorem join_length_le {es es' : List Entry} (h : es.Sublist es') :
    (join es).length ≤ (join es').length := by
  induction h with
  | slnil => exact le_rfl
  | cons e _ ih => rw [join_cons, String.length_append]; omega
  | cons_cons e _ ih => simp only [join_cons, String.length_append]; omega

/-- No entry can be left out of a text unseen. -/
theorem eq_of_join_eq {es es' : List Entry} (h : es.Sublist es') (e : join es = join es') :
    es = es' := by
  induction h with
  | slnil => rfl
  | cons x hs _ =>
    have hle := join_length_le hs
    have hpos := x.text_length_pos
    have := congrArg String.length e
    rw [join_cons, String.length_append] at this
    omega
  | cons_cons x _ ih =>
    rw [join_cons, join_cons] at e
    rw [ih (String.append_right_inj _ |>.1 e)]

end Entry

/-! ## What a stage writes -/

abbrev Entry.hash : Entry → UInt64 := Key.hash ∘ Entry.key

namespace NameTable

def hashes (names : NameTable) : List UInt64 := names.map Prod.fst

theorem lookup_isSome : (names.lookup h).isSome ↔ h ∈ names.hashes := by
  simp only [lookup_isSome_iff, hashes, mem_map, beq_iff_eq, eq_comm (a := h)]

theorem lookup_eq_none : names.lookup h = none ↔ h ∉ names.hashes := by
  rw [← lookup_isSome, Bool.not_eq_true, Option.isSome_eq_false_iff, Option.isNone_iff_eq_none]

end NameTable

theorem writeDeclarations_text (q : Qualifier) (ds : List Declaration) (names : NameTable) :
    (writeDeclarations q ds names).1 =
      Entry.join (firsts Entry.hash names.hashes (ds.map (.declaration q))) := by
  induction ds generalizing names with
  | nil => rfl
  | cons d ds ih =>
    by_cases h : declarationHash d.name ∈ names.hashes
    · have h' : Entry.hash (.declaration q d) ∈ names.hashes := h
      simp only [writeDeclarations, map_cons, firsts, NameTable.lookup_isSome, h, h',
        ↓reduceIte, ih]
    · have h' : Entry.hash (.declaration q d) ∉ names.hashes := h
      simp only [writeDeclarations, map_cons, firsts, NameTable.lookup_isSome, h, h',
        ↓reduceIte, ih, Entry.join_cons]
      rfl

theorem mem_hashes_writeDeclarations (q : Qualifier) (ds : List Declaration) (names : NameTable)
    (h : UInt64) : h ∈ (writeDeclarations q ds names).2.hashes ↔
      h ∈ (ds.map (.declaration q)).map Entry.hash ++ names.hashes := by
  induction ds generalizing names with
  | nil => rfl
  | cons d ds ih =>
    rw [map_cons, map_cons, cons_append, mem_cons]
    by_cases hd : declarationHash d.name ∈ names.hashes
    · simp only [writeDeclarations, NameTable.lookup_isSome, hd, ↓reduceIte, ih]
      constructor
      · exact Or.inr
      · rintro (rfl | hm)
        · exact mem_append_right _ hd
        · exact hm
    · simp only [writeDeclarations, NameTable.lookup_isSome, hd, ↓reduceIte, ih]
      simp only [NameTable.hashes, map_cons, mem_append, mem_cons]
      exact or_left_comm

theorem mem_hashes_after {q : Qualifier} {ds : List Declaration} {es : List Entry} {seen : List UInt64}
    (h : ∀ k, k ∈ names.hashes ↔ k ∈ es.map Entry.hash ++ seen) (k : UInt64) :
    k ∈ (writeDeclarations q ds names).2.hashes ↔
      k ∈ (es ++ ds.map (Entry.declaration q)).map Entry.hash ++ seen := by
  rw [mem_hashes_writeDeclarations, map_append]
  simp only [mem_append, h k]
  rw [or_left_comm, or_assoc]

theorem writeFunctions_known {v : UInt64} (h : names.lookup (functionHash f.name) = some v) :
    writeFunctions (f :: fs) names = ((writeFunctions fs names).1,
      if v = definitionHash f then (writeFunctions fs names).2
      else f.name :: (writeFunctions fs names).2) := by
  simp only [writeFunctions, h]

def FunctionText.record (f : FunctionText) : UInt64 × UInt64 :=
  (functionHash f.name, definitionHash f)

theorem writeFunctions_new (h : names.lookup (functionHash f.name) = none) :
    writeFunctions (f :: fs) names = (f.text ++ (writeFunctions fs (f.record :: names)).1,
      (writeFunctions fs (f.record :: names)).2) := by
  simp only [writeFunctions, h]
  rfl

theorem writeFunctions_text (fs : List FunctionText) (names : NameTable) :
    (writeFunctions fs names).1 =
      Entry.join (firsts Entry.hash names.hashes (fs.map .function)) := by
  induction fs generalizing names with
  | nil => rfl
  | cons f fs ih =>
    rw [map_cons]
    cases h : names.lookup (functionHash f.name) with
    | some v =>
      have h' : Entry.hash (.function f) ∈ names.hashes :=
        NameTable.lookup_isSome.1 (Option.isSome_of_eq_some h)
      simp only [writeFunctions_known h, firsts, h', ↓reduceIte, ih]
    | none =>
      have h' : Entry.hash (.function f) ∉ names.hashes := NameTable.lookup_eq_none.1 h
      simp only [writeFunctions_new h, firsts, h', ↓reduceIte, ih, Entry.join_cons]
      rfl

theorem writeFunctions_conflicts (fs : List FunctionText) (names : NameTable) :
    (writeFunctions fs names).2 = [] ↔
      ∀ f ∈ fs, (names ++ fs.map FunctionText.record).lookup (functionHash f.name) =
        some (definitionHash f) := by
  induction fs generalizing names with
  | nil => simp [writeFunctions]
  | cons f fs ih =>
    rw [forall_mem_cons, map_cons]
    cases h : names.lookup (functionHash f.name) with
    | some v =>
      -- a later record of a known hash is never looked up
      have hskip (k : UInt64) : (names ++ f.record :: fs.map FunctionText.record).lookup k =
          (names ++ fs.map FunctionText.record).lookup k := by
        by_cases hk : k = functionHash f.name
        · rw [hk, lookup_append, lookup_append, h, Option.some_or, Option.some_or]
        · rw [lookup_append, lookup_append, FunctionText.record, lookup_cons,
            beq_false_of_ne hk]
      simp only [writeFunctions_known h, hskip, ← ih]
      rw [lookup_append, h, Option.some_or, Option.some.injEq]
      by_cases hv : v = definitionHash f
      · simp only [hv, ↓reduceIte, true_and]
      · simp only [hv, ↓reduceIte, false_and, reduceCtorEq]
    | none =>
      have hmove (k : UInt64) : (names ++ f.record :: fs.map FunctionText.record).lookup k =
          (f.record :: names ++ fs.map FunctionText.record).lookup k := by
        by_cases hk : k = functionHash f.name
        · rw [hk, lookup_append, h, Option.none_or, FunctionText.record, lookup_cons_self,
            cons_append, lookup_cons_self]
        · rw [lookup_append, FunctionText.record, cons_append, lookup_cons,
            lookup_cons, beq_false_of_ne hk, lookup_append]
      simp only [writeFunctions_new h, hmove, ih]
      exact (and_iff_right lookup_cons_self).symm

/-- Every function has the definition recorded first when functions of one hash have
definitions of one hash. -/
theorem lookup_record_iff (fs : List FunctionText) :
    (∀ f ∈ fs, (fs.map FunctionText.record).lookup (functionHash f.name) =
        some (definitionHash f)) ↔
      ∀ f ∈ fs, ∀ g ∈ fs, functionHash f.name = functionHash g.name →
        definitionHash f = definitionHash g := by
  constructor
  · intro h f hf g hg e
    have hfv := h f hf
    rw [e, h g hg] at hfv
    exact (Option.some.inj hfv).symm
  · intro h f hf
    have hsome : ((fs.map FunctionText.record).lookup (functionHash f.name)).isSome :=
      NameTable.lookup_isSome.2 (mem_map.2 ⟨f.record, mem_map_of_mem hf, rfl⟩)
    obtain ⟨v, hv⟩ := Option.isSome_iff_exists.1 hsome
    obtain ⟨l1, l2, hl, -⟩ := lookup_eq_some_iff.1 hv
    have hmem : (functionHash f.name, v) ∈ fs.map FunctionText.record := by simp [hl]
    obtain ⟨g, hg, hr⟩ := mem_map.1 hmem
    have hname : functionHash g.name = functionHash f.name := congrArg Prod.fst hr
    have hdef : definitionHash g = v := congrArg Prod.snd hr
    rw [hv, ← hdef, h g hg f hf hname]

/-! ## The stage and its errors -/

namespace Sections

def tableOfUniforms (s : Sections) : NameTable :=
  (writeDeclarations .uniform s.uniforms [(declarationHash resolutionName, 0)]).2

def tableOfAttributes (s : Sections) : NameTable :=
  (writeDeclarations .attribute s.attributes s.tableOfUniforms).2

/-- The names written before the first function. -/
def table (s : Sections) : NameTable :=
  (writeDeclarations .varying s.varyings s.tableOfAttributes).2

theorem mem_tableOfUniforms (s : Sections) (k : UInt64) : k ∈ s.tableOfUniforms.hashes ↔
    k ∈ (s.uniforms.map (.declaration .uniform)).map Entry.hash ++
      [declarationHash resolutionName] :=
  mem_hashes_writeDeclarations ..

theorem mem_tableOfAttributes (s : Sections) (k : UInt64) : k ∈ s.tableOfAttributes.hashes ↔
    k ∈ (s.uniforms.map (Entry.declaration .uniform) ++
      s.attributes.map (Entry.declaration .attribute)).map Entry.hash ++
        [declarationHash resolutionName] :=
  mem_hashes_after s.mem_tableOfUniforms k

theorem mem_table (s : Sections) (k : UInt64) : k ∈ s.table.hashes ↔
    k ∈ s.declarations.map Entry.hash ++ [declarationHash resolutionName] :=
  mem_hashes_after s.mem_tableOfAttributes k

theorem assemble_text (s : Sections) :
    s.assemble.1 = s.around (firsts Entry.hash [declarationHash resolutionName] s.entries) :=
  calc s.assemble.1
      = precisionText ++ Declaration.global .uniform ⟨.vec2, resolutionName⟩ ++
          (writeDeclarations .uniform s.uniforms [(declarationHash resolutionName, 0)]).1 ++
          (writeDeclarations .attribute s.attributes s.tableOfUniforms).1 ++
          (writeDeclarations .varying s.varyings s.tableOfAttributes).1 ++
          (writeFunctions s.functions s.table).1 ++ s.mainText := rfl
    _ = s.around (firsts Entry.hash [declarationHash resolutionName] s.entries) := by
      rw [writeDeclarations_text, writeDeclarations_text, writeDeclarations_text,
        writeFunctions_text, firsts_congr _ _ s.mem_tableOfUniforms,
        firsts_congr _ _ s.mem_tableOfAttributes, firsts_congr _ _ s.mem_table]
      simp only [around, entries, declarations, firsts_append, Entry.join_append,
        String.append_assoc]
      rfl

/-- The text is the one by name exactly when different names have different hashes. -/
theorem assemble_text_eq_iff (s : Sections) : s.assemble.1 = s.byName ↔ s.Apart := by
  have hseen : Set.InjOn Key.hash { k | k ∈ [Key.declared resolutionName] } := by
    intro k hk l hl _
    rw [mem_singleton.1 hk, mem_singleton.1 hl]
  have hsub : (firsts Entry.hash [declarationHash resolutionName] s.entries).Sublist
      (firsts Entry.key [.declared resolutionName] s.entries) :=
    firsts_hash_sublist Entry.key Key.hash s.entries fun _ => Iff.rfl
  rw [apart_iff, show s.keys = [.declared resolutionName] ++ s.entries.map Entry.key from rfl,
    ← firsts_hash_eq_iff Entry.key Key.hash s.entries hseen, assemble_text, byName]
  constructor
  · intro h
    exact Entry.eq_of_join_eq hsub
      (String.append_right_inj _ |>.1 (String.append_left_inj _ |>.1 h))
  · intro h
    rw [show firsts Entry.hash [declarationHash resolutionName] s.entries = _ from h]

theorem key_of_mem_declarations {e : Entry} (he : e ∈ s.declarations) : ∃ n, e.key = .declared n := by
  simp only [declarations, mem_append, mem_map] at he
  rcases he with (⟨d, -, rfl⟩ | ⟨d, -, rfl⟩) | ⟨d, -, rfl⟩ <;> exact ⟨d.name, rfl⟩

theorem key_function_mem (hf : f ∈ s.functions) : Key.defined f.name ∈ s.keys :=
  mem_cons_of_mem _ (mem_map.2 ⟨.function f,
    mem_append_right _ (mem_map_of_mem hf), rfl⟩)

theorem table_lookup_function (h : s.Apart) (hf : f ∈ s.functions) :
    s.table.lookup (functionHash f.name) = none := by
  have hinj := s.apart_iff.1 h
  rw [NameTable.lookup_eq_none, mem_table, mem_append, mem_singleton]
  rintro (hm | hm)
  · obtain ⟨e, he, heq⟩ := mem_map.1 hm
    have hek : e.key ∈ s.keys :=
      mem_cons_of_mem _ (mem_map_of_mem (mem_append_left _ he))
    obtain ⟨n, hn⟩ := key_of_mem_declarations he
    have : e.key = .defined f.name := hinj hek (key_function_mem hf) heq
    exact Key.noConfusion (hn.symm.trans this)
  · exact Key.noConfusion (hinj (key_function_mem hf) mem_cons_self hm)

/-- With names apart, an error is reported exactly when some function name has definitions of
two hashes. -/
theorem assemble_conflicts_iff (h : s.Apart) : s.assemble.2 ≠ [] ↔ s.Tells := by
  have hinj := s.apart_iff.1 h
  have hconf : s.assemble.2 = [] ↔ ∀ f ∈ s.functions, ∀ g ∈ s.functions,
      functionHash f.name = functionHash g.name → definitionHash f = definitionHash g := by
    rw [← lookup_record_iff]
    refine (writeFunctions_conflicts s.functions s.table).trans (forall₂_congr fun f hf => ?_)
    rw [lookup_append, table_lookup_function h hf, Option.none_or]
  rw [Ne, hconf]
  push Not
  refine exists_congr fun f => and_congr_right fun hf => exists_congr fun g =>
    and_congr_right fun hg => and_congr_left fun _ => ⟨fun e => ?_, fun e => by rw [e]⟩
  exact Key.defined.inj (hinj (key_function_mem hf) (key_function_mem hg) e)

theorem Tells.ambiguous (h : s.Tells) : s.Ambiguous := by
  obtain ⟨f, hf, g, hg, hn, hd⟩ := h
  refine ⟨f, hf, g, hg, hn, fun ht => hd ?_⟩
  rw [definitionHash, definitionHash, ht, hn]

end Sections

/-! ## Writing to a sink -/

theorem toList_loop_eq (bs : ByteArray) (i : Nat) (r : List UInt8) :
    ByteArray.toList.loop bs i r = r.reverse ++ bs.data.toList.drop i := by
  fun_induction ByteArray.toList.loop bs i r with
  | case1 i r hlt ih =>
    have hi : i < bs.data.toList.length := hlt
    have hget : bs.get! i = bs.data.toList[i] := getElem!_pos bs.data i hlt
    rw [ih, drop_eq_getElem_cons hi, hget, reverse_cons, append_assoc]
    rfl
  | case2 i r hge =>
    rw [drop_eq_nil_of_le (Nat.le_of_not_lt hge), append_nil]

theorem utf8_toList_injective : Function.Injective fun t : String => t.toUTF8.toList := by
  intro t u h
  simp only [ByteArray.toList, toList_loop_eq, reverse_nil, nil_append,
    drop_zero] at h
  exact String.toByteArray_inj.1 (ByteArray.ext (Array.toList_inj.1 h))

def Holds (sink : Text.Sink) (text : String) : Prop :=
  ∀ room, sink.room = some room → text.toUTF8.toList.length ≤ room

theorem writeText_of_holds {text : String} (h : Holds sink text) :
    sink.writeText text = ((text.toUTF8.toList.length, true),
      { sink with written := sink.written ++ text.toUTF8.toList }) := by
  unfold Text.Sink.writeText Text.Sink.write
  cases hr : sink.room with
  | none => rfl
  | some room => exact if_pos (h room hr)

namespace Sections

theorem write_of_holds (h : Holds sink s.assemble.1) :
    (s.write sink).2.written = sink.written ++ s.assemble.1.toUTF8.toList ∧
      ((s.write sink).1.2 ≠ none ↔ s.assemble.2 ≠ []) := by
  simp only [write, writeText_of_holds h, true_and]
  cases s.assemble.2 <;> simp

/-- What is written is the stage by name, with an error for two definitions of one function
name and no other, exactly when different names have different hashes and two definitions show
in theirs. -/
theorem write_byName_iff (s : Sections) (sink : Text.Sink) (h : Holds sink s.assemble.1) :
    ((s.write sink).2.written = sink.written ++ s.byName.toUTF8.toList ∧
      ((s.write sink).1.2 ≠ none ↔ s.Ambiguous)) ↔
    s.Apart ∧ (s.Ambiguous → s.Tells) := by
  obtain ⟨hw, he⟩ := write_of_holds h
  have htext : (s.write sink).2.written = sink.written ++ s.byName.toUTF8.toList ↔ s.Apart := by
    rw [hw, List.append_cancel_left_eq, ← assemble_text_eq_iff]
    exact utf8_toList_injective.eq_iff
  rw [htext]
  refine and_congr_right fun hapart => ?_
  rw [he, assemble_conflicts_iff hapart]
  exact ⟨fun hiff => hiff.2, fun htells => ⟨Tells.ambiguous, htells⟩⟩

/-- A stage with repeated names: the second `gain` is an attribute, `wave` has two definitions. -/
def waves : Sections where
  uniforms := [⟨.float, "gain"⟩, ⟨.vec2, "resolution"⟩, ⟨.vec2, "gain"⟩]
  attributes := [⟨.vec2, "position"⟩, ⟨.float, "gain"⟩]
  varyings := [⟨.vec2, "wave"⟩]
  functions := [⟨"wave", .float, [⟨.float, "x"⟩], "", "sin(x)"⟩,
    ⟨"wave", .float, [⟨.float, "x"⟩], "", "cos(x)"⟩]
  main := "float y = wave(gain);"
  output := "gl_FragColor"
  result := "vec4(y)"

theorem waves_written_byName :
    Holds {} waves.assemble.1 ∧ waves.Apart ∧ waves.Ambiguous ∧
      (waves.write {}).2.written = waves.byName.toUTF8.toList ∧
      (waves.write {}).1.2 ≠ none := by
  have hroom : Holds {} waves.assemble.1 := fun _ h => nomatch h
  have hapart : waves.Apart := by decide +kernel
  have htells : waves.Tells := by decide +kernel
  obtain ⟨hw, he⟩ := (write_byName_iff waves {} hroom).2 ⟨hapart, fun _ => htells⟩
  exact ⟨hroom, hapart, htells.ambiguous, hw, he.2 htells.ambiguous⟩

/-- A uniform `b` and a function `c`. -/
def crossing : Sections where
  uniforms := [⟨.float, "b"⟩]
  functions := [⟨"c", .float, [], "", "1.0"⟩]
  output := "gl_FragColor"
  result := "vec4(c())"

/-- The uniform `b` hides the function `c`, which is reported as defined twice. -/
theorem uniform_hides_function :
    (crossing.write {}).2.written ≠ crossing.byName.toUTF8.toList ∧
      (crossing.write {}).1.2 = some (.definedTwice ["c"]) ∧ ¬ crossing.Ambiguous := by
  have hroom : Holds {} crossing.assemble.1 := fun _ h => nomatch h
  have hmeet : ¬ crossing.Apart := by decide +kernel
  refine ⟨fun h => hmeet ?_, by decide +kernel, by decide +kernel⟩
  rw [(write_of_holds hroom).1] at h
  exact (assemble_text_eq_iff _).1 (utf8_toList_injective h)

end Sections

end ShaderGraph.Glsl
