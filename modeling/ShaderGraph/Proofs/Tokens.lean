import Mathlib.Data.List.Chain
import ShaderGraph.Proofs.Names

/-!
# Tokens of an operation

GLSL ES 1.00 reads a text as tokens, each the longest there is at its place, between blanks and
comments. `ReadsAs` says that a text has one reading. An operation is written without blanks: it reads
as its operands with the operator between them, a negative literal as a minus and a number, unless it
subtracts a negative literal, when the two signs are read as a decrement.
-/

namespace ShaderGraph.Glsl

open List

/-! ## What a text reads as -/

inductive Token where
  /-- An identifier or a keyword. -/
  | word (text : String)
  /-- An integer or float constant, which has no sign. -/
  | number (text : String)
  /-- An operator or a mark of punctuation. -/
  | symbol (text : String)
deriving DecidableEq, Repr

def Token.text : Token → String
  | .word s | .number s | .symbol s => s

def isLetter (c : Char) : Bool := c.isAlpha || c == '_'

/-- A letter, then letters and digits. -/
def IsWord : List Char → Prop
  | [] => False
  | c :: cs => isLetter c ∧ ∀ d ∈ cs, isLetter d ∨ d.isDigit

instance : DecidablePred IsWord
  | [] => .isFalse id
  | c :: cs => decidable_of_iff (isLetter c ∧ cs.all fun d => isLetter d || d.isDigit) (by simp [IsWord])

def isHexDigit (c : Char) : Bool := c.isDigit || ('a' ≤ c && c ≤ 'f') || ('A' ≤ c && c ≤ 'F')

inductive IsExponent : List Char → Prop where
  | mk {m : Char} {sign ds : List Char} (hm : m ∈ ['e', 'E']) (hsign : sign ∈ [[], ['+'], ['-']]) (hne : ds ≠ [])
      (hds : ∀ d ∈ ds, d.isDigit) : IsExponent (m :: (sign ++ ds))

/-- The constants of the language. -/
inductive IsNumber : List Char → Prop where
  | decimal {c : Char} {ds : List Char} (hc : c ≠ '0') (hds : ∀ d ∈ c :: ds, d.isDigit) : IsNumber (c :: ds)
  | octal {ds : List Char} (hds : ∀ d ∈ ds, '0' ≤ d ∧ d ≤ '7') : IsNumber ('0' :: ds)
  | hexadecimal {x : Char} {ds : List Char} (hx : x ∈ ['x', 'X']) (hne : ds ≠ []) (hds : ∀ d ∈ ds, isHexDigit d) :
      IsNumber ('0' :: x :: ds)
  /-- A float with a point, and digits on one side of it at least. -/
  | pointed {whole fraction exponent : List Char} (hne : whole ++ fraction ≠ [])
      (hw : ∀ d ∈ whole, d.isDigit) (hf : ∀ d ∈ fraction, d.isDigit) (he : exponent = [] ∨ IsExponent exponent) :
      IsNumber (whole ++ '.' :: (fraction ++ exponent))
  /-- A float without a point. -/
  | scaled {whole exponent : List Char} (hne : whole ≠ []) (hw : ∀ d ∈ whole, d.isDigit)
      (he : IsExponent exponent) : IsNumber (whole ++ exponent)

def symbols : List String :=
  ["<<=", ">>=", "<<", ">>", "++", "--", "<=", ">=", "==", "!=", "&&", "||", "^^", "*=", "/=", "+=", "%=", "&=",
    "^=", "|=", "-=", "(", ")", "[", "]", "\x7b", "\x7d", ".", ",", ":", "=", ";", "!", "-", "~", "+", "*", "/",
    "%", "<", ">", "|", "^", "&", "?"]

def Token.WellFormed : Token → Prop
  | .word s => IsWord s.toList
  | .number s => IsNumber s.toList
  | .symbol s => s ∈ symbols

def blanks : List Char := [' ', '\t', '\n', '\r', '\x0b', '\x0c']

/-- Blanks and comments, before the rest of a text. -/
inductive Skips : List Char → List Char → Prop where
  | blank {c : Char} {rest : List Char} (hc : c ∈ blanks) : Skips (c :: rest) rest
  | line {cs rest : List Char} (hcs : '\n' ∉ cs) (hrest : rest = [] ∨ rest.head? = some '\n') :
      Skips ('/' :: '/' :: (cs ++ rest)) rest
  | block {cs rest : List Char} (hcs : ¬ ['*', '/'] <:+: cs ++ ['*']) :
      Skips ('/' :: '*' :: (cs ++ '*' :: '/' :: rest)) rest

/-- The token stands before the rest of a text, and no longer one does. -/
structure Token.Leads (t : Token) (rest : List Char) : Prop where
  wellFormed : t.WellFormed
  longest : ∀ u : Token, u.WellFormed → u.text.toList <+: t.text.toList ++ rest →
    u.text.toList.length ≤ t.text.toList.length

/-- A reading of a text. -/
inductive Lexes : List Char → List Token → Prop where
  | nil : Lexes [] []
  | skip {cs rest : List Char} {ts : List Token} (h : Skips cs rest) (hrest : Lexes rest ts) : Lexes cs ts
  | token {t : Token} {rest : List Char} {ts : List Token} (ht : t.Leads rest)
      (hskip : ∀ cs, ¬ Skips (t.text.toList ++ rest) cs) (hrest : Lexes rest ts) :
      Lexes (t.text.toList ++ rest) (t :: ts)

/-- The tokens are the only reading of the text. -/
def ReadsAs (text : String) (tokens : List Token) : Prop := ∀ ts, Lexes text.toList ts ↔ ts = tokens

/-! ## How tokens begin and go on -/

/-- The characters that symbols are made of. -/
def marks : List Char :=
  ['<', '>', '+', '-', '=', '!', '&', '|', '^', '*', '/', '%', '(', ')', '[', ']', '\x7b', '\x7d', '.', ',', ':', ';',
    '~', '?']

section
variable {cs ds w rest : List Char} {c d e : Char} {s : String} {t u : Token} {ts : List Token}

theorem mem_marks_of_symbol (h : s ∈ symbols) (hc : c ∈ s.toList) : c ∈ marks := by
  have hall : symbols.all fun s => s.toList.all marks.contains := by decide
  exact contains_iff_mem.mp (all_eq_true.mp (all_eq_true.mp hall s h) c hc)

theorem not_isLetter_of_mem_marks (h : c ∈ marks) : ¬ isLetter c ∧ ¬ c.isDigit := by
  have hall : marks.all fun c => !isLetter c && !c.isDigit := by decide
  simpa using all_eq_true.mp hall c h

theorem isLetter_iff : isLetter c ↔ ('A' ≤ c ∧ c ≤ 'Z' ∨ 'a' ≤ c ∧ c ≤ 'z') ∨ c = '_' := by
  have heq : isLetter c = ((decide ('A' ≤ c ∧ c ≤ 'Z') || ('a' ≤ c && c ≤ 'z')) || c == '_') := rfl
  simp only [heq, Bool.or_eq_true, Bool.and_eq_true, decide_eq_true_eq, beq_iff_eq]

theorem not_isLetter_of_isDigit (h : c.isDigit) : ¬ isLetter c := by
  rw [isLetter_iff]
  simp only [Char.isDigit, Bool.and_eq_true, decide_eq_true_eq, UInt32.le_iff_toNat_le] at h
  rintro (hc | rfl)
  · simp only [Char.le_def, UInt32.le_iff_toNat_le] at hc
    simp at h hc
    omega
  · exact absurd h (by decide)

theorem isDigit_of_octal (h : '0' ≤ d ∧ d ≤ '7') : d.isDigit := by
  obtain ⟨hlo, hhi⟩ := h
  simp only [Char.isDigit, Bool.and_eq_true, decide_eq_true_eq]
  exact ⟨hlo, UInt32.le_trans hhi (by decide)⟩

theorem isLetter_or_isDigit_of_isHexDigit (h : isHexDigit d) : isLetter d ∨ d.isDigit := by
  simp only [isHexDigit, Bool.or_eq_true, Bool.and_eq_true, decide_eq_true_eq] at h
  rw [isLetter_iff]
  rcases h with (h | h) | h
  · exact .inr h
  · exact .inl (.inl (.inr ⟨h.1, UInt32.le_trans h.2 (by decide)⟩))
  · exact .inl (.inl (.inl ⟨h.1, UInt32.le_trans h.2 (by decide)⟩))

theorem IsWord.head (h : IsWord cs) (hc : cs.head? = some c) : isLetter c := by
  cases cs with
  | nil => exact absurd h id
  | cons d cs => exact Option.some.inj hc ▸ h.1

theorem IsWord.exists_head (h : IsWord cs) : ∃ c, cs.head? = some c ∧ isLetter c := by
  cases cs with
  | nil => exact absurd h id
  | cons c cs => exact ⟨c, rfl, h.1⟩

theorem IsWord.mem (h : IsWord cs) (hc : c ∈ cs) : isLetter c ∨ c.isDigit := by
  cases cs with
  | nil => exact absurd h id
  | cons d cs =>
    rcases mem_cons.mp hc with rfl | hc
    · exact .inl h.1
    · exact h.2 c hc

theorem IsWord.append (h : IsWord cs) (hds : ∀ d ∈ ds, d.isDigit) : IsWord (cs ++ ds) := by
  cases cs with
  | nil => exact absurd h id
  | cons c cs =>
    refine ⟨h.1, fun d hd => ?_⟩
    rcases mem_append.mp hd with hd | hd
    · exact h.2 d hd
    · exact .inr (hds d hd)

theorem IsNumber.exists_isDigit (h : IsNumber cs) : ∃ d ∈ cs, d.isDigit := by
  cases h with
  | @decimal c ds _ hds => exact ⟨c, mem_cons_self, hds c mem_cons_self⟩
  | octal | hexadecimal => exact ⟨'0', mem_cons_self, by decide⟩
  | @pointed whole fraction _ hne hw hf _ =>
    obtain ⟨d, hd⟩ := exists_mem_of_ne_nil _ hne
    refine ⟨d, ?_, (mem_append.mp hd).elim (hw d) (hf d)⟩
    rcases mem_append.mp hd with hd | hd <;> simp [hd]
  | @scaled whole _ hne hw _ =>
    obtain ⟨d, hd⟩ := exists_mem_of_ne_nil _ hne
    exact ⟨d, mem_append_left _ hd, hw d hd⟩

theorem IsNumber.head (h : IsNumber cs) (hc : cs.head? = some c) : c.isDigit ∨ c = '.' := by
  cases h with
  | @decimal d ds _ hds => exact .inl (Option.some.inj hc ▸ hds d mem_cons_self)
  | octal | hexadecimal => exact .inl (Option.some.inj hc ▸ (by decide))
  | @pointed whole _ _ _ hw =>
    cases whole with
    | nil => exact .inr (Option.some.inj hc).symm
    | cons d whole => exact .inl (Option.some.inj hc ▸ hw d mem_cons_self)
  | @scaled whole _ hne hw =>
    cases whole with
    | nil => exact absurd rfl hne
    | cons d whole => exact .inl (Option.some.inj hc ▸ hw d mem_cons_self)

theorem IsNumber.split (h : IsNumber cs) : ∃ body x, cs = body ++ x ∧
    (∀ d ∈ body, isLetter d ∨ d.isDigit ∨ d = '.') ∧ (x = [] ∨ IsExponent x) := by
  cases h with
  | decimal _ hds => exact ⟨_, [], (append_nil _).symm, fun d hd => .inr (.inl (hds d hd)), .inl rfl⟩
  | octal hds =>
    refine ⟨_, [], (append_nil _).symm, fun d hd => .inr (.inl ?_), .inl rfl⟩
    rcases mem_cons.mp hd with rfl | hd
    · decide
    · exact isDigit_of_octal (hds d hd)
  | hexadecimal hx _ hds =>
    refine ⟨_, [], (append_nil _).symm, fun d hd => ?_, .inl rfl⟩
    rcases mem_cons.mp hd with rfl | hd
    · exact .inr (.inl (by decide))
    rcases mem_cons.mp hd with rfl | hd
    · have hall : ['x', 'X'].all isLetter := by decide
      exact .inl (all_eq_true.mp hall d hx)
    · exact (isLetter_or_isDigit_of_isHexDigit (hds d hd)).imp_right .inl
  | @pointed whole fraction x _ hw hf he =>
    refine ⟨whole ++ '.' :: fraction, x, by simp, fun d hd => ?_, he⟩
    rcases mem_append.mp hd with hd | hd
    · exact .inr (.inl (hw d hd))
    rcases mem_cons.mp hd with rfl | hd
    · exact .inr (.inr rfl)
    · exact .inr (.inl (hf d hd))
  | scaled _ hw he => exact ⟨_, _, rfl, fun d hd => .inr (.inl (hw d hd)), .inr he⟩

/-- A mark other than the point does not follow a digit. -/
def Follows (c d : Char) : Prop := d ∈ marks → d = '.' ∨ ¬ c.isDigit

theorem isChain_follows (c : Char) (hcs : ∀ d ∈ cs, isLetter d ∨ d.isDigit ∨ d = '.') :
    (c :: cs).IsChain Follows := by
  induction cs generalizing c with
  | nil => exact .singleton c
  | cons d cs ih =>
    obtain ⟨hd, hcs⟩ := forall_mem_cons.mp hcs
    refine .cons_cons (fun hm => ?_) (ih d hcs)
    have hmark := not_isLetter_of_mem_marks hm
    exact .inl ((hd.resolve_left hmark.1).resolve_left hmark.2)

theorem IsNumber.isChain_follows (h : IsNumber cs) : cs.IsChain Follows := by
  obtain ⟨body, x, rfl, hbody, rfl | hx⟩ := h.split
  · rw [append_nil]
    exact (Glsl.isChain_follows '.' hbody).tail
  obtain @⟨m, sign, ds, hm, hsign, -, hds⟩ := hx
  have hletter : isLetter m := by
    have hall : ['e', 'E'].all isLetter := by decide
    exact all_eq_true.mp hall m hm
  have hdigits : ∀ d ∈ ds, isLetter d ∨ d.isDigit ∨ d = '.' := fun d hd => .inr (.inl (hds d hd))
  have hunsigned {ds : List Char} (hds : ∀ d ∈ ds, isLetter d ∨ d.isDigit ∨ d = '.') :
      (body ++ m :: ds).IsChain Follows := by
    refine (Glsl.isChain_follows '.' fun d hd => ?_).tail
    rcases mem_append.mp hd with hd | hd
    · exact hbody d hd
    rcases mem_cons.mp hd with rfl | hd
    · exact .inl hletter
    · exact hds d hd
  have hsigned (c : Char) : (body ++ m :: c :: ds).IsChain Follows :=
    isChain_append_cons_cons.mpr ⟨hunsigned fun d hd => (by cases hd),
      fun _ => .inr fun hd => not_isLetter_of_isDigit hd hletter, Glsl.isChain_follows c hdigits⟩
  simp only [mem_cons, not_mem_nil, or_false] at hsign
  rcases hsign with rfl | rfl | rfl
  · exact hunsigned hdigits
  · exact hsigned '+'
  · exact hsigned '-'

theorem IsNumber.not_append (hd : d.isDigit) (hc : c ∈ marks) (hdot : c ≠ '.') :
    ¬ IsNumber (w ++ d :: c :: rest) := by
  intro h
  obtain ⟨-, hfollows, -⟩ := isChain_append_cons_cons.mp h.isChain_follows
  exact (hfollows hc).elim hdot fun hn => hn hd

/-! ## Tokens before the rest of a text -/

theorem Token.WellFormed.ne_nil (h : t.WellFormed) : t.text.toList ≠ [] := by
  cases t with
  | word s =>
    obtain ⟨c, hc, -⟩ := IsWord.exists_head h
    exact List.ne_nil_of_mem (mem_of_head? hc)
  | number s =>
    obtain ⟨d, hd, -⟩ := IsNumber.exists_isDigit h
    exact List.ne_nil_of_mem hd
  | symbol s =>
    have hall : ∀ s ∈ symbols, s.toList ≠ [] := by decide
    exact hall s h

theorem Token.WellFormed.kind (h : t.WellFormed) (hc : t.text.toList.head? = some c) :
    (∃ s, t = .word s ∧ isLetter c) ∨ (∃ s, t = .number s ∧ (c.isDigit ∨ c = '.')) ∨
      ∃ s, t = .symbol s ∧ c ∈ marks := by
  cases t with
  | word s => exact .inl ⟨s, rfl, IsWord.head h hc⟩
  | number s => exact .inr (.inl ⟨s, rfl, IsNumber.head h hc⟩)
  | symbol s => exact .inr (.inr ⟨s, rfl, mem_marks_of_symbol h (mem_of_head? hc)⟩)

theorem Token.WellFormed.eq_of_text (ht : t.WellFormed) (hu : u.WellFormed) (h : t.text = u.text) : t = u := by
  obtain ⟨c, hc⟩ := Option.ne_none_iff_exists'.mp (mt head?_eq_none_iff.mp ht.ne_nil)
  -- a number has a digit and a symbol has none
  have hdigit {s s' : String} (hs : IsNumber s.toList) (hs' : s' ∈ symbols) : s ≠ s' := by
    rintro rfl
    obtain ⟨d, hd, hdd⟩ := hs.exists_isDigit
    exact (not_isLetter_of_mem_marks (mem_marks_of_symbol hs' hd)).2 hdd
  have hnumber (hd : c.isDigit ∨ c = '.') : ¬ isLetter c := by
    rcases hd with hd | rfl
    · exact not_isLetter_of_isDigit hd
    · decide
  obtain ⟨s, rfl, hl⟩ | ⟨s, rfl, hl⟩ | ⟨s, rfl, hl⟩ := ht.kind hc <;>
    obtain ⟨s', rfl, hl'⟩ | ⟨s', rfl, hl'⟩ | ⟨s', rfl, hl'⟩ := hu.kind (h ▸ hc)
  · exact congrArg _ h
  · exact absurd hl (hnumber hl')
  · exact absurd hl (not_isLetter_of_mem_marks hl').1
  · exact absurd hl' (hnumber hl)
  · exact congrArg _ h
  · exact absurd h (hdigit ht hu)
  · exact absurd hl' (not_isLetter_of_mem_marks hl).1
  · exact absurd h.symm (hdigit hu ht)
  · exact congrArg _ h

theorem lexes_nil_iff : Lexes [] ts ↔ ts = [] := by
  refine ⟨fun h => ?_, fun h => h ▸ .nil⟩
  generalize hcs : [] = cs at h
  cases h with
  | nil => rfl
  | skip h => cases h <;> cases hcs
  | token ht => exact absurd (append_eq_nil_iff.mp hcs.symm).1 ht.wellFormed.ne_nil

/-- Where a token leads, every reading begins with it. -/
theorem lexes_iff (ht : t.Leads rest) (hskip : ∀ cs, ¬ Skips (t.text.toList ++ rest) cs) :
    Lexes (t.text.toList ++ rest) ts ↔ ∃ us, ts = t :: us ∧ Lexes rest us := by
  refine ⟨fun h => ?_, fun ⟨us, hts, hus⟩ => hts ▸ .token ht hskip hus⟩
  generalize hcs : t.text.toList ++ rest = cs at h
  cases h with
  | nil => exact absurd (append_eq_nil_iff.mp hcs).1 ht.wellFormed.ne_nil
  | skip h => exact absurd (hcs ▸ h) (hskip _)
  | @token u rest' us hu _ hus =>
    have hlen : t.text.toList.length = u.text.toList.length :=
      Nat.le_antisymm (hu.longest t ht.wellFormed (hcs ▸ prefix_append ..))
        (ht.longest u hu.wellFormed (hcs ▸ prefix_append ..))
    obtain ⟨htext, rfl⟩ := List.append_inj hcs hlen
    obtain rfl := ht.wellFormed.eq_of_text hu.wellFormed (String.toList_injective htext)
    exact ⟨us, rfl, hus⟩

theorem exists_append_of_length_lt {x : List Char} (h : x <+: w ++ rest) (hlt : w.length < x.length) :
    ∃ c more, rest.head? = some c ∧ x = w ++ c :: more := by
  obtain ⟨tail, ht⟩ := h
  obtain ⟨as, rfl, has⟩ | ⟨as, rfl, has⟩ := append_eq_append_iff.mp ht
  · rw [length_append] at hlt
    exact absurd hlt (Nat.not_lt.mpr (Nat.le_add_right _ _))
  · cases as with
    | nil => simp at hlt
    | cons c more => exact ⟨c, more, by rw [has]; rfl, rfl⟩

theorem Token.Leads.of_append (ht : t.WellFormed) (hd : t.text.toList.head? = some d)
    (h : ∀ u : Token, u.WellFormed → u.text.toList.head? = some d → ∀ c more, rest.head? = some c →
      u.text.toList ≠ t.text.toList ++ c :: more) : t.Leads rest := by
  refine ⟨ht, fun u hu hpre => Nat.le_of_not_lt fun hlt => ?_⟩
  obtain ⟨c, more, hc, hmore⟩ := exists_append_of_length_lt hpre hlt
  refine h u hu ?_ c more hc hmore
  rw [hmore, head?_append_of_ne_nil _ ht.ne_nil, hd]

theorem word_leads (hs : IsWord s.toList) (hrest : ∀ c, rest.head? = some c → c ∈ marks) :
    (Token.word s).Leads rest := by
  have hne := Token.WellFormed.ne_nil (t := .word s) hs
  obtain ⟨d, hd⟩ := Option.ne_none_iff_exists'.mp (mt head?_eq_none_iff.mp hne)
  refine .of_append hs hd fun u hu hhead c more hc hmore => ?_
  have hl : isLetter d := hs.head hd
  have hmark := not_isLetter_of_mem_marks (hrest c hc)
  obtain ⟨s', rfl, -⟩ | ⟨s', rfl, hk⟩ | ⟨s', rfl, hk⟩ := hu.kind hhead
  · have hu : IsWord s'.toList := hu
    rcases hu.mem (c := c) (hmore ▸ by simp) with h | h
    · exact hmark.1 h
    · exact hmark.2 h
  · rcases hk with hk | rfl
    · exact not_isLetter_of_isDigit hk hl
    · exact absurd hl (by decide)
  · exact (not_isLetter_of_mem_marks hk).1 hl

theorem number_leads (hs : IsNumber s.toList) (hd : s.toList.head? = some d) (hdd : d.isDigit)
    (hlast : s.toList = w ++ [e]) (he : e.isDigit) (hrest : ∀ c, rest.head? = some c → c ∈ marks ∧ c ≠ '.') :
    (Token.number s).Leads rest := by
  refine .of_append hs hd fun u hu hhead c more hc hmore => ?_
  obtain ⟨s', rfl, hk⟩ | ⟨s', rfl, -⟩ | ⟨s', rfl, hk⟩ := hu.kind hhead
  · exact not_isLetter_of_isDigit hdd hk
  · have hu : IsNumber s'.toList := hu
    have hmore : s'.toList = w ++ e :: c :: more := by
      rw [append_cons, ← hlast]
      exact hmore
    exact IsNumber.not_append he (hrest c hc).1 (hrest c hc).2 (hmore ▸ hu)
  · exact (not_isLetter_of_mem_marks hk).2 hdd

theorem symbol_leads (hs : s ∈ symbols) (hd : s.toList.head? = some d) (hdot : d ≠ '.')
    (hrest : ∀ c, rest.head? = some c → ∀ x ∈ symbols, ¬ s.toList ++ [c] <+: x.toList) :
    (Token.symbol s).Leads rest := by
  refine .of_append hs hd fun u hu hhead c more hc hmore => ?_
  have hmark := not_isLetter_of_mem_marks (mem_marks_of_symbol hs (mem_of_head? hd))
  obtain ⟨s', rfl, hk⟩ | ⟨s', rfl, hk⟩ | ⟨s', rfl, -⟩ := hu.kind hhead
  · exact hmark.1 hk
  · exact hk.elim hmark.2 hdot
  · refine hrest c hc s' hu ⟨more, ?_⟩
    rw [← append_cons]
    exact hmore.symm

theorem not_skips (hc : cs.head? = some c) (hb : c ∉ blanks)
    (hslash : c = '/' → ∀ d, cs.tail.head? = some d → d ≠ '/' ∧ d ≠ '*') (rest : List Char) : ¬ Skips cs rest := by
  intro h
  cases h with
  | blank hblank => exact hb (Option.some.inj hc ▸ hblank)
  | line => exact (hslash (Option.some.inj hc).symm '/' rfl).1 rfl
  | block => exact (hslash (Option.some.inj hc).symm '*' rfl).2 rfl

theorem not_symbol_append {x : String} (hc : isLetter c ∨ c.isDigit) (hx : x ∈ symbols) :
    ¬ s.toList ++ [c] <+: x.toList := by
  intro hpre
  have hmark := not_isLetter_of_mem_marks
    (mem_marks_of_symbol hx (hpre.subset (mem_append_right _ (mem_singleton_self c))))
  exact hc.elim hmark.1 hmark.2

theorem not_skips_of_isLetter (hcs : cs.head? = some c)
    (hc : isLetter c ∨ c.isDigit) (rest : List Char) : ¬ Skips cs rest := by
  have hall : ('/' :: blanks).all fun d => !(isLetter d || d.isDigit) := by decide
  have hmem : c ∉ '/' :: blanks := fun h => by
    have hnot := all_eq_true.mp hall c h
    rw [Bool.or_eq_true_iff.mpr hc] at hnot
    cases hnot
  rw [mem_cons, not_or] at hmem
  exact not_skips hcs hmem.2 (fun h => absurd h hmem.1) rest

theorem lexes_word (hs : IsWord s.toList) (hrest : ∀ c, rest.head? = some c → c ∈ marks) :
    Lexes (s.toList ++ rest) ts ↔ ∃ us, ts = .word s :: us ∧ Lexes rest us := by
  obtain ⟨c, hhead, hc⟩ := hs.exists_head
  have hskip : ∀ cs, ¬ Skips (s.toList ++ rest) cs := by
    refine not_skips_of_isLetter ?_ (.inl hc)
    rw [head?_append, hhead]
    rfl
  exact lexes_iff (t := .word s) (word_leads hs hrest) hskip

end

end ShaderGraph.Glsl

namespace ShaderGraph

open List

open Glsl (Token Lexes ReadsAs IsWord isLetter lexes_word not_symbol_append)

/-! ## Operands -/

def Atom.tokens : Atom → List Token
  | .name s => [.word s]
  | .bool b => [.word (if b then "true" else "false")]
  | .float v =>
    match Decimal.readSingle v with
    | .finite negative b =>
      (if negative then [.symbol "-"] else []) ++ [.number (Decimal.Numeral.ofScaled false b.shortest).pointed]
    | _ => []

/-- A literal that begins with a sign. -/
def Atom.isNegative : Atom → Bool
  | .float v =>
    match Decimal.readSingle v with
    | .finite negative _ => negative
    | _ => false
  | _ => false

/-- What operators are given: a variable, which is a word and a number, a resource, a truth value or a
finite literal. -/
inductive Atom.IsOperand : Atom → Prop where
  | variable {b : String} (hb : IsWord b.toList) (k : Nat) : IsOperand (.name (b ++ toString k))
  | resource {r : String} (hr : IsResource r) : IsOperand (.name r)
  | bool (b : Bool) : IsOperand (.bool b)
  | float {v : Float32} {negative : Bool} {b : Decimal.Binary} (hv : Decimal.readSingle v = .finite negative b) :
      IsOperand (.float v)

/-- The operands with the operator between them. -/
def Operator.tokens (op : Operator) (args : List Atom) : List Token :=
  [Token.symbol op.symbol].intercalate (args.map Atom.tokens)

/-- A negative literal is subtracted. -/
def Operator.Clashes (op : Operator) (args : List Atom) : Prop := op = .sub ∧ ∃ a ∈ args.tail, a.isNegative

section
variable {a : Atom} {op : Operator} {args : List Atom} {rest : List Char} {ts : List Token}

theorem isWord_append_numeral {b : String} (hb : IsWord b.toList) (k : Nat) :
    IsWord (b ++ toString k).toList := by
  rw [String.toList_append]
  exact hb.append fun _ => numeral_isDigit

theorem IsResource.isWord {r : String} (h : IsResource r) : IsWord r.toList := by
  obtain ⟨id, rfl | rfl | rfl⟩ := h
  · exact isWord_append_numeral (b := "uniform") (by decide) id
  · exact isWord_append_numeral (b := "attribute") (by decide) id
  · exact isWord_append_numeral (b := "varying") (by decide) id

section
open Decimal
variable (negative : Bool) (d : Scaled)

theorem whole_isDigit : (Numeral.ofScaled negative d).whole ≠ [] ∧
    ∀ c ∈ (Numeral.ofScaled negative d).whole, c.isDigit := by
  have hds (c : Char) (hc : c ∈ Nat.toDigits 10 d.digits) : c.isDigit :=
    Nat.isDigit_of_mem_toDigits (by decide) (by decide) hc
  have htake (n : Nat) (hn : n ≠ 0) : (Nat.toDigits 10 d.digits).take n ≠ [] := by
    rw [Ne, take_eq_nil_iff, not_or]
    exact ⟨hn, Nat.toDigits_ne_nil⟩
  have hzero : ['0'] ≠ [] ∧ ∀ c ∈ ['0'], c.isDigit :=
    ⟨cons_ne_nil _ _, forall_mem_singleton.mpr (by decide)⟩
  unfold Numeral.ofScaled
  split
  · exact hzero
  · dsimp only
    split
    · split
      · exact hzero
      · next hpoint =>
        refine ⟨append_ne_nil_of_left_ne_nil (htake _ (by omega)) _, fun c hc => ?_⟩
        rcases mem_append.mp hc with hc | hc
        · exact hds c (mem_of_mem_take hc)
        · rw [eq_of_mem_replicate hc]
          decide
    · exact ⟨htake 1 (by decide), fun c hc => hds c (mem_of_mem_take hc)⟩

theorem exponentText_isExponent (e : Option Int) :
    (Numeral.exponentText e).toList = [] ∨ Glsl.IsExponent (Numeral.exponentText e).toList ∧
      ∃ w ds, (Numeral.exponentText e).toList = w ++ ds ∧ ds ≠ [] ∧ ∀ c ∈ ds, c.isDigit := by
  cases e with
  | none => exact .inl rfl
  | some e =>
    right
    obtain ⟨ds, htext, hne, hdigits, -⟩ := exponentText_some e
    change _ = 'e' :: ([_] ++ ds) at htext
    rw [htext]
    refine ⟨.mk (by decide) ?_ hne hdigits, ['e', if e < 0 then '-' else '+'], ds, rfl, hne, hdigits⟩
    split <;> decide

theorem negative_ofScaled : (Numeral.ofScaled negative d).negative = negative := by
  unfold Numeral.ofScaled
  dsimp only
  split_ifs <;> rfl

theorem pointed_ofScaled :
    (Numeral.ofScaled negative d).pointed = Numeral.signText negative ++ (Numeral.ofScaled false d).pointed := by
  unfold Numeral.ofScaled
  dsimp only
  split_ifs <;> simp [Numeral.pointed, Numeral.signText, String.append_assoc]

theorem pointed_isNumber {s : String} (hs : s = (Numeral.ofScaled false d).pointed) :
    Glsl.IsNumber s.toList ∧ (∃ c, s.toList.head? = some c ∧ c.isDigit) ∧
      ∃ w c, s.toList = w ++ [c] ∧ c.isDigit := by
  obtain ⟨hne, hwhole⟩ := whole_isDigit false d
  have hfraction := fraction_isDigit false d
  generalize hn : Numeral.ofScaled false d = n at hs hne hwhole hfraction
  generalize hf : (if n.fraction.isEmpty then ['0'] else n.fraction) = f
  have hfne : f ≠ [] := by
    rw [← hf]
    split
    · decide
    · next h => exact fun he => h (List.isEmpty_iff.mpr he)
  have hfdigits : ∀ c ∈ f, c.isDigit := by
    rw [← hf]
    split
    · exact forall_mem_singleton.mpr (by decide)
    · exact hfraction
  have hnegative : n.negative = false := by rw [← hn, negative_ofScaled]
  have htext : s.toList = n.whole ++ '.' :: (f ++ (Numeral.exponentText n.exponent).toList) := by
    rw [hs, ← hf]
    simp [Numeral.pointed, Numeral.signText, hnegative]
  have hlast {w ds : List Char} (hs : s.toList = w ++ ds) (hds : ds ≠ []) (hdigits : ∀ c ∈ ds, c.isDigit) :
      ∃ w c, s.toList = w ++ [c] ∧ c.isDigit :=
    ⟨w ++ ds.dropLast, ds.getLast hds, by rw [hs, append_assoc, dropLast_append_getLast hds],
      hdigits _ (List.getLast_mem hds)⟩
  refine ⟨?_, ?_, ?_⟩
  · rw [htext]
    exact .pointed (append_ne_nil_of_left_ne_nil hne _) hwhole hfdigits
      ((exponentText_isExponent n.exponent).imp_right And.left)
  · obtain ⟨c, cs, hcs⟩ := exists_cons_of_ne_nil hne
    exact ⟨c, by rw [htext, hcs]; rfl, hwhole c (hcs ▸ mem_cons_self)⟩
  · rcases exponentText_isExponent n.exponent with he | ⟨-, w, ds, he, hds, hdigits⟩
    · refine hlast (w := n.whole ++ ['.']) ?_ hfne hfdigits
      rw [htext, he, append_nil, append_cons]
    · refine hlast (w := n.whole ++ '.' :: (f ++ w)) ?_ hds hdigits
      rw [htext, he, append_assoc, cons_append, append_assoc]

theorem literal_of_finite {v : Float32} {b : Binary} (hv : readSingle v = .finite negative b) :
    Glsl.literal v = Numeral.signText negative ++ (Numeral.ofScaled false b.shortest).pointed := by
  unfold Glsl.literal
  rw [hv]
  exact pointed_ofScaled negative b.shortest

end

theorem lexes_number {d : Decimal.Scaled} {s : String} (hs : s = (Decimal.Numeral.ofScaled false d).pointed)
    (hrest : ∀ c, rest.head? = some c → c ∈ Glsl.marks ∧ c ≠ '.') :
    Lexes (s.toList ++ rest) ts ↔ ∃ us, ts = .number s :: us ∧ Lexes rest us := by
  obtain ⟨hnumber, ⟨c, hhead, hc⟩, w, e, hlast, he⟩ := pointed_isNumber d hs
  have hskip : ∀ cs, ¬ Glsl.Skips (s.toList ++ rest) cs := by
    refine Glsl.not_skips_of_isLetter ?_ (.inr hc)
    rw [head?_append, hhead]
    rfl
  exact Glsl.lexes_iff (t := .number s) (Glsl.number_leads hnumber hhead hc hlast he hrest) hskip

theorem Operator.head_symbol (op : Operator) : ∃ c cs, op.symbol.toList = c :: cs ∧
    (c ∈ Glsl.marks ∧ c ≠ '.') ∧ c ∉ Glsl.blanks ∧ (c = '/' → cs = []) := by
  cases op <;> exact ⟨_, _, rfl, by decide⟩

/-- Before an operand that begins with a sign a minus is no token. -/
theorem Operator.lexes_iff (op : Operator)
    (hrest : ∃ c, rest.head? = some c ∧ (isLetter c ∨ c.isDigit ∨ c = '-' ∧ op ≠ .sub)) :
    Lexes (op.symbol.toList ++ rest) ts ↔ ∃ us, ts = .symbol op.symbol :: us ∧ Lexes rest us := by
  have hsymbol : op.symbol ∈ Glsl.symbols := by cases op <;> decide
  obtain ⟨c, cs, hcs, ⟨-, hdot⟩, hblank, hslash⟩ := op.head_symbol
  obtain ⟨d, hd, hkind⟩ := hrest
  refine Glsl.lexes_iff (t := .symbol op.symbol)
    (Glsl.symbol_leads hsymbol (hcs ▸ rfl) hdot fun e he x hx => ?_)
    (Glsl.not_skips (c := c) (by rw [Token.text, hcs]; rfl) hblank ?_)
  · obtain rfl : d = e := Option.some.inj (hd.symm.trans he)
    rcases hkind with hd | hd | ⟨rfl, hop⟩
    · exact not_symbol_append (.inl hd) hx
    · exact not_symbol_append (.inr hd) hx
    · have hall : ∀ x ∈ Glsl.symbols, ¬ op.symbol.toList ++ ['-'] <+: x.toList := by
        cases op with
        | sub => exact absurd rfl hop
        | _ => decide
      exact hall x hx
  · -- after a slash the operand does not begin a comment
    intro hc e he
    rw [Token.text, hcs, hslash hc] at he
    obtain rfl : d = e := Option.some.inj (hd.symm.trans he)
    have hall : ∀ e ∈ ['/', '*'], ¬ (isLetter e ∨ e.isDigit ∨ e = '-') :=
      forall_mem_cons.mpr ⟨by decide, forall_mem_singleton.mpr (by decide)⟩
    have hkind : isLetter d ∨ d.isDigit ∨ d = '-' := hkind.imp_right fun h => h.imp_right And.left
    exact ⟨fun h => hall d (by simp [h]) hkind, fun h => hall d (by simp [h]) hkind⟩

theorem Atom.IsOperand.lexes_iff (ha : a.IsOperand)
    (hrest : ∀ c, rest.head? = some c → c ∈ Glsl.marks ∧ c ≠ '.') :
    Lexes (a.text.toList ++ rest) ts ↔ ∃ us, ts = a.tokens ++ us ∧ Lexes rest us := by
  have hmarks (c : Char) (hc : rest.head? = some c) : c ∈ Glsl.marks := (hrest c hc).1
  cases ha with
  | «variable» hb k => exact lexes_word (isWord_append_numeral hb k) hmarks
  | resource hr => exact lexes_word hr.isWord hmarks
  | bool b =>
    cases b
    · exact lexes_word (s := "false") (by decide) hmarks
    · exact lexes_word (s := "true") (by decide) hmarks
  | @float v negative b hv =>
    obtain ⟨-, ⟨c, hc, hdigit⟩, -⟩ := pointed_isNumber b.shortest rfl
    simp only [Atom.text, literal_of_finite negative hv, Atom.tokens, hv]
    cases negative with
    | false =>
      show Lexes (("" ++ _).toList ++ rest) ts ↔ _
      rw [String.empty_append]
      exact lexes_number rfl hrest
    | true =>
      show Lexes (("-" ++ _).toList ++ rest) ts ↔ ∃ us, ts = .symbol "-" :: .number _ :: us ∧ Lexes rest us
      rw [String.toList_append, append_assoc]
      refine (Operator.lexes_iff .sub ⟨c, by rw [head?_append, hc]; rfl, .inr (.inl hdigit)⟩).trans ?_
      simp only [lexes_number rfl hrest]
      constructor
      · rintro ⟨_, rfl, us, rfl, hus⟩
        exact ⟨us, rfl, hus⟩
      · rintro ⟨us, rfl, hus⟩
        exact ⟨_, rfl, us, rfl, hus⟩

theorem Atom.IsOperand.head (ha : a.IsOperand) : ∃ c, a.text.toList.head? = some c ∧
    if a.isNegative then c = '-' else isLetter c ∨ c.isDigit := by
  have hword {s : String} (hs : IsWord s.toList) :
      ∃ c, s.toList.head? = some c ∧ (isLetter c ∨ c.isDigit) := by
    obtain ⟨c, hhead, hc⟩ := hs.exists_head
    exact ⟨c, hhead, .inl hc⟩
  cases ha with
  | «variable» hb k => exact hword (isWord_append_numeral hb k)
  | resource hr => exact hword hr.isWord
  | bool b =>
    cases b
    · exact hword (s := "false") (by decide)
    · exact hword (s := "true") (by decide)
  | @float v negative b hv =>
    obtain ⟨-, ⟨c, hc, hdigit⟩, -⟩ := pointed_isNumber b.shortest rfl
    simp only [Atom.text, literal_of_finite negative hv, Atom.isNegative, hv, String.toList_append]
    cases negative with
    | false =>
      refine ⟨c, ?_, .inr hdigit⟩
      rw [show (Decimal.Numeral.signText false).toList = [] from rfl, nil_append, hc]
    | true => exact ⟨'-', rfl, rfl⟩

/-! ## Operations -/

theorem Expr.toList_operation_cons (op : Operator) (a b : Atom) (args : List Atom) :
    (Expr.operation op (a :: b :: args)).text.toList =
      a.text.toList ++ (op.symbol.toList ++ (Expr.operation op (b :: args)).text.toList) := by
  simp [Expr.text, String.toList_intercalate, List.intercalate]

theorem Operator.tokens_cons (op : Operator) (a b : Atom) (args : List Atom) :
    op.tokens (a :: b :: args) = a.tokens ++ .symbol op.symbol :: op.tokens (b :: args) := by
  simp [Operator.tokens, List.intercalate]

theorem Operator.clashes_cons {b : Atom} :
    op.Clashes (a :: b :: args) ↔ op = .sub ∧ b.isNegative ∨ op.Clashes (b :: args) := by
  simp only [Operator.Clashes, tail_cons, mem_cons, exists_eq_or_imp, and_or_left]

theorem Expr.text_operation_singleton (op : Operator) (a : Atom) : (Expr.operation op [a]).text = a.text := by
  simp [Expr.text]

theorem Expr.head_operation (ha : a.IsOperand) :
    (Expr.operation op (a :: args)).text.toList.head? = a.text.toList.head? := by
  cases args with
  | nil => rw [Expr.text_operation_singleton]
  | cons b args =>
    obtain ⟨c, hc, -⟩ := ha.head
    rw [Expr.toList_operation_cons, head?_append, hc]
    rfl

/-- Two minus signs are read as one token. -/
theorem not_lexes_decrement : ¬ Lexes ('-' :: '-' :: rest) (.symbol "-" :: ts) := by
  intro h
  generalize hcs : '-' :: '-' :: rest = cs at h
  generalize hus : Token.symbol "-" :: ts = us at h
  cases h with
  | nil => cases hcs
  | skip h =>
    have hhead : cs.head? = some '-' := by rw [← hcs]; rfl
    exact Glsl.not_skips hhead (by decide) (fun h => absurd h (by decide)) _ h
  | token ht =>
    obtain ⟨rfl, -⟩ := List.cons.inj hus
    have hlen := ht.longest (.symbol "--") (by decide : "--" ∈ Glsl.symbols) (hcs ▸ ⟨rest, rfl⟩)
    exact absurd hlen (by decide)

theorem Operator.lexes_cons {b : Atom} (ha : a.IsOperand) :
    Lexes (Expr.operation op (a :: b :: args)).text.toList ts ↔ ∃ us, ts = a.tokens ++ us ∧
      Lexes (op.symbol.toList ++ (Expr.operation op (b :: args)).text.toList) us := by
  obtain ⟨c, cs, hcs, hc, -⟩ := op.head_symbol
  rw [Expr.toList_operation_cons]
  refine ha.lexes_iff fun d hd => ?_
  rw [hcs] at hd
  exact Option.some.inj hd ▸ hc

theorem Operator.lexes_symbol (ha : a.IsOperand) (h : ¬ (op = .sub ∧ a.isNegative)) :
    Lexes (op.symbol.toList ++ (Expr.operation op (a :: args)).text.toList) ts ↔
      ∃ us, ts = .symbol op.symbol :: us ∧ Lexes (Expr.operation op (a :: args)).text.toList us := by
  obtain ⟨c, hc, hkind⟩ := ha.head
  refine op.lexes_iff ⟨c, (Expr.head_operation ha).trans hc, ?_⟩
  split at hkind
  · next hn => exact .inr (.inr ⟨hkind, fun hop => h ⟨hop, hn⟩⟩)
  · exact hkind.imp_right .inl

theorem Operator.lexes_operation (hargs : ∀ a ∈ args, a.IsOperand) (hne : args ≠ []) (h : ¬ op.Clashes args) :
    Lexes (Expr.operation op args).text.toList ts ↔ ts = op.tokens args := by
  induction args generalizing ts with
  | nil => exact absurd rfl hne
  | cons a args ih =>
    obtain ⟨ha, hargs⟩ := forall_mem_cons.mp hargs
    cases args with
    | nil =>
      have htokens : op.tokens [a] = a.tokens := by simp [Operator.tokens]
      have hlex : Lexes (a.text.toList ++ []) ts ↔ ∃ us, ts = a.tokens ++ us ∧ Lexes [] us :=
        ha.lexes_iff fun c hc => by cases hc
      rw [Expr.text_operation_singleton, htokens, ← append_nil a.text.toList, hlex]
      simp only [Glsl.lexes_nil_iff, exists_eq_right, append_nil]
    | cons b args =>
      rw [Operator.clashes_cons, not_or] at h
      rw [Operator.lexes_cons ha, Operator.tokens_cons]
      simp only [Operator.lexes_symbol (hargs b mem_cons_self) h.1, ih hargs (cons_ne_nil _ _) h.2,
        exists_eq_right]

theorem Operator.not_lexes_operation (hargs : ∀ a ∈ args, a.IsOperand) (h : op.Clashes args) :
    ¬ Lexes (Expr.operation op args).text.toList (op.tokens args) := by
  induction args with
  | nil =>
    obtain ⟨-, a, ha, -⟩ := h
    cases ha
  | cons a args ih =>
    obtain ⟨ha, hargs⟩ := forall_mem_cons.mp hargs
    cases args with
    | nil =>
      obtain ⟨-, b, hb, -⟩ := h
      cases hb
    | cons b args =>
      have hb := hargs b mem_cons_self
      intro hlex
      obtain ⟨us, hus, hlex⟩ := (Operator.lexes_cons ha).mp hlex
      rw [Operator.tokens_cons, append_cancel_left_eq] at hus
      obtain rfl := hus
      by_cases hneg : op = .sub ∧ b.isNegative
      · obtain ⟨rfl, hneg⟩ := hneg
        obtain ⟨c, hc, hkind⟩ := hb.head
        rw [if_pos hneg] at hkind
        obtain ⟨cs, hcs⟩ := head?_eq_some_iff.mp (hkind ▸ (Expr.head_operation hb).trans hc)
        rw [hcs] at hlex
        exact not_lexes_decrement hlex
      · obtain ⟨us, hus, hlex⟩ := (Operator.lexes_symbol hb hneg).mp hlex
        obtain ⟨-, rfl⟩ := List.cons.inj hus
        exact ih hargs ((Operator.clashes_cons.mp h).resolve_left hneg) hlex

/-- An operation reads as its operands with the operator between them, a negative literal as a minus and
a number, exactly if it is no subtraction with a negative literal after the first operand. -/
theorem Operator.readsAs_operation (op : Operator) {args : List Atom} (hne : args ≠ [])
    (hargs : ∀ a ∈ args, a.IsOperand) :
    ReadsAs (Expr.operation op args).text (op.tokens args) ↔ ¬ op.Clashes args :=
  ⟨fun h hclash => Operator.not_lexes_operation hargs hclash ((h _).mpr rfl),
    fun h _ => Operator.lexes_operation hargs hne h⟩

end

/-! ## A negative literal added and subtracted -/

theorem readSingle_neg_one : Decimal.readSingle (-1) = .finite true ⟨8388608, -23, true⟩ := by decide +kernel

/-- A variable, a uniform and a negative literal. -/
def offsetOperands : List Atom := [.name "sinVal0", .name "uniform31", .float (-1)]

theorem offsetOperands_isOperand : ∀ a ∈ offsetOperands, a.IsOperand := by
  have hvariable : Atom.IsOperand (.name "sinVal0") :=
    .variable (b := "sinVal") (by decide) 0
  have hresource : Atom.IsOperand (.name "uniform31") := .resource ⟨31, .inl rfl⟩
  simp only [offsetOperands, forall_mem_cons]
  exact ⟨hvariable, hresource, .float readSingle_neg_one, fun a ha => by cases ha⟩

/-- The sum reads as its operands, the difference does not. -/
theorem readsAs_offsets :
    (Expr.operation .add offsetOperands).text = "sinVal0+uniform31+-1.0" ∧
      ReadsAs "sinVal0+uniform31+-1.0"
        [.word "sinVal0", .symbol "+", .word "uniform31", .symbol "+", .symbol "-", .number "1.0"] ∧
      ¬ ReadsAs (Expr.operation .sub offsetOperands).text (Operator.sub.tokens offsetOperands) := by
  have htext : (Expr.operation .add offsetOperands).text = "sinVal0+uniform31+-1.0" := by decide +kernel
  have htokens : Operator.add.tokens offsetOperands =
      [.word "sinVal0", .symbol "+", .word "uniform31", .symbol "+", .symbol "-", .number "1.0"] := by decide +kernel
  refine ⟨htext, ?_, fun h => ?_⟩
  · rw [← htext, ← htokens]
    exact (Operator.readsAs_operation .add (List.cons_ne_nil _ _) offsetOperands_isOperand).mpr fun h => by
      cases h.1
  · refine (Operator.readsAs_operation .sub (List.cons_ne_nil _ _) offsetOperands_isOperand).mp h ⟨rfl, ?_⟩
    exact ⟨.float (-1), by simp, by simp only [Atom.isNegative, readSingle_neg_one]⟩

/-- A uniform from which a negative literal is subtracted is decremented, and a number follows it. -/
theorem readsAs_decrement :
    (Expr.operation .sub [.name (uniformName 31), .float (-1)]).text = "uniform31--1.0" ∧
      ReadsAs "uniform31--1.0" [.word "uniform31", .symbol "--", .number "1.0"] ∧
      Operator.sub.tokens [.name (uniformName 31), .float (-1)] =
        [.word "uniform31", .symbol "-", .symbol "-", .number "1.0"] := by
  have hnumber : "1.0" = (Decimal.Numeral.ofScaled false ⟨1, 0⟩).pointed := by decide +kernel
  refine ⟨by decide +kernel, fun ts => ?_, by decide +kernel⟩
  have hleads : (Token.symbol "--").Leads ("1.0".toList ++ []) :=
    Glsl.symbol_leads (by decide) rfl (by decide) fun c hc x hx =>
      not_symbol_append (.inr (Option.some.inj hc ▸ by decide)) hx
  have hskip (cs : List Char) : ¬ Glsl.Skips ("--".toList ++ ("1.0".toList ++ [])) cs :=
    Glsl.not_skips rfl (by decide) (fun h => absurd h (by decide)) cs
  have hmark (c : Char) (hc : ("--".toList ++ ("1.0".toList ++ [])).head? = some c) : c ∈ Glsl.marks := by
    obtain rfl : '-' = c := Option.some.inj hc
    decide
  have hword : Lexes ("uniform31".toList ++ ("--".toList ++ ("1.0".toList ++ []))) ts ↔
      ∃ us, ts = .word "uniform31" :: us ∧ Lexes ("--".toList ++ ("1.0".toList ++ [])) us :=
    lexes_word (by decide) hmark
  have hdecrement {us : List Token} : Lexes ("--".toList ++ ("1.0".toList ++ [])) us ↔
      ∃ vs, us = .symbol "--" :: vs ∧ Lexes ("1.0".toList ++ []) vs := Glsl.lexes_iff hleads hskip
  have hone {us : List Token} : Lexes ("1.0".toList ++ []) us ↔
      ∃ vs, us = .number "1.0" :: vs ∧ Lexes [] vs := lexes_number hnumber fun c hc => by cases hc
  refine hword.trans ?_
  simp only [hdecrement, hone, Glsl.lexes_nil_iff, exists_eq_right]

end ShaderGraph
