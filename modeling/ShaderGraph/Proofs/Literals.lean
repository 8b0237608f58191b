import ShaderGraph.Proofs.Magnitudes
import ShaderGraph.Proofs.Rounding
import ShaderGraph.Proofs.Tokens

/-!
# Literals are read back

The literal of a finite value is written by putting a point into its shortest text. It denotes the same
decimal, and that decimal is read as the value and as no other. No literal has a comma, so literals
divided by commas can be told apart.
-/

namespace ShaderGraph.Glsl

open Decimal List

variable {point : List Char} {s : String} {negative : Bool} {d : Scaled} {n : Numeral} {c : Char} {v : Float32}

theorem forall_mem_of_all {α : Type} {p : α → Prop} [DecidablePred p] {l : List α} (h : l.all (p ·)) :
    ∀ x ∈ l, p x := by
  simpa using h

/-! ## Texts of numbers -/

/-- The number that an exponent gives. -/
def exponentOf : List Char → ℤ
  | 'e' :: '-' :: ds => -(Nat.ofDigitChars 10 ds 0 : ℕ)
  | 'e' :: '+' :: ds => Nat.ofDigitChars 10 ds 0
  | _ => 0

/-- The digits after a point, and what follows them. -/
def fractionOf : List Char → List Char × List Char
  | '.' :: cs => (cs.takeWhile Char.isDigit, cs.dropWhile Char.isDigit)
  | cs => ([], cs)

/-- The size of a decimal without a sign. -/
def sizeOfText (cs : List Char) : ℚ :=
  let f := fractionOf (cs.dropWhile Char.isDigit)
  Nat.ofDigitChars 10 (cs.takeWhile Char.isDigit ++ f.1) 0 * 10 ^ (exponentOf f.2 - f.1.length)

/-- The sign and the size of a decimal. -/
def decimalOf (s : String) : Bool × ℚ :=
  let negative := s.toList.head? == some '-'
  (negative, sizeOfText (if negative then s.toList.tail else s.toList))

/-- A sign, digits, a point, digits and an exponent. -/
def IsFloat (s : String) : Prop :=
  ∃ sign ∈ [[], ['-']], ∃ whole fraction exponent : List Char,
    s.toList = sign ++ whole ++ '.' :: fraction ++ exponent ∧
    whole ≠ [] ∧ (∀ c ∈ whole, c.isDigit) ∧ fraction ≠ [] ∧ (∀ c ∈ fraction, c.isDigit) ∧
    (exponent = [] ∨ ∃ mark ∈ ['+', '-'], ∃ ds, exponent = 'e' :: mark :: ds ∧ ds ≠ [] ∧ ∀ c ∈ ds, c.isDigit)

section
variable {whole fraction exponent : List Char} {e : Option ℤ}

theorem exponentOf_exponentText (e : Option ℤ) : exponentOf (Numeral.exponentText e).toList = e.getD 0 := by
  cases e with
  | none => rfl
  | some e =>
    obtain ⟨ds, htext, -, -, hvalue⟩ := exponentText_some e
    rw [htext]
    split
    · simp only [exponentOf, hvalue, Option.getD_some]
      omega
    · simp only [exponentOf, hvalue, Option.getD_some]
      omega

theorem head_exponentText (e : Option ℤ) : ∀ c, (Numeral.exponentText e).toList.head? = some c → c = 'e' := by
  intro c hc
  cases e with
  | none => cases hc
  | some e =>
    obtain ⟨ds, htext, -⟩ := exponentText_some e
    rw [htext] at hc
    exact (Option.some.inj hc).symm

theorem sizeOfText_eq (hwhole : ∀ c ∈ whole, c.isDigit) (hfraction : ∀ c ∈ fraction, c.isDigit)
    (hpoint : point = '.' :: fraction ∨ point = [] ∧ fraction = []) :
    sizeOfText (whole ++ point ++ (Numeral.exponentText e).toList) =
      Nat.ofDigitChars 10 (whole ++ fraction) 0 * 10 ^ (e.getD 0 - fraction.length) := by
  have hexponent := head_exponentText e
  have hvalue := exponentOf_exponentText e
  generalize (Numeral.exponentText e).toList = exponent at hexponent hvalue
  have hstop (cs : List Char) (hcs : ∀ c, cs.head? = some c → c = 'e' ∨ c = '.') :
      cs.takeWhile Char.isDigit = [] ∧ cs.dropWhile Char.isDigit = cs := by
    cases cs with
    | nil => exact ⟨rfl, rfl⟩
    | cons c cs => rcases hcs c rfl with rfl | rfl <;> exact ⟨rfl, rfl⟩
  have hfractionOf : fractionOf (point ++ exponent) = (fraction, exponent) := by
    obtain ⟨htake, hdrop⟩ := hstop exponent fun c hc => .inl (hexponent c hc)
    rcases hpoint with rfl | ⟨rfl, rfl⟩
    · simp only [cons_append, fractionOf]
      rw [takeWhile_append_of_pos hfraction, dropWhile_append_of_pos hfraction, htake, hdrop, append_nil]
    · cases exponent with
      | nil => rfl
      | cons c cs =>
        obtain rfl := hexponent c rfl
        rfl
  obtain ⟨htake, hdrop⟩ := hstop (point ++ exponent) fun c hc => by
    rcases hpoint with rfl | ⟨rfl, rfl⟩
    · exact .inr (Option.some.inj hc).symm
    · exact .inl (hexponent c hc)
  unfold sizeOfText
  rw [append_assoc, takeWhile_append_of_pos hwhole, dropWhile_append_of_pos hwhole, htake, hdrop,
    hfractionOf, append_nil]
  dsimp only
  rw [hvalue]

theorem decimalOf_eq (n : Numeral)
    (hs : s.toList =
      (Numeral.signText n.negative).toList ++ (n.whole ++ point ++ (Numeral.exponentText n.exponent).toList))
    (hne : n.whole ≠ []) (hwhole : ∀ c ∈ n.whole, c.isDigit) (hfraction : ∀ c ∈ fraction, c.isDigit)
    (hpoint : point = '.' :: fraction ∨ point = [] ∧ fraction = []) : decimalOf s = (n.negative,
      (Nat.ofDigitChars 10 (n.whole ++ fraction) 0 : ℚ) * 10 ^ (n.exponent.getD 0 - fraction.length)) := by
  rw [decimalOf, hs, ← sizeOfText_eq hwhole hfraction hpoint]
  cases n.negative with
  | true => rfl
  | false =>
    obtain ⟨c, cs, hcs⟩ := exists_cons_of_ne_nil hne
    have hhead : (c == '-') = false := beq_eq_false_iff_ne.mpr fun heq => by
      rw [hcs, heq] at hwhole
      exact absurd (hwhole '-' mem_cons_self) (by decide)
    simp [Numeral.signText, hcs, hhead]

theorem size_ofScaled (hn : Numeral.ofScaled negative d = n) :
    (Nat.ofDigitChars 10 (n.whole ++ n.fraction) 0 : ℚ) * 10 ^ (n.exponent.getD 0 - n.fraction.length) = d.value := by
  have hvalue {ds : List Char} {e : ℤ} (hds : Nat.ofDigitChars 10 ds 0 = d.digits) (he : e = d.exponent) :
      (Nat.ofDigitChars 10 ds 0 : ℚ) * 10 ^ e = d.value := by
    rw [hds, he]
    rfl
  rw [← hn]
  unfold Numeral.ofScaled
  dsimp only
  split
  · next hzero => simp [hzero, Scaled.value, Nat.ofDigitChars_cons]
  · split
    · split
      · refine hvalue (by simp [Nat.ofDigitChars_append, Nat.ofDigitChars_cons]) ?_
        simp
        omega
      · next hpoint =>
        obtain ⟨k, hk⟩ := Int.eq_ofNat_of_zero_le (not_le.mp hpoint).le
        rw [hk, Int.toNat_natCast]
        rcases le_total k (Nat.toDigits 10 d.digits).length with hle | hle
        · refine hvalue (by simp [Nat.sub_eq_zero_of_le hle]) ?_
          simp
          omega
        · -- zeros stand for the exponent
          have he : d.exponent = ((k - (Nat.toDigits 10 d.digits).length : ℕ) : ℤ) := by omega
          simp [take_of_length_le hle, drop_eq_nil_of_le hle, Nat.ofDigitChars_append, Scaled.value, he,
            mul_comm]
    · refine hvalue (by rw [take_append_drop, Nat.ofDigitChars_ten_toDigits]) ?_
      have hpos := length_pos_of_ne_nil (Nat.toDigits_ne_nil (b := 10) (n := d.digits))
      rw [Option.getD_some, length_drop]
      omega

/-- Both ways to write a numeral denote its value. -/
theorem decimalOf_ofScaled (hn : Numeral.ofScaled negative d = n) :
    decimalOf n.plain = (negative, d.value) ∧ decimalOf n.pointed = (negative, d.value) := by
  obtain ⟨hne, hwhole⟩ := hn ▸ whole_isDigit negative d
  have hfraction := hn ▸ fraction_isDigit negative d
  have hnegative : n.negative = negative := hn ▸ negative_ofScaled negative d
  rw [← size_ofScaled hn, ← hnegative]
  by_cases hempty : n.fraction = []
  · have hzero : (Nat.ofDigitChars 10 (n.whole ++ ['0']) 0 : ℚ) = Nat.ofDigitChars 10 n.whole 0 * 10 := by
      simp [Nat.ofDigitChars_append, Nat.ofDigitChars_cons, mul_comm]
    constructor
    · exact decimalOf_eq n (by simp [Numeral.plain, hempty]) hne hwhole hfraction (.inr ⟨rfl, hempty⟩)
    · have hdigit : ∀ c ∈ ['0'], c.isDigit := forall_mem_singleton.mpr rfl
      rw [decimalOf_eq n (by simp [Numeral.pointed, hempty]) hne hwhole hdigit (.inl rfl), hzero,
        hempty, append_nil, mul_assoc, ← zpow_one_add₀ (by norm_num)]
      simp
  · have hplain : n.plain = n.pointed := by simp [Numeral.plain, Numeral.pointed, hempty, String.append_assoc]
    have hpointed := decimalOf_eq n (s := n.pointed) (by simp [Numeral.pointed, hempty]) hne hwhole hfraction (.inl rfl)
    exact ⟨hplain ▸ hpointed, hpointed⟩

theorem isFloat_pointed (hn : Numeral.ofScaled negative d = n) : IsFloat n.pointed := by
  obtain ⟨hne, hwhole⟩ := hn ▸ whole_isDigit negative d
  have hfraction := hn ▸ fraction_isDigit negative d
  refine ⟨(Numeral.signText n.negative).toList, ?_, n.whole, if n.fraction.isEmpty then ['0'] else n.fraction,
    (Numeral.exponentText n.exponent).toList, by simp [Numeral.pointed], hne, hwhole, ?_, ?_, ?_⟩
  · cases n.negative <;> decide
  · split
    · decide
    · next h => exact fun heq => h (List.isEmpty_iff.mpr heq)
  · split
    · exact forall_mem_singleton.mpr rfl
    · exact hfraction
  · cases n.exponent with
    | none => exact .inl rfl
    | some e =>
      obtain ⟨ds, htext, hds, hdigits, -⟩ := exponentText_some e
      exact .inr ⟨_, by split <;> decide, ds, htext, hds, hdigits⟩

end

/-! ## Putting in the point -/

section
variable {b head exponent : List UInt8}

/-- The point comes after the digits, unless there is one. -/
theorem withPoint_eq (hhead : ∀ x ∈ head, x ∉ bytes "eEnN")
    (hexponent : ∀ x, exponent.head? = some x → x = 'e'.toUInt8) :
    withPoint b.length (b ++ (head ++ exponent)) =
      b ++ (head ++ (if '.'.toUInt8 ∈ head then [] else bytes ".0") ++ exponent) := by
  have hmarks : bytes ".eEnN" = '.'.toUInt8 :: bytes "eEnN" := by decide
  have hsub (x : UInt8) (hx : x ∈ bytes "eE") : x ∈ bytes "eEnN" := by
    have hall : ∀ x ∈ bytes "eE", x ∈ bytes "eEnN" := forall_mem_of_all (by decide)
    exact hall x hx
  have hnone : head.findIdx? (bytes "eE").contains = none := by
    rw [findIdx?_eq_none_iff]
    intro x hx
    rw [contains_eq_mem, decide_eq_false_iff_not]
    exact fun h => hhead x hx (hsub x h)
  unfold withPoint
  rw [drop_left]
  cases exponent with
  | nil =>
    have hany : head.any (bytes ".eEnN").contains = decide ('.'.toUInt8 ∈ head) := by
      rw [hmarks, Bool.eq_iff_iff, any_eq_true, decide_eq_true_iff]
      simp only [contains_eq_mem, decide_eq_true_iff, mem_cons]
      constructor
      · rintro ⟨x, hx, rfl | hmem⟩
        · exact hx
        · exact absurd hmem (hhead x hx)
      · exact fun h => ⟨_, h, .inl rfl⟩
    by_cases hpoint : '.'.toUInt8 ∈ head <;> simp [hany, hnone, hpoint]
  | cons x cs =>
    obtain rfl := hexponent x rfl
    have hany : (head ++ 'e'.toUInt8 :: cs).any (bytes ".eEnN").contains = true := by
      rw [any_append, any_cons, (by decide : (bytes ".eEnN").contains 'e'.toUInt8 = true)]
      simp
    have hfind : (head ++ 'e'.toUInt8 :: cs).findIdx? (bytes "eE").contains = some head.length := by
      rw [findIdx?_append, hnone, findIdx?_cons, (by decide : (bytes "eE").contains 'e'.toUInt8 = true)]
      simp
    have htake : (b ++ (head ++ 'e'.toUInt8 :: cs)).take (b.length + head.length) = b ++ head := by
      rw [← append_assoc, ← length_append, take_left]
    have hdrop : (b ++ (head ++ 'e'.toUInt8 :: cs)).drop (b.length + head.length) = 'e'.toUInt8 :: cs := by
      rw [← append_assoc, ← length_append, drop_left]
    by_cases hpoint : '.'.toUInt8 ∈ head <;> simp [hany, hfind, htake, hdrop, hpoint]

end

theorem mem_digits (h : c.isDigit) : c ∈ "0123456789".toList := by
  have hc : 48 ≤ c.toNat ∧ c.toNat ≤ 57 := by
    simpa [Char.isDigit, UInt32.le_iff_toNat_le] using h
  rw [← Char.ofNat_toNat c]
  obtain ⟨hlo, hhi⟩ := hc
  interval_cases c.toNat <;> decide

/-- The characters of float literals. -/
def floatMarks : List Char := "0123456789+-.e".toList

theorem digit_mem_floatMarks (h : c.isDigit) : c ∈ floatMarks := by
  have hall : ∀ c ∈ "0123456789".toList, c ∈ floatMarks := forall_mem_of_all (by decide)
  exact hall c (mem_digits h)

theorem IsFloat.mem_floatMarks (h : IsFloat s) : ∀ c ∈ s.toList, c ∈ floatMarks := by
  obtain ⟨sign, hsign, whole, fraction, exponent, hs, -, hwhole, -, hfraction, hexponent⟩ := h
  intro c hc
  simp only [hs, mem_append, mem_cons] at hc
  rcases hc with ((hc | hc) | rfl | hc) | hc
  · rcases mem_pair.mp hsign with rfl | rfl
    · cases hc
    · rw [mem_singleton.mp hc]
      decide
  · exact digit_mem_floatMarks (hwhole c hc)
  · decide
  · exact digit_mem_floatMarks (hfraction c hc)
  · rcases hexponent with rfl | ⟨mark, hmark, ds, rfl, -, hds⟩
    · cases hc
    · have hall : ∀ mark ∈ ['+', '-'], mark ∈ floatMarks := forall_mem_of_all (by decide)
      rcases mem_cons.mp hc with rfl | hc
      · decide
      · rcases mem_cons.mp hc with rfl | hc
        · exact hall c hmark
        · exact digit_mem_floatMarks (hds c hc)

theorem bytes_inj {t : String} (hs : IsFloat s) (ht : IsFloat t) (h : bytes s = bytes t) : s = t := by
  have hall : ∀ c ∈ floatMarks, Char.ofNat c.toUInt8.toNat = c := forall_mem_of_all (by decide)
  have hread {s : String} (hs : IsFloat s) : (bytes s).map (fun x => Char.ofNat x.toNat) = s.toList := by
    rw [bytes, map_map]
    exact (map_congr_left fun c hc => hall c (hs.mem_floatMarks c hc)).trans (map_id _)
  rw [← String.toList_inj, ← hread hs, ← hread ht, h]

theorem comma_notMem (hs : IsFloat s) : ','.toUInt8 ∉ bytes s := by
  have hall : ∀ c ∈ floatMarks, c.toUInt8 ≠ ','.toUInt8 := forall_mem_of_all (by decide)
  intro hmem
  obtain ⟨c, hc, heq⟩ := mem_map.mp hmem
  exact hall c (hs.mem_floatMarks c hc) heq

/-! ## Literals of values -/

theorem readSingle_of_finite (h : Number.finite v) : ∃ n b, readSingle v = .finite n b := by
  have hexponent : v.toBits.toNat / 2 ^ 23 % 2 ^ 8 ≠ 2 ^ 8 - 1 := by
    intro heq
    refine (Magnitude.isFinite_unpack v.toModel.toBits.toBitVec).mp h (BitVec.eq_of_toNat_eq ?_)
    have hbits : v.toModel.toBits.toNat / 2 ^ 23 % 2 ^ 8 = 2 ^ 8 - 1 := heq
    simpa [Float.Model.UnpackedFloat.unpackExponent, Nat.shiftRight_eq_div_pow] using hbits
  simp only [readSingle, Reading.ofBits, Nat.pow_eq]
  rw [if_neg hexponent]
  split <;> exact ⟨_, _, rfl⟩

section
variable {x : Binary}

theorem appendLiteral_eq (h : readSingle v = .finite negative x) (b : List UInt8) :
    appendLiteral b v = b ++ bytes (literal v) := by
  generalize hn : Numeral.ofScaled negative x.shortest = n
  have hplain : singleText v = n.plain := by rw [singleText, h, Reading.text, hn]
  have hpointed : literal v = n.pointed := by rw [literal, h, Reading.text, hn]
  obtain ⟨-, hwhole⟩ := hn ▸ whole_isDigit negative x.shortest
  have hfraction := hn ▸ fraction_isDigit negative x.shortest
  have hsign : ∀ c ∈ (Numeral.signText n.negative).toList, c = '-' := by
    cases n.negative <;> exact forall_mem_of_all (by decide)
  have hexponent : ∀ y, (bytes (Numeral.exponentText n.exponent)).head? = some y → y = 'e'.toUInt8 := by
    intro y hy
    rw [bytes, head?_map, Option.map_eq_some_iff] at hy
    obtain ⟨c, hc, rfl⟩ := hy
    rw [head_exponentText _ c hc]
  have hdigits : ∀ c ∈ "0123456789".toList, c.toUInt8 ∉ bytes ".eEnN" := forall_mem_of_all (by decide)
  have hhead : ∀ c ∈ (Numeral.signText n.negative).toList ++ n.whole, c.toUInt8 ∉ bytes ".eEnN" := by
    intro c hc
    rcases mem_append.mp hc with hc | hc
    · rw [hsign c hc]
      decide
    · exact hdigits c (mem_digits (hwhole c hc))
  have hsub : ∀ y ∈ bytes "eEnN", y ∈ bytes ".eEnN" := forall_mem_of_all (by decide)
  rw [appendLiteral, hplain, hpointed]
  generalize hfront : (Numeral.signText n.negative).toList ++ n.whole = front at hhead
  by_cases hempty : n.fraction = []
  · have htext : bytes n.plain = front.map Char.toUInt8 ++ bytes (Numeral.exponentText n.exponent) := by
      simp [Numeral.plain, bytes, hempty, ← hfront]
    have hpoint : '.'.toUInt8 ∉ front.map Char.toUInt8 := by
      intro hmem
      obtain ⟨c, hc, heq⟩ := mem_map.mp hmem
      exact hhead c hc (heq ▸ by decide)
    rw [htext, withPoint_eq _ hexponent, if_neg hpoint]
    · simp [Numeral.pointed, bytes, hempty, ← hfront]
    · intro y hy hmem
      obtain ⟨c, hc, rfl⟩ := mem_map.mp hy
      exact hhead c hc (hsub _ hmem)
  · have htext : bytes n.plain = (front ++ '.' :: n.fraction).map Char.toUInt8 ++
        bytes (Numeral.exponentText n.exponent) := by simp [Numeral.plain, bytes, hempty, ← hfront]
    have hpoint : '.'.toUInt8 ∈ (front ++ '.' :: n.fraction).map Char.toUInt8 := by simp
    rw [htext, withPoint_eq _ hexponent, if_pos hpoint]
    · simp [Numeral.pointed, bytes, hempty, ← hfront]
    · intro y hy hmem
      obtain ⟨c, hc, rfl⟩ := mem_map.mp hy
      rcases mem_append.mp hc with hc | hc
      · exact hhead c hc (hsub _ hmem)
      · rcases mem_cons.mp hc with rfl | hc
        · exact absurd hmem (by decide)
        · exact hdigits c (mem_digits (hfraction c hc)) (hsub _ hmem)

theorem literal_spec (h : readSingle v = .finite negative x) : IsFloat (literal v) ∧
    decimalOf (literal v) = (negative, x.shortest.value) ∧
    decimalOf (singleText v) = (negative, x.shortest.value) := by
  rw [literal, singleText, h]
  obtain ⟨hplain, hpointed⟩ := decimalOf_ofScaled (rfl : Numeral.ofScaled negative x.shortest = _)
  exact ⟨isFloat_pointed rfl, hpointed, hplain⟩

theorem appendLiteral_append (b : List UInt8) (v : Float32) : appendLiteral b v = b ++ bytes (literal v) := by
  -- A word for a value that is not finite has no exponent and gets no point.
  have hword (s : String) (hplain : singleText v = s) (hpointed : literal v = s)
      (hmark : (bytes s).any (bytes ".eEnN").contains) (hnone : (bytes s).findIdx? (bytes "eE").contains = none) :
      appendLiteral b v = b ++ bytes (literal v) := by
    simp [appendLiteral, withPoint, hplain, hpointed, hmark, hnone]
  unfold singleText literal at hword
  cases h : readSingle v with
  | finite negative x => exact appendLiteral_eq h b
  | nan => exact hword "NaN" (by rw [h]; rfl) (by rw [h]; rfl) (by decide) (by decide)
  | infinity negative =>
    cases negative with
    | false => exact hword "+Inf" (by rw [h]; rfl) (by rw [h]; rfl) (by decide) (by decide)
    | true => exact hword "-Inf" (by rw [h]; rfl) (by rw [h]; rfl) (by decide) (by decide)

theorem comma_notMem_literal (v : Float32) : ','.toUInt8 ∉ bytes (literal v) := by
  cases h : readSingle v with
  | finite negative x => exact comma_notMem (literal_spec h).1
  | nan =>
    rw [literal, h]
    decide
  | infinity negative =>
    rw [literal, h]
    cases negative <;> decide

theorem appendLiterals_eq (b : List UInt8) (vs : List Float32) :
    appendLiterals b vs = b ++ [','.toUInt8].intercalate (vs.map (bytes ∘ literal)) := by
  induction vs generalizing b with
  | nil => simp [appendLiterals]
  | cons v vs ih =>
    cases vs with
    | nil => simp [appendLiterals, appendLiteral_append]
    | cons w vs =>
      have hstep : appendLiterals b (v :: w :: vs) = appendLiterals (appendLiteral b v ++ bytes ",") (w :: vs) := rfl
      rw [hstep, ih, appendLiteral_append]
      simp [intercalate_cons_cons, bytes]

theorem splitOn_literals {vs : List Float32} (hv : vs ≠ []) :
    ([','.toUInt8].intercalate (vs.map (bytes ∘ literal))).splitOn ','.toUInt8 = vs.map (bytes ∘ literal) := by
  refine splitOn_intercalate _ ?_ (by simpa using hv)
  intro l hl
  obtain ⟨v, -, rfl⟩ := mem_map.mp hl
  exact comma_notMem_literal v

end

/-- The literal of a finite value is a float that denotes what its shortest text denotes and is read as the value
only, so that different values have different literals, and literals divided by commas can be told apart. -/
theorem literal_reads_back (hv : Number.finite v) (b : List UInt8) :
    appendLiteral b v = b ++ bytes (literal v) ∧ IsFloat (literal v) ∧
    decimalOf (literal v) = decimalOf (singleText v) ∧
    (∀ w, Reads (decimalOf (literal v)).1 (decimalOf (literal v)).2 w ↔ w = v) ∧
    (∀ w, Number.finite w → appendLiteral b w = appendLiteral b v → w = v) ∧
    ∀ vs, (∀ w ∈ vs, Number.finite w) → ∃ out, appendLiterals b (v :: vs) = b ++ out ∧
      out.splitOn ','.toUInt8 = (v :: vs).map (bytes ∘ literal) := by
  obtain ⟨negative, x, h⟩ := readSingle_of_finite hv
  obtain ⟨hfloat, hliteral, hsingle⟩ := literal_spec h
  have hreads (w : Float32) : Reads (decimalOf (literal v)).1 (decimalOf (literal v)).2 w ↔ w = v := by
    rw [hliteral]
    exact reads_shortest h
  refine ⟨appendLiteral_append b v, hfloat, hliteral.trans hsingle.symm, hreads, fun w hw heq => ?_, fun vs _ =>
    ⟨_, appendLiterals_eq .., splitOn_literals (cons_ne_nil _ _)⟩⟩
  obtain ⟨negative', x', h'⟩ := readSingle_of_finite hw
  obtain ⟨hfloat', hliteral', -⟩ := literal_spec h'
  rw [appendLiteral_append, appendLiteral_append, append_cancel_left_eq] at heq
  have hsame := bytes_inj hfloat' hfloat heq
  rw [← hreads w, ← hsame, hliteral']
  exact (reads_shortest h').mpr rfl

/-- The smallest positive value, after a text with a point and an exponent. -/
theorem smallest_reads_back : Number.finite (.ofBits 1) ∧
    appendLiteral (bytes "1.5e+2,") (.ofBits 1) = bytes "1.5e+2," ++ bytes "1.0e-45" ∧
    (∀ w, Reads (decimalOf "1.0e-45").1 (decimalOf "1.0e-45").2 w ↔ w = .ofBits 1) := by
  have hfinite : Number.finite (.ofBits 1) := by decide +kernel
  have htext : literal (.ofBits 1) = "1.0e-45" := by decide +kernel
  obtain ⟨happend, -, -, hreads, -⟩ := literal_reads_back hfinite (bytes "1.5e+2,")
  rw [htext] at happend hreads
  exact ⟨hfinite, happend, hreads⟩

end ShaderGraph.Glsl
