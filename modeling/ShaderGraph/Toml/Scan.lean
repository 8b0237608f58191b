import ShaderGraph.Toml.Fault

/-!
# Scanning TOML

Functions that read one lexical element from the front of a document and return the rest, or
say what is wrong. A document is read by bytes: a character stands for the byte of its code.
-/

namespace ShaderGraph.Toml

abbrev Scan (α : Type) := List Char → Except Fault (α × List Char)

def encode (s : String) : List Char := s.toUTF8.toList.map fun b => Char.ofNat b.toNat

def decode (bytes : List Char) : String :=
  (String.fromUTF8? ⟨(bytes.map fun c => c.toNat.toUInt8).toArray⟩).getD ""

def failAt {α : Type} (p : Problem) (left : Nat) : Except Fault α := .error ⟨p, some left⟩

def failForm {α : Type} (p : FormProblem) (rest : List Char) : Except Fault α :=
  failAt (.form p) rest.length

def failString {α : Type} (p : StringProblem) (rest : List Char) : Except Fault α :=
  failAt (.string p) rest.length

/-- Bytes that may stand in strings and comments: no control characters but tabs and line
ends. -/
def permitted (c : Char) : Bool :=
  (32 ≤ c.toNat && c.toNat ≠ 127) || c == '\t' || c == '\n' || c == '\r'

def blank (c : Char) : Bool := c == ' ' || c == '\t'

def skipBlank (cs : List Char) : List Char := cs.dropWhile blank

def expect (c : Char) : List Char → Except Fault (List Char)
  | [] => failForm (.expectedAtEnd c) []
  | d :: cs => if d = c then .ok cs else failForm (.expected c) (d :: cs)

/-! ## Lines -/

def comment : List Char → Except Fault (List Char)
  | [] => .ok []
  | '\n' :: cs => .ok ('\n' :: cs)
  | '\r' :: cs =>
    if cs.head? = some '\n' then .ok cs else failForm .commentCharacter ('\r' :: cs)
  | c :: cs => if permitted c then comment cs else failForm .commentCharacter (c :: cs)

def returnProblem (after : List Char) : FormProblem :=
  if after.isEmpty then .returnAtEnd else .loneReturn

def newline : List Char → Except Fault (List Char)
  | [] => .ok []
  | '\n' :: cs => .ok cs
  | '\r' :: '\n' :: cs => .ok cs
  | '\r' :: cs => failForm (returnProblem cs) ('\r' :: cs)
  | c :: cs => failForm (.newlineExpected c) (c :: cs)

/-- Skips blanks, line ends and comments; `inside` a comment to start with or not. -/
def skipLines (inside : Bool) : List Char → Except Fault (List Char)
  | [] => .ok []
  | '\n' :: cs => skipLines false cs
  | '\r' :: '\n' :: cs => skipLines false cs
  | '\r' :: cs => failForm (if inside then .commentCharacter else returnProblem cs) ('\r' :: cs)
  | c :: cs =>
    if inside then
      if permitted c then skipLines true cs else failForm .commentCharacter (c :: cs)
    else if blank c then skipLines false cs
    else if c == '#' then skipLines true cs
    else .ok (c :: cs)

/-! ## Literal strings -/

def literalString : Scan (List Char)
  | [] => failString (.unterminated .literal) []
  | '\'' :: cs => .ok ([], cs)
  | c :: cs =>
    if c == '\n' || c == '\r' then failString (.newline .literal) (c :: cs)
    else if !permitted c then failString .inLiteral (c :: cs)
    else do
      let (s, r) ← literalString cs
      pure (c :: s, r)

/-- The end of a string of several lines, if its quotes are here: up to two more of them belong
to the string. -/
def closing (k : StringKind) (cs : List Char) : Except Fault (Option (List Char × List Char)) :=
  let quotes := cs.takeWhile (· == k.quote)
  if quotes.length < 3 then .ok none
  else if 5 < quotes.length then failString (.tooManyQuotes k) (cs.drop 2)
  else .ok (some (quotes.drop 3, cs.drop quotes.length))

def failReturn {α : Type} (after : List Char) : Except Fault α :=
  failString .loneReturn (if after.isEmpty then [] else '\r' :: after)

def literalLines : Scan (List Char)
  | [] => failString (.unterminatedLines .literal) []
  | '\r' :: '\n' :: cs => do
    let (s, r) ← literalLines cs
    pure ('\r' :: '\n' :: s, r)
  | '\r' :: cs => failReturn cs
  | c :: cs => do
    match ← closing .literal (c :: cs) with
    | some e => pure e
    | none =>
      if !permitted c then failString .inLiteral (c :: cs)
      else
        let (s, r) ← literalLines cs
        pure (c :: s, r)

/-! ## Strings with escapes -/

structure Quoted where
  content : List Char
  escaped : Bool
  rest : List Char

def Quoted.add (q : Quoted) (cs : List Char) : Quoted := { q with content := cs ++ q.content }

def basicEnd : List Char → Except Fault Quoted
  | [] => failString (.unterminated .basic) []
  | '"' :: cs => .ok ⟨[], false, cs⟩
  | ['\\'] => failString .escapeAtEnd ['\\']
  | '\\' :: c :: cs => do pure { (← basicEnd cs).add ['\\', c] with escaped := true }
  | c :: cs =>
    if c == '\n' || c == '\r' then failString (.newline .basic) (c :: cs)
    else do pure ((← basicEnd cs).add [c])

def basicLinesEnd : List Char → Except Fault Quoted
  | [] => failString (.unterminatedLines .basic) []
  | ['\\'] => failString .escapeAtEnd []
  | '\\' :: c :: cs => do pure { (← basicLinesEnd cs).add ['\\', c] with escaped := true }
  | '\r' :: '\n' :: cs => do pure ((← basicLinesEnd cs).add ['\r', '\n'])
  | '\r' :: cs => failReturn cs
  | c :: cs => do
    match ← closing .basic (c :: cs) with
    | some (quotes, rest) => pure ⟨quotes, false, rest⟩
    | none => pure ((← basicLinesEnd cs).add [c])

def hexDigit? (c : Char) : Option Nat :=
  if c.isDigit then some (c.toNat - '0'.toNat)
  else if 'a' ≤ c && c ≤ 'f' then some (c.toNat - 'a'.toNat + 10)
  else if 'A' ≤ c && c ≤ 'F' then some (c.toNat - 'A'.toNat + 10)
  else none

/-- The number that hexadecimal digits continue; `left` bytes of the document are left. -/
def hexNumber (left n : Nat) : List Char → Except Fault Nat
  | [] => .ok n
  | c :: cs =>
    match hexDigit? c with
    | some d => hexNumber (left - 1) (16 * n + d) cs
    | none => failAt (.string .notHex) left

def codePoint (count left : Nat) (cs : List Char) : Except Fault Char := do
  if cs.length < count then failAt (.string (.shortCodePoint count cs.length)) left
  let n ← hexNumber left 0 (cs.take count)
  if n ≤ 0x10ffff ∧ ¬ (0xd800 ≤ n ∧ n < 0xe000) then pure (Char.ofNat n)
  else failAt (.string .noCodePoint) left

def simpleEscape? : Char → Option Char
  | '"' => some '"'
  | '\\' => some '\\'
  | 'b' => some '\x08'
  | 'f' => some '\x0c'
  | 'n' => some '\n'
  | 'r' => some '\r'
  | 't' => some '\t'
  | 'e' => some '\x1b'
  | _ => none

/-- The character of an escape, from after its backslash on, and how many more characters it
takes. After the string `after` bytes are left, of which a code may take in `quotes`. -/
def escape (quotes : List Char) (after : Nat) : List Char → Except Fault (Char × Nat)
  | [] => failAt (.string .escapeAtEnd) after
  | c :: cs => do
    let left := cs.length + after
    match simpleEscape? c with
    | some e => pure (e, 0)
    | none =>
      if c == 'u' then pure (← codePoint 4 left (cs ++ quotes), 4)
      else if c == 'U' then pure (← codePoint 8 left (cs ++ quotes), 8)
      else failAt (.string (.unknownEscape c)) (left + 1)

def lineEnds (cs : List Char) : Bool :=
  match skipBlank cs with
  | '\n' :: _ => true
  | '\r' :: '\n' :: _ => true
  | _ => false

inductive EscapeMode where
  | text
  | skip (n : Nat)
  /-- After a backslash at the end of a line: blanks and line ends are dropped. -/
  | trim
deriving DecidableEq

/-- Replaces escapes. A string of several `lines` may have them at line ends. -/
def unescaped (lines : Bool) (quotes : List Char) (after : Nat) (mode : EscapeMode) :
    List Char → Except Fault (List Char)
  | [] => .ok []
  | c :: cs =>
    match mode with
    | .skip (n + 1) => unescaped lines quotes after (if n = 0 then .text else .skip n) cs
    | mode =>
      if mode = .trim && (blank c || c == '\n' || c == '\r') then
        unescaped lines quotes after .trim cs
      else if c == '\\' then
        if lines && lineEnds cs then unescaped lines quotes after .trim cs
        else do
          let (e, n) ← escape quotes after cs
          pure (encode (String.singleton e) ++
            (← unescaped lines quotes after (.skip (n + 1)) cs))
      else if permitted c then do pure (c :: (← unescaped lines quotes after .text cs))
      else failAt (.string (.inEscaped c)) (cs.length + 1 + after)

def plain (after : Nat) : List Char → Except Fault Unit
  | [] => .ok ()
  | c :: cs =>
    if permitted c then plain after cs else failAt (.string .inPlain) (cs.length + 1 + after)

def Quoted.read (lines : Bool) (quotes : List Char) (q : Quoted) :
    Except Fault (List Char × List Char) := do
  let after := quotes.length + q.rest.length
  if q.escaped then
    pure (← unescaped lines (if lines then quotes else []) after .text q.content, q.rest)
  else
    plain after q.content
    pure (q.content, q.rest)

def dropLineEnd : List Char → List Char
  | '\n' :: cs => cs
  | '\r' :: '\n' :: cs => cs
  | cs => cs

def basicString : Scan (List Char) := fun cs => do (← basicEnd cs).read false ['"']

def basicLines : Scan (List Char) := fun cs => do
  let q ← basicLinesEnd cs
  { q with content := dropLineEnd q.content }.read true ['"', '"', '"']

def text (r : Except Fault (List Char × List Char)) : Except Fault (String × List Char) :=
  r.map fun (s, cs) => (decode s, cs)

def string : Scan String
  | '"' :: '"' :: '"' :: cs => text (basicLines cs)
  | '"' :: cs => text (basicString cs)
  | '\'' :: '\'' :: '\'' :: cs => text ((literalLines cs).map fun (s, r) => (dropLineEnd s, r))
  | '\'' :: cs => text (literalString cs)
  | cs => failForm .valueAtEnd cs

/-! ## Keys -/

def bare (c : Char) : Bool := c.isAlphanum || c == '-' || c == '_'

def simpleKey : Scan String
  | [] => failForm .keyAtEnd []
  | '"' :: cs => text (basicString cs)
  | '\'' :: cs => text (literalString cs)
  | c :: cs =>
    if bare c then
      let name := (c :: cs).takeWhile bare
      .ok (String.ofList name, (c :: cs).drop name.length)
    else failForm (.keyStart c) (c :: cs)

def keyParts : Nat → Scan (List String)
  | 0, cs => .ok ([], cs)
  | n + 1, cs =>
    match skipBlank cs with
    | '.' :: r => do
      let (k, r) ← simpleKey (skipBlank r)
      let (ks, r) ← keyParts n r
      pure (k :: ks, r)
    | r => .ok ([], r)

def key : Scan (List String) := fun cs => do
  let (k, r) ← simpleKey cs
  let (ks, r) ← keyParts (r.length + 1) r
  pure (k :: ks, r)

end ShaderGraph.Toml
