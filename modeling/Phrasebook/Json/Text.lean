import Phrasebook.Json.Reader

/-!
# Json — Text

String literals.  `text` reads the characters that a literal stands for; `skipText` only finds the
end of the literal and lets any `\u` escape pass.  Both start behind the opening quote.
-/

namespace Phrasebook.Json

/-- The value of a hexadecimal digit. -/
def hexValue? (c : Char) : Option Nat :=
  if c.isDigit then some (c.toNat - 48)
  else if 'a' ≤ c ∧ c ≤ 'f' then some (c.toNat - 87)
  else if 'A' ≤ c ∧ c ≤ 'F' then some (c.toNat - 55)
  else none

/-- The number that four hexadecimal digits write. -/
def hexWord? (a b c d : Char) : Option Nat :=
  match hexValue? a, hexValue? b, hexValue? c, hexValue? d with
  | some a, some b, some c, some d => some (((a * 16 + b) * 16 + c) * 16 + d)
  | _, _, _, _ => none

/-- The fault of a text that does not start with four hexadecimal digits. -/
def hexFault (s : List Char) : Fault :=
  if byteLength s < 4 then .atNext .endInText [] else .within .invalidEscape 4 s

theorem length_lt_of_four (a b c d : Char) (s : List Char) :
    s.length < (a :: b :: c :: d :: s).length := by
  simp only [List.length_cons]
  omega

/-- Reads the four digits of a `\u` escape. -/
def hexWord : Reader Nat := fun s =>
  match s with
  | a :: b :: c :: d :: rest =>
      match hexWord? a b c d with
      | some n => .ok ⟨n, rest, length_lt_of_four a b c d rest⟩
      | none => .error (hexFault (a :: b :: c :: d :: rest))
  | s => .error (hexFault s)

/-- The first unit of a pair. -/
def isLeadingUnit (n : Nat) : Bool :=
  0xD800 ≤ n && n ≤ 0xDBFF

/-- The second unit of a pair. -/
def isTrailingUnit (n : Nat) : Bool :=
  0xDC00 ≤ n && n ≤ 0xDFFF

/-- The character that a pair of units stands for. -/
def ofPair (leading trailing : Nat) : Char :=
  Char.ofNat ((leading - 0xD800) * 0x400 + (trailing - 0xDC00) + 0x10000)

/-- Reads the `\u` escape that must follow a leading unit. -/
def trailingUnit : Reader Nat := fun s =>
  match s with
  | [] => .error (.atNext .endInText [])
  | ['\\'] => .error (.atNext .endInText [])
  | '\\' :: 'u' :: rest =>
      match hexWord rest with
      | .error e => .error e
      | .ok n =>
          if isTrailingUnit n.value then
            .ok ((n.widen (length_le_cons 'u' rest)).widen (length_le_cons '\\' ('u' :: rest)))
          else .error (.before .loneSurrogate n.rest)
  | '\\' :: rest => .error (.atNext .incompletePair rest)
  | s => .error (.atNext .incompletePair s)

/-- Reads a `\u` escape, or two that form a pair, behind the `u`. -/
def unicodeEscape : Reader Char := fun s =>
  match hexWord s with
  | .error e => .error e
  | .ok n =>
      if isTrailingUnit n.value then .error (.before .loneSurrogate n.rest)
      else if isLeadingUnit n.value then
        match trailingUnit n.rest with
        | .error e => .error e
        | .ok m => .ok (n.upTo m.tail (ofPair n.value m.value))
      else .ok (n.map Char.ofNat)

/-- The character that a letter behind a backslash stands for. -/
def simpleEscape? (c : Char) : Option Char :=
  if c = '"' then some '"'
  else if c = '\\' then some '\\'
  else if c = '/' then some '/'
  else if c = 'b' then some '\x08'
  else if c = 'f' then some '\x0c'
  else if c = 'n' then some '\n'
  else if c = 'r' then some '\r'
  else if c = 't' then some '\t'
  else none

/-- Reads an escape behind its backslash. -/
def escapeSequence : Reader Char := fun s =>
  match s with
  | [] => .error (.atNext .endInText [])
  | c :: rest =>
      match simpleEscape? c with
      | some d => .ok ⟨d, rest, length_lt_cons c rest⟩
      | none =>
          if c = 'u' then (unicodeEscape rest).map (·.widen (length_le_cons c rest))
          else .error (.atNext .invalidEscape (c :: rest))

/-- Reads the characters of a literal and its closing quote. -/
def text (s : List Char) : Except Fault (Reply (List Char) s) :=
  match s with
  | [] => .error (.atNext .endInText [])
  | c :: rest =>
      if c = '"' then .ok ⟨[], rest, length_lt_cons c rest⟩
      else if c = '\\' then
        match escapeSequence rest with
        | .error e => .error e
        | .ok x =>
            match text x.rest with
            | .error e => .error e
            | .ok xs => .ok ((xs.map (x.value :: ·)).widen (x.length_rest_le_cons c))
      else if c.toNat < 0x20 then .error (.atNext .controlCharacter (c :: rest))
      else
        match text rest with
        | .error e => .error e
        | .ok xs => .ok ((xs.map (c :: ·)).widen (length_le_cons c rest))
termination_by s.length
decreasing_by
  · exact x.length_rest_lt_cons c
  · exact length_lt_cons c rest

/-- Finds the end of an escape behind its backslash. -/
def skipEscape : Reader Unit := fun s =>
  match s with
  | [] => .error (.atNext .endInText [])
  | c :: rest =>
      match simpleEscape? c with
      | some _ => .ok ⟨(), rest, length_lt_cons c rest⟩
      | none =>
          if c = 'u' then
            (hexWord rest).map fun n => (n.map fun _ => ()).widen (length_le_cons c rest)
          else .error (.atNext .invalidEscape (c :: rest))

/-- Finds the end of a literal. -/
def skipText (s : List Char) : Except Fault (Reply Unit s) :=
  match s with
  | [] => .error (.atNext .endInText [])
  | c :: rest =>
      if c = '"' then .ok ⟨(), rest, length_lt_cons c rest⟩
      else if c = '\\' then
        match skipEscape rest with
        | .error e => .error e
        | .ok x => (skipText x.rest).map (·.widen (x.length_rest_le_cons c))
      else if c.toNat < 0x20 then .error (.before .controlCharacter (c :: rest))
      else (skipText rest).map (·.widen (length_le_cons c rest))
termination_by s.length
decreasing_by
  · exact x.length_rest_lt_cons c
  · exact length_lt_cons c rest

end Phrasebook.Json
