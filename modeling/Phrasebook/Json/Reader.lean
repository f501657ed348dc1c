import Phrasebook.Json.Fault

/-!
# Json — Reader

Readers take the rest of a document and give a value and a shorter rest, or a fault.  Here are the
parts that every reader is made of: blanks, keywords, the punctuation of lists and objects, and
the loops over their items and members, which end because each item shortens the rest.
-/

namespace Phrasebook.Json

/-- A value and what follows it, which is shorter than `s`. -/
@[ext] structure Reply (α : Type) (s : List Char) where
  value : α
  rest : List Char
  shorter : rest.length < s.length

/-- Reads a value at the start of the rest of a document. -/
abbrev Reader (α : Type) : Type :=
  (s : List Char) → Except Fault (Reply α s)

/-- The end of a text that is not longer than it. -/
abbrev Tail (s : List Char) : Type :=
  { rest : List Char // rest.length ≤ s.length }

namespace Tail

variable {s t : List Char}

/-- The whole text. -/
def all (s : List Char) : Tail s :=
  ⟨s, Nat.le_refl _⟩

/-- The same end, of a text that is not shorter. -/
def widen (h : t.length ≤ s.length) (r : Tail t) : Tail s :=
  ⟨r.1, Nat.le_trans r.2 h⟩

/-- The end of an end. -/
def upTo (r : Tail s) (u : Tail r.1) : Tail s :=
  ⟨u.1, Nat.le_trans u.2 r.2⟩

/-- A value before the end of a shorter text. -/
def reply {α : Type} (h : t.length < s.length) (value : α) (r : Tail t) : Reply α s :=
  ⟨value, r.1, Nat.lt_of_le_of_lt r.2 h⟩

end Tail

namespace Reply

variable {α β : Type} {s t : List Char}

/-- The same reply, for a text that is not shorter. -/
def widen (h : t.length ≤ s.length) (r : Reply α t) : Reply α s :=
  ⟨r.value, r.rest, Nat.lt_of_lt_of_le r.shorter h⟩

/-- The reply with another value. -/
def map (f : α → β) (r : Reply α s) : Reply β s :=
  ⟨f r.value, r.rest, r.shorter⟩

/-- What follows the value. -/
def tail (r : Reply α s) : Tail s :=
  ⟨r.rest, Nat.le_of_lt r.shorter⟩

/-- The reply with another value, which ends farther on. -/
def upTo (r : Reply α s) (u : Tail r.rest) (value : β) : Reply β s :=
  u.reply r.shorter value

theorem length_rest_lt (h : t.length ≤ s.length) (r : Reply α t) : r.rest.length < s.length :=
  Nat.lt_of_lt_of_le r.shorter h

theorem length_rest_le (h : t.length ≤ s.length) (r : Reply α t) : r.rest.length ≤ s.length :=
  Nat.le_of_lt (r.length_rest_lt h)

theorem length_rest_lt_cons (c : Char) (r : Reply α s) : r.rest.length < (c :: s).length :=
  Nat.lt_succ_of_lt r.shorter

theorem length_rest_le_cons (c : Char) (r : Reply α s) : r.rest.length ≤ (c :: s).length :=
  Nat.le_of_lt (r.length_rest_lt_cons c)

end Reply

theorem length_lt_cons (c : Char) (cs : List Char) : cs.length < (c :: cs).length :=
  Nat.lt_succ_self _

theorem length_le_cons (c : Char) (cs : List Char) : cs.length ≤ (c :: cs).length :=
  Nat.le_succ _

theorem length_le_of_lt {s t : List Char} (h : t.length < s.length) : t.length ≤ s.length :=
  Nat.le_of_lt h

/-- The four characters that may stand between the parts of a document. -/
def isBlank (c : Char) : Bool :=
  c == ' ' || c == '\t' || c == '\r' || c == '\n'

/-- The rest of a document from its first character that is not blank. -/
def skipBlank (s : List Char) : List Char :=
  s.dropWhile isBlank

theorem length_skipBlank_le (s : List Char) : (skipBlank s).length ≤ s.length :=
  (List.dropWhile_sublist isBlank).length_le

section

variable {s cs ds : List Char} {c d : Char}

theorem length_le_of_skipBlank (h : skipBlank s = c :: cs) : (c :: cs).length ≤ s.length :=
  h ▸ length_skipBlank_le s

theorem length_lt_of_skipBlank (h : skipBlank s = c :: cs) : cs.length < s.length :=
  length_le_of_skipBlank h

theorem length_tail_le_of_skipBlank (h : skipBlank s = c :: cs) : cs.length ≤ s.length :=
  Nat.le_of_lt (length_lt_of_skipBlank h)

/-- Blanks are skipped twice, before a character and behind it. -/
theorem length_le_of_skipBlank_skipBlank (h : skipBlank s = c :: cs)
    (h' : skipBlank cs = d :: ds) : (d :: ds).length ≤ s.length :=
  Nat.le_trans (length_le_of_skipBlank h') (length_tail_le_of_skipBlank h)

theorem length_tail_le_of_skipBlank_skipBlank (h : skipBlank s = c :: cs)
    (h' : skipBlank cs = d :: ds) : ds.length ≤ s.length :=
  Nat.le_trans (length_le_cons d ds) (length_le_of_skipBlank_skipBlank h h')

end

/-- Reads the letters of a keyword. -/
def keyword : List Char → (s : List Char) → Except Fault (Tail s)
  | [], s => .ok (.all s)
  | _ :: _, [] => .error (.atNext .endInValue [])
  | w :: ws, c :: cs =>
      if c = w then
        match keyword ws cs with
        | .error e => .error e
        | .ok t => .ok (t.widen (length_le_cons c cs))
      else .error (.atNext .brokenKeyword (c :: cs))

/-- Reads up to the next item of a list, or to the bracket that closes the list. -/
def nextItem (first : Bool) (s : List Char) : Except Fault (Option (Tail s)) :=
  match h : skipBlank s with
  | [] => .error (.atNext .endInList [])
  | ']' :: _ => .ok none
  | c :: cs =>
      if first then .ok (some ⟨c :: cs, length_le_of_skipBlank h⟩)
      else if c = ',' then
        match h' : skipBlank cs with
        | [] => .error (.atNext .endInValue [])
        | ']' :: rest => .error (.atNext .trailingComma (']' :: rest))
        | d :: ds => .ok (some ⟨d :: ds, length_le_of_skipBlank_skipBlank h h'⟩)
      else .error (.atNext .noItemEnd (c :: cs))

/-- Reads up to the text of the next key of an object, or to the brace that closes it. -/
def nextKey (first : Bool) (s : List Char) : Except Fault (Option (Tail s)) :=
  match h : skipBlank s with
  | [] => .error (.atNext .endInObject [])
  | '\x7d' :: _ => .ok none
  | c :: cs =>
      if first then
        if c = '"' then .ok (some ⟨cs, length_tail_le_of_skipBlank h⟩)
        else .error (.atNext .keyNotText (c :: cs))
      else if c = ',' then
        match h' : skipBlank cs with
        | [] => .error (.atNext .endInValue [])
        | '\x7d' :: rest => .error (.atNext .trailingComma ('\x7d' :: rest))
        | d :: ds =>
            if d = '"' then .ok (some ⟨ds, length_tail_le_of_skipBlank_skipBlank h h'⟩)
            else .error (.atNext .keyNotText (d :: ds))
      else .error (.atNext .noMemberEnd (c :: cs))

/-- Reads the colon between a key and its value. -/
def colon (s : List Char) : Except Fault (Tail s) :=
  match h : skipBlank s with
  | [] => .error (.atNext .endInObject [])
  | c :: cs =>
      if c = ':' then .ok ⟨cs, length_tail_le_of_skipBlank h⟩
      else .error (.atNext .noColon (c :: cs))

/-- Reads the bracket that closes a list after the last item that was wanted. -/
def closeList (s : List Char) : Except Fault (Reply Unit s) :=
  match h : skipBlank s with
  | [] => .error (.atNext .endInList [])
  | c :: cs =>
      if c = ']' then .ok ⟨(), cs, length_lt_of_skipBlank h⟩
      else if c = ',' then
        match skipBlank cs with
        | ']' :: rest => .error (.atNext .trailingComma (']' :: rest))
        | rest => .error (.atNext .trailingCharacters rest)
      else .error (.atNext .trailingCharacters (c :: cs))

/-- Reads the brace that closes an object. -/
def closeObject (s : List Char) : Except Fault (Reply Unit s) :=
  match h : skipBlank s with
  | [] => .error (.atNext .endInObject [])
  | c :: cs =>
      if c = '\x7d' then .ok ⟨(), cs, length_lt_of_skipBlank h⟩
      else if c = ',' then .error (.atNext .trailingComma (c :: cs))
      else .error (.atNext .trailingCharacters (c :: cs))

/-- Reads the items of a list and its closing bracket. -/
def items {α : Type} (item : Reader α) (first : Bool) (s : List Char) :
    Except Fault (Reply (List α) s) :=
  match nextItem first s with
  | .error e => .error e
  | .ok none => (closeList s).map (·.map fun _ => [])
  | .ok (some ⟨t, ht⟩) =>
      match item t with
      | .error e => .error e
      | .ok x =>
          match items item false x.rest with
          | .error e => .error e
          | .ok xs => .ok ((xs.map (x.value :: ·)).widen (x.length_rest_le ht))
termination_by s.length
decreasing_by exact x.length_rest_lt ht

end Phrasebook.Json
