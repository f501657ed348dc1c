import Phrasebook.Json.Numeral
import Phrasebook.Json.Text

/-!
# Json — Document

The reader of whole documents.  Lists and objects may be nested 127 deep; a repeated key keeps its
first place and takes the last value.
-/

namespace Phrasebook.Json

/-- How deep lists and objects may be nested. -/
def depthLimit : Nat := 127

/-- The members of an object, read one by one from its first key on; `member` reads what follows a
key and says what it makes of the members before it. -/
def members {σ : Type} (member : String → σ → Reader σ) (first : Bool) (state : σ)
    (s : List Char) : Except Fault (Reply σ s) :=
  match nextKey first s with
  | .error e => .error e
  | .ok none => (closeObject s).map (·.map fun _ => state)
  | .ok (some ⟨t, ht⟩) =>
      match text t with
      | .error e => .error e
      | .ok key =>
          match member (String.ofList key.value) state key.rest with
          | .error e => .error e
          | .ok x =>
              (members member false x.value x.rest).map
                (·.widen (x.length_rest_le (key.length_rest_le ht)))
termination_by s.length
decreasing_by exact x.length_rest_lt (key.length_rest_le ht)

/-- Reads a colon and a value, and puts the value under its key. -/
def memberOf (value : Reader Value) (key : String) (found : Entries Value) :
    Reader (Entries Value) := fun s =>
  match colon s with
  | .error e => .error e
  | .ok ⟨t, ht⟩ => (value t).map fun x => (x.map fun v => found.insert key v).widen ht

/-- Reads a value in which lists and objects are nested at most so deep. -/
def value : Nat → Reader Value
  | depth, s =>
      match h : skipBlank s with
      | [] => .error (.atNext .endInValue [])
      | c :: cs =>
          have hs := length_lt_of_skipBlank h
          have hle := length_tail_le_of_skipBlank h
          if c = 'n' then
            (keyword ['u', 'l', 'l'] cs).map (·.reply hs .null)
          else if c = 't' then
            (keyword ['r', 'u', 'e'] cs).map (·.reply hs (.bool true))
          else if c = 'f' then
            (keyword ['a', 'l', 's', 'e'] cs).map (·.reply hs (.bool false))
          else if c = '-' ∨ c.isDigit then
            (number (c :: cs)).map fun n => (n.map .number).widen (length_le_of_skipBlank h)
          else if c = '"' then
            (text cs).map fun x => (x.map fun v => .text (String.ofList v)).widen hle
          else if c = '[' then
            match depth with
            | 0 => .error (.atNext .tooDeep (c :: cs))
            | depth + 1 =>
                (items (value depth) true cs).map fun x => (x.map .list).widen hle
          else if c = '\x7b' then
            match depth with
            | 0 => .error (.atNext .tooDeep (c :: cs))
            | depth + 1 =>
                (members (memberOf (value depth)) true [] cs).map fun x =>
                  (x.map .object).widen hle
          else .error (.atNext .noValue (c :: cs))

/-- Nothing but blanks may follow a document. -/
def finish {α : Type} {s : List Char} (x : Reply α s) : Except Fault α :=
  match skipBlank x.rest with
  | [] => .ok x.value
  | rest => .error (.atNext .trailingCharacters rest)

/-- Reads a whole text with a reader. -/
def readWith {α : Type} (reader : Reader α) (document : String) : Except Error α :=
  match (reader document.toList).bind finish with
  | .ok x => .ok x
  | .error fault => .error (fault.inDocument document.toList)

/-- Reads a document. -/
def read (document : String) : Except Error Value :=
  readWith (value depthLimit) document

end Phrasebook.Json
