import Phrasebook.Proofs.Payload.History
import Phrasebook.Proofs.Syntax.Mirror
import Phrasebook.Proofs.Text.Literal

/-!
# Proofs — Syntax — Block

The names that are printed in each block of a section.  `Text.blocks` reads them off the text of a
value or an interface, line by line: a line with nothing but a brace closes a block, one that prints
a name and opens a brace starts one, and all others print a name in the block that they stand in.
What is read are the names of the entries, level by level (`Tree.blocks_value`,
`Tree.blocks_interface`).  At every level of a payload names are distinct if they have been inserted
one by one, so they are at every level of its tree (`Tree.nodup_of_mem_levels`); and as printed names
say which names they are, no block prints one twice (`Tree.blocks_of_history`).
-/

namespace Phrasebook

/-! ### The blocks of a text -/

namespace Text

/-- What a line does in a text of blocks. -/
inductive Move where
  /-- Ends the block that it stands in. -/
  | closes
  /-- Prints a name. -/
  | prints (name : String)
  /-- Prints a name and starts a block under it. -/
  | opens (name : String)
  deriving DecidableEq

/-- What a line does that has been taken apart. -/
def Parts.move (line : Parts) : Move :=
  if line.name = "" then .closes
  else if line.behind = ": \x7b" then .opens line.name
  else .prints line.name

/-- The names printed in each block, where a block comes before the one around it.  Given are the
names printed so far in the blocks that are open, innermost first. -/
def blocksFrom : List (List String) → List Move → List (List String)
  | opened, [] => opened
  | [], _ :: _ => []
  | names :: outer, .closes :: rest => names :: blocksFrom outer rest
  | names :: outer, .prints name :: rest => blocksFrom ((names ++ [name]) :: outer) rest
  | names :: outer, .opens name :: rest => blocksFrom ([] :: (names ++ [name]) :: outer) rest

/-- The names printed in each block of a text, and last those printed outside of blocks. -/
def blocks (text : String) : List (List String) :=
  blocksFrom [[]] ((lines text).map fun line => (parts line).move)

end Text

namespace Syntax
open Text

/-! ### The levels of a tree -/

mutual

/-- The entries of each block in an entry. -/
def Entry.levels : Entry → List (List Entry)
  | .literal _ _ => []
  | .callable _ _ _ => []
  | .block _ entries => levelsIn entries ++ [entries]

/-- The entries of each block in entries, where a block comes before the one around it. -/
def levelsIn : List Entry → List (List Entry)
  | [] => []
  | e :: es => e.levels ++ levelsIn es

end

/-- The entries of each block of a section, and last those of the section itself. -/
def Tree.levels (tree : Tree) : List (List Entry) :=
  levelsIn tree ++ [tree]

/-- The names of entries as they are printed. -/
def printedNames (entries : List Entry) : List String :=
  entries.map fun e => property e.name

theorem names_payloadOf (es : List Entry) :
    Entries.names (payloadOf es) = es.map Entry.name := by
  induction es with
  | nil => rfl
  | cons e es ih => exact congrArg (e.name :: ·) ih

variable {P : List (String × Translation) → Prop}

mutual

/-- A block in an entry was built from a node of its translation. -/
theorem Entry.of_mem_levels {level : List Entry} :
    ∀ {e : Entry}, e.translation.EveryNode P → level ∈ e.levels → P (payloadOf level)
  | .literal _ _, _, h => by cases h
  | .callable _ _ _, _, h => by cases h
  | .block name entries, hnodes, h => by
      obtain ⟨hentries, hinside⟩ := Translation.everyNode_node.mp hnodes
      rcases List.mem_append.mp h with h | h
      · exact of_mem_levelsIn hinside h
      · obtain rfl := List.mem_singleton.mp h
        exact hentries

/-- A block in entries was built from a node of their translations. -/
theorem of_mem_levelsIn {level : List Entry} :
    ∀ {es : List Entry}, Payload.EveryNode P (payloadOf es) → level ∈ levelsIn es →
      P (payloadOf level)
  | [], _, h => by cases h
  | e :: es, hnodes, h => by
      obtain ⟨he, hes⟩ := Payload.everyNode_cons.mp hnodes
      rcases List.mem_append.mp h with h | h
      · exact Entry.of_mem_levels he h
      · exact of_mem_levelsIn hes h

end

/-! ### The blocks of a section -/

/-- What a row does. -/
def Row.move : Row → Move
  | .literal name _ => .prints (property name)
  | .callable name _ _ => .prints (property name)
  | .opening name => .opens (property name)
  | .closing => .closes

theorem property_ne_empty (name : String) : property name ≠ "" := by
  intro h
  have hnil : (property name).toList ++ [':'] = [':'] := by rw [h]; rfl
  exact property_append_ne_cons (by decide) (by decide) hnil

/-- A row does the same in a value and in an interface. -/
theorem Row.move_parts (indentation : Nat) (row : Row) :
    (Parts.mk indentation row.printed row.behindInValue).move = row.move ∧
      (Parts.mk indentation row.printed row.behindInType).move = row.move := by
  cases row with
  | literal name text =>
      have hvalue : (Row.literal name text).behindInValue ≠ ": \x7b" := fun h => by
        have hchars := congrArg String.toList h
        simp [behindInValue, toList_quote, quoteChars] at hchars
      have htype : (Row.literal name text).behindInType ≠ ": \x7b" :=
        show ": string;" ≠ ": \x7b" by decide
      simp [Parts.move, move, printed, name?, property_ne_empty, hvalue, htype]
  | callable name text params =>
      have hvalue : (Row.callable name text params).behindInValue ≠ ": \x7b" := fun h => by
        have hchars := congrArg String.toList h
        simp [behindInValue] at hchars
      have htype : (Row.callable name text params).behindInType ≠ ": \x7b" := fun h => by
        have hchars := congrArg String.toList h
        simp [behindInType] at hchars
      simp [Parts.move, move, printed, name?, property_ne_empty, hvalue, htype]
  | opening name =>
      simp [Parts.move, move, printed, name?, property_ne_empty, behindInValue, behindInType]
  | closing => exact ⟨rfl, rfl⟩

/-- The moves of rows. -/
def movesOf (rows : List (Nat × Row)) : List Move :=
  rows.map fun row => row.2.move

theorem movesOf_append (first second : List (Nat × Row)) :
    movesOf (first ++ second) = movesOf first ++ movesOf second :=
  List.map_append

mutual

/-- Over the rows of an entry its blocks are read, and its name is printed. -/
theorem blocksFrom_rows (depth : Nat) (names : List String) (outer : List (List String))
    (rest : List Move) :
    ∀ e : Entry, blocksFrom (names :: outer) (movesOf (e.rows depth) ++ rest) =
      e.levels.map printedNames ++ blocksFrom ((names ++ [property e.name]) :: outer) rest
  | .literal _ _ => rfl
  | .callable _ _ _ => rfl
  | .block name entries => by
      have hinside := blocksFrom_rowsOf (depth + 1) [] ((names ++ [property name]) :: outer)
        (.closes :: rest) entries
      have hmoves : movesOf ((Entry.block name entries).rows depth) ++ rest =
          .opens (property name) :: (movesOf (rowsOf (depth + 1) entries) ++ .closes :: rest) := by
        simp [movesOf, Entry.rows, Row.move]
      rw [hmoves, blocksFrom, hinside, List.nil_append, blocksFrom, Entry.levels, List.map_append,
        List.append_assoc]
      rfl

/-- Over the rows of entries their blocks are read, and their names are printed. -/
theorem blocksFrom_rowsOf (depth : Nat) (names : List String) (outer : List (List String))
    (rest : List Move) :
    ∀ es : List Entry, blocksFrom (names :: outer) (movesOf (rowsOf depth es) ++ rest) =
      (levelsIn es).map printedNames ++ blocksFrom ((names ++ printedNames es) :: outer) rest
  | [] => by simp [movesOf, rowsOf, levelsIn, printedNames]
  | e :: es => by
      have hfirst := blocksFrom_rows depth names outer (movesOf (rowsOf depth es) ++ rest) e
      have hothers := blocksFrom_rowsOf depth (names ++ [property e.name]) outer rest es
      rw [List.append_assoc, List.singleton_append] at hothers
      rw [rowsOf, movesOf_append, List.append_assoc, hfirst, hothers, levelsIn, List.map_append,
        List.append_assoc]
      rfl

end

namespace Tree

variable {payload : Payload} {tree : Tree}

/-- A text that has a line for each row, which does what the row does, has the blocks of the tree. -/
theorem blocks_of_lines {text : String} {line : Nat × Row → String}
    (hlines : lines text = tree.rows.map line)
    (hline : ∀ row : Nat × Row, (parts (line row)).move = row.2.move) :
    blocks text = tree.levels.map printedNames := by
  have hmoves : ((lines text).map fun line => (parts line).move) = movesOf tree.rows := by
    rw [hlines, List.map_map]
    exact List.map_congr_left fun row _ => hline row
  have hrows := blocksFrom_rowsOf 1 [] [] [] tree
  rw [List.append_nil, List.nil_append] at hrows
  rw [blocks, hmoves, rows, hrows, levels, List.map_append]
  rfl

/-- **The blocks of a value** print the names of the entries, level by level. -/
theorem blocks_value (h : ofPayload? payload = .ok tree) :
    blocks tree.value = tree.levels.map printedNames :=
  blocks_of_lines (lines_value h) fun row => by
    rw [(Row.parts_eq row.1 row.2).1, (Row.move_parts _ row.2).1]

/-- **The blocks of an interface** print the same names. -/
theorem blocks_interface (h : ofPayload? payload = .ok tree) :
    blocks tree.interface = tree.levels.map printedNames :=
  blocks_of_lines (lines_interface h) fun row => by
    rw [(Row.parts_eq row.1 row.2).2, (Row.move_parts _ row.2).2]

/-- At every level of a tree names are distinct, if they are in its payload. -/
theorem nodup_of_mem_levels (h : ofPayload? payload = .ok tree) (hproper : payload.IsProper)
    {level : List Entry} (hlevel : level ∈ tree.levels) : (level.map Entry.name).Nodup := by
  obtain rfl := payload_of_ofPayload? h
  rw [← names_payloadOf]
  rcases List.mem_append.mp hlevel with hinside | htree
  · exact of_mem_levelsIn hproper.nodes hinside
  · obtain rfl := List.mem_singleton.mp htree
    exact hproper.names

theorem nodup_printedNames {level : List Entry} (h : (level.map Entry.name).Nodup) :
    (printedNames level).Nodup := by
  have hprinted : printedNames level = (level.map Entry.name).map property := by
    rw [printedNames, List.map_map]
    rfl
  rw [hprinted]
  exact h.map fun _ _ => property_inj

/-- **Entries are an ordered map, and no block prints a name twice.**  What a history of insertions
leaves records it: every name that was inserted once, in the order of the first insertions, and
under it what was inserted last.  So in a payload that is built by insertions, or read from a file,
names are distinct at every level, and so they are in its tree; and each block of the value and of
the interface prints the names of one level, none of them twice. -/
theorem blocks_of_history (history : List (String × Translation)) (payload : Payload) :
    ((Entries.ofList history).IsRecord history ∧
        (∀ name, (Entries.ofList history).get? name = none ↔ name ∉ Entries.names history) ∧
        (Entries.ofList history).length = (Entries.names history).toFinset.card) ∧
      (payload.IsBuilt ∨ (∃ content, Payload.ofFile? content = .ok payload) →
        payload.IsProper ∧ ∀ tree, ofPayload? payload = .ok tree →
          (∀ level ∈ tree.levels, (level.map Entry.name).Nodup) ∧
          (blocks tree.value = tree.levels.map printedNames ∧
            ∀ block ∈ blocks tree.value, block.Nodup) ∧
          blocks tree.interface = tree.levels.map printedNames ∧
            ∀ block ∈ blocks tree.interface, block.Nodup) := by
  have hrecord := Entries.isRecord_ofList history
  refine ⟨⟨hrecord, fun _ => hrecord.get?_eq_none_iff, hrecord.length_eq⟩, fun hbuilt => ?_⟩
  have hproper : payload.IsProper := by
    rcases hbuilt with hbuilt | ⟨content, hfile⟩
    · exact hbuilt.isProper
    · exact Payload.isProper_of_ofFile? hfile
  refine ⟨hproper, fun tree htree => ?_⟩
  have hlevels : ∀ level ∈ tree.levels, (level.map Entry.name).Nodup :=
    fun _ => nodup_of_mem_levels htree hproper
  have hprinted : ∀ block ∈ tree.levels.map printedNames, block.Nodup := by
    rintro _ hblock
    obtain ⟨level, hlevel, rfl⟩ := List.mem_map.mp hblock
    exact nodup_printedNames (hlevels level hlevel)
  have hvalue := blocks_value htree
  have hinterface := blocks_interface htree
  exact ⟨hlevels, ⟨hvalue, hvalue ▸ hprinted⟩, hinterface, hinterface ▸ hprinted⟩

/-- A file that names an entry of a node twice, and names an entry outside of the node like it. -/
def repeatedSample : String :=
  "\x7b\"translations\": \x7b\"menu\": \x7b\"open\": \"O\", \"data-x\": \"X\", " ++
    "\"open\": \"P\"\x7d, \"open\": \"Q\"\x7d\x7d"

/-- In the block of the node the name is printed once, where it came first; a value that is inserted
under it once more counts. -/
theorem sample_blocks_of_history :
    (Entries.ofList [("a", .literal "x"), ("b", .literal "y"), ("a", .literal "z")]).get? "a" =
        some (Translation.literal "z") ∧
      ∃ payload tree, Payload.ofFile? repeatedSample = .ok payload ∧
        ofPayload? payload = .ok tree ∧
        blocks tree.value = [["open", "\"data-x\""], ["menu", "open"]] ∧
        ∀ block ∈ blocks tree.interface, block.Nodup := by
  constructor
  · have hrecord := (blocks_of_history
      [("a", .literal "x"), ("b", .literal "y"), ("a", .literal "z")] []).1.1
    exact (hrecord.get?_eq_some_iff _ _).mpr
      ⟨[("a", .literal "x"), ("b", .literal "y")], [], rfl, List.not_mem_nil⟩
  · have hblocks : ((Payload.ofFile? repeatedSample).toOption.bind fun payload =>
        (ofPayload? payload).toOption.map fun tree => blocks tree.value) =
          some [["open", "\"data-x\""], ["menu", "open"]] := by decide +kernel
    cases hfile : Payload.ofFile? repeatedSample with
    | error fault => rw [hfile] at hblocks; cases hblocks
    | ok payload =>
        rw [hfile] at hblocks
        obtain ⟨tree, htree, hvalue⟩ := Option.map_eq_some_iff.mp hblocks
        cases hresult : ofPayload? payload with
        | error fault => rw [hresult] at htree; cases htree
        | ok found =>
            rw [hresult] at htree
            obtain rfl := Option.some.inj htree
            have hrest := (blocks_of_history [] payload).2 (.inr ⟨_, hfile⟩)
            exact ⟨payload, found, rfl, hresult, hvalue, (hrest.2 found hresult).2.2.2⟩

end Tree

end Syntax

end Phrasebook
