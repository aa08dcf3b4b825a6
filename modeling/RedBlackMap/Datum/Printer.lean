import RedBlackMap.Binary64.Text
import RedBlackMap.Datum.Basic
import RedBlackMap.Text.Quoted

/-!
# The text of data

Data on one line, or spread over lines with one item to a line.
-/
namespace RedBlackMap.Datum

def enclose (opening closing : String) (items : List String) : String :=
  opening ++ ", ".intercalate items ++ closing

mutual

def compact : Datum → String
  | int n => toString n
  | float x => x.text
  | text s => Text.quote s
  | tuple items => enclose "(" ")" (compactItems items)
  | list items => enclose "[" "]" (compactItems items)
  | map entries => enclose "\x7b" "\x7d" (compactEntries entries)

def compactItems : List Datum → List String
  | [] => []
  | d :: ds => d.compact :: compactItems ds

def compactEntries : List (Datum × Datum) → List String
  | [] => []
  | e :: es => compactEntry e :: compactEntries es

def compactEntry : Datum × Datum → String
  | (k, v) => k.compact ++ ": " ++ v.compact

end

/-- Two blocks of lines, with `glue` between the last line of the first and the first line of
the second. -/
def joinBlocks (glue : String) : List String → List String → List String
  | [], below => below
  | above, [] => above
  | [line], next :: below => (line ++ glue ++ next) :: below
  | line :: above, below => line :: joinBlocks glue above below

/-- Blocks of lines between brackets, indented and each with a comma behind it. Nothing
stands between the brackets if there is no block. -/
def encloseBlocks (opening closing : String) : List (List String) → List String
  | [] => [opening ++ closing]
  | blocks =>
    opening :: blocks.flatMap (fun b => (joinBlocks "" b [","]).map ("    " ++ ·)) ++ [closing]

mutual

def expandedLines : Datum → List String
  | int n => [toString n]
  | float x => [x.text]
  | text s => [Text.quote s]
  | tuple items => encloseBlocks "(" ")" (expandedItems items)
  | list items => encloseBlocks "[" "]" (expandedItems items)
  | map entries => encloseBlocks "\x7b" "\x7d" (expandedEntries entries)

def expandedItems : List Datum → List (List String)
  | [] => []
  | d :: ds => d.expandedLines :: expandedItems ds

def expandedEntries : List (Datum × Datum) → List (List String)
  | [] => []
  | e :: es => expandedEntry e :: expandedEntries es

def expandedEntry : Datum × Datum → List String
  | (k, v) => joinBlocks ": " k.expandedLines v.expandedLines

end

def expanded (d : Datum) : String := "\n".intercalate d.expandedLines

end RedBlackMap.Datum
