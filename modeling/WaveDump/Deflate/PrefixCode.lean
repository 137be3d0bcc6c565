/-!
# Prefix codes

A prefix code gives short codes to letters of great weight. The lightest two trees of letters are
joined until one tree is left; the depth of a letter in it is the length of its code. Only the
lengths matter here.
-/

namespace WaveDump.Deflate

inductive CodeTree where
  | leaf (letter : Nat)
  | fork (left right : CodeTree)
deriving Repr

namespace CodeTree

/-- The letters of a tree with their depths, when the tree itself stands at the given depth. -/
def depths (tree : CodeTree) (depth : Nat) : List (Nat × Nat) :=
  match tree with
  | .leaf letter => [(letter, depth)]
  | .fork left right => left.depths (depth + 1) ++ right.depths (depth + 1)

end CodeTree

structure WeighedTree where
  weight : Nat
  height : Nat := 0
  tree : CodeTree
deriving Repr

namespace WeighedTree

/-- Whether a tree is joined before another one: it is lighter, or as light and not higher. -/
def precedes (first second : WeighedTree) : Bool :=
  first.weight < second.weight || (first.weight = second.weight && first.height ≤ second.height)

def join (left right : WeighedTree) : WeighedTree where
  weight := left.weight + right.weight
  height := max left.height right.height + 1
  tree := .fork left.tree right.tree

/-- Puts a tree into a row in which each tree precedes those behind it. -/
def insert (tree : WeighedTree) (row : List WeighedTree) : List WeighedTree :=
  match row with
  | [] => [tree]
  | first :: rest =>
    if tree.precedes first then tree :: first :: rest else first :: insert tree rest

@[simp]
theorem length_insert (tree : WeighedTree) (row : List WeighedTree) :
    (insert tree row).length = row.length + 1 := by
  induction row with
  | nil => rfl
  | cons first rest shorter =>
    simp only [insert]
    split
    · rfl
    · simp [shorter]

def joinAll (row : List WeighedTree) : Option CodeTree :=
  match row with
  | [] => none
  | [last] => some last.tree
  | first :: second :: rest => joinAll (insert (join first second) rest)
termination_by row.length
decreasing_by simp

end WeighedTree

/-! ## Lengths within a limit -/

/-- Shortens the codes of the greatest length `limit` by one place: the longest of the other codes
becomes a fork of two. The counts tell how many codes have each length. -/
def relieve (limit : Nat) (counts : Array Nat) : Array Nat :=
  match (List.range limit).reverse.find? fun length => counts.getD length 0 != 0 with
  | none => counts
  | some length =>
    ((counts.modify length (· - 1)).modify (length + 1) (· + 2)).modify limit (· - 1)

/-- How many codes have each length when no code may be longer than `limit`. Cutting codes down to
the limit leaves too little room; each relief makes room for one more code. -/
def limitedCounts (limit : Nat) (lengths : List Nat) : Array Nat :=
  let cut := lengths.map (min limit)
  let counts := cut.foldl (fun counts length => counts.modify length (· + 1))
    (Array.replicate (limit + 1) 0)
  let excess := (cut.map fun length => 1 <<< (limit - length)).foldl (· + ·) 0 - 1 <<< limit
  Nat.repeat (relieve limit) excess counts

/-- Letters that get a code although they have no weight, so that at least two letters have one. -/
def fillers (used : List Nat) : List Nat :=
  match used with
  | [] => [0, 1]
  | [letter] => if letter < 2 then [letter + 1] else [0]
  | _ => []

/-- The lengths of codes for the letters with the given weights, none longer than `limit`. Letters
without a code have length 0. -/
def codeLengths (limit : Nat) (weights : Array Nat) : Array Nat :=
  let used := (List.range weights.size).filter fun letter => weights.getD letter 0 != 0
  let row := (used ++ fillers used).foldl
    (fun row letter =>
      WeighedTree.insert { weight := max 1 (weights.getD letter 0), tree := .leaf letter } row) []
  let depths := ((WeighedTree.joinAll row).map fun tree => tree.depths 0).getD []
  let lengths := Array.replicate weights.size 0
  if depths.all fun (_, depth) => depth ≤ limit then
    depths.foldl (fun lengths (letter, depth) => lengths.setIfInBounds letter depth) lengths
  else
    let counts := limitedCounts limit (depths.map Prod.snd)
    let longestFirst := (List.range (limit + 1)).reverse.flatMap fun length =>
      List.replicate (counts.getD length 0) length
    let lightestFirst := row.flatMap fun tree => (tree.tree.depths 0).map Prod.fst
    (lightestFirst.zip longestFirst).foldl
      (fun lengths (letter, length) => lengths.setIfInBounds letter length) lengths

end WaveDump.Deflate
