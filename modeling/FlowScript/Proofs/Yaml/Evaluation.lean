import FlowScript.Yaml.Data

/-!
# Reading YAML by evaluation

A colon puts its key in front of tokens that are there already, and each time all tokens are copied.
That is nothing for a program, but too much for a proof that reads a document by evaluating the reader.
Here the same tokens are kept as a list that is evaluated after every step.

## Main definitions

- `Lexer.runListed` — the lexer with its tokens evaluated after every step
- `readTokens` — the reader behind the lexer

## Main results

- `read_eq_listed` — what is read of a text is what is read of these tokens
-/

namespace FlowScript.Yaml

/-- Applies a function to a list of which every entry has been found. -/
def onListed {α β : Type} (k : List α → β) : List α → β
  | [] => k []
  | a :: as => onListed (fun rest => k (a :: rest)) as

theorem onListed_eq {α β : Type} (k : List α → β) (as : List α) : onListed k as = k as := by
  induction as generalizing k with
  | nil => rfl
  | cons a as ih => exact ih _

namespace Lexer

/-- Puts a token in front of the one with the given number, in the list of the tokens. -/
def insertAt (l : Lexer) (place : Nat) (t : Token) : Lexer :=
  { l with tokens := (l.tokens.toList.take place ++ t :: l.tokens.toList.drop place).toArray }

theorem emitAt_eq_insertAt (l : Lexer) (place : Nat) (t : Token) :
    l.emitAt place t = l.insertAt place t := by
  have htokens : (l.tokens.extract 0 place ++ #[t] ++ l.tokens.extract place l.tokens.size) =
      (l.tokens.toList.take place ++ t :: l.tokens.toList.drop place).toArray := by
    apply Array.toList_inj.mp
    simp [List.take_of_length_le]
  rw [emitAt, insertAt, htokens]

/-- Puts a key and, where it opens a block, the start of the block in front of a candidate. -/
def insertKey (l : Lexer) (k : Candidate) : Except Fault Lexer :=
  let l := l.insertAt k.place .key
  if l.flow == 0 && l.indent < k.column then
    let l := { l with outer := l.indent :: l.outer, indent := k.column }
    if nestingLimit < l.outer.length then .error nestingFault
    else .ok (l.insertAt k.place .blockMappingStart)
  else .ok l

theorem insertKey_eq (l : Lexer) (k : Candidate) :
    l.insertKey k =
      (l.emitAt k.place .key).openBlock k.column (some k.place) .blockMappingStart := by
  simp only [insertKey, openBlock, emitAt_eq_insertAt]

/-- A colon whose key is inserted in the list of the tokens. -/
def colonListed (l : Lexer) : Except Fault Lexer :=
  match l.validCandidate with
  | .ok (some k) => do
    let l ← l.insertKey k
    return { l with
      candidates := none :: l.candidates.drop 1, keyAllowed := false }.indicator 1 .value
  | _ => l.colon

theorem colonListed_eq (l : Lexer) : l.colonListed = l.colon := by
  rw [colonListed]
  split
  case h_1 k hk => rw [colon, hk, insertKey_eq]; rfl
  case h_2 => rfl

/-- The next token, where the key of a colon is inserted in the list of the tokens. -/
def stepListed (l : Lexer) : Except Fault Lexer :=
  let m := skipGap (l.cursor.rest.length + 1) l
  let m := m.closeBlocks m.cursor.column
  match m.cursor.rest with
  | ':' :: _ => if m.flow > 0 || m.cursor.gapAt 1 then m.colonListed else l.step
  | _ => l.step

theorem stepListed_eq (l : Lexer) : l.stepListed = l.step := by
  rw [stepListed]
  split
  case h_1 rest hrest =>
    split
    case isTrue hgap =>
      rw [colonListed_eq]
      simp [step, hrest, hgap, Cursor.atMark]
    case isFalse => rfl
  case h_2 => rfl

/-- Runs the lexer; its tokens are found after every step. -/
def runListed : Nat → Lexer → Lexer × Option Fault
  | 0, l => (l, none)
  | fuel + 1, l =>
    if l.finished then (l, none)
    else
      match l.stepListed with
      | .ok next =>
        onListed (fun found => runListed fuel { next with tokens := found.toArray })
          next.tokens.toList
      | .error fault => (l, some fault)

theorem runListed_eq (fuel : Nat) (l : Lexer) : l.runListed fuel = l.run fuel := by
  induction fuel generalizing l with
  | zero => rfl
  | succ fuel ih =>
    unfold runListed run
    split
    case isTrue => rfl
    case isFalse =>
      rewrite [stepListed_eq]
      cases l.step with
      | error fault => rfl
      | ok next => exact (onListed_eq _ _).trans (ih next)

end Lexer

/-- The tokens of a text, found by the lexer that evaluates them. -/
def tokensListed (text : List Char) : List Token × Option Fault :=
  if text.all isAllowed then
    let text := normalBreaks text
    let text :=
      match text with
      | c :: rest => if c == '\ufeff' then rest else text
      | [] => []
    let (l, fault) := Lexer.runListed (text.length + 2) { cursor := { rest := text } }
    (l.tokens.toList, fault)
  else ([], some ⟨"control characters are not allowed"⟩)

theorem tokensListed_eq (text : List Char) : tokensListed text = tokens text := by
  have hrun : Lexer.runListed = Lexer.run := by
    funext fuel l
    exact l.runListed_eq fuel
  unfold tokensListed
  rewrite [hrun]
  rfl

/-- The root node of a document with the given tokens. -/
def parseTokens (found : List Token × Option Fault) : Except Fault (Option Node) :=
  match StateT.run (Parsing.document (4 * found.1.length + 4))
      { tokens := found.1, fault := found.2 } with
  | .ok (root, _) => .ok root
  | .error fault => .error fault

/-- The data of a document with the given tokens. -/
def readTokens (found : List Token × Option Fault) : Except Fault Data := do
  match ← parseTokens found with
  | none => return .atom .null
  | some n => n.toData (n.depth + 1)

/-- What a text is read as is what these tokens are read as. -/
theorem read_eq_listed (text : List Char) : read text = readTokens (tokensListed text) := by
  have hparse : parse text = parseTokens (tokensListed text) := by
    rewrite [tokensListed_eq]
    rfl
  unfold read readTokens
  rewrite [hparse]
  rfl

end FlowScript.Yaml
