import FlowScript.Proofs.Source.Headers
import FlowScript.Text.Hex

/-!
# Reading string literals

How Python reads the text of a string literal, from behind the opening quotes to behind the closing
ones: plain strings between double quotes, strings between triple double quotes, and formatted
strings with replacement fields. What is read is the characters of the value, with the fields among
them. A character that is given by its Unicode name is not read here.

Which characters a source may hold at all is a question of its own: a null character may stand
nowhere in a source, neither in a literal nor in a comment.

## Main definitions

- `readLiteral` — what the text of a literal stands for, and what follows the literal
- `IsSource` — a text that may be a source

## Main results

- `readLiteral_next` — a literal is read part by part
- `readLiteral_plain` — a character that is not special stands for itself
-/

namespace FlowScript.Script

open Text

/-! ## The rules -/

/-- How a string literal is quoted. -/
inductive Quoting where
  /-- Between double quotes. -/
  | short
  /-- Between triple double quotes, over any number of lines. -/
  | long
  /-- Between double quotes, with replacement fields. -/
  | format
  deriving DecidableEq

/-- What the text of a literal stands for, piece by piece. -/
inductive Piece where
  | char (c : Char)
  /-- A replacement field, by its expression. -/
  | field (expression : List Char)
  deriving DecidableEq

/-- The pieces of a text without fields. -/
def pieces (s : List Char) : List Piece :=
  s.map .char

/-- A text that may be a source. -/
def IsSource (cs : List Char) : Prop :=
  '\x00' ∉ cs

theorem isSource_append {as bs : List Char} : IsSource (as ++ bs) ↔ IsSource as ∧ IsSource bs := by
  simp [IsSource]

/-- What follows the closing quotes when the text starts with them. -/
def Quoting.closed? : Quoting → List Char → Option (List Char)
  | .long => dropFront? ['"', '"', '"']
  | .short | .format => dropFront? ['"']

/-- The character of an escape with a letter or a sign. -/
def signEscape? (c : Char) : Option Char :=
  match c with
  | '\\' => some '\\'
  | '\'' => some '\''
  | '"' => some '"'
  | 'a' => some '\x07'
  | 'b' => some '\x08'
  | 'f' => some '\x0c'
  | 'n' => some '\n'
  | 'r' => some '\r'
  | 't' => some '\t'
  | 'v' => some '\x0b'
  | _ => none

/-- The number of hexadecimal digits of an escape by code point. -/
def hexEscape? (c : Char) : Option Nat :=
  match c with
  | 'x' => some 2
  | 'u' => some 4
  | 'U' => some 8
  | _ => none

/-- The character with the code point that exactly `count` hexadecimal digits spell. -/
def codePoint? (count : Nat) (cs : List Char) : Option Char := do
  let digits := cs.take count
  if digits.length < count then none
  let n ← digits.foldlM (fun n c => (hexValue? c).map (n * 16 + ·)) 0
  if n.isValidChar then some (Char.ofNat n) else none

def isOctalDigit (c : Char) : Bool :=
  '0' ≤ c && c ≤ '7'

/-- What a line break is, read at its first character: the break and a line feed that ends it. -/
def afterBreak (c : Char) (cs : List Char) : List Char :=
  if c == '\r' then dropFront ['\n'] cs else cs

/-- What an escape stands for and what follows it, read behind the backslash. A backslash at the end
of a line joins two lines, and one in front of any other character is itself. -/
def escape? (q : Quoting) : List Char → Option (List Char × List Char)
  | [] => none
  | c :: cs =>
    match signEscape? c, hexEscape? c with
    | some d, _ => some ([d], cs)
    | none, some count => (codePoint? count cs).map (fun d => ([d], cs.drop count))
    | none, none =>
      if c == 'N' then none
      else if isOctalDigit c then
        let digits := c :: (cs.take 2).takeWhile isOctalDigit
        let n := digits.foldl (fun n d => n * 8 + (d.toNat - 48)) 0
        some ([Char.ofNat n], cs.drop (digits.length - 1))
      else if c == '\n' || c == '\r' then some ([], afterBreak c cs)
      else if q == .format && (c == '\x7b' || c == '\x7d') then some (['\\'], c :: cs)
      else some (['\\', c], cs)

/-- What follows the first brace of a formatted string: a second brace, which stands for one, or the
expression of a field, which is read here when it is a name. -/
def brace? (c : Char) (cs : List Char) : Option (Piece × List Char) :=
  match cs with
  | [] => none
  | d :: rest =>
    if d == c then some (.char c, rest)
    else if c == '\x7b' then
      let name := cs.takeWhile (fun e => e.isAlphanum || e == '_')
      match dropFront? ['\x7d'] (cs.drop name.length) with
      | some rest => if name.isEmpty then none else some (.field name, rest)
      | none => none
    else none

/-- The first pieces that the text of a literal stands for, and the text behind them. -/
def next? (q : Quoting) : List Char → Option (List Piece × List Char)
  | [] => none
  | c :: cs =>
    if c == '\\' then (escape? q cs).map (fun (s, rest) => (pieces s, rest))
    else if c == '\n' || c == '\r' then
      if q == .long then some ([.char '\n'], afterBreak c cs) else none
    else if q == .format && (c == '\x7b' || c == '\x7d') then
      (brace? c cs).map (fun (piece, rest) => ([piece], rest))
    else some ([.char c], cs)

/-! ## Reading goes on behind every piece -/

theorem length_dropFront?_le {front cs rest : List Char} (h : dropFront? front cs = some rest) :
    rest.length + front.length = cs.length := by
  rw [Source.dropFront?_eq_some_iff.mp h, List.length_append, Nat.add_comm]

theorem length_afterBreak_le (c : Char) (cs : List Char) : (afterBreak c cs).length ≤ cs.length := by
  unfold afterBreak dropFront
  split
  · cases h : dropFront? ['\n'] cs with
    | none => exact Nat.le_refl _
    | some rest =>
      have := length_dropFront?_le h
      simp only [Option.getD_some]
      omega
  · exact Nat.le_refl _

theorem length_escape?_le {q : Quoting} {cs s rest : List Char}
    (h : escape? q cs = some (s, rest)) : rest.length ≤ cs.length := by
  cases cs with
  | nil => cases h
  | cons c cs =>
    simp only [escape?] at h
    have hle : ∀ k, (cs.drop k).length ≤ (c :: cs).length := by
      intro k
      simp only [List.length_drop, List.length_cons]
      omega
    split at h
    · cases h
      exact Nat.le_succ _
    · obtain ⟨d, -, heq⟩ := Option.map_eq_some_iff.mp h
      cases heq
      exact hle _
    · split at h
      · cases h
      split at h
      · cases h
        exact hle _
      split at h
      · cases h
        exact Nat.le_succ_of_le (length_afterBreak_le c cs)
      split at h
      · cases h
        exact Nat.le_refl _
      · cases h
        exact Nat.le_succ _

theorem length_brace?_le {c : Char} {cs rest : List Char} {piece : Piece}
    (h : brace? c cs = some (piece, rest)) : rest.length ≤ cs.length := by
  cases cs with
  | nil => cases h
  | cons d cs =>
    simp only [brace?] at h
    split at h
    · cases h
      exact Nat.le_succ _
    split at h
    · split at h
      · next behind hbehind =>
        have := length_dropFront?_le hbehind
        simp only [List.length_drop] at this
        split at h
        · cases h
        · cases h
          omega
      · cases h
    · cases h

theorem length_next?_lt {q : Quoting} {cs rest : List Char} {front : List Piece}
    (h : next? q cs = some (front, rest)) : rest.length < cs.length := by
  cases cs with
  | nil => cases h
  | cons c cs =>
    refine Nat.lt_succ_of_le ?_
    simp only [next?] at h
    split at h
    · obtain ⟨r, hr, heq⟩ := Option.map_eq_some_iff.mp h
      cases heq
      exact length_escape?_le hr
    split at h
    · split at h
      · cases h
        exact length_afterBreak_le c cs
      · cases h
    split at h
    · obtain ⟨r, hr, heq⟩ := Option.map_eq_some_iff.mp h
      cases heq
      exact length_brace?_le hr
    · cases h
      exact Nat.le_refl _

/-- Reads the text of a literal, from behind the opening quotes: what it stands for, and what follows
the closing quotes. -/
def readLiteral (q : Quoting) (cs : List Char) : Option (List Piece × List Char) :=
  match q.closed? cs with
  | some rest => some ([], rest)
  | none =>
    match _hnext : next? q cs with
    | none => none
    | some (front, rest) => (readLiteral q rest).map (fun r => (front ++ r.1, r.2))
termination_by cs.length
decreasing_by exact length_next?_lt _hnext

/-- What is read has some pieces in front. -/
def putFront (front : List Piece) (r : Option (List Piece × List Char)) :
    Option (List Piece × List Char) :=
  r.map (fun r => (front ++ r.1, r.2))

@[simp] theorem putFront_nil (r : Option (List Piece × List Char)) : putFront [] r = r := by
  cases r <;> rfl

@[simp] theorem putFront_putFront (front next : List Piece) (r : Option (List Piece × List Char)) :
    putFront front (putFront next r) = putFront (front ++ next) r := by
  cases r <;> simp [putFront]

@[simp] theorem putFront_some (front ps : List Piece) (rest : List Char) :
    putFront front (some (ps, rest)) = some (front ++ ps, rest) :=
  rfl

theorem readLiteral_closed {q : Quoting} {cs rest : List Char} (h : q.closed? cs = some rest) :
    readLiteral q cs = some ([], rest) := by
  rw [readLiteral, h]

/-- A literal is read part by part. -/
theorem readLiteral_next {q : Quoting} {cs rest : List Char} {front : List Piece}
    (hopen : q.closed? cs = none) (h : next? q cs = some (front, rest)) :
    readLiteral q cs = putFront front (readLiteral q rest) := by
  rw [readLiteral, hopen]
  simp only
  split
  · next hnone => rw [h] at hnone; cases hnone
  · next hsome =>
    rw [h] at hsome
    cases hsome
    rfl

theorem closed?_cons_of_ne {q : Quoting} {c : Char} (h : c ≠ '"') (cs : List Char) :
    q.closed? (c :: cs) = none := by
  have hbeq : ('"' == c) = false := by simpa using h.symm
  cases q <;> simp [Quoting.closed?, dropFront?, hbeq]

/-- A character that cannot begin anything special. -/
def isPlain (q : Quoting) (c : Char) : Bool :=
  c != '\\' && c != '\n' && c != '\r' && !(q == .format && (c == '\x7b' || c == '\x7d'))

theorem next?_plain {q : Quoting} {c : Char} (h : isPlain q c = true) (cs : List Char) :
    next? q (c :: cs) = some ([.char c], cs) := by
  simp only [isPlain, Bool.and_eq_true, bne_iff_ne, ne_eq, Bool.not_eq_true'] at h
  obtain ⟨⟨⟨hslash, hfeed⟩, hreturn⟩, hbrace⟩ := h
  simp [next?, hslash, hfeed, hreturn, hbrace]

/-- A character that is neither special nor a quote stands for itself. -/
theorem readLiteral_plain {q : Quoting} {c : Char} (h : isPlain q c = true) (hquote : c ≠ '"')
    (cs : List Char) : readLiteral q (c :: cs) = putFront [.char c] (readLiteral q cs) :=
  readLiteral_next (closed?_cons_of_ne hquote cs) (next?_plain h cs)

theorem readLiteral_plain_append {q : Quoting} {s : List Char}
    (h : ∀ c ∈ s, isPlain q c = true ∧ c ≠ '"') (cs : List Char) :
    readLiteral q (s ++ cs) = putFront (pieces s) (readLiteral q cs) := by
  induction s with
  | nil => exact (putFront_nil _).symm
  | cons c s ih =>
    obtain ⟨hplain, hquote⟩ := h c List.mem_cons_self
    rw [List.cons_append, readLiteral_plain hplain hquote,
      ih (fun d hd => h d (List.mem_cons_of_mem c hd)), putFront_putFront]
    rfl

/-- A line feed stands for itself where a literal may have several lines. -/
theorem readLiteral_newline (cs : List Char) :
    readLiteral .long ('\n' :: cs) = putFront [.char '\n'] (readLiteral .long cs) :=
  readLiteral_next (closed?_cons_of_ne (by decide) cs) rfl

/-- An escape stands for its characters. -/
theorem readLiteral_escape {q : Quoting} {cs s rest : List Char}
    (h : escape? q cs = some (s, rest)) :
    readLiteral q ('\\' :: cs) = putFront (pieces s) (readLiteral q rest) :=
  readLiteral_next (closed?_cons_of_ne (by decide) cs) (by simp [next?, h])

theorem readLiteral_sign {q : Quoting} {c d : Char} (h : signEscape? c = some d) (cs : List Char) :
    readLiteral q ('\\' :: c :: cs) = putFront [.char d] (readLiteral q cs) :=
  readLiteral_escape (show escape? q (c :: cs) = some ([d], cs) by simp [escape?, h])

end FlowScript.Script
