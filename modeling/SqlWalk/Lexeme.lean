import SqlWalk.Text.Letter

namespace SqlWalk

inductive TokenKind where
  | word
  | number
  /-- A literal in single quotes. -/
  | str
  /-- An identifier in double quotes, backticks or square brackets. -/
  | quotedIdent
  /-- A bind parameter: `:id`, `@id`, `$1` or `?`. -/
  | param
  | operator
  | symbol
  deriving DecidableEq, Repr

inductive LexemeKind where
  | blank
  | lineComment
  | blockComment
  | token (kind : TokenKind)
  deriving DecidableEq, Repr

structure Lexeme where
  kind : LexemeKind
  text : List Char
  deriving DecidableEq, Repr

def isWordStart (c : Char) : Bool :=
  isLetter c || c == '_'

def isWordPart (c : Char) : Bool :=
  isAlphanumeric c || c == '_' || c == '$'

def isNumberPart (c : Char) : Bool :=
  isAlphanumeric c || c == '.'

def isParamPart (c : Char) : Bool :=
  isAlphanumeric c || c == '_'

def isParamSigil (c : Char) : Bool :=
  c == ':' || c == '@' || c == '$'

def isOperatorChar (c : Char) : Bool :=
  ['=', '<', '>', '!', '|', '+', '-', '/', '%', '&', '^', '~'].contains c

def cutRun (p : Char → Bool) (s : List Char) : List Char × List Char :=
  (s.takeWhile p, s.dropWhile p)

/-- Cuts a text after the first `x`, or at the end when there is none. -/
def cutAfter (x : Char) : List Char → List Char × List Char
  | [] => ([], [])
  | c :: r => if c = x then ([c], r) else (c :: (cutAfter x r).1, (cutAfter x r).2)

def cutComment : List Char → List Char × List Char
  | [] => ([], [])
  | [c] => ([c], [])
  | c :: d :: r =>
    if c = '*' ∧ d = '/' then ([c, d], r)
    else (c :: (cutComment (d :: r)).1, (cutComment (d :: r)).2)

/-- Cuts a text after the first quote that is not doubled, or at the end if there is none. -/
def cutQuoted (q : Char) : List Char → List Char × List Char
  | [] => ([], [])
  | [c] => ([c], [])
  | c :: d :: r =>
    if c ≠ q then (c :: (cutQuoted q (d :: r)).1, (cutQuoted q (d :: r)).2)
    else if d = q then (c :: d :: (cutQuoted q r).1, (cutQuoted q r).2)
    else ([c], d :: r)

/-- The class of the lexeme that starts with `c` before the text `r`. -/
def LexemeKind.ofHead (c : Char) (r : List Char) : LexemeKind :=
  if isBlank c then .blank
  else if c == '-' && r.head? == some '-' then .lineComment
  else if c == '/' && r.head? == some '*' then .blockComment
  else if c == '\x27' then .token .str
  else if c == '\x22' || c == '\x60' || c == '[' then .token .quotedIdent
  else if isWordStart c then .token .word
  else if c.isDigit then .token .number
  else if c == '?' || isParamSigil c && r.head?.any isParamPart then .token .param
  else if isOperatorChar c then .token .operator
  else .token .symbol

/-- Cuts `r` where the lexeme that starts with `c` and has the given class ends. -/
def LexemeKind.cut (c : Char) (r : List Char) : LexemeKind → List Char × List Char
  | .blank => cutRun isBlank r
  | .lineComment => cutAfter '\n' r
  | .blockComment => (r.take 1 ++ (cutComment (r.drop 1)).1, (cutComment (r.drop 1)).2)
  | .token .word => cutRun isWordPart r
  | .token .number => cutRun isNumberPart r
  | .token .str => cutQuoted c r
  | .token .quotedIdent => if c = '[' then cutAfter ']' r else cutQuoted c r
  | .token .param => if c = '?' then ([], r) else cutRun isParamPart r
  | .token .operator => cutRun isOperatorChar r
  | .token .symbol => ([], r)

theorem cutRun_append (p : Char → Bool) (s : List Char) :
    (cutRun p s).1 ++ (cutRun p s).2 = s :=
  List.takeWhile_append_dropWhile

theorem cutAfter_append (x : Char) (s : List Char) : (cutAfter x s).1 ++ (cutAfter x s).2 = s := by
  fun_induction cutAfter x s with
  | case1 => rfl
  | case2 => rfl
  | case3 c r h ih => simp [ih]

theorem cutComment_append (s : List Char) : (cutComment s).1 ++ (cutComment s).2 = s := by
  fun_induction cutComment s with
  | case1 => rfl
  | case2 => rfl
  | case3 => rfl
  | case4 c d r h ih => simp [ih]

theorem cutQuoted_append (q : Char) (s : List Char) :
    (cutQuoted q s).1 ++ (cutQuoted q s).2 = s := by
  fun_induction cutQuoted q s with
  | case1 => rfl
  | case2 => rfl
  | case3 c d r h ih => simp [ih]
  | case4 _ _ _ ih => simp [ih]
  | case5 => rfl

theorem LexemeKind.cut_append (k : LexemeKind) (c : Char) (r : List Char) :
    (k.cut c r).1 ++ (k.cut c r).2 = r := by
  cases k with
  | blank => exact cutRun_append ..
  | lineComment => exact cutAfter_append ..
  | blockComment => simp only [cut, List.append_assoc, cutComment_append, List.take_append_drop]
  | token k =>
    cases k with
    | word => exact cutRun_append ..
    | number => exact cutRun_append ..
    | str => exact cutQuoted_append ..
    | quotedIdent =>
      simp only [cut]
      split
      · exact cutAfter_append ..
      · exact cutQuoted_append ..
    | param =>
      simp only [cut]
      split
      · rfl
      · exact cutRun_append ..
    | operator => exact cutRun_append ..
    | symbol => rfl

/-- The lexemes of a text whose first `skip` characters belong to the lexeme before it. -/
def scanFrom : (skip : Nat) → List Char → List Lexeme
  | _, [] => []
  | skip + 1, _ :: r => scanFrom skip r
  | 0, c :: r =>
    let kind := LexemeKind.ofHead c r
    let body := (kind.cut c r).1
    ⟨kind, c :: body⟩ :: scanFrom body.length r

def scan (s : List Char) : List Lexeme :=
  scanFrom 0 s

theorem scanFrom_eq (skip : Nat) (s : List Char) : scanFrom skip s = scan (s.drop skip) := by
  induction s generalizing skip with
  | nil => simp [scan, scanFrom]
  | cons c r ih =>
    cases skip with
    | zero => rfl
    | succ skip => simp [scanFrom, ih]

@[simp] theorem scan_nil : scan [] = [] :=
  rfl

theorem scan_cons (c : Char) (r : List Char) :
    scan (c :: r) =
      ⟨.ofHead c r, c :: ((LexemeKind.ofHead c r).cut c r).1⟩ ::
        scan ((LexemeKind.ofHead c r).cut c r).2 := by
  have h := congrArg (List.drop ((LexemeKind.ofHead c r).cut c r).1.length)
    ((LexemeKind.ofHead c r).cut_append c r)
  rw [List.drop_left] at h
  conv => lhs; rw [scan, scanFrom]
  rw [scanFrom_eq, h]

theorem LexemeKind.length_cut_le (k : LexemeKind) (c : Char) (r : List Char) :
    (k.cut c r).2.length ≤ r.length := by
  have h := congrArg List.length (k.cut_append c r)
  rw [List.length_append] at h
  omega

theorem scan_induction {P : List Char → Prop} (nil : P [])
    (cons : ∀ c r, P ((LexemeKind.ofHead c r).cut c r).2 → P (c :: r)) (s : List Char) : P s := by
  induction h : s.length using Nat.strongRecOn generalizing s with
  | _ n ih =>
    cases s with
    | nil => exact nil
    | cons c r =>
      apply cons
      have hr := (LexemeKind.ofHead c r).length_cut_le c r
      rw [List.length_cons] at h
      exact ih _ (by omega) _ rfl

/-- The scan loses and invents nothing. -/
theorem flatMap_text_scan (s : List Char) : (scan s).flatMap Lexeme.text = s := by
  induction s using scan_induction with
  | nil => rfl
  | cons c r ih => simp [scan_cons, ih, LexemeKind.cut_append]

theorem text_ne_nil_of_mem_scan {s : List Char} {l : Lexeme} (h : l ∈ scan s) : l.text ≠ [] := by
  induction s using scan_induction with
  | nil => simp at h
  | cons c r ih =>
    rw [scan_cons] at h
    rcases List.mem_cons.1 h with rfl | h
    · simp
    · exact ih h

end SqlWalk
