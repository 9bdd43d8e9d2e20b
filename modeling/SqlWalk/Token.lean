import SqlWalk.Lexeme
import SqlWalk.Keyword

namespace SqlWalk

/-- A token of a query. The first token of a text has no gap before it. -/
structure Token where
  kind : TokenKind
  text : List Char
  /-- Whether white space or a comment separates it from the token before. -/
  spaced : Bool
  deriving DecidableEq, Repr

def Lexeme.isGap (l : Lexeme) : Bool :=
  match l.kind with
  | .token _ => false
  | _ => true

/-- The tokens among lexemes, where `gap` says whether a gap has just been passed. -/
def Token.ofLexemes (gap : Bool) : List Lexeme → List Token
  | [] => []
  | ⟨.token kind, text⟩ :: ls => ⟨kind, text, gap⟩ :: ofLexemes false ls
  | _ :: ls => ofLexemes true ls

def tokenize (s : List Char) : List Token :=
  Token.ofLexemes false ((scan s).dropWhile Lexeme.isGap)

def byteSize : List Char → Nat
  | [] => 0
  | c :: s => c.utf8Size + byteSize s

/-- Where the tokens among lexemes start and end, when the first lexeme starts at byte `start`. -/
def spansFrom (start : Nat) : List Lexeme → List (Nat × Nat)
  | [] => []
  | l :: ls =>
    let stop := start + byteSize l.text
    if l.isGap then spansFrom stop ls else (start, stop) :: spansFrom stop ls

def tokenSpans (s : List Char) : List (Nat × Nat) :=
  spansFrom 0 (scan s)

namespace Token

def spacedText (t : Token) : List Char :=
  if t.spaced then ' ' :: t.text else t.text

/-- The text of neighbouring tokens, each gap between two of them written as one space. -/
def join : List Token → List Char
  | [] => []
  | t :: ts => t.text ++ ts.flatMap spacedText

def fragment (ts : List Token) : String :=
  String.ofList (join ts)

def keyword? (t : Token) : Option Keyword :=
  if t.kind = .word then Keyword.ofText? t.text else none

def isKeyword (t : Token) (k : Keyword) : Bool :=
  t.keyword? == some k

def isSymbol (t : Token) (c : Char) : Bool :=
  t.kind == .symbol && t.text == [c]

def isName (t : Token) : Bool :=
  t.kind == .word || t.kind == .quotedIdent

def name (t : Token) : String :=
  String.ofList t.text

/-- The parenthesis depth behind a token. One that closes nothing leaves the depth at zero. -/
def depthAfter (depth : Nat) (t : Token) : Nat :=
  if t.isSymbol '(' then depth + 1
  else if t.isSymbol ')' then depth - 1
  else depth

end Token

theorem lexemes_induction {P : List Lexeme → Prop} (nil : P [])
    (gap : ∀ l ls, l.isGap = true → P ls → P (l :: ls))
    (token : ∀ kind text ls, P ls → P (⟨.token kind, text⟩ :: ls)) (ls : List Lexeme) : P ls := by
  induction ls with
  | nil => exact nil
  | cons l ls ih =>
    obtain ⟨kind, text⟩ := l
    cases kind with
    | token kind => exact token kind text ls ih
    | blank => exact gap _ ls rfl ih
    | lineComment => exact gap _ ls rfl ih
    | blockComment => exact gap _ ls rfl ih

theorem Token.ofLexemes_cons_gap {l : Lexeme} (h : l.isGap = true) (gap : Bool)
    (ls : List Lexeme) : Token.ofLexemes gap (l :: ls) = Token.ofLexemes true ls := by
  obtain ⟨kind, text⟩ := l
  cases kind with
  | token kind => cases h
  | blank => rfl
  | lineComment => rfl
  | blockComment => rfl

theorem spansFrom_cons_gap {l : Lexeme} (h : l.isGap = true) (start : Nat) (ls : List Lexeme) :
    spansFrom start (l :: ls) = spansFrom (start + byteSize l.text) ls :=
  if_pos h

theorem length_spansFrom (gap : Bool) (start : Nat) (ls : List Lexeme) :
    (spansFrom start ls).length = (Token.ofLexemes gap ls).length := by
  induction ls using lexemes_induction generalizing gap start with
  | nil => rfl
  | gap l ls hl ih =>
    rw [spansFrom_cons_gap hl, Token.ofLexemes_cons_gap hl]
    exact ih true _
  | token kind text ls ih => exact congrArg (· + 1) (ih false _)

theorem length_tokenSpans (s : List Char) : (tokenSpans s).length = (tokenize s).length := by
  have hskip (start : Nat) (ls : List Lexeme) :
      (spansFrom start ls).length = (Token.ofLexemes false (ls.dropWhile Lexeme.isGap)).length := by
    induction ls using lexemes_induction generalizing start with
    | nil => rfl
    | gap l ls hl ih =>
      rw [spansFrom_cons_gap hl, List.dropWhile_cons_of_pos hl]
      exact ih _
    | token kind text ls ih => exact length_spansFrom false start _
  exact hskip 0 (scan s)

end SqlWalk
