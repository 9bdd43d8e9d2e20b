import SqlWalk.Token

namespace SqlWalk

inductive JoinKind where
  | inner | left | right | full | cross | natural
  deriving DecidableEq, Repr

inductive ClauseKind where
  | select | fromTables | join (kind : JoinKind) | whereRows | groupBy | having | orderBy | limit
  | offset
  deriving DecidableEq, Repr

/-- A clause: the words that open it and the tokens up to the next clause. -/
structure Clause where
  kind : ClauseKind
  keywords : List Token
  body : List Token
  deriving DecidableEq, Repr

/-- A cut token list: the tokens before the first clause, the clauses, and all from the end on. -/
structure Statement where
  lead : List Token
  clauses : List Clause
  rest : List Token
  deriving DecidableEq, Repr

def isJoinModifier (t : Token) : Bool :=
  match t.keyword? with
  | some .inner | some .left | some .right | some .full | some .outer | some .cross
  | some .natural => true
  | _ => false

def JoinKind.ofModifier? (t : Token) : Option JoinKind :=
  match t.keyword? with
  | some .left => some .left
  | some .right => some .right
  | some .full => some .full
  | some .cross => some .cross
  | _ => none

/-- NATURAL goes before all others; else the last kind counts, and without one it is inner. -/
def JoinKind.ofModifiers (ts : List Token) : JoinKind :=
  if ts.any (·.isKeyword .natural) then .natural
  else (ts.filterMap ofModifier?).getLast?.getD .inner

/-- Modifiers with JOIN behind them. Without JOIN they open no clause, as in `LEFT(name, 1)`. -/
def joinHead? (ts : List Token) : Option (ClauseKind × Nat) :=
  let modifiers := ts.takeWhile isJoinModifier
  match ts.drop modifiers.length with
  | t :: _ =>
    if t.isKeyword .join then some (.join (.ofModifiers modifiers), modifiers.length + 1) else none
  | [] => none

/-- The clause that opens at the front of a token list, with the number of words that open it. -/
def clauseHead? : List Token → Option (ClauseKind × Nat)
  | [] => none
  | t :: ts =>
    match t.keyword? with
    | some .select => some (.select, 1)
    | some .fromTables => some (.fromTables, 1)
    | some .whereRows => some (.whereRows, 1)
    | some .having => some (.having, 1)
    | some .limit => some (.limit, 1)
    | some .offset => some (.offset, 1)
    | some .group => if ts.head?.any (·.isKeyword .byColumns) then some (.groupBy, 2) else none
    | some .order => if ts.head?.any (·.isKeyword .byColumns) then some (.orderBy, 2) else none
    | _ => joinHead? (t :: ts)

def endsStatement (t : Token) : Bool :=
  t.isSymbol ';' ||
    match t.keyword? with
    | some .union | some .intersect | some .except => true
    | _ => false

namespace Statement

def cons (t : Token) (s : Statement) : Statement :=
  { s with lead := t :: s.lead }

/-- Turns the lead into the body of a new first clause. -/
def opened (kind : ClauseKind) (keywords : List Token) (s : Statement) : Statement :=
  ⟨[], ⟨kind, keywords, s.lead⟩ :: s.clauses, s.rest⟩

/-- Cuts tokens of which the first `skip` belong to the keywords before them. -/
def scanFrom : (skip depth : Nat) → List Token → Statement
  | _, _, [] => ⟨[], [], []⟩
  | skip + 1, depth, _ :: ts => scanFrom skip depth ts
  | 0, depth, t :: ts =>
    if depth = 0 then
      if endsStatement t then ⟨[], [], t :: ts⟩
      else
        match clauseHead? (t :: ts) with
        | some (kind, n) => (scanFrom (n - 1) 0 ts).opened kind ((t :: ts).take n)
        | none => (scanFrom 0 (t.depthAfter 0) ts).cons t
    else (scanFrom 0 (t.depthAfter depth) ts).cons t

def ofTokens (ts : List Token) : Statement :=
  scanFrom 0 0 ts

def body? (s : Statement) (kind : ClauseKind) : Option (List Token) :=
  (s.clauses.find? (·.kind == kind)).map (·.body)

/-- For each body the index of its first token and the one behind its last, from `start` on. -/
def bodyRangesFrom (start : Nat) : List Clause → List (Nat × Nat)
  | [] => []
  | c :: cs =>
    let first := start + c.keywords.length
    (first, first + c.body.length) :: bodyRangesFrom (first + c.body.length) cs

def bodyRanges (s : Statement) : List (Nat × Nat) :=
  bodyRangesFrom s.lead.length s.clauses

def tokens (s : Statement) : List Token :=
  s.lead ++ s.clauses.flatMap (fun c => c.keywords ++ c.body) ++ s.rest

end Statement

theorem joinHead?_bounds {ts : List Token} {kind : ClauseKind} {n : Nat}
    (h : joinHead? ts = some (kind, n)) : 1 ≤ n ∧ n ≤ ts.length := by
  simp only [joinHead?] at h
  split at h
  · next t r hd =>
    split at h
    · simp only [Option.some.injEq, Prod.mk.injEq] at h
      have hl := congrArg List.length hd
      simp only [List.length_drop, List.length_cons] at hl
      omega
    · cases h
  · cases h

theorem clauseHead?_bounds {ts : List Token} {kind : ClauseKind} {n : Nat}
    (h : clauseHead? ts = some (kind, n)) : 1 ≤ n ∧ n ≤ ts.length := by
  cases ts with
  | nil => cases h
  | cons t ts =>
    have two (w : Keyword) (k : ClauseKind)
        (h : (if ts.head?.any (·.isKeyword w) then some (k, 2) else none) = some (kind, n)) :
        1 ≤ n ∧ n ≤ (t :: ts).length := by
      cases ts with
      | nil => simp at h
      | cons u us =>
        split at h
        · simp only [Option.some.injEq, Prod.mk.injEq] at h
          simp only [List.length_cons]
          omega
        · cases h
    simp only [clauseHead?] at h
    split at h
    case h_7 | h_8 => exact two _ _ h
    case h_9 => exact joinHead?_bounds h
    all_goals
      simp only [Option.some.injEq, Prod.mk.injEq] at h
      simp only [List.length_cons]
      omega

namespace Statement

theorem scanFrom_eq (skip depth : Nat) (ts : List Token) :
    scanFrom skip depth ts = scanFrom 0 depth (ts.drop skip) := by
  induction ts generalizing skip with
  | nil => simp [scanFrom]
  | cons t ts ih =>
    cases skip with
    | zero => rfl
    | succ skip =>
      rw [scanFrom, ih, List.drop_succ_cons]

@[simp] theorem tokens_cons (t : Token) (s : Statement) : (s.cons t).tokens = t :: s.tokens := by
  simp [tokens, cons]

@[simp] theorem tokens_opened (kind : ClauseKind) (ks : List Token) (s : Statement) :
    (s.opened kind ks).tokens = ks ++ s.tokens := by
  simp [tokens, opened]

theorem tokens_scanFrom (depth : Nat) (ts : List Token) : (scanFrom 0 depth ts).tokens = ts := by
  induction h : ts.length using Nat.strongRecOn generalizing depth ts with
  | _ n ih =>
    cases ts with
    | nil => rfl
    | cons t ts =>
      rw [List.length_cons] at h
      rw [scanFrom]
      split
      · split
        · rfl
        split
        · next kind k hk =>
          have hb := clauseHead?_bounds hk
          rw [tokens_opened, scanFrom_eq,
            ih _ (by rw [List.length_drop]; omega) _ _ rfl]
          obtain ⟨k, rfl⟩ : ∃ j, k = j + 1 := ⟨k - 1, by omega⟩
          simp
        · rw [tokens_cons, ih _ (by omega) _ _ rfl]
      · rw [tokens_cons, ih _ (by omega) _ _ rfl]

/-- The cut loses and repeats no token. -/
theorem tokens_statement (ts : List Token) : (ofTokens ts).tokens = ts :=
  tokens_scanFrom 0 ts

end Statement
end SqlWalk
