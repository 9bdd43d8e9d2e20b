import SqlWalk.Json.Record
import SqlWalk.Proofs.Json.Scalar

namespace SqlWalk.Json

variable {j : Json} {js : List Json} {m : Option String × Json} {ms : List (Option String × Json)}
  {level : Option ℕ} {depth : ℕ} {w s r : List Char} {name : String}

/-- Values that can be read again: numbers are spelled well, and no characters are missing. -/
inductive Spelled : Json → Prop where
  | null : Spelled .null
  | bool (value : Bool) : Spelled (.bool value)
  | num {n : Numeral} (h : n.Spelled) : Spelled (.num n)
  | str (s : String) : Spelled (.str (some s))
  | arr {items : List Json} (h : ∀ j ∈ items, Spelled j) : Spelled (.arr items)
  | obj {members : List (Option String × Json)} (hnames : ∀ m ∈ members, m.1.isSome = true)
      (h : ∀ m ∈ members, Spelled m.2) : Spelled (.obj members)

/-- Says that a text ends or goes on with what may stand behind a value. -/
def EndsValue (r : List Char) : Prop :=
  ∀ c ∈ r.head?, c ∈ [',', ']', '\x7d', '\n']

/-- Says that a value is read from its text within a longer one. -/
def Reads (level : Option ℕ) (j : Json) : Prop :=
  ∀ depth r, (write level j).length < depth → EndsValue r →
    value? depth (write level j ++ r) = some (j, r)

theorem skipSpace_append (hw : ∀ c ∈ w, isSpace c = true) (s : List Char) :
    skipSpace (w ++ s) = skipSpace s :=
  List.dropWhile_append_of_pos hw

theorem value?_append (hw : ∀ c ∈ w, isSpace c = true) (s : List Char) :
    value? depth (w ++ s) = value? depth s := by
  rw [value?.eq_def, value?.eq_def depth s, skipSpace_append hw]

theorem members?_append (hw : ∀ c ∈ w, isSpace c = true) (s : List Char) :
    members? depth (w ++ s) = members? depth s := by
  rw [members?.eq_def, members?.eq_def depth s, skipSpace_append hw]

theorem isSpace_lineBreak (level : Option ℕ) : ∀ c ∈ lineBreak level, isSpace c = true := by
  cases level with
  | none => nofun
  | some level =>
    intro c hc
    rcases List.mem_cons.1 hc with rfl | hc
    · rfl
    · rw [List.eq_of_mem_replicate hc]
      rfl

theorem endsValue_cons {c : Char} (hc : c ∈ [',', ']', '\x7d', '\n']) (r : List Char) :
    EndsValue (c :: r) := by
  rintro d ⟨⟩
  exact hc

theorem endsValue_lineBreak {c : Char} (hc : c ∈ [',', ']', '\x7d', '\n']) (level : Option ℕ)
    (r : List Char) : EndsValue (lineBreak level ++ c :: r) := by
  cases level with
  | none => exact endsValue_cons hc r
  | some level => exact endsValue_cons (by decide) _

theorem EndsValue.endsNumber (h : EndsValue r) : EndsNumber r := by
  intro c hc
  have hmem := h c hc
  simp only [List.mem_cons, List.not_mem_nil, or_false] at hmem
  rcases hmem with rfl | rfl | rfl | rfl <;> decide

/-- Says that a number can start with a character. -/
def StartsNumber (c : Char) : Prop :=
  c = '-' ∨ c.isDigit = true

theorem StartsNumber.notMem {c : Char} (hc : StartsNumber c) :
    c ∉ [' ', '\n', '\t', '\r', 'n', 't', 'f', '\x22', '[', ']', '\x7b', '\x7d'] := by
  intro hmem
  rcases hc with rfl | hc
  · exact absurd hmem (by decide)
  · have hother : List.any [' ', '\n', '\t', '\r', 'n', 't', 'f', '\x22', '[', ']', '\x7b', '\x7d']
        Char.isDigit = false := by decide
    exact List.any_eq_false.1 hother c hmem hc

theorem StartsNumber.isSpace {c : Char} (hc : StartsNumber c) : isSpace c = false := by
  have hmem := hc.notMem
  simp only [List.mem_cons, not_or] at hmem
  simp [Json.isSpace, hmem]

theorem value?_number {c : Char} (hc : StartsNumber c) (t : List Char) :
    value? (depth + 1) (c :: t) = (number? (c :: t)).map fun (n, r) => (.num n, r) := by
  have hskip : skipSpace (c :: t) = c :: t := List.dropWhile_cons_of_neg (by simp [hc.isSpace])
  have hmem := hc.notMem
  rw [value?.eq_def, hskip]
  split
  · next hdepth => cases hdepth
  · next hempty _ => cases hempty
  -- All other values start with a character that no number starts with.
  all_goals first
    | rfl
    | next heq =>
      cases heq
      exact absurd hmem (by decide)

theorem exists_text_eq_cons {n : Numeral} (hn : n.Spelled) :
    ∃ c t, n.text = c :: t ∧ StartsNumber c := by
  obtain ⟨c, cs, heq⟩ := List.exists_cons_of_ne_nil hn.whole_ne_nil
  rw [Numeral.text, heq]
  cases n.negative with
  | true => exact ⟨'-', _, rfl, .inl rfl⟩
  | false => exact ⟨c, _, rfl, .inr (hn.isDigit_whole c (heq ▸ List.mem_cons_self))⟩

theorem reads_num {n : Numeral} (hn : n.Spelled) : Reads level (.num n) := by
  intro depth r hdepth hr
  obtain ⟨depth, rfl⟩ := Nat.exists_eq_succ_of_ne_zero (Nat.ne_zero_of_lt hdepth)
  obtain ⟨c, t, htext, hc⟩ := exists_text_eq_cons hn
  rw [write, htext, List.cons_append, value?_number hc, ← List.cons_append, ← htext,
    number?_text hn hr.endsNumber]
  rfl

theorem reads_str (s : String) : Reads level (.str (some s)) := by
  intro depth r hdepth hr
  obtain ⟨depth, rfl⟩ := Nat.exists_eq_succ_of_ne_zero (Nat.ne_zero_of_lt hdepth)
  obtain ⟨t, htext, hstring⟩ := string?_quoted s r
  rw [write, htext]
  change (string? t).map _ = _
  rw [hstring]
  rfl

theorem reads_null : Reads level .null := by
  intro depth r hdepth hr
  obtain ⟨depth, rfl⟩ := Nat.exists_eq_succ_of_ne_zero (Nat.ne_zero_of_lt hdepth)
  rfl

theorem reads_bool (value : Bool) : Reads level (.bool value) := by
  intro depth r hdepth hr
  obtain ⟨depth, rfl⟩ := Nat.exists_eq_succ_of_ne_zero (Nat.ne_zero_of_lt hdepth)
  cases value <;> rfl

/-- The first character of a value tells it from the end of a list. -/
theorem head?_write (h : Spelled j) (level : Option ℕ) : ∃ c t, write level j = c :: t ∧
    isSpace c = false ∧ c ≠ ']' ∧ c ≠ '\x7d' := by
  cases h with
  | null => exact ⟨_, _, rfl, by decide⟩
  | bool value => cases value <;> exact ⟨_, _, rfl, by decide⟩
  | num hn =>
    obtain ⟨c, t, htext, hc⟩ := exists_text_eq_cons hn
    have hmem := hc.notMem
    simp only [List.mem_cons, not_or] at hmem
    exact ⟨c, t, htext, hc.isSpace, by simp [hmem]⟩
  | str s => exact ⟨_, _, rfl, by decide⟩
  | @arr items h =>
    cases items <;> exact ⟨'[', _, rfl, by decide⟩
  | @obj members hnames h =>
    cases members <;> exact ⟨'\x7b', _, rfl, by decide⟩

theorem items?_append (hw : ∀ c ∈ w, isSpace c = true) (s : List Char) :
    items? depth (w ++ s) = items? depth s := by
  cases depth with
  | zero => rfl
  | succ depth => rw [items?, items?, value?_append hw]

theorem items?_write (outer : Option ℕ) (hj : Reads level j) (hjs : ∀ k ∈ js, Reads level k)
    (hdepth : (write level j ++ writeItems level js).length + 1 < depth) (r : List Char) :
    items? depth (write level j ++ writeItems level js ++ (lineBreak outer ++ ']' :: r)) =
      some (j :: js, r) := by
  induction js generalizing j depth with
  | nil =>
    obtain ⟨depth, rfl⟩ := Nat.exists_eq_succ_of_ne_zero (Nat.ne_zero_of_lt hdepth)
    have hskip : skipSpace (lineBreak outer ++ ']' :: r) = ']' :: r :=
      skipSpace_append (isSpace_lineBreak outer) _
    rw [writeItems, List.append_nil] at hdepth ⊢
    rw [items?, hj depth _ (by omega) (endsValue_lineBreak (by decide) outer r)]
    simp only [Option.bind_eq_bind, Option.bind_some, hskip]
    rfl
  | cons k js ih =>
    obtain ⟨depth, rfl⟩ := Nat.exists_eq_succ_of_ne_zero (Nat.ne_zero_of_lt hdepth)
    obtain ⟨hk, hjs⟩ := List.forall_mem_cons.1 hjs
    simp only [writeItems, List.length_append, List.length_cons] at hdepth
    have hrest : (write level k ++ writeItems level js).length + 1 < depth := by
      simp only [List.length_append]
      omega
    have hread := ih hk hjs hrest
    have hvalue := hj depth (',' :: (lineBreak level ++ (write level k ++ writeItems level js ++
      (lineBreak outer ++ ']' :: r)))) (by omega) (endsValue_cons (by decide) _)
    simp only [writeItems, List.append_assoc, List.cons_append] at hread hvalue ⊢
    rw [items?, hvalue]
    simp only [Option.bind_eq_bind, Option.bind_some]
    change (items? depth (lineBreak level ++ _)).bind _ = _
    rw [items?_append (isSpace_lineBreak level), hread]
    rfl

/-- Reads one member, behind which there is a comma and others or the end of them. -/
theorem members?_writeMember {c : Char} (hj : Reads level j)
    (hdepth : (write level j).length < depth) (hr : EndsValue r) (hs : skipSpace r = c :: s) :
    members? (depth + 1) (writeMember level (some name, j) ++ r) =
      if c = ',' then (members? depth s).map fun (ms, r) => ((some name, j) :: ms, r)
      else if c = '\x7d' then some ([(some name, j)], s) else none := by
  obtain ⟨u, hcolon, hvalue⟩ : ∃ u, (if level.isSome then [':', ' '] else [':']) ++
      (write level j ++ r) = ':' :: u ∧ value? depth u = some (j, r) := by
    cases level with
    | none => exact ⟨_, rfl, hj depth r hdepth hr⟩
    | some level =>
      refine ⟨[' '] ++ (write (some level) j ++ r), rfl, ?_⟩
      rw [value?_append (List.forall_mem_singleton.2 rfl), hj depth r hdepth hr]
  obtain ⟨t, htext, hstring⟩ := string?_quoted name (':' :: u)
  have hskip (c : Char) (s : List Char) (hc : isSpace c = false) : skipSpace (c :: s) = c :: s :=
    List.dropWhile_cons_of_neg (by simp [hc])
  rw [writeMember, List.append_assoc, List.append_assoc, hcolon, htext, members?.eq_def,
    hskip _ t rfl]
  simp only [hstring, hskip _ u (by decide : isSpace ':' = false), hvalue, hs, Option.bind_eq_bind,
    Option.bind_some]
  split
  · next heq =>
    cases heq
    cases members? depth s <;> rfl
  · next heq =>
    cases heq
    rfl
  · next hcomma hbrace =>
    have hc : c ≠ ',' := fun heq => hcomma s (by rw [heq])
    have hc' : c ≠ '\x7d' := fun heq => hbrace s (by rw [heq])
    rw [if_neg hc, if_neg hc']

theorem length_write_lt (level : Option ℕ) (m : Option String × Json) :
    (write level m.2).length + 2 < (writeMember level m).length := by
  obtain ⟨name, j⟩ := m
  simp only [writeMember, quoted, List.length_append, List.length_cons, List.length_nil]
  split <;> simp <;> omega

theorem members?_write (outer : Option ℕ) (hm : m.1.isSome = true)
    (hnames : ∀ k ∈ ms, k.1.isSome = true)
    (hj : Reads level m.2) (hjs : ∀ k ∈ ms, Reads level k.2)
    (hdepth : (writeMember level m ++ writeMembers level ms).length < depth) (r : List Char) :
    members? depth (writeMember level m ++ writeMembers level ms ++
      (lineBreak outer ++ '\x7d' :: r)) = some (m :: ms, r) := by
  induction ms generalizing m depth with
  | nil =>
    obtain ⟨depth, rfl⟩ := Nat.exists_eq_succ_of_ne_zero (Nat.ne_zero_of_lt hdepth)
    obtain ⟨_ | name, j⟩ := m
    · cases hm
    have hskip : skipSpace (lineBreak outer ++ '\x7d' :: r) = '\x7d' :: r :=
      skipSpace_append (isSpace_lineBreak outer) _
    rw [writeMembers, List.append_nil] at hdepth ⊢
    have hlt := length_write_lt level (some name, j)
    rw [members?_writeMember hj (by omega) (endsValue_lineBreak (by decide) outer r) hskip]
    rfl
  | cons k ms ih =>
    obtain ⟨depth, rfl⟩ := Nat.exists_eq_succ_of_ne_zero (Nat.ne_zero_of_lt hdepth)
    obtain ⟨_ | name, j⟩ := m
    · cases hm
    obtain ⟨hk, hnames⟩ := List.forall_mem_cons.1 hnames
    obtain ⟨hkj, hjs⟩ := List.forall_mem_cons.1 hjs
    have hlt := length_write_lt level (some name, j)
    simp only [writeMembers, List.length_append, List.length_cons] at hdepth
    have hrest : (writeMember level k ++ writeMembers level ms).length < depth := by
      simp only [List.length_append]
      omega
    have hread := ih hk hnames hkj hjs hrest
    simp only [writeMembers, List.append_assoc, List.cons_append] at hread ⊢
    rw [members?_writeMember hj (by omega) (endsValue_cons (c := ',') (by decide) _) rfl,
      if_pos rfl, members?_append (isSpace_lineBreak level), hread]
    rfl

theorem value?_items {c : Char} (hs : skipSpace s = c :: r) (hc : c ≠ ']') :
    value? (depth + 1) ('[' :: s) =
      (items? depth (c :: r)).map fun (items, r) => (.arr items, r) := by
  have hstart : skipSpace ('[' :: s) = '[' :: s := rfl
  rw [value?.eq_def, hstart]
  simp only [hs]
  split
  · next heq =>
    cases heq
    exact absurd rfl hc
  · rfl

theorem value?_members {c : Char} (hs : skipSpace s = c :: r) (hc : c ≠ '\x7d') :
    value? (depth + 1) ('\x7b' :: s) =
      (members? depth (c :: r)).map fun (members, r) => (.obj members, r) := by
  have hstart : skipSpace ('\x7b' :: s) = '\x7b' :: s := rfl
  rw [value?.eq_def, hstart]
  simp only [hs]
  split
  · next heq =>
    cases heq
    exact absurd rfl hc
  · rfl

theorem skipSpace_lineBreak {c : Char} (hc : isSpace c = false) (level : Option ℕ) (s : List Char) :
    skipSpace (lineBreak level ++ c :: s) = c :: s := by
  rw [skipSpace_append (isSpace_lineBreak level)]
  exact List.dropWhile_cons_of_neg (by simp [hc])

/-- What is written is read. -/
theorem Spelled.reads (h : Spelled j) : ∀ level, Reads level j := by
  induction h with
  | null => exact fun level => reads_null
  | bool value => exact fun level => reads_bool value
  | num hn => exact fun level => reads_num hn
  | str s => exact fun level => reads_str s
  | @arr items h ih =>
    intro level depth r hdepth hr
    obtain ⟨depth, rfl⟩ := Nat.exists_eq_succ_of_ne_zero (Nat.ne_zero_of_lt hdepth)
    cases items with
    | nil => rfl
    | cons j js =>
      obtain ⟨hj, hjs⟩ := List.forall_mem_cons.1 ih
      simp only [write, List.length_append, List.length_cons, List.length_nil] at hdepth
      have hlist : (write (level.map (· + 1)) j ++ writeItems (level.map (· + 1)) js).length + 1 <
          depth := by
        simp only [List.length_append]
        omega
      have hread := items?_write level (hj _) (fun k hk => hjs k hk _) hlist r
      obtain ⟨c, t, hwrite, hspace, hbracket, -⟩ :=
        head?_write (h j List.mem_cons_self) (level.map (· + 1))
      simp only [write, hwrite, List.append_assoc, List.cons_append, List.nil_append] at hread ⊢
      rw [value?_items (skipSpace_lineBreak hspace _ _) hbracket, hread]
      rfl
  | @obj members hnames h ih =>
    intro level depth r hdepth hr
    obtain ⟨depth, rfl⟩ := Nat.exists_eq_succ_of_ne_zero (Nat.ne_zero_of_lt hdepth)
    cases members with
    | nil => rfl
    | cons m ms =>
      obtain ⟨hm, hms⟩ := List.forall_mem_cons.1 ih
      obtain ⟨hname, hnames⟩ := List.forall_mem_cons.1 hnames
      simp only [write, List.length_append, List.length_cons, List.length_nil] at hdepth
      have hlist : (writeMember (level.map (· + 1)) m ++
          writeMembers (level.map (· + 1)) ms).length < depth := by
        simp only [List.length_append]
        omega
      have hread := members?_write level hname hnames (hm _) (fun k hk => hms k hk _) hlist r
      obtain ⟨t, hwrite⟩ : ∃ t, writeMember (level.map (· + 1)) m = '\x22' :: t := by
        cases m
        exact ⟨_, rfl⟩
      simp only [write, hwrite, List.append_assoc, List.cons_append, List.nil_append] at hread ⊢
      rw [value?_members (skipSpace_lineBreak rfl _ _) (by decide), hread]
      rfl

theorem ofList?_write (h : Spelled j) (level : Option ℕ) : ofList? (write level j) = some j := by
  have hread := h.reads level ((write level j).length + 1) [] (Nat.lt_succ_self _) nofun
  rw [List.append_nil] at hread
  simp only [ofList?, hread, Option.bind_eq_bind, Option.bind_some]
  rfl

theorem ofString?_pretty (h : Spelled j) : ofString? j.pretty = some j := by
  rw [ofString?, pretty, String.toList_ofList]
  exact ofList?_write h _

theorem ofString?_compact (h : Spelled j) : ofString? j.compact = some j := by
  rw [ofString?, compact, String.toList_ofList]
  exact ofList?_write h _

theorem filter_zip {names : List String} {values : List Json} (hnodup : names.Nodup) {v : Json}
    (h : (name, v) ∈ names.zip values) :
    ((names.zip values).map fun (n, v) => (some n, v)).filter (·.1 == some name) =
      [(some name, v)] := by
  induction names generalizing values with
  | nil => cases h
  | cons n names ih =>
    cases values with
    | nil => cases h
    | cons w values =>
      obtain ⟨hn, hnodup⟩ := List.nodup_cons.1 hnodup
      rw [List.zip_cons_cons, List.map_cons]
      rcases List.mem_cons.1 h with heq | hmem
      · cases heq
        have hrest : ((names.zip values).map fun (n, v) => (some n, v)).filter
            (·.1 == some name) = [] := by
          rw [List.filter_eq_nil_iff]
          intro m hm
          obtain ⟨⟨n, v⟩, hzip, rfl⟩ := List.mem_map.1 hm
          have hne : n ≠ name := fun heq => hn (heq ▸ (List.of_mem_zip hzip).1)
          simpa using hne
        rw [List.filter_cons_of_pos (by simp), hrest]
      · have hne : n ≠ name := by
          rintro rfl
          exact hn (List.of_mem_zip hmem).1
        rw [List.filter_cons_of_neg (by simpa using hne), ih hnodup hmem]

theorem mapM_of_zip {names : List String} {values : List Json} {f : String → Option (Option Json)}
    (hlength : values.length = names.length)
    (h : ∀ m ∈ names.zip values, f m.1 = some (some m.2)) :
    names.mapM f = some (values.map some) := by
  induction names generalizing values with
  | nil =>
    rw [List.eq_nil_of_length_eq_zero hlength]
    rfl
  | cons n names ih =>
    obtain ⟨v, values, rfl⟩ := List.exists_cons_of_length_eq_add_one hlength
    obtain ⟨hv, hrest⟩ := List.forall_mem_cons.1 h
    rw [List.mapM_cons, hv, ih (Nat.succ.inj hlength) hrest]
    rfl

/-- A record with different names is read as the values of its fields. -/
theorem fields?_record {names : List String} {values : List Json} (hnodup : names.Nodup)
    (hlength : values.length = names.length) (short : Bool) :
    fields? names short (record (names.zip values)) = some (values.map some) := by
  have hnamed : ((names.zip values).map fun (n, v) => (some n, v)).any (·.1.isNone) = false := by
    simp
  simp only [record, fields?, hnamed]
  apply mapM_of_zip hlength
  rintro ⟨name, v⟩ hmem
  rw [filter_zip hnodup hmem]

theorem spelled_record {members : List (String × Json)} (h : ∀ m ∈ members, Spelled m.2) :
    Spelled (record members) :=
  .obj (List.forall_mem_map.2 fun _ _ => rfl) (List.forall_mem_map.2 h)

end SqlWalk.Json
