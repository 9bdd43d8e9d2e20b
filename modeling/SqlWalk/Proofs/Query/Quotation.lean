import SqlWalk.Proofs.Query.Consistency
import SqlWalk.Proofs.Query.Equation

namespace SqlWalk

open Token

variable {q : Char} {s : List Char} {c : Cell}

theorem encloses_quotedIdent : Encloses '\x22' .quotedIdent :=
  ⟨fun _ => rfl, fun _ => rfl⟩

theorem doubled_of_notMem (h : q ∉ s) : doubled q s = s := by
  induction s with
  | nil => rfl
  | cons c s ih =>
    rw [List.mem_cons, not_or] at h
    have hd : doubled q (c :: s) = c :: doubled q s := by simp [doubled, Ne.symm h.1]
    rw [hd, ih h.2]

theorem mem_doubled (h : q ∈ s) : q ∈ doubled q s := by
  refine List.mem_flatMap.2 ⟨q, h, ?_⟩
  rw [if_pos rfl]
  exact List.mem_cons_self

/-- A doubled quote ends the literal, and then something is left. -/
theorem undoubled_doubled (v : List Char) : undoubled (doubled '\x22' v ++ ['\x22']) =
    if '\x22' ∈ v then none else some v := by
  split
  · next h =>
    rw [Option.eq_none_iff_forall_ne_some]
    intro w hw
    obtain ⟨hd, hfree⟩ := eq_of_undoubled hw
    exact hfree (List.append_cancel_right hd ▸ mem_doubled h)
  · next h => rw [doubled_of_notMem h, undoubled_append h]

namespace Cell

def printDouble (c : Cell) : String :=
  c.column ++ " = " ++ .ofList (enclosed '\x22' c.value.toList)

theorem toList_printDouble (c : Cell) : c.printDouble.toList =
    c.column.toList ++ [' ', '=', ' '] ++ enclosed '\x22' c.value.toList := by
  simp [printDouble]

theorem isCondition_printDouble (h : PlainColumn c.column.toList) :
    IsCondition c.printDouble := by
  rw [← String.ofList_toList (s := c.printDouble), toList_printDouble]
  exact isCondition_equation h (encloses_quotedIdent.spells c.value.toList)
    (.of_not_keyword rfl rfl rfl) rfl

theorem ofString?_printDouble (h : PlainColumn c.column.toList) :
    ofString? c.printDouble = if '\x22' ∈ c.value.toList then none else some c := by
  have hliteral : literal? (enclosed '\x22' c.value.toList) =
      if '\x22' ∈ c.value.toList then none else some c.value.toList := undoubled_doubled _
  rw [ofString?, toList_printDouble, encloses_quotedIdent.ofChars?_equation h.isColumn, hliteral]
  split
  · rfl
  · rw [Option.map_some, String.ofList_toList, String.ofList_toList]

end Cell

namespace Query

/-- A column compared with a value in double quotes is one condition. It is a cell exactly if there
are no double quotes in the value. -/
theorem ofText_printDouble (c : Cell) (h : PlainColumn c.column.toList) :
    let q := ofText ("SELECT * FROM t WHERE " ++ c.printDouble)
    q.whereConditions = [c.printDouble] ∧
      q.whereCells = if '\x22' ∈ c.value.toList then [] else [c] := by
  intro q
  have hw : (SelectText.ofConditions [c.printDouble]).WellFormed :=
    SelectText.wellFormed_ofConditions (List.forall_mem_singleton.2 (c.isCondition_printDouble h))
  have hq := hw.ofText_print_eq
  rw [SelectText.print_ofConditions (List.cons_ne_nil _ _), String.intercalate_singleton] at hq
  change q = _ at hq
  have hconditions : q.whereConditions = [c.printDouble] := by
    rw [hq, ofStatement, SelectText.body?_where]
    exact clauseParts_conditions hw.conditions
  have hconsistent : q.Consistent := consistent_ofTokens (visible_tokenize _)
  have hread := Cell.ofString?_printDouble h
  refine ⟨hconditions, ?_⟩
  rw [hconsistent.cells, hconditions]
  split at hread
  · next hv => rw [List.filterMap_cons_none hread, if_pos hv]; rfl
  · next hv => rw [List.filterMap_cons_some hread, if_neg hv]; rfl

theorem ofText_printDouble_keywords :
    let c : Cell := ⟨"u.name", "; SELECT \x27 AND -- ("⟩
    PlainColumn c.column.toList ∧ '\x22' ∉ c.value.toList ∧
      (ofText ("SELECT * FROM t WHERE " ++ c.printDouble)).whereCells = [c] := by
  intro c
  have h : PlainColumn c.column.toList := by decide
  have hv : '\x22' ∉ c.value.toList := by decide
  obtain ⟨-, hcells⟩ := ofText_printDouble c h
  rw [if_neg hv] at hcells
  exact ⟨h, hv, hcells⟩

/-- The cell of a condition with a value in double quotes may be missing. -/
theorem not_whereCells_printDouble :
    ¬∀ c : Cell, PlainColumn c.column.toList →
      (ofText ("SELECT * FROM t WHERE " ++ c.printDouble)).whereCells = [c] := by
  intro h
  let c : Cell := ⟨"a", "x\x22y"⟩
  have hc := h c (by decide)
  have hsql : "SELECT * FROM t WHERE " ++ c.printDouble =
      "SELECT * FROM t WHERE a = \x22x\x22\x22y\x22" := by decide
  have hnone : (ofText "SELECT * FROM t WHERE a = \x22x\x22\x22y\x22").whereCells = [] := by
    decide +kernel
  rw [hsql, hnone] at hc
  cases hc

end Query
end SqlWalk
