import SqlWalk.Layout
import SqlWalk.Proofs.Query.Consistency

namespace SqlWalk

variable {a b : TableBox} {tables : List String} {w : Float32} {d : Dimensions} {i columns : Nat}
  {table : String}

namespace TableBox

/-- The order in which boxes are read: row by row, and in a row column by column. -/
def Before (a b : TableBox) : Prop :=
  a.row < b.row ∨ a.row = b.row ∧ a.col < b.col

def cell (b : TableBox) : Nat × Nat :=
  (b.row, b.col)

theorem Before.asymm (h : a.Before b) : ¬b.Before a := by
  simp only [Before] at h ⊢
  omega

theorem Before.cell_ne (h : a.Before b) : a.cell ≠ b.cell := by
  intro heq
  obtain ⟨hrow, hcol⟩ := Prod.mk.inj heq
  rw [Before, hrow, hcol] at h
  omega

theorem before_of_lt (h : a.row * columns + a.col < b.row * columns + b.col)
    (hb : b.col < columns) : a.Before b := by
  rcases Nat.lt_trichotomy a.row b.row with hlt | heq | hgt
  · exact .inl hlt
  · rw [heq] at h
    exact .inr ⟨heq, by omega⟩
  · have hle : (b.row + 1) * columns ≤ a.row * columns := Nat.mul_le_mul_right columns hgt
    rw [Nat.add_one_mul] at hle
    omega

end TableBox

theorem Dimensions.one_le_columnsPerRow (d : Dimensions) (w : Float32) : 1 ≤ d.columnsPerRow w := by
  rw [columnsPerRow]
  split
  · exact Nat.le_max_left _ _
  · exact Nat.le_refl 1

namespace Layout

theorem map_table_ofTables (tables : List String) (w : Float32) (d : Dimensions) :
    (ofTables tables w d).boxes.map (·.table) = tables := by
  simp [ofTables, Function.comp_def]

theorem cell_of_getElem? (h : (ofTables tables w d).boxes[i]? = some b) :
    b.col < d.columnsPerRow w ∧ b.row * d.columnsPerRow w + b.col = i := by
  rw [ofTables, List.getElem?_map, Option.map_eq_some_iff] at h
  obtain ⟨⟨table, j⟩, hj, rfl⟩ := h
  obtain rfl : i = j := by
    rw [List.getElem?_zipIdx, Option.map_eq_some_iff] at hj
    obtain ⟨_, -, heq⟩ := hj
    simpa using congrArg Prod.snd heq
  exact ⟨Nat.mod_lt i (d.one_le_columnsPerRow w), Nat.div_add_mod' i _⟩

theorem pairwise_before (tables : List String) (w : Float32) (d : Dimensions) :
    (ofTables tables w d).boxes.Pairwise TableBox.Before := by
  rw [List.pairwise_iff_getElem]
  intro i j hi hj hlt
  obtain ⟨-, hindex⟩ := cell_of_getElem? (List.getElem?_eq_getElem hi)
  obtain ⟨hcol', hindex'⟩ := cell_of_getElem? (List.getElem?_eq_getElem hj)
  exact TableBox.before_of_lt (by omega) hcol'

theorem eq_of_pairwise_before {boxes : List TableBox}
    (hp : boxes.Perm (ofTables tables w d).boxes) (hb : boxes.Pairwise TableBox.Before) :
    boxes = (ofTables tables w d).boxes :=
  hp.eq_of_pairwise (fun _ _ _ _ hab hba => absurd hba hab.asymm) hb (pairwise_before tables w d)

theorem get?_eq_none_iff {l : Layout} : l.get? table = none ↔ table ∉ l.boxes.map (·.table) := by
  simp [get?]

theorem get?_of_mem {l : Layout} (hl : (l.boxes.map (·.table)).Nodup) (hb : b ∈ l.boxes) :
    l.get? b.table = some (b.x, b.y) := by
  obtain ⟨a, ha⟩ : ∃ a, l.boxes.find? (·.table == b.table) = some a := by
    rw [← Option.isSome_iff_exists, List.find?_isSome]
    exact ⟨b, hb, beq_self_eq_true b.table⟩
  have htable : a.table = b.table := by simpa using List.find?_some ha
  have hab : a = b := List.inj_on_of_nodup_map hl (List.mem_of_find?_eq_some ha) hb htable
  rw [get?, ha, hab]
  rfl

/-- The boxes fill a grid of at least one column row by row, and read so they give the tables back.
A table of a query is found just at its box. -/
theorem grid_ofTables (w : Float32) (d : Dimensions) :
    (∀ tables : List String,
      let l := ofTables tables w d
      1 ≤ l.columnsPerRow ∧ l.boxes.map (·.table) = tables ∧
        (∀ (i : Nat) (b : TableBox), l.boxes[i]? = some b →
          b.col < l.columnsPerRow ∧ b.row * l.columnsPerRow + b.col = i) ∧
        (l.boxes.map TableBox.cell).Nodup ∧ l.boxes.Pairwise TableBox.Before ∧
        ∀ boxes : List TableBox, boxes.Perm l.boxes → boxes.Pairwise TableBox.Before →
          boxes.map (·.table) = tables) ∧
    ∀ text : String,
      let q := Query.ofText text
      let l := ofTables q.tables w d
      (∀ (i : Nat) (t : String), q.tables[i]? = some t →
        ∃ b : TableBox, l.boxes[i]? = some b ∧ b.table = t ∧ l.get? t = some (b.x, b.y)) ∧
      ∀ t, t ∉ q.tables → l.get? t = none := by
  refine ⟨?_, ?_⟩
  · intro tables l
    have htables : l.boxes.map (·.table) = tables := map_table_ofTables tables w d
    have hbefore : l.boxes.Pairwise TableBox.Before := pairwise_before tables w d
    refine ⟨d.one_le_columnsPerRow w, htables, fun i b => cell_of_getElem?, ?_, hbefore, ?_⟩
    · exact List.pairwise_map.2 (hbefore.imp TableBox.Before.cell_ne)
    · intro boxes hp hb
      rw [eq_of_pairwise_before hp hb, htables]
  · intro text q l
    have htables : l.boxes.map (·.table) = q.tables := map_table_ofTables q.tables w d
    have hnodup : (l.boxes.map (·.table)).Nodup := by
      rw [htables]
      exact (Query.consistent_ofTokens (visible_tokenize text.toList)).nodup
    refine ⟨?_, ?_⟩
    · intro i t ht
      rw [← htables, List.getElem?_map, Option.map_eq_some_iff] at ht
      obtain ⟨b, hb, rfl⟩ := ht
      exact ⟨b, hb, rfl, get?_of_mem hnodup (List.mem_of_getElem? hb)⟩
    · intro t ht
      rw [get?_eq_none_iff, htables]
      exact ht

theorem grid_ofTables_two_columns :
    let q := Query.ofText "SELECT * FROM a, b JOIN c ON a.x = c.x"
    let l := ofTables q.tables 440 .standard
    l.columnsPerRow = 2 ∧ l.boxes.map TableBox.cell = [(0, 0), (0, 1), (1, 0)] ∧
      l.boxes.map (·.table) = ["a", "b", "c"] ∧
      (∃ b : TableBox, l.boxes[2]? = some b ∧ b.table = "c" ∧ l.get? "c" = some (b.x, b.y)) ∧
      l.get? "A" = none := by
  intro q l
  have hq : q.tables = ["a", "b", "c"] := by decide +kernel
  obtain ⟨hgrid, hfound⟩ := grid_ofTables 440 .standard
  obtain ⟨-, -, -, -, hbefore, hread⟩ := hgrid q.tables
  obtain ⟨hget, hnone⟩ := hfound "SELECT * FROM a, b JOIN c ON a.x = c.x"
  refine ⟨by decide +kernel, by decide +kernel, ?_, hget 2 "c" (by decide +kernel), ?_⟩
  · rw [← hq]
    exact hread l.boxes (.refl _) hbefore
  · exact hnone "A" (by decide +kernel)

end Layout
end SqlWalk
