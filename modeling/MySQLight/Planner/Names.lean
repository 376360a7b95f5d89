import MySQLight.Planner.Semantics

/-!
What the names of columns refer to.

An expression sees a row only through the columns that it names, and a name
means the first column that has it. So the value of an expression does not
change when columns that it does not name are taken away or put behind the
others.
-/

namespace MySQLight.Planner

open MySQLight.Data MySQLight.Schema MySQLight.Sql

variable {name : Bytes} {names : List Bytes} {columns columns' : List ColumnDef} {row row' : Row}

/-- Some column has the name. -/
def Named (columns : List ColumnDef) (name : Bytes) : Prop := ∃ c ∈ columns, c.name = name

instance : Decidable (Named columns name) :=
  inferInstanceAs (Decidable (∃ c ∈ columns, c.name = name))

theorem evalColumn_cons {c : ColumnDef} {v : Value} (h : row.length = columns.length) :
    evalColumn name (v :: row) (c :: columns) =
      if c.name = name then .ok (cell v c.type) else evalColumn name row columns := by
  rw [evalColumn, evalColumn, colIndex, colIndex, List.findIdx?_cons]
  simp only [decide_eq_true_eq]
  split_ifs with hc
  · rfl
  · cases hindex : columns.findIdx? (·.name = name) with
    | none => rfl
    | some i =>
      have hi : i < columns.length := (List.findIdx?_eq_some_iff_getElem.mp hindex).1
      simp [List.getElem?_eq_getElem hi, List.getElem?_eq_getElem (h.symm ▸ hi)]

theorem evalColumn_of_not_named (h : ¬ Named columns name) :
    evalColumn name row columns = .error (.columnNotFound name) := by
  have hnone : colIndex columns name = none := by
    rw [colIndex, List.findIdx?_eq_none_iff]
    intro c hc
    exact decide_eq_false fun hname => h ⟨c, hc, hname⟩
  rw [evalColumn, hnone]

/-- A name means a column of the first part, if that has one. -/
theorem evalColumn_append (h : row.length = columns.length) (h' : row'.length = columns'.length) :
    evalColumn name (row ++ row') (columns ++ columns') =
      if Named columns name then evalColumn name row columns
      else evalColumn name row' columns' := by
  induction columns generalizing row with
  | nil =>
    obtain rfl := List.length_eq_zero_iff.mp h
    rw [if_neg (by simp [Named])]
    rfl
  | cons c columns ih =>
    obtain ⟨v, row, rfl⟩ := List.exists_cons_of_length_eq_add_one h
    have hrow : row.length = columns.length := Nat.succ.inj h
    have hall : (row ++ row').length = (columns ++ columns').length := by
      rw [List.length_append, List.length_append, hrow, h']
    rw [List.cons_append, List.cons_append, evalColumn_cons hall, evalColumn_cons hrow, ih hrow]
    by_cases hc : c.name = name
    · rw [if_pos hc, if_pos ⟨c, List.mem_cons_self, hc⟩, if_pos hc]
    · have hnamed : Named (c :: columns) name ↔ Named columns name := by simp [Named, hc]
      simp only [if_neg hc, hnamed]

/-- The two rows have the same values under the given names. -/
structure Agrees (names : List Bytes) (columns columns' : List ColumnDef) (row row' : Row) :
    Prop where
  length : row.length = columns.length
  length' : row'.length = columns'.length
  named : ∀ name ∈ names, Named columns' name ↔ Named columns name
  value : ∀ name ∈ names, evalColumn name row' columns' = evalColumn name row columns

theorem named_append {columns₂ : List ColumnDef} :
    Named (columns ++ columns₂) name ↔ Named columns name ∨ Named columns₂ name := by
  simp only [Named, List.mem_append, or_and_right, exists_or]

theorem Agrees.append {columns₂ columns₂' : List ColumnDef} {row₂ row₂' : Row}
    (h : Agrees names columns columns' row row') (h₂ : Agrees names columns₂ columns₂' row₂ row₂') :
    Agrees names (columns ++ columns₂) (columns' ++ columns₂') (row ++ row₂) (row' ++ row₂') where
  length := by rw [List.length_append, List.length_append, h.length, h₂.length]
  length' := by rw [List.length_append, List.length_append, h.length', h₂.length']
  named name hname := by rw [named_append, named_append, h.named name hname, h₂.named name hname]
  value name hname := by
    rw [evalColumn_append h.length' h₂.length', evalColumn_append h.length h₂.length,
      h.value name hname, h₂.value name hname]
    simp only [h.named name hname]

/-! ### Rows with some of their columns -/

theorem restrict_nil : restrict columns [] row = [] := by
  cases columns <;> rfl

theorem restrict_cons_of_notMem {c : ColumnDef} {v : Value} {kept : List ColumnDef}
    (hc : c ∉ kept) : restrict (c :: columns) kept (v :: row) = restrict columns kept row := by
  cases kept with
  | nil => rw [restrict_nil, restrict_nil]
  | cons k kept =>
    rw [restrict, if_neg]
    rintro rfl
    exact hc List.mem_cons_self

/-- Columns can go whose names do not count. -/
theorem agrees_restrict_filter {p : ColumnDef → Bool} (hrow : row.length = columns.length)
    (hp : ∀ c ∈ columns, c.name ∈ names → p c) :
    Agrees names columns (columns.filter p) row (restrict columns (columns.filter p) row) := by
  induction columns generalizing row with
  | nil =>
    obtain rfl := List.length_eq_zero_iff.mp hrow
    exact ⟨rfl, rfl, fun _ _ => Iff.rfl, fun _ _ => rfl⟩
  | cons c columns ih =>
    obtain ⟨v, row, rfl⟩ := List.exists_cons_of_length_eq_add_one hrow
    have hrow : row.length = columns.length := Nat.succ.inj hrow
    obtain ⟨hc, hcolumns⟩ := List.forall_mem_cons.mp hp
    have ih := ih hrow hcolumns
    by_cases hpc : p c
    · rw [List.filter_cons_of_pos hpc, restrict, if_pos rfl]
      have hone : Agrees names [c] [c] [v] [v] :=
        ⟨rfl, rfl, fun _ _ => Iff.rfl, fun _ _ => rfl⟩
      exact hone.append ih
    · rw [List.filter_cons_of_neg hpc,
        restrict_cons_of_notMem fun h => hpc (List.mem_filter.mp h).2]
      have hne : ∀ name ∈ names, c.name ≠ name := by
        rintro name hname rfl
        exact hpc (hc hname)
      refine ⟨congrArg (· + 1) ih.length, ih.length', fun name hname => ?_, fun name hname => ?_⟩
      · rw [ih.named name hname]
        simp [Named, hne name hname]
      · rw [ih.value name hname, evalColumn_cons hrow, if_neg (hne name hname)]

theorem agrees_restrict_kept (hrow : row.length = columns.length) :
    Agrees names columns (keptColumns names columns) row
      (restrict columns (keptColumns names columns) row) := by
  have hp : ∀ c ∈ columns, c.name ∈ names → (c.primaryKey || c.name ∈ names) = true :=
    fun c _ hc => by simp [hc]
  rw [keptColumns]
  split_ifs with hempty
  · have hnone : ∀ name ∈ names, ∀ columns' ⊆ columns, ¬ Named columns' name := by
      rintro name hname columns' hsub ⟨c, hc, rfl⟩
      exact List.filter_eq_nil_iff.mp hempty c (hsub hc) (hp c (hsub hc) hname)
    have hlength : (restrict columns (columns.take 1) row).length = (columns.take 1).length := by
      cases columns with
      | nil => rfl
      | cons c columns =>
        obtain ⟨v, row, rfl⟩ := List.exists_cons_of_length_eq_add_one hrow
        rw [List.take_succ_cons, List.take_zero, restrict, if_pos rfl, restrict_nil]
        rfl
    refine ⟨hrow, hlength, fun name hname => ?_, fun name hname => ?_⟩
    · exact iff_of_false (hnone name hname _ (List.take_subset ..))
        (hnone name hname _ (List.Subset.refl _))
    · rw [evalColumn_of_not_named (hnone name hname _ (List.take_subset ..)),
        evalColumn_of_not_named (hnone name hname _ (List.Subset.refl _))]
  · exact agrees_restrict_filter hrow hp

theorem restrict_self (hrow : row.length = columns.length) :
    restrict columns columns row = row := by
  induction columns generalizing row with
  | nil => exact (List.length_eq_zero_iff.mp hrow).symm
  | cons c columns ih =>
    obtain ⟨v, row, rfl⟩ := List.exists_cons_of_length_eq_add_one hrow
    rw [restrict, if_pos rfl, ih (Nat.succ.inj hrow)]

/-! ### Expressions -/

theorem evalExpr_of_agrees (h : Agrees names columns columns' row row') :
    (expr : Expr) → collectColumnNames expr ⊆ names →
      evalExpr expr row' columns' = evalExpr expr row columns
  | .literal .., _ => rfl
  | .columnRef _ column, hexpr => h.value column (hexpr List.mem_cons_self)
  | .binaryExpr left op right, hexpr => by
      rw [collectColumnNames, List.append_subset] at hexpr
      rw [evalExpr, evalExpr, evalExpr_of_agrees h left hexpr.1, evalExpr_of_agrees h right hexpr.2]
  | .unaryExpr op operand, hexpr => by
      rw [collectColumnNames] at hexpr
      rw [evalExpr, evalExpr, evalExpr_of_agrees h operand hexpr]
  | .funcCall .., _ => rfl
  | .starExpr, _ => rfl

end MySQLight.Planner
