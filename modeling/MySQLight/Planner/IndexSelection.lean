import Mathlib.Data.Multiset.Basic
import MySQLight.Executor.Reference
import MySQLight.Planner.Semantics

/-!
Index selection keeps the rows of a plan if no row is on a strict bound.

A filter over a scan is replaced by an index scan as a whole. The bounds of
an index scan include their value, so `>` and `<` come back as `>=` and
`<=`: the rows whose column is equal to the literal are in the result after
the pass and not before it.
-/

namespace MySQLight.Planner

open MySQLight.Data MySQLight.Schema MySQLight.Effect MySQLight.Sql

/-! ### Comparisons -/

/-- The comparisons that an index can answer. -/
def isBound (op : BinaryOp) : Bool := op ∈ [.eq, .lt, .gt, .le, .ge]

/-- The comparison that a bound stands for. -/
def included : BinaryOp → BinaryOp
  | .gt => .ge
  | .lt => .le
  | op => op

variable {op : BinaryOp} {node : LogicalNode}

theorem comparison_flipped (hop : isBound op) (x y : Datum) :
    comparison op x y = comparison (flipped op) y x := by
  have htexts : ∀ a b : Bytes, (compareBytes a b = .lt ↔ compareBytes b a = .gt) :=
    fun a b => compareBytes_eq_lt.trans compareBytes_eq_gt.symm
  unfold comparison
  generalize toFloat64 x = fx, toFloat64 y = fy
  cases op with
  | eq | lt | gt | le | ge =>
    rcases fx with _ | a <;> rcases fy with _ | b <;>
      simp [flipped, Float64.eq_symm, htexts, eq_comm]
  | _ => cases hop

/-- A strict comparison is the one that includes the value, without it. -/
theorem comparison_of_strict (hop : op = .lt ∨ op = .gt) (x y : Datum) :
    comparison op x y = (comparison (included op) x y && !comparison .eq x y) := by
  have hbelow : ∀ a b : Bytes, (compareBytes a b = .lt ↔ compareBytes a b ≠ .gt ∧ a ≠ b) := by
    intro a b
    rw [Ne, Ne, ← compareBytes_eq_eq]
    cases compareBytes a b <;> decide
  have habove : ∀ a b : Bytes, (compareBytes a b = .gt ↔ compareBytes a b ≠ .lt ∧ a ≠ b) := by
    intro a b
    rw [Ne, Ne, ← compareBytes_eq_eq]
    cases compareBytes a b <;> decide
  unfold comparison
  generalize toFloat64 x = fx, toFloat64 y = fy
  obtain rfl | rfl := hop
  · rcases fx with _ | a <;> rcases fy with _ | b <;>
      simp [included, Float64.lt_eq_le_and_not_eq, hbelow]
  · rcases fx with _ | a <;> rcases fy with _ | b <;>
      simp [included, Float64.lt_eq_le_and_not_eq, habove, Float64.eq_symm]

theorem comparison_of_eq (hop : op = .lt ∨ op = .gt) {x y : Datum} (h : comparison .eq x y) :
    comparison (included op) x y := by
  unfold comparison at h ⊢
  generalize toFloat64 x = fx, toFloat64 y = fy at h ⊢
  have hprint : ∀ a b : Bytes, a = b → compareBytes a b = .eq := fun a b => compareBytes_eq_eq.mpr
  obtain rfl | rfl := hop
  · rcases fx with _ | a <;> rcases fy with _ | b
    case some.some => exact Float64.le_of_eq h
    all_goals simp [included, hprint _ _ (of_decide_eq_true h)]
  · rcases fx with _ | a <;> rcases fy with _ | b
    case some.some => exact Float64.le_of_eq (Float64.eq_symm a b ▸ h)
    all_goals simp [included, hprint _ _ (of_decide_eq_true h)]

/-- Neither value is NULL, and they compare. -/
def compares (op : BinaryOp) (x y : Datum) : Bool := x ≠ .null && y ≠ .null && comparison op x y

theorem compares_of_strict (hop : op = .lt ∨ op = .gt) (x y : Datum) :
    compares op x y = (compares (included op) x y && !compares .eq x y) := by
  rw [compares, compares, compares, comparison_of_strict hop]
  cases decide (x ≠ .null) <;> cases decide (y ≠ .null) <;> rfl

theorem compares_of_eq (hop : op = .lt ∨ op = .gt) {x y : Datum} (h : compares .eq x y) :
    compares (included op) x y := by
  rw [compares, Bool.and_eq_true] at h ⊢
  exact ⟨h.1, comparison_of_eq hop h.2⟩

theorem isComparison_of_isBound (hop : isBound op) : isComparison op := by
  cases op with
  | eq | lt | gt | le | ge => rfl
  | _ => cases hop

/-! ### Predicates that fit an index -/

/-- `column op literal`. -/
def compared (column : Bytes) (op : BinaryOp) (kind : LiteralKind) (value : Bytes) : Expr :=
  .binaryExpr (.columnRef [] column) op (.literal kind value)

/-- The predicate is `column op literal`, one way round or the other. -/
inductive IsComparison (column : Bytes) (op : BinaryOp) (kind : LiteralKind) (value : Bytes) :
    Expr → Prop
  | plain (table : Bytes) :
      IsComparison column op kind value
        (.binaryExpr (.columnRef table column) op (.literal kind value))
  | flipped (table : Bytes) :
      IsComparison column op kind value
        (.binaryExpr (.literal kind value) (flipped op) (.columnRef table column))

variable {column : Bytes} {op : BinaryOp} {kind : LiteralKind} {value : Bytes} {predicate : Expr}
  {columns : List ColumnDef} {row : Row}

theorem flipped_flipped (op : BinaryOp) : flipped (flipped op) = op := by
  cases op <;> rfl

theorem IsComparison.unique {column' : Bytes} {op' : BinaryOp} {kind' : LiteralKind}
    {value' : Bytes} (h : IsComparison column op kind value predicate)
    (h' : IsComparison column' op' kind' value' predicate) :
    column' = column ∧ op' = op ∧ kind' = kind ∧ value' = value := by
  cases h with
  | plain table =>
    cases h'
    exact ⟨rfl, rfl, rfl, rfl⟩
  | flipped table =>
    generalize hflip : Planner.flipped op = o at h'
    cases h'
    refine ⟨rfl, ?_, rfl, rfl⟩
    rw [← flipped_flipped op, hflip, flipped_flipped]

theorem isBound_flipped (hop : isBound op) : isBound (flipped op) := by
  cases op with
  | eq | lt | gt | le | ge => rfl
  | _ => cases hop

theorem isBound_included (hop : isBound op) : isBound (included op) := by
  cases op with
  | eq | lt | gt | le | ge => rfl
  | _ => cases hop

theorem indexBounds_eq_of_not_isBound (hop : ¬ isBound op) (literal : Expr) :
    indexBounds column op literal = {} := by
  cases op with
  | eq | lt | gt | le | ge => exact absurd rfl hop
  | _ => rfl

theorem isComparison_of_extract (h : (extractIndexPredicate predicate).columnName ≠ []) :
    ∃ column op kind value, isBound op ∧ IsComparison column op kind value predicate ∧
      extractIndexPredicate predicate = indexBounds column op (.literal kind value) := by
  rw [extractIndexPredicate.eq_def] at h ⊢
  split at h
  · next table column op kind value =>
      refine ⟨column, op, kind, value, ?_, .plain table, rfl⟩
      by_contra hop
      rw [indexBounds_eq_of_not_isBound hop] at h
      exact h rfl
  · next kind value op table column =>
      refine ⟨column, flipped op, kind, value, ?_, ?_, rfl⟩
      · by_contra hop
        rw [indexBounds_eq_of_not_isBound hop] at h
        exact h rfl
      · have hflipped : IsComparison column (flipped op) kind value
            (.binaryExpr (.literal kind value) (flipped (flipped op)) (.columnRef table column)) :=
          .flipped table
        rwa [flipped_flipped] at hflipped
  · exact absurd rfl h

/-- What an index scan asks of a row. -/
theorem indexConditions_indexBounds (hop : isBound op) :
    let bounds := indexBounds column op (.literal kind value)
    indexConditions bounds.columnName bounds.exact bounds.low bounds.high =
      [compared column (included op) kind value] := by
  cases op with
  | eq | lt | gt | le | ge => rfl
  | _ => cases hop

/-! ### Rows that meet a comparison -/

/-- Errors that need not be the same. -/
abbrev AnyErr (_ _ : ExecErr) : Prop := True

instance : Std.Refl AnyErr := ⟨fun _ => trivial⟩

instance : Std.Symm AnyErr := ⟨fun _ _ _ => trivial⟩

/-- What a filter makes of the value of a comparison. -/
theorem decide_applied (hop : isBound op) (x y : Datum) :
    (match applyBinaryOp op x y with
      | .error e => .error (.eval e)
      | .ok d => .ok (decide (d = .bool true)) : Except ExecErr Bool) = .ok (compares op x y) := by
  rw [applyBinaryOp_of_isComparison (isComparison_of_isBound hop), compares]
  by_cases hx : x = .null
  · simp [hx]
  · by_cases hy : y = .null <;> simp [hx, hy]

theorem holds_compared (hop : isBound op) :
    holds (compared column op kind value) columns row =
      (do return compares op (← evalColumn column row columns) (← evalLiteral kind value) :
        Except EvalErr Bool).mapError .eval := by
  rw [holds, compared, evalExpr, evalExpr, evalExpr]
  cases evalColumn column row columns with
  | error e => rfl
  | ok x =>
    cases evalLiteral kind value with
    | error e => rfl
    | ok y => exact decide_applied hop x y

/-- The two ways round are the same, except for which error comes first. -/
theorem alike_holds (hop : isBound op) (h : IsComparison column op kind value predicate) :
    Alike AnyErr Eq (holds predicate columns row)
      (holds (compared column op kind value) columns row) := by
  cases h with
  | plain table => exact .of_eq rfl
  | flipped table =>
    rw [holds_compared hop, holds, evalExpr, evalExpr, evalExpr]
    cases evalColumn column row columns with
    | error e =>
      cases evalLiteral kind value with
      | error e' => exact .error trivial
      | ok y => exact .error trivial
    | ok x =>
      cases evalLiteral kind value with
      | error e => exact .error trivial
      | ok y =>
        refine .of_eq ((decide_applied (isBound_flipped hop) y x).trans ?_)
        rw [compares, comparison_flipped (isBound_flipped hop), flipped_flipped,
          Bool.and_comm (decide (y ≠ .null))]
        rfl

theorem isTrue_iff_holds :
    Sql.isTrue predicate columns row ↔ holds predicate columns row = .ok true := by
  rw [Sql.isTrue, holds]
  cases evalExpr predicate row columns with
  | error e => simp
  | ok d => cases d <;> simp

/-- A reference fails on all rows of one length, or on none. -/
theorem evalColumn_eq_error {row' : Row} {e : EvalErr} (hlength : row'.length = row.length)
    (h : evalColumn column row columns = .error e) :
    evalColumn column row' columns = .error e := by
  rw [evalColumn] at h ⊢
  cases hindex : colIndex columns column with
  | none =>
    rw [hindex] at h
    exact h
  | some index =>
    rw [hindex] at h
    have hcolumn : index < columns.length := (List.findIdx?_eq_some_iff_getElem.mp hindex).1
    by_cases hlt : index < row.length
    · simp [hlt, hcolumn] at h
    · have hlt' : ¬ index < row'.length := hlength ▸ hlt
      simp only [List.getElem?_eq_none (not_lt.mp hlt)] at h
      simpa only [List.getElem?_eq_none (not_lt.mp hlt'), hlength] using h

/-- A comparison fails on all rows of one length, or on none. -/
theorem holds_compared_cases {rows : List Row} {n : Nat} (hrows : ∀ row ∈ rows, row.length = n)
    (column : Bytes) (kind : LiteralKind) (value : Bytes) (columns : List ColumnDef) :
    (∀ op, isBound op → ∀ row ∈ rows, ∃ e,
      holds (compared column op kind value) columns row = .error e) ∨
    ∃ (x : Row → Datum) (y : Datum), ∀ op, isBound op → ∀ row ∈ rows,
      holds (compared column op kind value) columns row = .ok (compares op (x row) y) := by
  by_cases hfails : ∃ row ∈ rows, ∃ e, evalColumn column row columns = .error e
  · obtain ⟨row, hrow, e, he⟩ := hfails
    refine .inl fun op hop row' hrow' => ⟨.eval e, ?_⟩
    have he' := evalColumn_eq_error ((hrows row' hrow').trans (hrows row hrow).symm) he
    rw [holds_compared hop, he']
    rfl
  · have hvalue : ∀ row ∈ rows, ∃ x, evalColumn column row columns = .ok x := by
      intro row hrow
      cases hx : evalColumn column row columns with
      | error e => exact absurd ⟨row, hrow, e, hx⟩ hfails
      | ok x => exact ⟨x, rfl⟩
    cases hy : evalLiteral kind value with
    | error e =>
      refine .inl fun op hop row hrow => ⟨.eval e, ?_⟩
      obtain ⟨x, hx⟩ := hvalue row hrow
      rw [holds_compared hop, hx, hy]
      rfl
    | ok y =>
      refine .inr ⟨fun row => (evalColumn column row columns).toOption.getD .null, y, ?_⟩
      intro op hop row hrow
      obtain ⟨x, hx⟩ := hvalue row hrow
      rw [holds_compared hop]
      dsimp only
      rw [hx, hy]
      rfl

/-! ### Operators up to errors -/

/-- The same rows, or an error in both. -/
def Similar (o o' : Cursor) : Prop := Alike AnyErr (Stream.Rel (fun _ => True) AnyErr Eq) o o'

namespace Similar

variable {o o' o₂ o₂' : Cursor}

theorem refl (o : Cursor) : Similar o o := by
  cases o with
  | error e => exact .error trivial
  | ok v => exact .ok (.refl v)

theorem filter (h : Similar o o') (predicate : Expr) (columns : List ColumnDef) :
    Similar (o.filter predicate columns) (o'.filter predicate columns) :=
  h.bind fun _ _ hv => .ok (hv.filterMap_alike fun _ => .of_eq rfl)

theorem project (h : Similar o o') (exprs : List Expr) (columns : List ColumnDef) :
    Similar (o.project exprs columns) (o'.project exprs columns) :=
  h.bind fun _ _ hv => .ok (hv.filterMap_alike fun _ => .of_eq rfl)

theorem join (h : Similar o o') (h₂ : Similar o₂ o₂') (condition : Option Expr)
    (columns : List ColumnDef) :
    Similar (o.join o₂ condition columns) (o'.join o₂' condition columns) := by
  refine h.bind fun v v' hv => h₂.bind fun w w' hw => ?_
  have hpairs : (v.flatMap fun row => w.filterMap (combine condition columns row)).Rel
      (fun _ => True) AnyErr Eq
      (v'.flatMap fun row => w'.filterMap (combine condition columns row)) := by
    refine hv.flatMap fun row row' hrow => ?_
    subst hrow
    exact hw.filterMap_alike fun _ => .of_eq rfl
  cases v with
  | done =>
    obtain rfl := hv
    exact .ok hpairs
  | fail e =>
    obtain ⟨e', rfl, he⟩ := hv
    exact .error he
  | emit a rest =>
    obtain ⟨b, rest', rfl, -, -⟩ := hv
    exact .ok hpairs
  | call o => exact o.elim

theorem limit (h : Similar o o') (n : Int) : Similar (o.limit n) (o'.limit n) :=
  h.bind fun _ _ hv => .ok (hv.take _)

theorem rows (h : Similar o o') : Alike AnyErr Eq o.rows o'.rows :=
  h.bind fun _ _ hv => hv.drain

theorem sort (h : Similar o o') (orderBy : List OrderClause) (columns : List ColumnDef) :
    Similar (o.sort orderBy columns) (o'.sort orderBy columns) := by
  refine h.rows.bind fun rows rows' hrows => .ok ?_
  subst hrows
  exact .refl _

theorem aggregate (h : Similar o o') (groupBy exprs : List Expr) (columns : List ColumnDef) :
    Similar (o.aggregate groupBy exprs columns) (o'.aggregate groupBy exprs columns) := by
  refine h.bind fun v v' hv =>
    (hv.collect (Q := Eq) (fun groups groups' row row' hgroups hrow => ?_)
    rfl).bind fun groups groups' hgroups => ?_
  · subst hgroups hrow
    exact .of_eq rfl
  · subst hgroups
    exact Similar.refl _

end Similar

/-! ### A filter over a scan -/

/-- The rows of a plan, in any order. There is no result if an operator
returns an error. -/
def LogicalNode.result {catalog : Catalog} (tables : Contents catalog) (node : LogicalNode) :
    Option (Multiset Row) :=
  (node.opened tables.scan).rows.toOption.map (↑)

/-- The table has an index on the column that the predicate compares. -/
def Indexed (catalog : Catalog) (table : Bytes) (predicate : Expr) : Prop :=
  (extractIndexPredicate predicate).columnName ≠ [] ∧
    ∃ indexes, catalog.indexesForTable table = .ok indexes ∧
      ∃ d ∈ indexes, d.columnName = (extractIndexPredicate predicate).columnName

/-- The predicate is a strict comparison, and the column of a row is equal to
the literal. -/
def OnBound {catalog : Catalog} (tables : Contents catalog) (table : Bytes)
    (columns : List ColumnDef) (predicate : Expr) : Prop :=
  ∃ column op kind value, (op = .lt ∨ op = .gt) ∧ IsComparison column op kind value predicate ∧
    ∃ row ∈ tables.scanned table columns,
      Sql.isTrue (compared column .eq kind value) columns row

variable {catalog : Catalog} {tables : Contents catalog} {table : Bytes}

theorem length_restrict {kept : List ColumnDef} {row' : Row} (h : row.length = row'.length) :
    (restrict columns kept row).length = (restrict columns kept row').length := by
  induction columns generalizing kept row row' with
  | nil => rfl
  | cons c columns ih =>
    cases kept with
    | nil => rfl
    | cons k kept =>
      cases row with
      | nil => rw [List.length_eq_zero_iff.mp h.symm]
      | cons v row =>
        obtain ⟨v', row', rfl⟩ := List.exists_cons_of_length_eq_add_one h.symm
        have h : row.length = row'.length := Nat.succ.inj h
        rw [restrict, restrict]
        split_ifs with hc
        · exact congrArg (· + 1) (ih h)
        · exact ih h

theorem length_scanned (tables : Contents catalog) (table : Bytes) (columns : List ColumnDef) :
    ∃ n, ∀ row ∈ tables.scanned table columns, row.length = n := by
  refine ⟨(restrict (tableColumns catalog table) columns
    (List.replicate (tableColumns catalog table).length .null)).length, fun row hrow => ?_⟩
  obtain ⟨row, hstored, rfl⟩ := List.mem_map.mp hrow
  exact length_restrict (by rw [tables.parallel table row hstored, List.length_replicate])

theorem indexSelection_filter_scan (catalog : Catalog) (table : Bytes) (columns : List ColumnDef)
    (predicate : Expr) :
    indexSelection catalog (.filter (.scan table columns) predicate) =
      selectIndex catalog (.scan table columns) predicate :=
  rfl

theorem selectIndex_scan (columns : List ColumnDef) (h : Indexed catalog table predicate) :
    ∃ index, selectIndex catalog (.scan table columns) predicate =
      .indexScan table index (extractIndexPredicate predicate).columnName columns
        (extractIndexPredicate predicate).exact (extractIndexPredicate predicate).low
        (extractIndexPredicate predicate).high := by
  obtain ⟨hcolumn, indexes, hindexes, d, hd, hname⟩ := h
  obtain ⟨d', hfind⟩ : ∃ d', indexes.find?
      (·.columnName = (extractIndexPredicate predicate).columnName) = some d' := by
    rw [← Option.isSome_iff_exists, List.find?_isSome]
    exact ⟨d, hd, decide_eq_true hname⟩
  refine ⟨d'.name, ?_⟩
  rw [selectIndex]
  simp only [if_neg hcolumn, hindexes, hfind]

/-- The index scan that replaces a filter asks for one comparison. -/
theorem opened_indexSelection_scan (tables : Contents catalog) (columns : List ColumnDef)
    (h : Indexed catalog table predicate) :
    ∃ column op kind value, isBound op ∧ IsComparison column op kind value predicate ∧
      ((indexSelection catalog (.filter (.scan table columns) predicate)).opened tables.scan =
        (tables.scan table columns).filter (compared column (included op) kind value) columns) := by
  obtain ⟨column, op, kind, value, hop, hpredicate, hextract⟩ := isComparison_of_extract h.1
  refine ⟨column, op, kind, value, hop, hpredicate, ?_⟩
  obtain ⟨index, hpass⟩ := selectIndex_scan columns h
  rw [indexSelection_filter_scan, hpass, LogicalNode.opened, hextract,
    indexConditions_indexBounds hop]
  rfl

theorem selectIndex_scan_of_not (columns : List ColumnDef)
    (h : ¬ Indexed catalog table predicate) :
    selectIndex catalog (.scan table columns) predicate =
      .filter (.scan table columns) predicate := by
  rw [selectIndex]
  split_ifs with hcolumn
  · rfl
  · cases hindexes : catalog.indexesForTable table with
    | error e => rfl
    | ok indexes =>
      have hfind : indexes.find?
          (·.columnName = (extractIndexPredicate predicate).columnName) = none := by
        refine List.find?_eq_none.mpr fun d hd hname => h ⟨hcolumn, indexes, hindexes, d, hd, ?_⟩
        exact of_decide_eq_true hname
      simp only [hfind]

theorem rows_filter_scan {b : Row → Bool}
    (h : ∀ row ∈ tables.scanned table columns, holds predicate columns row = .ok (b row)) :
    ((tables.scan table columns).filter predicate columns).rows =
      .ok ((tables.scanned table columns).filter b) := by
  have hkeep : ∀ row ∈ tables.scanned table columns,
      keepRow predicate columns row = .ok (Option.guard b row) := by
    intro row hrow
    rw [keepRow, h row hrow]
    rfl
  refine (Stream.drain_filterMap_of_ok hkeep).trans ?_
  rw [List.filterMap_eq_filter]

theorem Similar.result {node' : LogicalNode}
    (h : Similar (node.opened tables.scan) (node'.opened tables.scan)) :
    node.result tables = node'.result tables := by
  rw [LogicalNode.result, LogicalNode.result]
  generalize hx : (node.opened tables.scan).rows = x, hy : (node'.opened tables.scan).rows = y
  have hrows : Alike AnyErr Eq x y := hx ▸ hy ▸ h.rows
  cases hrows with
  | error h => rfl
  | ok h => rw [h]

theorem similar_filter_scan {predicate' : Expr}
    (h : ∀ row ∈ tables.scanned table columns,
      Alike AnyErr Eq (holds predicate columns row) (holds predicate' columns row)) :
    Similar ((tables.scan table columns).filter predicate columns)
      ((tables.scan table columns).filter predicate' columns) := by
  have hrows : (Stream.ofList (tables.scanned table columns) : Delivery ExecErr Row).Rel
      (fun _ => True) AnyErr (fun row row' => row = row' ∧ row ∈ tables.scanned table columns)
      (.ofList (tables.scanned table columns)) :=
    .ofList (List.forall₂_same.mpr fun row hrow => ⟨rfl, hrow⟩)
  refine .ok (hrows.filterMap ?_)
  rintro row _ ⟨rfl, hrow⟩
  refine (h row hrow).bind fun b b' hb => .ok ?_
  subst hb
  cases b with
  | true => exact .some rfl
  | false => exact .none

/-- Away from the bound the comparison may include it. -/
theorem holds_included (hop : isBound op)
    (h : op = .lt ∨ op = .gt → ¬ Sql.isTrue (compared column .eq kind value) columns row) :
    holds (compared column (included op) kind value) columns row =
      holds (compared column op kind value) columns row := by
  by_cases hstrict : op = .lt ∨ op = .gt
  · have hne := h hstrict
    rw [isTrue_iff_holds, holds_compared (by rfl)] at hne
    rw [holds_compared hop, holds_compared (isBound_included hop)]
    cases hx : evalColumn column row columns with
    | error e => rfl
    | ok x =>
      cases hy : evalLiteral kind value with
      | error e => rfl
      | ok y =>
        rw [hx, hy] at hne
        have hne : compares .eq x y = false := by
          cases hcompares : compares .eq x y with
          | false => rfl
          | true => exact absurd (congrArg Except.ok hcompares) hne
        show Except.ok _ = Except.ok _
        rw [compares_of_strict hstrict, hne]
        simp
  · have hsame : included op = op := by
      cases op with
      | lt | gt => simp at hstrict
      | _ => rfl
    rw [hsame]

/-- Without a row on a strict bound an index scan delivers what the filter
delivers. -/
theorem similar_indexSelection_scan
    (h : Indexed catalog table predicate → ¬ OnBound tables table columns predicate) :
    Similar ((indexSelection catalog (.filter (.scan table columns) predicate)).opened tables.scan)
      ((LogicalNode.filter (.scan table columns) predicate).opened tables.scan) := by
  by_cases hindexed : Indexed catalog table predicate
  · obtain ⟨column, op, kind, value, hop, hpredicate, hpass⟩ :=
      opened_indexSelection_scan tables columns hindexed
    rw [hpass]
    refine similar_filter_scan fun row hrow => ?_
    have hincluded : holds (compared column (included op) kind value) columns row =
        holds (compared column op kind value) columns row := by
      refine holds_included hop fun hstrict htrue => h hindexed ?_
      exact ⟨column, op, kind, value, hstrict, hpredicate, row, hrow, htrue⟩
    rw [hincluded]
    exact (alike_holds hop hpredicate).symm
  · rw [indexSelection_filter_scan, selectIndex_scan_of_not columns hindexed]
    exact .refl _

/-- A row on a strict bound is in the result of the index scan only. -/
theorem result_of_onBound (hindexed : Indexed catalog table predicate)
    (h : OnBound tables table columns predicate) :
    (indexSelection catalog (.filter (.scan table columns) predicate)).result tables ≠
      (LogicalNode.filter (.scan table columns) predicate).result tables := by
  obtain ⟨column, op, kind, value, hstrict, hpredicate, row, hrow, htrue⟩ := h
  obtain ⟨column', op', kind', value', hop, hpredicate', hpass⟩ :=
    opened_indexSelection_scan tables columns hindexed
  obtain ⟨rfl, rfl, rfl, rfl⟩ := hpredicate.unique hpredicate'
  have hbefore : (LogicalNode.filter (.scan table columns) predicate).result tables =
      (LogicalNode.filter (.scan table columns)
        (compared column' op' kind' value')).result tables :=
    Similar.result (similar_filter_scan fun row _ => alike_holds hop hpredicate)
  obtain ⟨n, hlength⟩ := length_scanned tables table columns
  rw [isTrue_iff_holds] at htrue
  obtain hfails | ⟨x, y, hvalues⟩ := holds_compared_cases hlength column' kind' value' columns
  · obtain ⟨e, he⟩ := hfails .eq rfl row hrow
    exact absurd (he.symm.trans htrue) nofun
  · have hequal : compares .eq (x row) y :=
      Except.ok.inj ((hvalues .eq rfl row hrow).symm.trans htrue)
    have hrows : (LogicalNode.filter (.scan table columns)
        (compared column' op' kind' value')).result tables =
        some ↑((tables.scanned table columns).filter fun row => compares op' (x row) y) :=
      congrArg (Option.map _ ∘ Except.toOption) (rows_filter_scan (hvalues op' hop))
    intro hsame
    rw [hbefore, hrows, LogicalNode.result, hpass,
      rows_filter_scan (hvalues _ (isBound_included hop))] at hsame
    have hperm := Multiset.coe_eq_coe.mp (Option.some.inj hsame)
    have hmem := hperm.mem_iff.mp (List.mem_filter.mpr ⟨hrow, compares_of_eq hstrict hequal⟩)
    rw [List.mem_filter, compares_of_strict hstrict, hequal] at hmem
    simp at hmem

/-- No filter that an index scan replaces has a row on its bound. -/
def BoundsFree {catalog : Catalog} (tables : Contents catalog) : LogicalNode → Prop
  | .scan .. | .indexScan .. => True
  | .filter child predicate =>
    BoundsFree tables child ∧ ∀ table columns, child = .scan table columns →
      Indexed catalog table predicate → ¬ OnBound tables table columns predicate
  | .join left right _ => BoundsFree tables left ∧ BoundsFree tables right
  | .project child _ | .aggregate child _ _ | .sort child _ | .limit child _ =>
    BoundsFree tables child

/-- What the pass makes of a filter. -/
theorem selectIndex_cases (catalog : Catalog) (child : LogicalNode) (predicate : Expr) :
    selectIndex catalog child predicate = .filter child predicate ∨
      ∃ table columns index column exact low high, child = .scan table columns ∧
        selectIndex catalog child predicate =
          .indexScan table index column columns exact low high := by
  cases child with
  | scan table columns =>
    by_cases hindexed : Indexed catalog table predicate
    · obtain ⟨index, hpass⟩ := selectIndex_scan columns hindexed
      exact .inr ⟨table, columns, index, _, _, _, _, rfl, hpass⟩
    · exact .inl (selectIndex_scan_of_not columns hindexed)
  | _ => exact .inl rfl

theorem columns_indexSelection (catalog : Catalog) (node : LogicalNode) :
    (indexSelection catalog node).columns = node.columns := by
  induction node with
  | scan | indexScan => rfl
  | filter child predicate ih =>
    rw [indexSelection, LogicalNode.columns, ← ih]
    obtain h | ⟨table, columns, _, _, _, _, _, hchild, h⟩ :=
      selectIndex_cases catalog (indexSelection catalog child) predicate
    · rw [h, LogicalNode.columns]
    · rw [h, hchild]
      rfl
  | join left right condition ihl ihr =>
    rw [indexSelection, LogicalNode.columns, ihl, ihr, LogicalNode.columns]
  | project child exprs ih =>
    rw [indexSelection, LogicalNode.columns, ih, LogicalNode.columns]
  | aggregate child groupBy aggs ih =>
    rw [indexSelection, LogicalNode.columns, ih, LogicalNode.columns]
  | sort child orderBy ih | limit child n ih => exact ih

/-- The pass makes no scan of anything else. -/
theorem eq_scan_of_indexSelection (h : indexSelection catalog node = .scan table columns) :
    node = .scan table columns := by
  cases node with
  | scan => exact h
  | filter child predicate =>
    rw [indexSelection] at h
    obtain hfilter | ⟨_, _, _, _, _, _, _, _, hindex⟩ :=
      selectIndex_cases catalog (indexSelection catalog child) predicate
    · exact absurd (hfilter.symm.trans h) nofun
    · exact absurd (hindex.symm.trans h) nofun
  | _ => cases h

theorem indexSelection_filter {child : LogicalNode}
    (h : ∀ table columns, child ≠ .scan table columns) :
    indexSelection catalog (.filter child predicate) =
      .filter (indexSelection catalog child) predicate := by
  rw [indexSelection]
  obtain hfilter | ⟨table, columns, _, _, _, _, _, hscan, -⟩ :=
    selectIndex_cases catalog (indexSelection catalog child) predicate
  · exact hfilter
  · exact absurd (eq_scan_of_indexSelection hscan) (h table columns)

theorem similar_indexSelection (h : BoundsFree tables node) :
    Similar ((indexSelection catalog node).opened tables.scan) (node.opened tables.scan) := by
  induction node with
  | scan | indexScan => exact .refl _
  | filter child predicate ih =>
    by_cases hscan : ∃ table columns, child = .scan table columns
    · obtain ⟨table, columns, rfl⟩ := hscan
      exact similar_indexSelection_scan (h.2 table columns rfl)
    · rw [indexSelection_filter fun table columns hchild => hscan ⟨table, columns, hchild⟩,
        LogicalNode.opened, columns_indexSelection]
      exact (ih h.1).filter predicate child.columns
  | join left right condition ihl ihr =>
    rw [indexSelection, LogicalNode.opened, columns_indexSelection, columns_indexSelection]
    exact (ihl h.1).join (ihr h.2) condition _
  | project child exprs ih =>
    rw [indexSelection, LogicalNode.opened, LogicalNode.opened, columns_indexSelection]
    split_ifs with hstar
    · exact ih h
    · exact (ih h).project exprs child.columns
  | aggregate child groupBy aggs ih =>
    rw [indexSelection, LogicalNode.opened, columns_indexSelection]
    exact (ih h).aggregate groupBy aggs child.columns
  | sort child orderBy ih =>
    rw [indexSelection, LogicalNode.opened, columns_indexSelection]
    exact (ih h).sort orderBy child.columns
  | limit child n ih => exact (ih h).limit n

/-! ### The result -/

/-- The pass keeps the rows of a filter over a scan if and only if an index
does not replace it or no row is on a strict bound; and of a plan, if that
is so for all its filters over scans. -/
theorem result_indexSelection {catalog : Catalog} (tables : Contents catalog) :
    (∀ table columns predicate,
      (indexSelection catalog (.filter (.scan table columns) predicate)).result tables =
          (LogicalNode.filter (.scan table columns) predicate).result tables ↔
        (Indexed catalog table predicate → ¬ OnBound tables table columns predicate)) ∧
    ∀ node, BoundsFree tables node →
      (indexSelection catalog node).result tables = node.result tables := by
  refine ⟨fun table columns predicate => ⟨fun h hindexed hbound => ?_, fun h => ?_⟩,
    fun node h => Similar.result (similar_indexSelection h)⟩
  · exact result_of_onBound hindexed hbound h
  · exact Similar.result (similar_indexSelection_scan h)

/-- `CREATE TABLE t (id INT PRIMARY KEY, age INT)` and `CREATE INDEX i ON t (age)`. -/
def agesIndexed : Catalog :=
  (((World.new plainEnv).step 1 (.createTableStmt
    { table := ascii "t", columns := [idColumn, intColumn "age"] })).step 2 (.createIndexStmt
    { index := ascii "i", table := ascii "t", column := ascii "age" })).db.catalog

/-- The rows `(1, 18)` and `(2, 30)`. -/
def twoAges : Contents agesIndexed where
  rows table :=
    if table = ascii "t" then
      [[{ intVal := 1 }, { intVal := 18 }], [{ intVal := 2 }, { intVal := 30 }]]
    else []
  parallel table row hrow := by
    split_ifs at hrow with htable
    · have hcolumns : (tableColumns agesIndexed (ascii "t")).length = 2 := by decide +kernel
      rw [htable, hcolumns]
      simp only [List.mem_cons, List.not_mem_nil, or_false] at hrow
      obtain rfl | rfl := hrow <;> rfl
    · cases hrow

/-- `age > digits`, over the table. -/
def olderThan (digits : String) : LogicalNode :=
  .filter (.scan (ascii "t") (tableColumns agesIndexed (ascii "t")))
    (.binaryExpr (.columnRef [] (ascii "age")) .gt (integer digits))

/-- The index scan of `age > 18` has the row with the age 18. -/
theorem result_indexSelection_strict :
    (olderThan "18").result twoAges = some ↑[[({ intVal := 2 } : Value), { intVal := 30 }]] ∧
      (indexSelection agesIndexed (olderThan "18")).result twoAges =
        some ↑[[({ intVal := 1 } : Value), { intVal := 18 }],
          [{ intVal := 2 }, { intVal := 30 }]] := by
  decide +kernel

/-- No age is 20. -/
theorem result_indexSelection_between :
    (indexSelection agesIndexed (olderThan "20")).result twoAges =
      (olderThan "20").result twoAges := by
  refine (result_indexSelection twoAges).2 _ ⟨trivial, ?_⟩
  rintro _ _ hscan - ⟨column, op, kind, value, -, hpredicate, row, hrow, htrue⟩
  cases hscan
  cases hpredicate
  have hnone : ∀ row ∈ twoAges.scanned (ascii "t") (tableColumns agesIndexed (ascii "t")),
      ¬ Sql.isTrue (compared (ascii "age") .eq .integer (ascii "20"))
        (tableColumns agesIndexed (ascii "t")) row := by
    decide +kernel
  exact hnone row hrow htrue

end MySQLight.Planner
